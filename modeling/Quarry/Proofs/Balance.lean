import Quarry.Proofs.Pipelines

/-!
# Balance — the texts that can be cut

`Balanced` is the grammar of the texts in which quotes close and brackets balance, and `Undivided`
that of the ones without a separator outside quotes and brackets.  A balanced text is made of
undivided parts with separators between them (`Balanced.exists_parts`), and such parts are what it
is cut into (`cutOutside_intercalate`).

The other direction is about a cutter in the middle of a text: if it comes to the end with success,
then what is left closes the quotes and brackets that are open, the innermost first (`Closes`).  At
the beginning of a text nothing is open, so the text is balanced (`balanced_of_cutFrom`).
-/

namespace Quarry.Text

/-! ### The grammar -/

/-- The quotes and brackets. -/
def marks : List Char :=
  ['"', '\x27', '(', ')', '[', ']', '\x7b', '\x7d']

/-- Each bracket with the one that closes it. -/
def bracketPairs : List (Char × Char) :=
  [('(', ')'), ('[', ']'), ('\x7b', '\x7d')]

/-- Quotes close and brackets balance. -/
inductive Balanced : List Char → Prop where
  | nil : Balanced []
  | char {c : Char} {s : List Char} (hc : c ∉ marks) (hs : Balanced s) : Balanced (c :: s)
  | brackets {opener closer : Char} {s t : List Char} (hpair : (opener, closer) ∈ bracketPairs)
      (hs : Balanced s) (ht : Balanced t) : Balanced (opener :: s ++ [closer] ++ t)
  | quotes {q : Char} {s t : List Char} (hq : q = '"' ∨ q = '\x27') (hs : QuotedRun q s)
      (ht : Balanced t) : Balanced (q :: s ++ [q] ++ t)

/-- Quotes close, brackets balance, and no separator stands outside both. -/
inductive Undivided (sep : Char) : List Char → Prop where
  | nil : Undivided sep []
  | char {c : Char} {s : List Char} (hc : c ∉ marks) (hsep : c ≠ sep) (hs : Undivided sep s) :
      Undivided sep (c :: s)
  | brackets {opener closer : Char} {s t : List Char} (hpair : (opener, closer) ∈ bracketPairs)
      (hs : Balanced s) (ht : Undivided sep t) : Undivided sep (opener :: s ++ [closer] ++ t)
  | quotes {q : Char} {s t : List Char} (hq : q = '"' ∨ q = '\x27') (hs : QuotedRun q s)
      (ht : Undivided sep t) : Undivided sep (q :: s ++ [q] ++ t)

variable {sep c : Char} {s t text : List Char} {parts : List (List Char)}

theorem Undivided.balanced (h : Undivided sep s) : Balanced s := by
  induction h with
  | nil => exact .nil
  | char hc _ _ ih => exact .char hc ih
  | brackets hpair hs _ ih => exact .brackets hpair hs ih
  | quotes hq hs _ ih => exact .quotes hq hs ih

theorem Balanced.append (hs : Balanced s) (ht : Balanced t) : Balanced (s ++ t) := by
  induction hs with
  | nil => exact ht
  | char hc _ ih => exact .char hc ih
  | brackets hpair hs _ _ ih =>
      rw [List.append_assoc]
      exact .brackets hpair hs ih
  | quotes hq hs _ ih =>
      rw [List.append_assoc]
      exact .quotes hq hs ih

/-! ### The kinds of characters -/

theorem isQuote_iff : isQuote c = true ↔ c = '"' ∨ c = '\x27' := by
  simp [isQuote]

theorem openerOf?_eq_some_iff {d : Char} : openerOf? d = some c ↔ (c, d) ∈ bracketPairs := by
  rw [openerOf?]
  split_ifs <;> simp_all [bracketPairs, eq_comm]

theorem isPlain_iff : isPlain c = true ↔ c ∉ marks := by
  have hmarks : ∀ c ∈ marks, isPlain c = false := by
    simp [marks, isPlain, isQuote, closerOf?, openerOf?]
  constructor
  · intro hplain hmem
    rw [hmarks c hmem] at hplain
    cases hplain
  · intro hnotMem
    simp only [marks, List.mem_cons, List.not_mem_nil, or_false, not_or] at hnotMem
    simp [isPlain, isQuote, closerOf?, openerOf?, hnotMem]

/-- A bracket is no quote, and it does not both open and close. -/
theorem bracketPairs_facts : ∀ pair ∈ bracketPairs,
    (isQuote pair.1 = false ∧ (closerOf? pair.1).isSome = true) ∧
      isQuote pair.2 = false ∧ closerOf? pair.2 = none ∧ openerOf? pair.2 = some pair.1 := by
  decide

/-! ### Cutting a balanced text -/

theorem Balanced.passes (h : Balanced s) : Passes sep true s := by
  induction h with
  | nil => exact passes_nil
  | char hc _ ih => exact (passes_plain (isPlain_iff.mpr hc) (.inl rfl)).append ih
  | brackets hpair _ _ ihs iht =>
      obtain ⟨hopener, hcloser⟩ := bracketPairs_facts _ hpair
      exact (ihs.brackets hopener hcloser).append iht
  | quotes hq hs _ ih => exact (Passes.quotes (isQuote_iff.mpr hq) hs).append ih

theorem Undivided.passes (h : Undivided sep s) : Passes sep false s := by
  induction h with
  | nil => exact passes_nil
  | char hc hsep _ ih => exact (passes_plain (isPlain_iff.mpr hc) (.inr hsep)).append ih
  | brackets hpair hs _ ih =>
      obtain ⟨hopener, hcloser⟩ := bracketPairs_facts _ hpair
      exact (hs.passes.brackets hopener hcloser).append ih
  | quotes hq hs _ ih => exact (Passes.quotes (isQuote_iff.mpr hq) hs).append ih

/-- **Undivided parts** with separators between them are what the text is cut into. -/
theorem cutOutside_intercalate (hsep : sep ∉ marks) {part : List Char}
    (h : ∀ p ∈ part :: parts, Undivided sep p) :
    cutOutside [sep] ([sep].intercalate (part :: parts)) = .ok (part :: parts) := by
  induction parts generalizing part with
  | nil =>
      rw [List.intercalate_singleton]
      exact (h part List.mem_cons_self).passes.cutOutside_eq
  | cons next parts ih =>
      obtain ⟨hpart, hrest⟩ := List.forall_mem_cons.mp h
      rw [List.intercalate_cons_cons, List.append_assoc, List.singleton_append]
      exact cutOutside_append (isPlain_iff.mpr hsep) hpart.passes.cutOutside_eq (ih hrest)

theorem undivided_of_forall (h : ∀ c ∈ s, c ∉ marks ∧ c ≠ sep) : Undivided sep s := by
  induction s with
  | nil => exact .nil
  | cons c s ih =>
      obtain ⟨hc, hs⟩ := List.forall_mem_cons.mp h
      exact .char hc.1 hc.2 (ih hs)

/-- **Without quotes and brackets** every separator counts. -/
theorem cutOutside_of_unmarked (hsep : sep ∉ marks) (h : ∀ c ∈ text, c ∉ marks) :
    cutOutside [sep] text = .ok (cutAll sep text) := by
  obtain ⟨part, parts, hparts⟩ := List.exists_cons_of_ne_nil (List.splitOn_ne_nil sep text)
  have hundivided : ∀ p ∈ part :: parts, Undivided sep p := fun p hp =>
    undivided_of_forall (forall_mem_splitOn (fun c hc hne => ⟨h c hc, hne⟩) p (hparts ▸ hp))
  have hcut := cutOutside_intercalate hsep hundivided
  rwa [← hparts, List.intercalate_splitOn, ← cutAll_eq_splitOn] at hcut

/-- What stands in front of joined parts stands in front of the first. -/
theorem intercalate_append_cons (front part : List Char) :
    [sep].intercalate ((front ++ part) :: parts) = front ++ [sep].intercalate (part :: parts) := by
  cases parts with
  | nil => rw [List.intercalate_singleton, List.intercalate_singleton]
  | cons next parts => simp only [List.intercalate_cons_cons, List.append_assoc]

/-- **A balanced text** consists of undivided parts with separators between them. -/
theorem Balanced.exists_parts (sep : Char) (h : Balanced text) :
    ∃ part parts, [sep].intercalate (part :: parts) = text ∧
      ∀ p ∈ part :: parts, Undivided sep p := by
  induction h with
  | nil => exact ⟨[], [], List.intercalate_singleton, by simpa using .nil⟩
  | @char c s hc _ ih =>
      obtain ⟨part, parts, rfl, hall⟩ := ih
      obtain ⟨hpart, hrest⟩ := List.forall_mem_cons.mp hall
      by_cases hsep : c = sep
      · -- the separator opens a new part
        refine ⟨[], part :: parts, ?_, List.forall_mem_cons.mpr ⟨.nil, hall⟩⟩
        rw [List.intercalate_cons_cons, hsep, List.nil_append, List.singleton_append]
      · refine ⟨c :: part, parts, intercalate_append_cons [c] part, ?_⟩
        exact List.forall_mem_cons.mpr ⟨.char hc hsep hpart, hrest⟩
  | brackets hpair hs _ _ ih =>
      obtain ⟨part, parts, rfl, hall⟩ := ih
      obtain ⟨hpart, hrest⟩ := List.forall_mem_cons.mp hall
      refine ⟨_, parts, intercalate_append_cons _ part, ?_⟩
      exact List.forall_mem_cons.mpr ⟨.brackets hpair hs hpart, hrest⟩
  | quotes hq hs _ ih =>
      obtain ⟨part, parts, rfl, hall⟩ := ih
      obtain ⟨hpart, hrest⟩ := List.forall_mem_cons.mp hall
      refine ⟨_, parts, intercalate_append_cons _ part, ?_⟩
      exact List.forall_mem_cons.mpr ⟨.quotes hq hs hpart, hrest⟩

/-! ### A text that was cut -/

/-- The text closes these open brackets, the first one first, and is balanced otherwise. -/
def Closes : List Char → List Char → Prop
  | [], s => Balanced s
  | opener :: stack, s => ∃ inner closer rest, s = inner ++ closer :: rest ∧
      (opener, closer) ∈ bracketPairs ∧ Balanced inner ∧ Closes stack rest

/-- The text closes the quotes that are open, if there are any, and then the brackets. -/
def ClosesAll : Option Char → List Char → List Char → Prop
  | none, stack, s => Closes stack s
  | some q, stack, s => ∃ run rest, s = run ++ q :: rest ∧ QuotedRun q run ∧ Closes stack rest

theorem Closes.append {stack : List Char} (hs : Balanced s) (ht : Closes stack t) :
    Closes stack (s ++ t) := by
  cases stack with
  | nil => exact hs.append ht
  | cons opener stack =>
      obtain ⟨inner, closer, rest, rfl, hpair, hinner, hrest⟩ := ht
      exact ⟨s ++ inner, closer, rest, by rw [List.append_assoc], hpair, hs.append hinner, hrest⟩

/-- **A step of the cutter**: what is closed after it is closed before it, with the characters it
goes over in front. -/
theorem ClosesAll.of_turns {quote quote' : Option Char} {stack stack' front : List Char}
    (hturns : Turns quote stack front quote' stack') (h : ClosesAll quote' stack' s) :
    ClosesAll quote stack (front ++ s) := by
  cases hturns with
  | escape q stack d =>
      obtain ⟨run, rest, rfl, hrun, hrest⟩ := h
      exact ⟨'\\' :: d :: run, rest, rfl, .escape d hrun, hrest⟩
  | quoted stack hc =>
      obtain ⟨run, rest, rfl, hrun, hrest⟩ := h
      exact ⟨_ :: run, rest, rfl, .char hc hrun, hrest⟩
  | unquote q stack => exact ⟨[], s, rfl, .nil, h⟩
  | quote stack hc =>
      obtain ⟨run, rest, rfl, hrun, hrest⟩ := h
      have hgroup := Closes.append (.quotes (isQuote_iff.mp hc) hrun .nil) hrest
      rwa [List.append_nil, List.append_assoc, List.cons_append] at hgroup
  | opener stack hc =>
      obtain ⟨inner, closer, rest, rfl, hpair, hinner, hrest⟩ := h
      have hgroup := Closes.append (.brackets hpair hinner .nil) hrest
      rwa [List.append_nil, List.append_assoc, List.cons_append] at hgroup
  | closer stack hc => exact ⟨[], _, s, rfl, openerOf?_eq_some_iff.mp hc, .nil, h⟩
  | plain stack hc => exact Closes.append (.char (isPlain_iff.mp hc) .nil) h

/-- **Cutting with success** closes what is open. -/
theorem closesAll_of_cutFrom {k : Cutter} (hskip : k.skip = 0)
    (h : cutFrom text [sep] k s = .ok parts) : ClosesAll k.quote k.stack s := by
  induction hn : s.length using Nat.strong_induction_on generalizing k s parts with
  | _ n ih =>
      subst hn
      cases s with
      | nil =>
          rw [cutFrom] at h
          split at h
          · cases h
          · cases h
          · rename_i hquote hstack
            rw [hquote, hstack]
            exact Balanced.nil
      | cons c s =>
          rcases cutFrom_cons_ok hskip h with
            ⟨front, rest, k', heq, hfront, hskip', hturns, -, hrest⟩ |
            ⟨hturns, -, parts, offset, -, hrest⟩
          · have hpos := List.length_pos_iff.mpr hfront
            rw [heq, List.length_append] at ih
            rw [heq]
            exact .of_turns hturns (ih rest.length (by omega) hskip' hrest rfl)
          · -- behind a separator the cutter stands as at the beginning
            have hclosed := ih s.length (Nat.lt_succ_self _) (k := { offset }) rfl hrest rfl
            exact .of_turns hturns hclosed

theorem balanced_of_cutFrom (h : cutFrom text [sep] {} s = .ok parts) : Balanced s :=
  closesAll_of_cutFrom (k := {}) rfl h

/-! ### Texts and their parts -/

/-- **The parts of a text** are those that it consists of, with separators between them. -/
theorem cutOutside_eq_ok_iff (hsep : sep ∉ marks) : cutOutside [sep] text = .ok parts ↔
    parts ≠ [] ∧ [sep].intercalate parts = text ∧ ∀ part ∈ parts, Undivided sep part := by
  constructor
  · intro h
    have hbalanced := balanced_of_cutFrom (cutOutside_ok.mp h)
    obtain ⟨part, parts', hjoin, hall⟩ := hbalanced.exists_parts sep
    have hcut := cutOutside_intercalate hsep hall
    rw [hjoin, h] at hcut
    cases hcut
    exact ⟨List.cons_ne_nil _ _, hjoin, hall⟩
  · rintro ⟨hne, rfl, hall⟩
    obtain ⟨part, parts, rfl⟩ := List.exists_cons_of_ne_nil hne
    exact cutOutside_intercalate hsep hall

theorem isBalanced_iff : isBalanced text = true ↔ Balanced text := by
  constructor
  · intro h
    rw [isBalanced] at h
    split at h
    · rename_i parts hparts
      exact balanced_of_cutFrom hparts
    · cases h
  · intro h
    obtain ⟨part, parts, rfl, hall⟩ := h.exists_parts ','
    rw [isBalanced, cutOutside_ok.mp (cutOutside_intercalate (by decide) hall)]

/-- Cutting fails with a fault of nesting, or not at all. -/
theorem cutOutside_cases (sep : Char) (text : List Char) :
    (∃ parts, cutOutside [sep] text = .ok parts) ∨
      ∃ cause, cutOutside [sep] text = .error (.query (.nesting cause)) := by
  rw [cutOutside]
  cases cutFrom text [sep] {} text with
  | ok parts => exact .inl ⟨parts, rfl⟩
  | error cause => exact .inr ⟨cause, rfl⟩

/-- **Exactly the balanced texts are cut, and nothing is lost.**  At a separator that is no quote or
bracket, a text that is not balanced is refused; a balanced one has parts, and these are balanced
texts without a separator outside quotes and brackets that make up the text, with separators between
them.  The argument of a call is what stands between its brackets, if that is balanced. -/
theorem cutOutside_exact :
    (∀ (sep : Char) (text : List Char), sep ∉ marks →
      ((∃ cause, cutOutside [sep] text = .error (.query (.nesting cause))) ↔ ¬ Balanced text) ∧
      ((∃ parts, cutOutside [sep] text = .ok parts) ↔ Balanced text) ∧
      ∀ parts, cutOutside [sep] text = .ok parts ↔ parts ≠ [] ∧ [sep].intercalate parts = text ∧
        ∀ part ∈ parts, Balanced part ∧ Undivided sep part) ∧
    ∀ name inner : List Char,
      (Balanced inner → callArgument? name (name ++ '(' :: inner ++ [')']) = some inner) ∧
      (¬ Balanced inner → callArgument? name (name ++ '(' :: inner ++ [')']) = none) := by
  constructor
  · intro sep text hsep
    have hok : (∃ parts, cutOutside [sep] text = .ok parts) ↔ Balanced text := by
      refine ⟨fun ⟨parts, h⟩ => balanced_of_cutFrom (cutOutside_ok.mp h), fun h => ?_⟩
      obtain ⟨part, parts, rfl, hall⟩ := h.exists_parts sep
      exact ⟨_, cutOutside_intercalate hsep hall⟩
    refine ⟨?_, hok, fun parts => (cutOutside_eq_ok_iff hsep).trans ?_⟩
    · rw [← hok]
      rcases cutOutside_cases sep text with ⟨parts, h⟩ | ⟨cause, h⟩
      · simp [h]
      · simp [h]
    · exact and_congr_right fun _ => and_congr_right fun _ =>
        forall₂_congr fun part _ => ⟨fun h => ⟨h.balanced, h⟩, And.right⟩
  · intro name inner
    have hcall : callArgument? name (name ++ '(' :: inner ++ [')']) =
        if isBalanced inner then some inner else none := by
      have hfound : (name ++ ['(']).isPrefixOf? (name ++ '(' :: inner ++ [')']) =
          some (inner ++ [')']) := by
        refine List.isPrefixOf?_eq_some_iff_append_eq.mpr ?_
        simp
      rw [callArgument?, hfound]
      simp
    refine ⟨fun h => ?_, fun h => ?_⟩
    · rw [hcall, if_pos (isBalanced_iff.mpr h)]
    · rw [hcall, if_neg (h ∘ isBalanced_iff.mp)]

/-- Commas in brackets, in quotes and after a protected quote; a bracket of the wrong kind; and two
calls, of which the first bracket and the last do not belong together. -/
theorem cutOutside_exact_commas :
    let text := "f(a,b),'x,\\',',c".toList
    let parts := ["f(a,b)".toList, "'x,\\','".toList, "c".toList]
    let apart := "a) + f(b".toList
    ',' ∉ marks ∧ cutOutside [','] text = .ok parts ∧ Balanced text ∧
      [','].intercalate parts = text ∧ (∀ part ∈ parts, Balanced part ∧ Undivided ',' part) ∧
      (∃ cause, cutOutside [','] "(a,]".toList = .error (.query (.nesting cause))) ∧
      Balanced "a, b".toList ∧ callArgument? "f".toList "f(a, b)".toList = some "a, b".toList ∧
      ¬ Balanced apart ∧ callArgument? "f".toList "f(a) + f(b)".toList = none := by
  intro text parts apart
  have hcomma : ',' ∉ marks := by decide
  have hcut : cutOutside [','] text = .ok parts := by decide +kernel
  obtain ⟨-, hok, hparts⟩ := cutOutside_exact.1 ',' text hcomma
  obtain ⟨-, hjoin, hall⟩ := (hparts parts).mp hcut
  have hwrong : ¬ Balanced "(a,]".toList := fun h =>
    absurd (isBalanced_iff.mpr h) (by decide)
  have hinner : Balanced "a, b".toList := isBalanced_iff.mp (by decide)
  have hapart : ¬ Balanced apart := fun h => absurd (isBalanced_iff.mpr h) (by decide)
  exact ⟨hcomma, hcut, hok.mp ⟨parts, hcut⟩, hjoin, hall,
    (cutOutside_exact.1 ',' _ hcomma).1.mpr hwrong, hinner,
    (cutOutside_exact.2 "f".toList _).1 hinner, hapart,
    (cutOutside_exact.2 "f".toList apart).2 hapart⟩

end Quarry.Text
