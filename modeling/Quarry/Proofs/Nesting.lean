import Quarry.Proofs.QuotedText
import Quarry.Proofs.Scanning
import Quarry.Text.Nesting

/-!
# Nesting — texts that a cutter goes over

`Passes sep inside s` says that cutting at `sep` goes over `s` without a cut and leaves the open
quotes and brackets as they were; `inside` allows separators, since there are brackets around `s`
in which they do not count.  Such texts can be put together (`Passes.append`), and brackets around
one make another (`Passes.brackets`), as do quotes around a `QuotedRun` (`Passes.quotes`): so a
quoted text is one whatever it quotes (`passes_quoted`).

A text of this kind as a whole has one part and is balanced.
-/

namespace Quarry.Text

/-- The cutter after a text that it takes into the current part. -/
def Cutter.over (k : Cutter) (s : List Char) : Cutter :=
  { k with offset := k.offset + s.length, part := s.reverse ++ k.part }

/-- A cutter goes over one text after the other. -/
theorem Cutter.over_append (k : Cutter) (s t : List Char) :
    (k.over s).over t = k.over (s ++ t) := by
  simp only [Cutter.over, List.length_append, List.reverse_append, List.append_assoc, Nat.add_assoc]

theorem Cutter.over_cons (k : Cutter) (c : Char) (s : List Char) :
    k.over (c :: s) = (k.over [c]).over s :=
  (over_append k [c] s).symm

theorem Cutter.take_eq_over (k : Cutter) (c : Char) : k.take c = k.over [c] := rfl

/-- Cutting at `sep` goes over the text and changes nothing but the current part. -/
def Passes (sep : Char) (inside : Bool) (s : List Char) : Prop :=
  ∀ (text : List Char) (k : Cutter) (t : List Char), k.quote = none → k.skip = 0 →
    (inside = true → k.stack ≠ []) →
      cutFrom text [sep] k (s ++ t) = cutFrom text [sep] (k.over s) t

/-- A character that has no part in nesting. -/
def isPlain (c : Char) : Bool :=
  !isQuote c && (closerOf? c).isNone && (openerOf? c).isNone

section Passes

variable {sep : Char} {inside : Bool}

theorem passes_nil : Passes sep inside [] := by
  intro text k t _ _ _
  cases k
  simp [Cutter.over]

/-- Texts that are passed over can be put together, -/
theorem Passes.append {s t : List Char} (hs : Passes sep inside s) (ht : Passes sep inside t) :
    Passes sep inside (s ++ t) := by
  intro text k u hquote hskip hstack
  rw [List.append_assoc, hs text k _ hquote hskip hstack, ht text (k.over s) u hquote hskip hstack,
    Cutter.over_append]

/-- a plain character is one, if it is not the separator outside brackets, -/
theorem passes_plain {c : Char} (hc : isPlain c = true) (hsep : inside = true ∨ c ≠ sep) :
    Passes sep inside [c] := by
  intro text k t hquote hskip hstack
  simp only [isPlain, Bool.and_eq_true, Bool.not_eq_true', Option.isNone_iff_eq_none] at hc
  obtain ⟨⟨hc, hcloser⟩, hopener⟩ := hc
  have hcut : (k.stack.isEmpty && [sep].isPrefixOf (c :: t)) = false := by
    rcases hsep with hinside | hne
    · rw [List.isEmpty_eq_false_iff.mpr (hstack hinside), Bool.false_and]
    · rw [List.isPrefixOf, beq_eq_false_iff_ne.mpr (Ne.symm hne), Bool.false_and, Bool.and_false]
  rw [List.singleton_append, cutFrom.eq_def]
  simp only [hskip, hquote, hc, hcloser, hopener, hcut, Bool.false_eq_true, ↓reduceIte,
    Option.isSome_none, Cutter.take_eq_over]

/-- and so are several. -/
theorem passes_of_forall {s : List Char}
    (h : ∀ c ∈ s, isPlain c = true ∧ (inside = true ∨ c ≠ sep)) : Passes sep inside s := by
  induction s with
  | nil => exact passes_nil
  | cons c s ih =>
      obtain ⟨hc, hsep⟩ := h c List.mem_cons_self
      exact (passes_plain hc hsep).append (ih fun d hd => h d (List.mem_cons_of_mem c hd))

/-- Brackets around a text hide its separators. -/
theorem Passes.brackets {s : List Char} {opener closer : Char} (h : Passes sep true s)
    (hopener : isQuote opener = false ∧ (closerOf? opener).isSome = true)
    (hcloser : isQuote closer = false ∧ closerOf? closer = none ∧ openerOf? closer = some opener) :
    Passes sep inside (opener :: s ++ [closer]) := by
  intro text k t hquote hskip _
  let k₁ : Cutter := { k.over [opener] with stack := opener :: k.stack }
  calc cutFrom text [sep] k (opener :: s ++ [closer] ++ t)
      = cutFrom text [sep] k₁ (s ++ closer :: t) := by
        rw [List.append_assoc, List.cons_append, cutFrom.eq_def]
        simp only [hskip, hquote, hopener, Bool.false_eq_true, ↓reduceIte]
        rfl
    _ = cutFrom text [sep] (k₁.over s) (closer :: t) :=
        h text k₁ _ hquote hskip fun _ => List.cons_ne_nil _ _
    _ = cutFrom text [sep] { (k₁.over s).over [closer] with stack := k.stack } t := by
        have hquote₁ : (k₁.over s).quote = none := hquote
        have hskip₁ : (k₁.over s).skip = 0 := hskip
        have hstack₁ : (k₁.over s).stack = opener :: k.stack := rfl
        rw [cutFrom.eq_def]
        simp only [hskip₁, hquote₁, hstack₁, hcloser, Bool.false_eq_true, ↓reduceIte,
          Option.isSome_none]
        rfl
    _ = cutFrom text [sep] (k.over (opener :: s ++ [closer])) t := by
        rw [← Cutter.over_append, k.over_cons opener]
        rfl

end Passes

/-! ### Quoted texts -/

/-- What can stand between two quotes `q`: a backslash with the character it protects, and any
character but the quote and the backslash. -/
inductive QuotedRun (q : Char) : List Char → Prop where
  | nil : QuotedRun q []
  | escape (c : Char) {s : List Char} (h : QuotedRun q s) : QuotedRun q ('\\' :: c :: s)
  | char {c : Char} {s : List Char} (hc : c ≠ q ∧ c ≠ '\\') (h : QuotedRun q s) :
      QuotedRun q (c :: s)

/-- Runs inside quotes can be put together as well. -/
theorem QuotedRun.append {q : Char} {s t : List Char} (hs : QuotedRun q s) (ht : QuotedRun q t) :
    QuotedRun q (s ++ t) := by
  induction hs with
  | nil => exact ht
  | escape c _ ih => exact .escape c ih
  | char hc _ ih => exact .char hc ih

/-- Inside quotes the cutter goes over what can stand there. -/
theorem QuotedRun.cutFrom_eq {text sep : List Char} {k : Cutter} {q : Char} {s : List Char}
    (h : QuotedRun q s) (t : List Char) (hquote : k.quote = some q) (hskip : k.skip = 0) :
    cutFrom text sep k (s ++ t) = cutFrom text sep (k.over s) t := by
  induction h generalizing k with
  | nil =>
      cases k
      simp [Cutter.over]
  | @escape c s _ ih =>
      have hrest : cutFrom text sep (k.over ['\\', c]) (s ++ t) = _ := ih hquote hskip
      rw [List.cons_append, List.cons_append, cutFrom.eq_def]
      simp only [hquote, hskip, ↓reduceIte]
      exact hrest.trans (by rw [Cutter.over_append]; rfl)
  | @char c s hc _ ih =>
      have hrest : cutFrom text sep (k.over [c]) (s ++ t) = _ := ih hquote hskip
      rw [List.cons_append, cutFrom.eq_def]
      simp only [hquote, hskip, hc, ↓reduceIte]
      rw [← hquote]
      exact hrest.trans (by rw [Cutter.over_append]; rfl)

/-- **Quotes** hide everything in them. -/
theorem Passes.quotes {sep : Char} {inside : Bool} {q : Char} {s : List Char}
    (hq : isQuote q = true) (hs : QuotedRun q s) : Passes sep inside (q :: s ++ [q]) := by
  intro text k t hquote hskip _
  let k₁ : Cutter := { k.over [q] with quote := some q }
  have hslash : q ≠ '\\' := by
    rintro rfl
    cases hq
  calc cutFrom text [sep] k (q :: s ++ [q] ++ t)
      = cutFrom text [sep] k₁ (s ++ q :: t) := by
        rw [List.append_assoc, List.cons_append, cutFrom.eq_def]
        simp only [hskip, hquote, hq, ↓reduceIte]
        rfl
    _ = cutFrom text [sep] (k₁.over s) (q :: t) := hs.cutFrom_eq _ rfl hskip
    _ = cutFrom text [sep] { (k₁.over s).over [q] with quote := none } t := by
        have hquote₁ : (k₁.over s).quote = some q := rfl
        have hskip₁ : (k₁.over s).skip = 0 := hskip
        rw [cutFrom.eq_def]
        simp only [hskip₁, hquote₁, if_neg hslash, ↓reduceIte]
        rfl
    _ = cutFrom text [sep] (k.over (q :: s ++ [q])) t := by
        rw [← Cutter.over_append, k.over_cons q]
        simp only [Cutter.over, hquote, k₁]

/-- A hexadecimal digit is neither a quote nor a backslash, -/
theorem hexDigit_ne : ∀ n < 16, hexDigit n ≠ '"' ∧ hexDigit n ≠ '\\' := by
  decide

/-- The written form of a character inside quotes does not close them. -/
theorem quotedRun_encodeChar (c : Char) : QuotedRun '"' (encodeChar c) := by
  rw [encodeChar]
  cases he : shortEscape? c with
  | some e => exact .escape e .nil
  | none =>
      simp only
      split
      · -- the digits of a numbered escape come one by one
        have hdigit : ∀ m, hexDigit (m % 16) ≠ '"' ∧ hexDigit (m % 16) ≠ '\\' := fun m =>
          hexDigit_ne _ (Nat.mod_lt _ (by decide))
        rw [unicodeEscape, hex_four]
        exact .escape 'u' (.char (hdigit _) (.char (hdigit _) (.char (hdigit _)
          (.char (hdigit _) .nil))))
      · exact .char (ne_of_shortEscape?_eq_none he) .nil

/-- so an escaped text never ends its quotes. -/
theorem quotedRun_encode (s : List Char) : QuotedRun '"' (encode s) := by
  induction s with
  | nil => exact .nil
  | cons c s ih =>
      rw [encode_cons]
      exact (quotedRun_encodeChar c).append ih

/-- **Quoted text** hides everything in it. -/
theorem passes_quoted (sep : Char) (inside : Bool) (s : List Char) :
    Passes sep inside (quoted s) :=
  .quotes (by decide) (quotedRun_encode s)

/-! ### Whole texts -/

/-- A text that the cutter goes over has one part. -/
theorem Passes.cutFrom_eq {sep : Char} {s : List Char} (h : Passes sep false s)
    (text : List Char) : cutFrom text [sep] {} s = .ok [s] := by
  have := h text {} [] rfl rfl nofun
  rw [List.append_nil] at this
  rw [this, cutFrom]
  simp [Cutter.over]

/-- A text that is passed over without brackets around it is one part, -/
theorem Passes.cutOutside_eq {sep : Char} {s : List Char} (h : Passes sep false s) :
    cutOutside [sep] s = .ok [s] := by
  rw [cutOutside, h.cutFrom_eq]
  rfl

/-- and it is balanced. -/
theorem Passes.isBalanced {s : List Char} (h : Passes ',' false s) : isBalanced s = true := by
  rw [Text.isBalanced, h.cutFrom_eq]

/-- The argument of a call is what stands between its brackets, if that is balanced. -/
theorem callArgument?_call (name s : List Char) :
    callArgument? name (name ++ ['('] ++ (s ++ [')'])) =
      if isBalanced s then some s else none := by
  have hfound : (name ++ ['(']).isPrefixOf? (name ++ ['('] ++ (s ++ [')'])) = some (s ++ [')']) :=
    List.isPrefixOf?_eq_some_iff_append_eq.mpr rfl
  rw [callArgument?, hfound]
  simp

/-- A call with a balanced argument. -/
theorem callArgument?_of_isBalanced {s : List Char} (name : List Char) (h : isBalanced s = true) :
    callArgument? name (name ++ ['('] ++ (s ++ [')'])) = some s := by
  rw [callArgument?_call, if_pos h]

end Quarry.Text
