import Quarry.Proofs.Filters
import Quarry.Proofs.Nesting

/-!
# Pipelines — filters one after another

A bar between two filter texts makes one text, and its chain is the chain of the first followed by
that of the second (`Filter.read_bar`).

A cutter that went through a text with success has no open quote or bracket at its end.  So it
stands there as at the beginning of a text, but for the part it is in (`Text.Leaves`), and a bar
right after it separates whatever comes before from whatever comes next.
-/

namespace Quarry

/-! ### Cutting at a seam -/

namespace Text

/-- From one cutter to another over `front`, whatever comes after it. -/
def Moves (sep : Char) (k : Cutter) (front : List Char) (k' : Cutter) : Prop :=
  ∀ text offset t, cutFrom text [sep] { k with offset } (front ++ t) =
    cutFrom text [sep] { k' with offset := offset + front.length } t

/-- A separator that ends a part. -/
def Cuts (sep : Char) (k : Cutter) (c : Char) : Prop :=
  ∀ text offset t, cutFrom text [sep] { k with offset } (c :: t) =
    (cutFrom text [sep] { offset := offset + 1 } t).map (k.part.reverse :: ·)

/-- A bracket that closes none. -/
def Fails (sep : Char) (k : Cutter) (c : Char) : Prop :=
  ∀ text offset t, ∃ cause, cutFrom text [sep] { k with offset } (c :: t) = .error cause

/-- What a step over the characters makes of the open quote and the open brackets. -/
inductive Turns : Option Char → List Char → List Char → Option Char → List Char → Prop where
  | escape (q : Char) (stack : List Char) (d : Char) :
      Turns (some q) stack ['\\', d] (some q) stack
  | quoted {q c : Char} (stack : List Char) (hc : c ≠ q ∧ c ≠ '\\') :
      Turns (some q) stack [c] (some q) stack
  | unquote (q : Char) (stack : List Char) : Turns (some q) stack [q] none stack
  | quote {c : Char} (stack : List Char) (hc : isQuote c = true) :
      Turns none stack [c] (some c) stack
  | opener {c : Char} (stack : List Char) (hc : (closerOf? c).isSome = true) :
      Turns none stack [c] none (c :: stack)
  | closer {c top : Char} (stack : List Char) (hc : openerOf? c = some top) :
      Turns none (top :: stack) [c] none stack
  | plain {c : Char} (stack : List Char) (hc : isPlain c = true) : Turns none stack [c] none stack

variable {sep : Char} {k k' : Cutter}

/-- Inside quotes a backslash takes the next character with it. -/
theorem moves_protected (hskip : k.skip = 0) {q : Char} (hquote : k.quote = some q) (d : Char) :
    Moves sep k ['\\', d] ((k.take '\\').take d) := by
  obtain ⟨_, quote, stack, skip, part⟩ := k
  cases hskip
  cases hquote
  intro text offset t
  rw [List.cons_append, cutFrom.eq_def]
  simp only [↓reduceIte]
  rfl

/-- **One character** is taken into the part, or ends it, or closes a bracket that is not open. -/
theorem cutFrom_cases (sep : Char) (hskip : k.skip = 0) {c : Char}
    (hc : k.quote = none ∨ c ≠ '\\') :
    (∃ k', k'.skip = 0 ∧ Turns k.quote k.stack [c] k'.quote k'.stack ∧ Moves sep k [c] k') ∨
      (Turns k.quote k.stack [c] none [] ∧ Cuts sep k c) ∨ Fails sep k c := by
  obtain ⟨_, quote, stack, skip, part⟩ := k
  cases hskip
  cases quote with
  | some q =>
      -- inside quotes only the closing one counts
      have hc : c ≠ '\\' := hc.resolve_left nofun
      have hturns : Turns (some q) stack [c] (if c = q then none else some q) stack := by
        by_cases hq : c = q
        · rw [if_pos hq, hq]
          exact .unquote q stack
        · rw [if_neg hq]
          exact .quoted stack ⟨hq, hc⟩
      refine .inl ⟨⟨0, if c = q then none else some q, stack, 0, c :: part⟩, rfl, hturns, ?_⟩
      intro text offset t
      rw [List.singleton_append, cutFrom.eq_def]
      simp only [if_neg hc]
      rfl
  | none =>
      by_cases hquote : isQuote c = true
      · refine .inl ⟨⟨0, some c, stack, 0, c :: part⟩, rfl, .quote stack hquote,
          fun text offset t => ?_⟩
        rw [List.singleton_append, cutFrom.eq_def]
        simp only [if_pos hquote]
        rfl
      by_cases hcloser : (closerOf? c).isSome = true
      · refine .inl ⟨⟨0, none, c :: stack, 0, c :: part⟩, rfl, .opener stack hcloser,
          fun text offset t => ?_⟩
        rw [List.singleton_append, cutFrom.eq_def]
        simp only [if_neg hquote, if_pos hcloser]
        rfl
      cases hopener : openerOf? c with
      | some opener =>
          cases stack with
          | nil =>
              refine .inr (.inr fun text offset t => ⟨.unbalanced c offset, ?_⟩)
              rw [cutFrom.eq_def]
              simp only [if_neg hquote, if_neg hcloser, hopener]
          | cons top stack =>
              by_cases htop : top = opener
              · refine .inl ⟨⟨0, none, stack, 0, c :: part⟩, rfl, .closer stack (htop ▸ hopener),
                  fun text offset t => ?_⟩
                rw [List.singleton_append, cutFrom.eq_def]
                simp only [if_neg hquote, if_neg hcloser, hopener, if_pos htop]
                rfl
              · refine .inr (.inr fun text offset t => ⟨.unbalanced c offset, ?_⟩)
                rw [cutFrom.eq_def]
                simp only [if_neg hquote, if_neg hcloser, hopener, if_neg htop]
      | none =>
          -- a plain character cuts if it is the separator and no bracket is open
          have hplain : isPlain c = true := by
            simp [isPlain, hquote, Option.not_isSome_iff_eq_none.mp hcloser, hopener]
          have hfront : ∀ t, [sep].isPrefixOf (c :: t) = (sep == c) := fun t => by
            rw [List.isPrefixOf, List.isPrefixOf, Bool.and_true]
          by_cases hcut : (stack.isEmpty && sep == c) = true
          · obtain rfl := List.isEmpty_iff.mp (Bool.and_eq_true_iff.mp hcut).1
            refine .inr (.inl ⟨.plain [] hplain, fun text offset t => ?_⟩)
            rw [cutFrom.eq_def]
            simp only [if_neg hquote, if_neg hcloser, hopener, hfront, if_pos hcut]
            rfl
          · refine .inl ⟨⟨0, none, stack, 0, c :: part⟩, rfl, .plain stack hplain,
              fun text offset t => ?_⟩
            rw [List.singleton_append, cutFrom.eq_def]
            simp only [if_neg hquote, if_neg hcloser, hopener, hfront, if_neg hcut]
            rfl

/-- **A step with success** moves over one character or two, or ends a part. -/
theorem cutFrom_cons_ok {text s : List Char} {c : Char} {parts : List (List Char)}
    (hskip : k.skip = 0) (h : cutFrom text [sep] k (c :: s) = .ok parts) :
    (∃ front rest k', c :: s = front ++ rest ∧ front ≠ [] ∧ k'.skip = 0 ∧
      Turns k.quote k.stack front k'.quote k'.stack ∧ Moves sep k front k' ∧
      cutFrom text [sep] k' rest = .ok parts) ∨
    Turns k.quote k.stack [c] none [] ∧ Cuts sep k c ∧
      ∃ parts' offset, parts = k.part.reverse :: parts' ∧
        cutFrom text [sep] { offset } s = .ok parts' := by
  by_cases hc : k.quote = none ∨ c ≠ '\\'
  · rcases cutFrom_cases sep hskip hc with ⟨k', hskip', hturns, hmoves⟩ | ⟨hturns, hcuts⟩ | hfails
    · exact .inl ⟨[c], s, { k' with offset := k.offset + 1 }, rfl, List.cons_ne_nil _ _, hskip',
        hturns, hmoves, (hmoves text k.offset s).symm.trans h⟩
    · have hrest := (hcuts text k.offset s).symm.trans h
      cases hparts : cutFrom text [sep] { offset := k.offset + 1 } s with
      | error cause =>
          rw [hparts] at hrest
          cases hrest
      | ok parts' =>
          rw [hparts] at hrest
          cases hrest
          exact .inr ⟨hturns, hcuts, parts', _, rfl, hparts⟩
    · obtain ⟨cause, hcause⟩ := hfails text k.offset s
      cases hcause.symm.trans h
  · rw [not_or, not_not] at hc
    obtain ⟨hopen, rfl⟩ := hc
    obtain ⟨q, hquote⟩ := Option.ne_none_iff_exists'.mp hopen
    rw [cutFrom.eq_def] at h
    simp only [hskip, hquote, ↓reduceIte] at h
    cases s with
    | nil =>
        -- the quotes stay open
        have hend : (k.take '\\').quote = some q := hquote
        rw [cutFrom.eq_def] at h
        simp only [hend] at h
        cases h
    | cons d s =>
        have hturns : Turns k.quote k.stack ['\\', d] k.quote k.stack := by
          rw [hquote]
          exact .escape q k.stack d
        exact .inl ⟨['\\', d], s, (k.take '\\').take d, rfl, List.cons_ne_nil _ _, hskip,
          hturns, moves_protected hskip hquote d, h⟩

/-- A separator outside quotes and brackets, if it is neither of them itself. -/
theorem cuts_separator (hsep : isPlain sep = true) (part : List Char) :
    Cuts sep { part } sep := by
  simp only [isPlain, Bool.and_eq_true, Bool.not_eq_true', Option.isNone_iff_eq_none] at hsep
  obtain ⟨⟨hquote, hcloser⟩, hopener⟩ := hsep
  intro text offset t
  have hfront : (([] : List Char).isEmpty && [sep].isPrefixOf (sep :: t)) = true := by
    rw [List.isPrefixOf, List.isPrefixOf, Bool.and_true, beq_self_eq_true]
    rfl
  rw [cutFrom.eq_def]
  simp only [hquote, hcloser, hopener, hfront, Bool.false_eq_true, Option.isSome_none, ↓reduceIte]
  rfl

/-- Cutting at `sep` goes through `s` and leaves all quotes and brackets closed: `done` are the
parts before the last, and `last` is what there is of the last part. -/
def Leaves (sep : Char) (k : Cutter) (s : List Char) (done : List (List Char))
    (last : List Char) : Prop :=
  ∀ text offset t, cutFrom text [sep] { k with offset } (s ++ t) =
    (cutFrom text [sep] { offset := offset + s.length, part := last.reverse } t).map (done ++ ·)

variable {c : Char} {front s last : List Char} {done : List (List Char)}

theorem Moves.leaves (hmoves : Moves sep k front k') (h : Leaves sep k' s done last) :
    Leaves sep k (front ++ s) done last := by
  intro text offset t
  rw [List.append_assoc, hmoves, h, List.length_append, Nat.add_assoc]

theorem Cuts.leaves (hcuts : Cuts sep k c) (h : Leaves sep {} s done last) :
    Leaves sep k (c :: s) (k.part.reverse :: done) last := by
  intro text offset t
  have hrest := h text (offset + 1) t
  rw [List.cons_append, hcuts, hrest, List.length_cons, Nat.add_assoc, Nat.add_comm 1]
  generalize cutFrom text [sep] _ t = parts
  cases parts with
  | ok parts => rfl
  | error cause => rfl

theorem leaves_nil (hskip : k.skip = 0) (hquote : k.quote = none) (hstack : k.stack = []) :
    Leaves sep k [] [] k.part.reverse := by
  obtain ⟨_, quote, stack, skip, part⟩ := k
  cases hskip
  cases hquote
  cases hstack
  intro text offset t
  rw [List.reverse_reverse, List.nil_append, List.length_nil, Nat.add_zero]
  generalize cutFrom text [sep] _ t = parts
  cases parts with
  | ok parts => rfl
  | error cause => rfl

/-- **Cutting with success** leaves all quotes and brackets closed.  By induction on the length,
since a step may take two characters. -/
theorem leaves_of_cutFrom {text : List Char} {parts : List (List Char)} (hskip : k.skip = 0)
    (h : cutFrom text [sep] k s = .ok parts) :
    ∃ done last, parts = done ++ [last] ∧ Leaves sep k s done last := by
  induction hn : s.length using Nat.strong_induction_on generalizing k s parts with
  | _ n ih =>
      subst hn
      cases s with
      | nil =>
          rw [cutFrom] at h
          split at h
          · cases h
          · cases h
          · rename_i hquote hstack
            cases h
            exact ⟨[], _, rfl, leaves_nil hskip hquote hstack⟩
      | cons c s =>
          rcases cutFrom_cons_ok hskip h with
            ⟨front, rest, k', heq, hfront, hskip', -, hmoves, hrest⟩ |
            ⟨-, hcuts, parts, offset, rfl, hrest⟩
          · have hpos := List.length_pos_iff.mpr hfront
            rw [heq, List.length_append] at ih
            obtain ⟨done, last, hparts, hleaves⟩ := ih rest.length (by omega) hskip' hrest rfl
            rw [heq]
            exact ⟨done, last, hparts, hmoves.leaves hleaves⟩
          · obtain ⟨done, last, rfl, hleaves⟩ :=
              ih s.length (Nat.lt_succ_self _) (k := { offset }) rfl hrest rfl
            exact ⟨_, last, rfl, hcuts.leaves hleaves⟩

/-- The parts of a whole text, wherever it stands. -/
theorem Leaves.parts_eq (h : Leaves sep {} s done last) (text : List Char) (offset : Nat) :
    cutFrom text [sep] { offset } s = .ok (done ++ [last]) := by
  have hend := h text offset []
  rw [List.append_nil, cutFrom, List.reverse_reverse] at hend
  exact hend

theorem cutOutside_ok {parts : List (List Char)} :
    cutOutside [sep] s = .ok parts ↔ cutFrom s [sep] {} s = .ok parts := by
  rw [cutOutside]
  cases cutFrom s [sep] {} s with
  | ok found => exact ⟨fun h => by cases h; rfl, fun h => by cases h; rfl⟩
  | error cause =>
      constructor
      · intro h
        cases h
      · intro h
        cases h

/-- **A seam.**  Two texts with a separator between them have the parts of the one and then those
of the other. -/
theorem cutOutside_append {s t : List Char} {ss ts : List (List Char)}
    (hsep : isPlain sep = true) (hs : cutOutside [sep] s = .ok ss)
    (ht : cutOutside [sep] t = .ok ts) : cutOutside [sep] (s ++ sep :: t) = .ok (ss ++ ts) := by
  obtain ⟨done, last, rfl, hfirst⟩ := leaves_of_cutFrom rfl (cutOutside_ok.mp hs)
  obtain ⟨done', last', rfl, hsecond⟩ := leaves_of_cutFrom rfl (cutOutside_ok.mp ht)
  let text := s ++ sep :: t
  let k : Cutter := { offset := 0 + s.length, part := last.reverse }
  refine cutOutside_ok.mpr ?_
  calc cutFrom text [sep] {} (s ++ sep :: t)
      = (cutFrom text [sep] k (sep :: t)).map (done ++ ·) := hfirst text 0 _
    _ = ((cutFrom text [sep] { offset := k.offset + 1 } t).map (last.reverse.reverse :: ·)).map
          (done ++ ·) := by rw [← cuts_separator hsep last.reverse]
    _ = .ok (done ++ [last] ++ (done' ++ [last'])) := by
        rw [hsecond.parts_eq, List.reverse_reverse, List.append_assoc]
        rfl

end Text

/-! ### Chains -/

/-- **A chain in two parts** goes through the one and then through the other. -/
theorem Stage.applyAll_append (limit levels : Nat) (chain chain' : List Stage) (v : Value) :
    applyAll limit levels (chain ++ chain') v =
      applyAll limit levels chain v >>= applyAll limit levels chain' := by
  induction chain generalizing v with
  | nil => rfl
  | cons stage chain ih =>
      simp only [List.cons_append, applyAll, ih, bind_assoc]

namespace Filter

variable {limit levels : Nat}

/-- A text that is not blank is read as a chain. -/
theorem read_eq_readChain {text : String} (h : Text.trim text.toList ≠ []) :
    read limit text = readChain limit (limit + 1) text.toList := by
  rw [read]
  simp only [List.isEmpty_iff, if_neg h]

/-- **A chain is read** from a text that can be cut into segments of one stage each. -/
theorem readChain_eq_ok_iff {s : List Char} {chain : Filter} :
    readChain limit (levels + 1) s = .ok chain ↔
      ∃ segments, Text.cutOutside ['|'] s = .ok segments ∧
        List.Forall₂ (fun trimmed stage => trimmed ≠ [] ∧
          readStage (readChain limit levels) trimmed = .ok stage)
          (segments.map Text.trim) chain := by
  rw [readChain, Result.bind_eq_ok]
  refine exists_congr fun segments => and_congr_right fun _ => ?_
  rw [Result.mapM_eq_ok_iff, List.forall₂_map_left_iff]
  -- the whole text matters for the fault of an empty stage only
  refine ⟨fun h => h.imp fun segment stage h => ?_, fun h => h.imp fun segment stage h => ?_⟩
  · cases htrim : Text.trim segment with
    | nil =>
        rw [htrim] at h
        cases h
    | cons c rest =>
        rw [htrim] at h
        exact ⟨List.cons_ne_nil _ _, h⟩
  · obtain ⟨hne, h⟩ := h
    cases htrim : Text.trim segment with
    | nil => exact absurd htrim hne
    | cons c rest => rwa [htrim] at h

/-- A text that no bar divides is one stage. -/
theorem read_of_passes {s t : List Char} {stage : Stage} (hpasses : Text.Passes '|' false t)
    (htrim : Text.trim t = s) (hne : s ≠ [])
    (hstage : readStage (readChain limit limit) s = .ok stage) :
    read limit (String.ofList t) = .ok [stage] := by
  rw [read_eq_readChain (by rwa [String.toList_ofList, htrim]), String.toList_ofList]
  refine readChain_eq_ok_iff.mpr ⟨[t], hpasses.cutOutside_eq, ?_⟩
  rw [List.map_singleton, htrim]
  exact .cons ⟨hne, hstage⟩ .nil

/-- A chain of stages between bars. -/
theorem readChain_bar {s t : List Char} {chain chain' : Filter}
    (hs : readChain limit levels s = .ok chain) (ht : readChain limit levels t = .ok chain') :
    readChain limit levels (s ++ '|' :: t) = .ok (chain ++ chain') := by
  cases levels with
  | zero => cases hs
  | succ levels =>
      obtain ⟨segments, hsegments, hchain⟩ := readChain_eq_ok_iff.mp hs
      obtain ⟨segments', hsegments', hchain'⟩ := readChain_eq_ok_iff.mp ht
      refine readChain_eq_ok_iff.mpr
        ⟨_, Text.cutOutside_append (by decide) hsegments hsegments', ?_⟩
      rw [List.map_append]
      exact List.rel_append hchain hchain'

/-- **A bar between two texts** makes a chain of their chains, and the value goes through the first
filter and what comes out of it through the second. -/
theorem read_bar {first second : String} (hfirst : Text.trim first.toList ≠ [])
    (hsecond : Text.trim second.toList ≠ []) {chain chain' : Filter}
    (hread : read limit first = .ok chain) (hread' : read limit second = .ok chain') :
    read limit (first ++ "|" ++ second) = .ok (chain ++ chain') ∧
      ∀ v, evaluate limit (first ++ "|" ++ second) v =
        evaluate limit first v >>= evaluate limit second := by
  have hblank {text : String} (h : Text.trim text.toList ≠ []) :
      read limit text = readChain limit (limit + 1) text.toList := by
    rw [read]
    simp only [List.isEmpty_iff, if_neg h]
  have htext : (first ++ "|" ++ second).toList = first.toList ++ '|' :: second.toList := by
    simp
  have hbar : read limit (first ++ "|" ++ second) = .ok (chain ++ chain') := by
    rw [hblank hfirst] at hread
    rw [hblank hsecond] at hread'
    rw [hblank (htext ▸ Text.trim_append_ne_nil hfirst _), htext, readChain_bar hread hread']
  refine ⟨hbar, fun v => ?_⟩
  rw [evaluate, hbar, Result.bind_ok, run, Stage.applyAll_append, evaluate, hread, Result.bind_ok]
  refine congrArg (Stage.applyAll limit limit chain v >>= ·) (funext fun w => ?_)
  rw [evaluate, hread']
  rfl

/-- A map, and a select whose literal is a bar. -/
theorem read_bar_quoted :
    ∃ chain chain', read 1 "map(.a)" = .ok chain ∧ read 1 "select(. == \"|\")" = .ok chain' ∧
      read 1 "map(.a)|select(. == \"|\")" = .ok (chain ++ chain') := by
  have hread : (read 1 "map(.a)").isOk = true := by decide
  have hread' : (read 1 "select(. == \"|\")").isOk = true := by decide +kernel
  obtain ⟨chain, hchain⟩ := Result.exists_of_isOk hread
  obtain ⟨chain', hchain'⟩ := Result.exists_of_isOk hread'
  have htext : "map(.a)|select(. == \"|\")" = "map(.a)" ++ "|" ++ "select(. == \"|\")" := by
    decide
  obtain ⟨hbar, -⟩ := read_bar (by decide) (by decide) hchain hchain'
  exact ⟨chain, chain', hchain, hchain', htext ▸ hbar⟩

end Filter

end Quarry
