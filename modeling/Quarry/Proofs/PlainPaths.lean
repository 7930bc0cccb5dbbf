import Mathlib.Data.List.Chain
import Quarry.Proofs.Balance
import Quarry.Proofs.Dialects
import Quarry.Proofs.Places

/-!
# Plain paths — looked up at once, or run as a filter

A text that is a dot and a path of plain characters is looked up directly; as a filter it would be
one stage.  The lookup stops where a name is looked for in an array, and null stands for what it
does not find.  The stage spreads the name over the items of the array, and passes a value on where
it does not apply.

Plain characters are no blanks, quotes or bars, and of the brackets only square ones.  So in a plain
text that can be read as a path, brackets are around indices only (`PlainText`).  Such a text is
one stage of a filter, and there are three kinds it can be (`readStage_plain`): the identity, an
index stage, or a path stage.  Each finds what the lookup finds (`run_plain`), provided that no name
is looked for in an array (`NeverSpreads`), and that an index alone is applied to an array.
-/

namespace Quarry

namespace Text

/-- The members of a finite set that is written by its turning points. -/
def rangePoints : List Nat → List Nat
  | lower :: upper :: turns => List.range' lower (upper - lower) ++ rangePoints turns
  | _ => []

theorem mem_rangePoints {n : Nat} {turns : List Nat} (heven : turns.length % 2 = 0)
    (h : inRanges n turns = true) : n ∈ rangePoints turns := by
  induction turns using rangePoints.induct with
  | case1 lower upper turns ih =>
      rw [List.length_cons, List.length_cons] at heven
      rw [rangePoints, List.mem_append, List.mem_range'_1]
      simp only [inRanges, Bool.if_false_left, Bool.and_eq_true, Bool.not_eq_true',
        decide_eq_false_iff_not, Bool.and_eq_false_iff, decide_eq_true_eq,
        Bool.not_eq_false'] at h
      rcases h with ⟨hlower, hupper | hrest⟩
      · exact .inl (by omega)
      · exact .inr (ih (by omega) hrest)
  | case2 turns hshort =>
      cases turns with
      | nil => cases h
      | cons lower turns =>
          cases turns with
          | nil => cases heven
          | cons upper turns => exact absurd rfl (hshort lower upper turns)

/-- The code points of the blanks. -/
def blankPoints : List Nat :=
  [9, 10, 11, 12, 13, 28, 29, 30, 31, 32, 133, 160, 5760, 8192, 8193, 8194, 8195, 8196, 8197, 8198,
    8199, 8200, 8201, 8202, 8232, 8233, 8239, 8287, 12288]

theorem mem_blankPoints {c : Char} (h : isBlank c = true) : c.toNat ∈ blankPoints := by
  have hpoints : rangePoints blankTurns = blankPoints := by decide
  rw [← hpoints]
  exact mem_rangePoints rfl h

/-- What no blank has, checked one by one, is only had by characters that are not blank. -/
theorem isBlank_eq_false {p : Char → Bool} (hnone : ∀ n ∈ blankPoints, p (Char.ofNat n) = false)
    {c : Char} (h : p c = true) : isBlank c = false := by
  refine Bool.eq_false_iff.mpr fun hblank => ?_
  have hc := hnone _ (mem_blankPoints hblank)
  rw [Char.ofNat_toNat, h] at hc
  cases hc

end Text

namespace Path

/-- The text of a plain path after its dot: brackets are around indices only. -/
inductive PlainText : List Char → Prop where
  | nil : PlainText []
  | char {c : Char} {s : List Char} (hc : isPlain c = true) (hopener : c ≠ '[') (hcloser : c ≠ ']')
      (hs : PlainText s) : PlainText (c :: s)
  | index {digits s : List Char} (hdigits : Text.isNumeral digits = true)
      (hplain : ∀ c ∈ digits, isPlain c = true) (hs : PlainText s) :
      PlainText ('[' :: digits ++ ']' :: s)

variable {c : Char} {s inner rest : List Char}

/-! ### Characters -/

theorem isBlank_of_isPlain (h : isPlain c = true) : Text.isBlank c = false :=
  Text.isBlank_eq_false (p := isPlain) (by decide +kernel) h

theorem isBlank_of_isDigit (h : Text.isDigit c = true) : Text.isBlank c = false :=
  Text.isBlank_eq_false (p := Text.isDigit) (by decide) h

/-- The only marks that are plain are square brackets. -/
theorem notMem_marks_of_isPlain (h : isPlain c = true) (hopener : c ≠ '[') (hcloser : c ≠ ']') :
    c ∉ Text.marks ∧ c ≠ '|' ∧ c ≠ '*' ∧ c ≠ ':' := by
  have hall : ∀ d ∈ '|' :: '*' :: ':' :: Text.marks, isPlain d = true → d = '[' ∨ d = ']' :=
    chars_forall (by decide)
  have hc : c ∉ '|' :: '*' :: ':' :: Text.marks := fun hmem =>
    (hall c hmem h).elim hopener hcloser
  simp only [List.mem_cons, not_or] at hc
  exact ⟨hc.2.2.2, hc.1, hc.2.1, hc.2.2.1⟩

theorem isQuote_of_isPlain (h : isPlain c = true) : Text.isQuote c = false := by
  have hall : ∀ d ∈ ['"', '\x27'], isPlain d = false := chars_forall (by decide)
  refine Bool.eq_false_iff.mpr fun hquote => ?_
  have hc := hall c (by simpa using Text.isQuote_iff.mp hquote)
  rw [h] at hc
  cases hc

theorem notMem_marks_of_isDigit (h : Text.isDigit c = true) : c ∉ Text.marks := by
  have hall : ∀ d ∈ Text.marks, Text.isDigit d = false := chars_forall (by decide)
  intro hmem
  rw [hall c hmem] at h
  cases h

theorem balanced_of_isNumeral (h : Text.isNumeral s = true) : Text.Balanced s := by
  replace h := (Text.isNumeral_iff.mp h).2
  induction s with
  | nil => exact .nil
  | cons c s ih =>
      obtain ⟨hc, hs⟩ := List.forall_mem_cons.mp h
      exact .char (notMem_marks_of_isDigit hc) (ih hs)

/-! ### Reading -/

/-- Brackets around plain characters are closed at the first closing one. -/
theorem eq_of_bracket? (hs : ∀ c ∈ s, isPlain c = true) (h : bracket? s = some (inner, rest)) :
    s = inner ++ ']' :: rest := by
  have hunquoted : quotedBracket? s = none := by
    cases s with
    | nil => rfl
    | cons c s =>
        have hc := hs c List.mem_cons_self
        rw [quotedBracket?, dropWhile_of_stops (stops_cons.mpr (isBlank_of_isPlain hc))]
        simp only [isQuote_of_isPlain hc, Bool.false_eq_true, ↓reduceIte]
  obtain ⟨front, back, rfl, hfront, hback⟩ := exists_front (fun c => decide (c ≠ ']')) s
  rw [bracket?, hunquoted, span_append_of_stops hfront hback] at h
  cases back with
  | nil => cases h
  | cons d back =>
      cases h
      obtain rfl : d = ']' := by simpa using stops_cons.mp hback
      rfl

/-- Plain brackets that are read hold an index. -/
theorem isNumeral_of_bracketSegment {text : String} {segment : Segment}
    (hs : ∀ c ∈ inner, isPlain c = true) (h : bracketSegment text inner = .ok segment) :
    Text.isNumeral inner = true := by
  have hstar : inner ≠ ['*'] := by
    rintro rfl
    exact absurd (hs '*' List.mem_cons_self) (by decide)
  have hquotes : Literal.unquote? inner = none := by
    cases inner with
    | nil => rfl
    | cons c inner =>
        have hc := isQuote_of_isPlain (hs c List.mem_cons_self)
        exact Literal.unquote?_eq_none (not_or.mp (mt Text.isQuote_iff.mpr (by simp [hc])))
  by_contra hnumeral
  rw [bracketSegment] at h
  simp only [if_neg hstar, if_neg hnumeral, hquotes] at h
  split at h
  · cases h
  · split at h
    · cases h
    · split at h <;> cases h

theorem PlainText.append {name : List Char}
    (hname : ∀ c ∈ name, isPlain c = true ∧ endsName c = false) (h : PlainText s) :
    PlainText (name ++ s) := by
  induction name with
  | nil => exact h
  | cons c name ih =>
      obtain ⟨⟨hc, hends⟩, hname⟩ := List.forall_mem_cons.mp hname
      simp only [endsName, Bool.or_eq_false_iff, decide_eq_false_iff_not] at hends
      exact .char hc hends.1.2 hends.2 (ih hname)

/-- **What a text that is read begins with**: a dot, brackets that hold a segment, or, where a
segment has to come next, a name. -/
theorem assemble_begins {text : String} {length fuel : Nat} {open? : Bool} {path : Path}
    (h : assemble text open? (piecesFrom length (fuel + 1) (c :: s)) = .ok path) :
    (c = '.' ∧ assemble text true (piecesFrom length fuel s) = .ok path) ∨
    (∃ inner rest segment path', c = '[' ∧ bracket? s = some (inner, rest) ∧
      bracketSegment text (Text.trim inner) = .ok segment ∧
      assemble text false (piecesFrom length fuel rest) = .ok path' ∧ path = segment :: path') ∨
    open? = true ∧ ∃ name rest path', s = name ++ rest ∧ (∀ d ∈ c :: name, endsName d = false) ∧
      assemble text false (piecesFrom length fuel rest) = .ok path' ∧
      path = nameSegment (c :: name) :: path' := by
  -- what a piece is, its first character tells
  by_cases hdot : c = '.'
  · rw [hdot, piecesFrom_dot] at h
    cases open? with
    | true => cases h
    | false => exact .inl ⟨hdot, h⟩
  by_cases hopener : c = '['
  · rw [piecesFrom, if_neg hdot, if_pos hopener] at h
    cases hbracket : bracket? s with
    | none =>
        rw [hbracket] at h
        cases open? <;> cases h
    | some found =>
        obtain ⟨inner, rest⟩ := found
        simp only [hbracket] at h
        rw [assemble] at h
        obtain ⟨segment, hsegment, h⟩ := Result.bind_eq_ok.mp h
        obtain ⟨path, hpath, h⟩ := Result.bind_eq_ok.mp h
        cases h
        exact .inr (.inl ⟨inner, rest, segment, path, hopener, rfl, hsegment, hpath, rfl⟩)
  by_cases hcloser : c = ']'
  · rw [piecesFrom, if_neg hdot, if_neg hopener, if_pos hcloser] at h
    cases open? <;> cases h
  · obtain ⟨name, rest, rfl, hname, hrest⟩ := exists_front (fun d => !endsName d) s
    have hends : endsName c = false := by simp [endsName, hdot, hopener, hcloser]
    have hname : ∀ d ∈ c :: name, endsName d = false :=
      List.forall_mem_cons.mpr ⟨hends, by simpa using hname⟩
    rw [← List.cons_append, piecesFrom_name (List.cons_ne_nil _ _) hname hrest] at h
    cases open? with
    | false => cases h
    | true =>
        obtain ⟨path, hpath, h⟩ := Result.bind_eq_ok.mp h
        cases h
        exact .inr (.inr ⟨rfl, name, rest, path, rfl, hname, hpath, rfl⟩)

/-- What a plain text that is read begins with: a dot, brackets around an index, or a name. -/
theorem assemble_cases {text : String} {length fuel : Nat} {open? : Bool} {path : Path}
    (hs : ∀ c ∈ s, isPlain c = true)
    (h : assemble text open? (piecesFrom length (fuel + 1) (c :: s)) = .ok path) :
    (c = '.' ∧ ∃ path', assemble text true (piecesFrom length fuel s) = .ok path') ∨
    (c = '[' ∧ ∃ inner rest path', s = inner ++ ']' :: rest ∧ Text.isNumeral inner = true ∧
      assemble text false (piecesFrom length fuel rest) = .ok path') ∨
    ∃ name rest path', s = name ++ rest ∧ (∀ d ∈ c :: name, endsName d = false) ∧
      assemble text false (piecesFrom length fuel rest) = .ok path' := by
  rcases assemble_begins h with ⟨hdot, h⟩ |
    ⟨inner, rest, segment, path', hopener, hbracket, hsegment, hrest, -⟩ |
    ⟨-, name, rest, path', hs, hname, hrest, -⟩
  · exact .inl ⟨hdot, path, h⟩
  · obtain rfl := eq_of_bracket? hs hbracket
    have hinner := (List.forall_mem_append.mp hs).1
    have htrim : Text.Trimmed inner :=
      Text.trimmed_of_forall fun c hc => isBlank_of_isPlain (hinner c hc)
    rw [Text.trim_of_trimmed htrim] at hsegment
    exact .inr (.inl ⟨hopener, inner, rest, path', rfl,
      isNumeral_of_bracketSegment hinner hsegment, hrest⟩)
  · exact .inr (.inr ⟨name, rest, path', hs, hname, hrest⟩)

/-- **A plain text that is read** has brackets around indices only. -/
theorem plainText_of_assemble {text : String} {length fuel : Nat} {open? : Bool} {path : Path}
    (hs : ∀ c ∈ s, isPlain c = true) (hfuel : s.length ≤ fuel)
    (h : assemble text open? (piecesFrom length fuel s) = .ok path) : PlainText s := by
  induction fuel generalizing s open? path with
  | zero =>
      rw [List.length_eq_zero_iff.mp (Nat.le_zero.mp hfuel)]
      exact .nil
  | succ fuel ih =>
      cases s with
      | nil => exact .nil
      | cons c s =>
          obtain ⟨hc, htail⟩ := List.forall_mem_cons.mp hs
          have hlength : s.length ≤ fuel := Nat.le_of_succ_le_succ hfuel
          rcases assemble_cases htail h with ⟨rfl, path', hrest⟩ |
            ⟨rfl, inner, rest, path', rfl, hnumeral, hrest⟩ |
            ⟨name, rest, path', rfl, hname, hrest⟩
          · exact .char hc (by decide) (by decide) (ih htail hlength hrest)
          · obtain ⟨hinner, hplain⟩ := List.forall_mem_append.mp htail
            rw [List.length_append, List.length_cons] at hlength
            exact .index hnumeral hinner
              (ih (List.forall_mem_cons.mp hplain).2 (by omega) hrest)
          · obtain ⟨hplain, hplainRest⟩ := List.forall_mem_append.mp htail
            rw [List.length_append] at hlength
            have hplain : ∀ d ∈ c :: name, isPlain d = true :=
              List.forall_mem_cons.mpr ⟨hc, hplain⟩
            exact PlainText.append (fun d hd => ⟨hplain d hd, hname d hd⟩)
              (ih hplainRest (by omega) hrest)

namespace PlainText

theorem plain (h : PlainText s) : ∀ c ∈ s, isPlain c = true := by
  induction h with
  | nil => exact List.forall_mem_nil _
  | char hc _ _ _ ih => exact List.forall_mem_cons.mpr ⟨hc, ih⟩
  | index _ hplain _ ih =>
      exact List.forall_mem_append.mpr ⟨List.forall_mem_cons.mpr ⟨by decide, hplain⟩,
        List.forall_mem_cons.mpr ⟨by decide, ih⟩⟩

/-- No bar divides a plain text. -/
theorem undivided (h : PlainText s) : Text.Undivided '|' s := by
  induction h with
  | nil => exact .nil
  | char hc hopener hcloser _ ih =>
      obtain ⟨hmarks, hbar, -⟩ := notMem_marks_of_isPlain hc hopener hcloser
      exact .char hmarks hbar ih
  | @index digits s hdigits _ _ ih =>
      have hbalanced : Text.Balanced digits := balanced_of_isNumeral hdigits
      have hpair : ('[', ']') ∈ Text.bracketPairs := by decide
      have hbrackets := Text.Undivided.brackets hpair hbalanced ih
      rwa [List.append_assoc] at hbrackets

theorem isChain_append (front : List Char) (hfront : '[' ∉ front)
    (h : s.IsChain fun c d => c = '[' → Text.isDigit d = true) :
    (front ++ s).IsChain fun c d => c = '[' → Text.isDigit d = true := by
  induction front with
  | nil => exact h
  | cons c front ih =>
      rw [List.mem_cons, not_or] at hfront
      exact (ih hfront.2).cons fun d _ hc => absurd hc.symm hfront.1

/-- An opening bracket is followed by a digit. -/
theorem digit_follows (h : PlainText s) :
    s.IsChain fun c d => c = '[' → Text.isDigit d = true := by
  induction h with
  | nil => exact .nil
  | char _ hopener _ _ ih =>
      exact isChain_append [_] (by simpa using hopener.symm) ih
  | @index digits s hdigits _ _ ih =>
      obtain ⟨hne, hall⟩ := Text.isNumeral_iff.mp hdigits
      have hopener : '[' ∉ digits ++ [']'] := by
        simp only [List.mem_append, List.mem_singleton, Char.reduceEq, or_false]
        exact fun hmem => absurd (hall _ hmem) (by decide)
      have hrest := isChain_append _ hopener ih
      rw [List.append_assoc, List.singleton_append] at hrest
      obtain ⟨d, digits, rfl⟩ := List.exists_cons_of_ne_nil hne
      refine hrest.cons fun e he _ => ?_
      cases he
      exact hall d List.mem_cons_self

/-- A plain text does not end in empty brackets. -/
theorem dropTrailing?_eq_none (h : PlainText s) :
    Text.dropTrailing? ['[', ']'] ('.' :: s) = none := by
  rw [Text.dropTrailing?, Option.map_eq_none_iff, ← Option.not_isSome_iff_eq_none]
  intro hsome
  obtain ⟨rest, hrest⟩ := Option.isSome_iff_exists.mp hsome
  have hreverse := List.isPrefixOf?_eq_some_iff_append_eq.mp hrest
  have hend : '.' :: s = rest.reverse ++ ['[', ']'] := by
    rw [← List.reverse_inj, ← hreverse]
    simp
  have hchain := isChain_append ['.'] (by decide) h.digit_follows
  rw [List.singleton_append, hend] at hchain
  have hpair := hchain.right_of_append.rel_head? (y := ']') rfl rfl
  exact absurd hpair (by decide)

end PlainText

/-! ### What a path finds -/

/-- Going along a path, no name is ever looked for in an array. -/
def NeverSpreads : Path → Value → Prop
  | [], _ => True
  | segment :: path, v =>
      (∀ name items, segment = .field name → v ≠ .array items) ∧
        ∀ w, segment.follow false v = some w → NeverSpreads path w

/-- A name looked for in an array is all that spreading is about. -/
theorem NeverSpreads.follow_eq {path : Path} {v : Value} (h : path.NeverSpreads v) :
    path.follow true v = path.follow false v := by
  induction path generalizing v with
  | nil => rfl
  | cons segment path ih =>
      obtain ⟨hname, hrest⟩ := h
      have hsegment : segment.follow true v = segment.follow false v := by
        cases segment with
        | field name =>
            cases v with
            | array items => exact absurd rfl (hname name items rfl)
            | _ => rfl
        | index n => cases v <;> rfl
        | wildcard => cases v <;> rfl
      rw [Path.follow, Path.follow, hsegment]
      cases hfound : segment.follow false v with
      | none => rfl
      | some w => exact ih (hrest w hfound)

end Path

/-- The text is a dot and one index. -/
def Path.IsLoneIndex (text : String) : Prop :=
  ∃ digits, Text.isNumeral digits = true ∧ text.toList = '.' :: '[' :: digits ++ [']']

/-! ### As a stage -/

namespace Filter

variable {s digits : List Char}

theorem numeralAt?_append (hdigits : Text.isNumeral digits = true) {rest : List Char}
    (hrest : Stops Text.isDigit rest) : numeralAt? (digits ++ rest) = some (digits, rest) := by
  obtain ⟨hne, hall⟩ := Text.isNumeral_iff.mp hdigits
  obtain ⟨d, t, rfl⟩ := List.exists_cons_of_ne_nil hne
  have hminus : d ≠ '-' := by
    rintro rfl
    exact absurd (hall _ List.mem_cons_self) (by decide)
  have hspan := span_append_of_stops hall hrest
  rw [List.cons_append] at hspan ⊢
  rw [numeralAt?.eq_def]
  split
  rename_i hsplit
  split at hsplit
  · rename_i heq
    exact absurd (List.cons.inj heq).1 hminus
  · cases hsplit
    rw [hspan]
    rfl

/-- A numeral without a sign writes its value. -/
theorem integerOf_eq (hdigits : Text.isNumeral digits = true)
    (hlength : digits.length ≤ Number.digitLimit) :
    Text.integerOf digits = .ok (Text.naturalOf digits) := by
  obtain ⟨hne, hall⟩ := Text.isNumeral_iff.mp hdigits
  obtain ⟨d, t, rfl⟩ := List.exists_cons_of_ne_nil hne
  have hsigned : Text.signed (d :: t) = (false, d :: t) := by
    rw [Text.signed.eq_def]
    split
    · rename_i heq
      cases heq
      exact absurd (hall _ List.mem_cons_self) (by decide)
    · rename_i heq
      cases heq
      exact absurd (hall _ List.mem_cons_self) (by decide)
    · rfl
  rw [Text.integerOf, hsigned]
  simp only [Number.readInt, if_neg (Nat.not_lt.mpr hlength), Bool.false_eq_true, ↓reduceIte]

/-- An index is read from brackets that a plain text begins with only where they are all of it. -/
theorem indexText?_plain (hdigits : Text.isNumeral digits = true) :
    indexText? ('.' :: ('[' :: digits ++ ']' :: s)) = if s = [] then some digits else none := by
  have hrest : Stops Text.isDigit (']' :: s) := stops_cons.mpr (by decide)
  have hnumeral := numeralAt?_append hdigits hrest
  obtain ⟨hne, hall⟩ := Text.isNumeral_iff.mp hdigits
  have hfront : Stops Text.isBlank (digits ++ ']' :: s) := by
    obtain ⟨d, t, rfl⟩ := List.exists_cons_of_ne_nil hne
    exact stops_cons.mpr (Path.isBlank_of_isDigit (hall _ List.mem_cons_self))
  have hback : Stops Text.isBlank (']' :: s) := stops_cons.mpr (by decide)
  rw [List.cons_append, indexText?, afterBracket?]
  simp only [dropWhile_of_stops hfront, hnumeral, dropWhile_of_stops hback, List.cons.injEq,
    true_and]

theorem sliceText?_plain (hdigits : Text.isNumeral digits = true) :
    sliceText? ('.' :: ('[' :: digits ++ ']' :: s)) = none := by
  have hrest : Stops Text.isDigit (']' :: s) := stops_cons.mpr (by decide)
  have hnumeral := numeralAt?_append hdigits hrest
  obtain ⟨hne, hall⟩ := Text.isNumeral_iff.mp hdigits
  have hfront : Stops Text.isBlank (digits ++ ']' :: s) := by
    obtain ⟨d, t, rfl⟩ := List.exists_cons_of_ne_nil hne
    exact stops_cons.mpr (Path.isBlank_of_isDigit (hall _ List.mem_cons_self))
  have hback : Stops Text.isBlank (']' :: s) := stops_cons.mpr (by decide)
  rw [List.cons_append, sliceText?, afterBracket?]
  simp only [dropWhile_of_stops hfront, hnumeral, Option.getD_some, dropWhile_of_stops hback]
  rfl

/-- Brackets around a numeral are an index, in a path and as a stage. -/
theorem readStage_index (chain : List Char → Except Fault Filter) {path : Path}
    (hdigits : Text.isNumeral digits = true)
    (hread : Path.read (String.ofList ('[' :: digits ++ [']'])) = .ok path) :
    path = [.index (Text.naturalOf digits)] ∧
      readStage chain ('.' :: ('[' :: digits ++ [']'])) = .ok (.index (Text.naturalOf digits)) := by
  obtain ⟨hne, hall⟩ := Text.isNumeral_iff.mp hdigits
  have htrim : Text.Trimmed digits :=
    Text.trimmed_of_forall fun c hc => Path.isBlank_of_isDigit (hall c hc)
  have hinner : Path.bracket? (digits ++ [']']) = some (digits, []) := by
    refine Path.bracket?_inner hne (fun c hc => ?_) []
    have hmarks := Path.notMem_marks_of_isDigit (hall c hc)
    have hblank := Path.isBlank_of_isDigit (hall c hc)
    simp only [Text.marks, List.mem_cons, not_or] at hmarks
    simp [Path.isInner, Text.isQuote, hblank, hmarks]
  have hstar : digits ≠ ['*'] := by
    rintro rfl
    exact absurd (hall '*' List.mem_cons_self) (by decide)
  rw [Path.read, Path.pieces, String.toList_ofList, List.cons_append, List.length_cons,
    Path.piecesFrom_bracket hinner htrim, Path.piecesFrom_nil, Path.assemble] at hread
  obtain ⟨segment, hsegment, hread⟩ := Result.bind_eq_ok.mp hread
  cases hread
  rw [Path.bracketSegment] at hsegment
  simp only [if_neg hstar, if_pos hdigits] at hsegment
  split at hsegment
  · cases hsegment
  · cases hsegment
    have hindex := indexText?_plain (s := []) hdigits
    have hinteger := integerOf_eq hdigits (Nat.not_lt.mp ‹_›)
    refine ⟨rfl, ?_⟩
    rw [readStage, if_neg (by rintro ⟨⟩), builtin?_eq_none (by decide) List.mem_cons_self]
    simp only [hindex, ↓reduceIte, hinteger, Result.bind_ok, Result.pure_eq_ok]

/-- A plain text that is not brackets around an index is a path stage. -/
theorem readStage_path_plain (chain : List Char → Except Fault Filter) {path : Path}
    (hs : Path.PlainText s) (hne : s ≠ []) (hread : Path.read (String.ofList s) = .ok path)
    (hindex : indexText? ('.' :: s) = none) (hslice : sliceText? ('.' :: s) = none) :
    readStage chain ('.' :: s) = .ok (.path path false) := by
  have hidentity : '.' :: s ≠ ['.'] := fun h => hne (List.cons.inj h).2
  have hmap : Text.callArgument? ['m', 'a', 'p'] ('.' :: s) = none := by
    rw [Text.callArgument?]
    rfl
  have hselect : Text.callArgument? ['s', 'e', 'l', 'e', 'c', 't'] ('.' :: s) = none := by
    rw [Text.callArgument?]
    rfl
  have hpath : readPath ('.' :: s) = .ok path := by
    rw [readPath, List.drop_one, List.tail_cons, hread]
  rw [readStage, if_neg hidentity, builtin?_eq_none (by decide) List.mem_cons_self]
  simp only [hindex, hslice, hmap, hselect, List.head?_cons, ↓reduceIte, readPathStage,
    hs.dropTrailing?_eq_none, hpath, Result.bind_ok, Result.pure_eq_ok]

/-- **A plain path as a stage**: nothing is the identity, an index alone is an index stage, and
all else is a path stage. -/
theorem readStage_plain {path : Path} (hs : Path.PlainText s)
    (hread : Path.read (String.ofList s) = .ok path) :
    ∃ stage, (∀ chain, readStage chain ('.' :: s) = .ok stage) ∧
      ((path = [] ∧ stage = .identity) ∨
        (∃ n : Nat, path = [.index n] ∧ stage = .index n ∧
          Path.IsLoneIndex (String.ofList ('.' :: s))) ∨
        stage = .path path false) := by
  have hpath chain (hne : s ≠ []) := readStage_path_plain chain hs hne hread
  cases hs with
  | nil =>
      cases hread
      exact ⟨_, fun chain => by rw [readStage, if_pos rfl], .inl ⟨rfl, rfl⟩⟩
  | @char c s _ hopener _ _ =>
      have hbracket : afterBracket? ('.' :: c :: s) = none := by
        rw [afterBracket?.eq_def]
        split
        · rename_i heq
          cases heq
          exact absurd rfl hopener
        · rename_i heq
          cases heq
        · rfl
      refine ⟨_, fun chain => hpath chain (List.cons_ne_nil _ _) ?_ ?_, .inr (.inr rfl)⟩
      · rw [indexText?, hbracket]
      · rw [sliceText?, hbracket]
  | @index digits rest hdigits _ _ =>
      -- an index alone is a stage of its own, with something behind it a path
      by_cases hrest : rest = []
      · rw [hrest] at hread ⊢
        have hstage chain := readStage_index chain hdigits hread
        exact ⟨_, fun chain => (hstage chain).2, .inr (.inl ⟨_, (hstage fun _ => .ok []).1, rfl,
          digits, hdigits, String.toList_ofList⟩)⟩
      · have hindex := indexText?_plain (s := rest) hdigits
        rw [if_neg hrest] at hindex
        exact ⟨_, fun chain => hpath chain (List.cons_ne_nil _ _) hindex (sliceText?_plain hdigits),
          .inr (.inr rfl)⟩

/-- A plain text is one stage. -/
theorem read_plain (limit : Nat) {stage : Stage} (hs : Path.PlainText s)
    (hstage : ∀ chain, readStage chain ('.' :: s) = .ok stage) :
    read limit (String.ofList ('.' :: s)) = .ok [stage] := by
  have hplain : ∀ c ∈ '.' :: s, Path.isPlain c = true :=
    List.forall_mem_cons.mpr ⟨by decide, hs.plain⟩
  have htrim : Text.trim ('.' :: s) = '.' :: s :=
    Text.trim_of_trimmed (Text.trimmed_of_forall fun c hc => Path.isBlank_of_isPlain (hplain c hc))
  have hpasses : Text.Passes '|' false ('.' :: s) :=
    (Text.Undivided.char (by decide) (by decide) hs.undivided).passes
  exact read_of_passes hpasses htrim (List.cons_ne_nil _ _) (hstage _)

/-- An index stage finds what the index leads to in an array. -/
theorem itemAt_ofNat (n : Nat) (items : List Value) :
    Stage.itemAt n (.array items) = Operand.orNull items[n]? := by
  have hn : ¬ (n : Int) < 0 := by omega
  rw [Stage.itemAt, Items.at?]
  simp only [if_neg hn, Int.toNat_natCast]
  rfl

/-- A path stage on a container finds what the path leads to. -/
theorem lookUp_container {path : Path} (hwildcard : path.hasWildcard = false) {v : Value}
    (hv : (∃ items, v = .array items) ∨ ∃ members, v = .object members) :
    Stage.lookUp path false v = (path.follow true v).orNull := by
  have hresolve := Path.resolve_eq_follow hwildcard v true
  rcases hv with ⟨items, rfl⟩ | ⟨members, rfl⟩
  all_goals
    rw [Stage.lookUp, hresolve]
    split <;> rename_i hfound <;> rw [hfound] <;> rfl

/-- **A plain filter** finds what is at its path, and null where there is nothing, if no name is
looked for in an array and no index alone is applied to an object. -/
theorem evaluate_plain (limit : Nat) {path : Path} (hs : Path.PlainText s)
    (hread : Path.read (String.ofList s) = .ok path) (hwildcard : path.hasWildcard = false)
    {v : Value} (hv : (∃ items, v = .array items) ∨ ∃ members, v = .object members)
    (hspreads : path.NeverSpreads v)
    (hindex : Path.IsLoneIndex (String.ofList ('.' :: s)) → ∃ items, v = .array items) :
    evaluate limit (String.ofList ('.' :: s)) v = .ok (path.follow false v).orNull := by
  obtain ⟨stage, hstage, hkind⟩ := readStage_plain hs hread
  have happly : stage.apply limit limit v = .ok (path.follow false v).orNull := by
    rcases hkind with ⟨rfl, rfl⟩ | ⟨n, rfl, rfl, hlone⟩ | rfl
    · rw [Stage.apply]
      rfl
    · obtain ⟨items, rfl⟩ := hindex hlone
      rw [Stage.apply, itemAt_ofNat, Path.follow, Segment.follow]
      cases items[n]? <;> rfl
    · rw [Stage.apply, lookUp_container hwildcard hv, hspreads.follow_eq]
  rw [evaluate, read_plain limit hs hstage, Result.bind_ok, run, Stage.applyAll, happly,
    Result.bind_ok, Stage.applyAll]

end Filter

/-! ### The lookup and the filter -/

/-- A plain path is a dot and the text of a path without wildcards. -/
theorem Path.exists_of_isPlainText {text : String} (h : isPlainText text = .ok true) :
    ∃ s path, text.toList = '.' :: s ∧ PlainText s ∧ read (String.ofList s) = .ok path ∧
      path.hasWildcard = false := by
  rw [isPlainText] at h
  split at h
  · rename_i s htext
    split at h
    · rename_i hplain
      rw [List.all_eq_true] at hplain
      split at h
      · rename_i path hread
        cases hwildcard : path.hasWildcard with
        | true =>
            rw [hwildcard] at h
            cases h
        | false =>
            refine ⟨s, path, htext, ?_, hread, hwildcard⟩
            rw [read, pieces, String.toList_ofList] at hread
            exact plainText_of_assemble hplain (Nat.le_refl _) hread
      · cases h
      · cases h
    · cases h
  · cases h

/-- **A plain path is looked up as the filter that it writes finds it.**  Both find what is at the
path, or null where there is nothing, in an array or an object where no name is looked for in an
array; an index alone has to be applied to an array. -/
theorem Step.run_plain {text : String} (hplain : Path.isPlainText text = .ok true) {v : Value}
    (hv : (∃ items, v = .array items) ∨ ∃ members, v = .object members)
    (hspreads : ∀ path, Path.read (String.ofList (text.toList.drop 1)) = .ok path →
      path.NeverSpreads v)
    (hindex : Path.IsLoneIndex text → ∃ items, v = .array items) :
    ∃ found : Operand, Path.resolveText (String.ofList (text.toList.drop 1)) v = .ok found ∧
      (∀ (settings : Settings) (step : Step), step.kind = .jq → step.config = text →
        step.run settings v = .ok found.orNull) ∧
      ∀ limit, Filter.evaluate limit text v = .ok found.orNull := by
  obtain ⟨s, path, htext, hs, hread, hwildcard⟩ := Path.exists_of_isPlainText hplain
  have htext' : text = String.ofList ('.' :: s) := by rw [← htext, String.ofList_toList]
  have hdrop : text.toList.drop 1 = s := by rw [htext, List.drop_one, List.tail_cons]
  have hfound : Path.resolveText (String.ofList (text.toList.drop 1)) v =
      .ok (path.follow false v) := by
    rw [Path.resolveText, hdrop, hread, Result.bind_ok, Path.resolve_eq_follow hwildcard,
      Result.pure_eq_ok]
  rw [hdrop] at hspreads
  refine ⟨_, hfound, fun settings step hkind hconfig => ?_, fun limit => ?_⟩
  · have htrim : String.ofList (Text.trim text.toList) = text := by
      have htrimmed : Text.Trimmed text.toList := by
        rw [htext]
        exact Text.trimmed_of_forall (List.forall_mem_cons.mpr ⟨by decide, fun c hc =>
          Path.isBlank_of_isPlain (hs.plain c hc)⟩)
      rw [Text.trim_of_trimmed htrimmed, String.ofList_toList]
    simp only [Step.run, hkind, Step.lookUp, hconfig, htrim, hplain, Result.bind_ok, ↓reduceIte,
      hfound, Result.pure_eq_ok]
  · rw [htext'] at hindex ⊢
    exact Filter.evaluate_plain limit hs hread hwildcard hv (hspreads path hread) hindex

/-- A member of an item of a member. -/
theorem Step.run_plain_nested :
    let v : Value := .object [("a", .array [.null, .object [("b", .string "x")]])]
    Path.isPlainText ".a[1].b" = .ok true ∧
      (∀ settings, Step.run settings ⟨"s", .jq, ".a[1].b", "", true⟩ v = .ok (.string "x")) ∧
      ∀ limit, Filter.evaluate limit ".a[1].b" v = .ok (.string "x") := by
  intro v
  have hplain : Path.isPlainText ".a[1].b" = .ok true := by decide
  have hread : Path.read (String.ofList (".a[1].b".toList.drop 1)) =
      .ok [.field "a", .index 1, .field "b"] := by decide
  have hspreads : ∀ path, Path.read (String.ofList (".a[1].b".toList.drop 1)) = .ok path →
      path.NeverSpreads v := by
    intro path hpath
    obtain rfl := Except.ok.inj (hread.symm.trans hpath)
    simp [Path.NeverSpreads, Segment.follow, Members.find?, v]
  have hlone : Path.IsLoneIndex ".a[1].b" → ∃ items, v = .array items := by
    rintro ⟨digits, -, htext⟩
    cases htext
  obtain ⟨found, hfound, hrun, hevaluate⟩ := Step.run_plain hplain (.inr ⟨_, rfl⟩) hspreads hlone
  have hx : found = some (.string "x") := by
    rw [Path.resolveText, hread] at hfound
    cases hfound
    rfl
  rw [hx] at hrun hevaluate
  exact ⟨hplain, fun settings => hrun settings _ rfl rfl, hevaluate⟩

end Quarry
