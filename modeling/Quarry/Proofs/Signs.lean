import Quarry.Proofs.Escapes
import Quarry.Proofs.PlainPaths
import Quarry.Proofs.Ways

/-!
# Signs — comparisons, and names that look like them

The text of a condition is a comparison if the sign of a relation stands behind its path and
something else behind the sign (`Filter.Compares`).  Of two signs the longer one counts, and what is
found is a comparison if and only if the text is one (`Filter.comparison?_eq_some_iff`).

Any other text that begins with a dot is taken for a path, and what is at the path is tested for
truth (`Filter.Says`).  The names of a path may have nearly every character, and those of signs are
no exception.  They are no dots or brackets and no part of an index, so where there is no comparison
they are in names, with quotes or without (`Path.mem_field_of_read`).

The text is that of a whole stage if it is balanced.  Otherwise the bracket behind `select` is
closed before the end, and there is another stage behind it, if the text is read at all
(`Filter.select_exact`).
-/

namespace Quarry

/-! ### Characters of names -/

namespace Path

variable {c : Char} {s inner rest : List Char} {text : String} {path : Path}

/-- A character that is only found in names. -/
structure InNames (c : Char) : Prop where
  isBlank : Text.isBlank c = false
  isSpace : Json.isSpace c = false
  isEscapePart : Text.isEscapePart c = false
  isDigit : Text.isDigit c = false
  ne : c ≠ '.' ∧ c ≠ '[' ∧ c ≠ ']' ∧ c ≠ '*' ∧ c ≠ '\x27'

theorem inNames_of_mem_signs (hc : c ∈ Filtering.signs) : InNames c := by
  have hall : ∀ d ∈ Filtering.signs, Text.isBlank d = false ∧ Json.isSpace d = false ∧
      Text.isEscapePart d = false ∧ Text.isDigit d = false ∧
      d ≠ '.' ∧ d ≠ '[' ∧ d ≠ ']' ∧ d ≠ '*' ∧ d ≠ '\x27' :=
    chars_forall (by decide)
  obtain ⟨hblank, hspace, hescape, hdigit, hne⟩ := hall c hc
  exact ⟨hblank, hspace, hescape, hdigit, hne⟩

/-- Brackets hold what is between them but for blanks. -/
theorem exists_of_bracket? (h : bracket? s = some (inner, rest)) :
    ∃ front back, s = front ++ inner ++ back ++ ']' :: rest ∧
      (∀ c ∈ front, Text.isBlank c = true) ∧ ∀ c ∈ back, Text.isBlank c = true := by
  rw [bracket?] at h
  -- a quoted name ends at its quote, everything else at the first closing bracket
  cases hquoted : quotedBracket? s with
  | some found =>
      simp only [hquoted, Option.some.injEq] at h
      subst h
      obtain ⟨front, tail, rfl, hfront, hstops⟩ := exists_front Text.isBlank s
      rw [quotedBracket?, dropWhile_append_of_stops hfront hstops] at hquoted
      split at hquoted
      · rename_i q s'
        split at hquoted
        · split at hquoted
          · rename_i text after hdelimited
            obtain ⟨back, last, rfl, hback, hlast⟩ := exists_front Text.isBlank after
            rw [dropWhile_append_of_stops hback hlast] at hquoted
            split at hquoted
            · cases hquoted
              refine ⟨front, back, ?_, hfront, hback⟩
              rw [Text.delimited?_eq_some hdelimited]
              simp
            · cases hquoted
          · cases hquoted
        · cases hquoted
      · cases hquoted
  | none =>
      obtain ⟨front, tail, rfl, hfront, hstops⟩ := exists_front (fun c => decide (c ≠ ']')) s
      rw [hquoted, span_append_of_stops hfront hstops] at h
      cases tail with
      | nil => cases h
      | cons d tail =>
          cases h
          obtain rfl : d = ']' := by simpa using stops_cons.mp hstops
          exact ⟨[], [], by simp, by simp, by simp⟩

/-- What brackets hold is a quoted name if it is no wildcard and no index. -/
theorem exists_of_bracketSegment {segment : Segment} (hstar : inner ≠ ['*'])
    (hnumeral : Text.isNumeral inner ≠ true) (h : bracketSegment text inner = .ok segment) :
    ∃ name, Literal.unquote? inner = some name ∧ segment = .field name := by
  rw [bracketSegment] at h
  simp only [if_neg hstar, if_neg hnumeral] at h
  cases hunquote : Literal.unquote? inner with
  | some name =>
      simp only [hunquote, Except.ok.injEq] at h
      exact ⟨name, rfl, h.symm⟩
  | none =>
      simp only [hunquote] at h
      split_ifs at h

/-- In brackets such a character is in a quoted name. -/
theorem mem_field_of_bracketSegment {segment : Segment} (hc : InNames c)
    (h : bracketSegment text inner = .ok segment) (hmem : c ∈ inner) :
    ∃ name, segment = .field name ∧ c ∈ name.toList := by
  obtain ⟨-, -, -, hstar, hquote⟩ := hc.ne
  have hne : inner ≠ ['*'] := by
    rintro rfl
    exact hstar (List.mem_singleton.mp hmem)
  have hnumeral : Text.isNumeral inner ≠ true := fun hnumeral =>
    Bool.false_ne_true (hc.isDigit.symm.trans ((Text.isNumeral_iff.mp hnumeral).2 c hmem))
  obtain ⟨name, hunquote, rfl⟩ := exists_of_bracketSegment hne hnumeral h
  exact ⟨name, rfl, Literal.mem_of_unquote? hunquote hc.isEscapePart hquote hc.isSpace hmem⟩

theorem mem_field_of_nameSegment (hc : InNames c) (hmem : c ∈ s) :
    ∃ name, nameSegment s = .field name ∧ c ∈ name.toList := by
  have htrim : c ∈ Text.trim s := Text.mem_of_trim hc.isBlank hmem
  have hne : Text.trim s ≠ ['*'] := by
    intro hstar
    rw [hstar] at htrim
    exact hc.ne.2.2.2.1 (List.mem_singleton.mp htrim)
  exact ⟨String.ofList (Text.trim s), if_neg hne, by rwa [String.toList_ofList]⟩

theorem mem_field_of_assemble {length fuel : Nat} {open? : Bool} (hc : InNames c)
    (hfuel : s.length ≤ fuel) (h : assemble text open? (piecesFrom length fuel s) = .ok path)
    (hmem : c ∈ s) : ∃ name, .field name ∈ path ∧ c ∈ name.toList := by
  obtain ⟨hdot, hopener, hcloser, -, -⟩ := hc.ne
  induction fuel generalizing s open? path with
  | zero =>
      rw [List.length_eq_zero_iff.mp (Nat.le_zero.mp hfuel)] at hmem
      cases hmem
  | succ fuel ih =>
      obtain ⟨d, s, rfl⟩ := List.exists_cons_of_ne_nil (List.ne_nil_of_mem hmem)
      have hlength : s.length ≤ fuel := Nat.le_of_succ_le_succ hfuel
      rcases assemble_begins h with ⟨rfl, hrest⟩ |
        ⟨inner, rest, segment, path', rfl, hbracket, hsegment, hrest, rfl⟩ |
        ⟨-, name, rest, path', rfl, -, hrest, rfl⟩
      · exact ih hlength hrest ((List.mem_cons.mp hmem).resolve_left hdot)
      · obtain ⟨front, back, rfl, hfront, hback⟩ := exists_of_bracket? hbracket
        have hblank : ∀ {t : List Char}, (∀ e ∈ t, Text.isBlank e = true) → c ∉ t := fun ht hct =>
          Bool.false_ne_true (hc.isBlank.symm.trans (ht c hct))
        simp only [List.length_append, List.length_cons] at hlength
        have hcases : c ∈ inner ∨ c ∈ rest := by
          simpa [hopener, hcloser, hblank hfront, hblank hback] using hmem
        rcases hcases with hinner | hmem
        · obtain ⟨name, rfl, hname⟩ :=
            mem_field_of_bracketSegment hc hsegment (Text.mem_of_trim hc.isBlank hinner)
          exact ⟨name, List.mem_cons_self, hname⟩
        · obtain ⟨name, hfield, hname⟩ := ih (by omega) hrest hmem
          exact ⟨name, List.mem_cons_of_mem _ hfield, hname⟩
      · rw [List.length_append] at hlength
        rw [← List.cons_append, List.mem_append] at hmem
        rcases hmem with hmem | hmem
        · obtain ⟨found, hsegment, hname⟩ := mem_field_of_nameSegment hc hmem
          exact ⟨found, hsegment ▸ List.mem_cons_self, hname⟩
        · obtain ⟨found, hfield, hname⟩ := ih (by omega) hrest hmem
          exact ⟨found, List.mem_cons_of_mem _ hfield, hname⟩

/-- **A path keeps what is only found in names.** -/
theorem mem_field_of_read (hc : InNames c) (h : read text = .ok path) (hmem : c ∈ text.toList) :
    ∃ name, .field name ∈ path ∧ c ∈ name.toList :=
  mem_field_of_assemble hc (Nat.le_refl _) h hmem

end Path

/-! ### Comparisons -/

theorem Relation.sign_injective {r r' : Relation} (h : r.sign = r'.sign) : r = r' := by
  cases r <;> cases r' <;> first | rfl | cases h

namespace Filter

variable {c : Char} {s path literal literal' : List Char} {r r' : Relation}

/-- The text begins with the sign of the relation, and something comes behind it.  No longer sign
would do. -/
structure Signed (s : List Char) (r : Relation) (literal : List Char) : Prop where
  text : s = r.sign ++ literal
  nonempty : literal ≠ []
  longest : ∀ (r' : Relation) (literal' : List Char), s = r'.sign ++ literal' → literal' ≠ [] →
    r'.sign.length ≤ r.sign.length

/-- The text begins with a dot.  Up to the first blank or character of a sign it is a path, and a
sign with a text for the literal comes next, with or without blanks in front of it. -/
structure Compares (s path : List Char) (r : Relation) (literal : List Char) : Prop where
  begins : path.head? = some '.'
  unended : ∀ c ∈ path, endsPath c = false
  text : ∃ blanks rest, s = path ++ blanks ++ rest ∧ (∀ c ∈ blanks, Text.isBlank c = true) ∧
    Signed rest r literal

/-- A text begins with one sign. -/
theorem Signed.unique (h : Signed s r literal) (h' : Signed s r' literal') :
    r = r' ∧ literal = literal' := by
  have hlength : r.sign.length = r'.sign.length :=
    Nat.le_antisymm (h'.longest r literal h.text h.nonempty)
      (h.longest r' literal' h'.text h'.nonempty)
  obtain ⟨hsign, hliteral⟩ := List.append_inj (h.text.symm.trans h'.text) hlength
  exact ⟨Relation.sign_injective hsign, hliteral⟩

/-- Every relation is tried, those with the longer signs first. -/
theorem relations_sorted : (∀ r, r ∈ relations) ∧
    relations.Pairwise fun r r' => r'.sign.length ≤ r.sign.length :=
  ⟨fun r => by cases r <;> decide, by decide⟩

/-- The sign at the front of a text, if something comes behind it. -/
theorem signAt_eq_some_iff {found : Relation × List Char} :
    (match r.symbol.toList.isPrefixOf? s with
      | some (c :: rest) => some (r, c :: rest)
      | _ => none) = some found ↔
        ∃ literal, s = r.sign ++ literal ∧ literal ≠ [] ∧ found = (r, literal) := by
  rw [Relation.symbol_toList]
  split
  · rename_i c rest h
    have htext := List.isPrefixOf?_eq_some_iff_append_eq.mp h
    rw [Option.some.injEq, ← htext]
    constructor
    · rintro rfl
      exact ⟨_, rfl, List.cons_ne_nil c rest, rfl⟩
    · rintro ⟨literal, hliteral, -, rfl⟩
      rw [List.append_cancel_left hliteral]
  · rename_i hnone
    refine ⟨nofun, ?_⟩
    rintro ⟨literal, rfl, hne, -⟩
    obtain ⟨c, rest, rfl⟩ := List.exists_cons_of_ne_nil hne
    exact absurd (List.isPrefixOf?_eq_some_iff_append_eq.mpr rfl) (hnone c rest)

/-- **The longest sign** at the front of a text is the one that is found. -/
theorem relationAt?_eq_some_iff : relationAt? s = some (r, literal) ↔ Signed s r literal := by
  have hfound : ∀ {r literal}, relationAt? s = some (r, literal) → Signed s r literal := by
    intro r literal h
    obtain ⟨before, r₀, after, hrelations, hat, hbefore⟩ := List.findSome?_eq_some_iff.mp h
    obtain ⟨literal, htext, hne, ⟨⟩⟩ := signAt_eq_some_iff.mp hat
    refine ⟨htext, hne, fun r' literal' htext' hne' => ?_⟩
    obtain ⟨hall, hsorted⟩ := relations_sorted
    rw [hrelations] at hall hsorted
    obtain ⟨-, hsorted, -⟩ := List.pairwise_append.mp hsorted
    rcases List.mem_append.mp (hall r') with hmem | hmem
    · -- a relation that is tried before would have been found
      have hsome := signAt_eq_some_iff.mpr ⟨literal', htext', hne', rfl⟩
      cases (hbefore r' hmem).symm.trans hsome
    · rcases List.mem_cons.mp hmem with rfl | hmem
      · exact Nat.le_refl _
      · exact List.rel_of_pairwise_cons hsorted hmem
  refine ⟨hfound, fun h => ?_⟩
  have hat := signAt_eq_some_iff.mpr ⟨literal, h.text, h.nonempty, rfl⟩
  have hsome : (relationAt? s).isSome = true :=
    List.findSome?_isSome_iff.mpr ⟨r, relations_sorted.1 r, Option.isSome_of_mem hat⟩
  obtain ⟨⟨r', literal'⟩, hsome⟩ := Option.isSome_iff_exists.mp hsome
  obtain ⟨rfl, rfl⟩ := h.unique (hfound hsome)
  exact hsome

theorem Signed.stops (h : Signed s r literal) :
    Stops Text.isBlank s ∧ Stops (fun c => !endsPath c) s := by
  rw [h.text]
  cases r <;> exact ⟨stops_cons.mpr (by decide), stops_cons.mpr (by decide)⟩

/-- Blanks and a sign end a path. -/
theorem Signed.stops_append {blanks : List Char} (h : Signed s r literal)
    (hblanks : ∀ c ∈ blanks, Text.isBlank c = true) :
    Stops (fun c => !endsPath c) (blanks ++ s) := by
  cases blanks with
  | nil => exact h.stops.2
  | cons c blanks =>
      have hc : endsPath c = true := by simp [endsPath, hblanks c List.mem_cons_self]
      exact stops_cons.mpr (by rw [hc]; rfl)

/-- The path of a comparison is its text up to the first character that ends a path. -/
theorem Compares.path_eq {front rest : List Char} (h : Compares (front ++ rest) path r literal)
    (hfront : ∀ c ∈ front, endsPath c = false) (hrest : Stops (fun c => !endsPath c) rest) :
    path = front := by
  have hunended {s : List Char} (hs : ∀ c ∈ s, endsPath c = false) :
      ∀ c ∈ s, (!endsPath c) = true := fun c hc => by rw [hs c hc]; rfl
  obtain ⟨blanks, signed, htext, hblanks, hsigned⟩ := h.text
  have hspan := span_append_of_stops (hunended hfront) hrest
  rw [htext, List.append_assoc,
    span_append_of_stops (hunended h.unended) (hsigned.stops_append hblanks)] at hspan
  exact congrArg Prod.fst hspan

/-- **The comparisons** are the texts that are taken apart as such. -/
theorem comparison?_eq_some_iff {rest : List Char} : comparison? s = some (path, r, rest) ↔
    ∃ literal, Compares s path r literal ∧ rest = literal.dropWhile Text.isBlank := by
  constructor
  · intro h
    rw [comparison?.eq_def] at h
    split at h
    · rename_i tail
      obtain ⟨front, back, hs, hfront, hback⟩ := exists_front (fun c => !endsPath c) ('.' :: tail)
      obtain ⟨blanks, signed, rfl, hblanks, hsigned⟩ := exists_front Text.isBlank back
      rw [hs, span_append_of_stops hfront hback] at h
      simp only [dropWhile_append_of_stops hblanks hsigned] at h
      obtain ⟨⟨r, literal⟩, hrelation, ⟨⟩⟩ := Option.map_eq_some_iff.mp h
      refine ⟨literal, ⟨?_, fun c hc => by simpa using hfront c hc, blanks, signed,
        by rw [hs, List.append_assoc], hblanks, relationAt?_eq_some_iff.mp hrelation⟩, rfl⟩
      cases path with
      | nil =>
          rw [List.nil_append] at hs
          cases stops_cons.mp (hs ▸ hback)
      | cons c path =>
          cases hs
          rfl
    · cases h
  · rintro ⟨literal, ⟨hhead, hpath, blanks, signed, rfl, hblanks, hsigned⟩, rfl⟩
    have hspan : (path ++ (blanks ++ signed)).span (fun c => !endsPath c) =
        (path, blanks ++ signed) :=
      span_append_of_stops (fun c hc => by rw [hpath c hc]; rfl) (hsigned.stops_append hblanks)
    obtain ⟨tail, rfl⟩ := List.head?_eq_some_iff.mp hhead
    rw [List.append_assoc, List.cons_append, comparison?]
    rw [List.cons_append] at hspan
    simp only [hspan, dropWhile_append_of_stops hblanks hsigned.stops.1,
      relationAt?_eq_some_iff.mpr hsigned, Option.map_some]

theorem comparison?_eq_none_iff :
    comparison? s = none ↔ ∀ path r literal, ¬ Compares s path r literal := by
  rw [Option.eq_none_iff_forall_ne_some]
  constructor
  · intro h path r literal hcompares
    exact h _ (comparison?_eq_some_iff.mpr ⟨literal, hcompares, rfl⟩)
  · rintro h ⟨path, r, rest⟩ hsome
    obtain ⟨literal, hcompares, -⟩ := comparison?_eq_some_iff.mp hsome
    exact h path r literal hcompares

end Filter

/-! ### Conditions -/

namespace Literal

/-- Blanks in front of a literal do not matter. -/
theorem read_dropWhile (s : List Char) :
    read (String.ofList (s.dropWhile Text.isBlank)) = read (String.ofList s) := by
  obtain ⟨front, rest, rfl, hfront, hrest⟩ := exists_front Text.isBlank s
  rw [dropWhile_append_of_stops hfront hrest, read, read, String.toList_ofList,
    String.toList_ofList, Text.trim_blank_append hfront]

end Literal

namespace Filter

variable {c : Char} {s path literal : List Char} {r : Relation}

/-- What the text of a condition says, if there are no blanks at its ends: a comparison with the
literal behind the sign, or else that what is at a path holds. -/
inductive Says (s : List Char) : Condition → Prop where
  | comparison {path literal : List Char} {r : Relation} {steps : Path} {value : Value}
      (hs : Compares s path r literal) (hpath : Path.read (String.ofList path.tail) = .ok steps)
      (hliteral : Literal.read (String.ofList literal) = .ok value) :
      Says s ⟨steps, some (r, value)⟩
  | bare {path : List Char} {steps : Path} (hs : s = '.' :: path)
      (hnone : ∀ path r literal, ¬ Compares s path r literal)
      (hpath : Path.read (String.ofList path) = .ok steps) : Says s ⟨steps, none⟩

theorem readPath_eq_ok_iff {steps : Path} :
    readPath s = .ok steps ↔ Path.read (String.ofList s.tail) = .ok steps := by
  rw [readPath, List.drop_one]
  split
  · rename_i cause h
    simp [h]
  · rfl

/-- **A condition is read** as what its text says. -/
theorem readCondition_eq_ok_iff {condition : Condition} :
    readCondition s = .ok condition ↔ Says (Text.trim s) condition := by
  rw [readCondition]
  generalize Text.trim s = s
  -- a sign that is found decides for a comparison, even where its path or literal is then refused
  cases hcomparison : comparison? s with
  | some found =>
      obtain ⟨path, r, rest⟩ := found
      obtain ⟨literal, hcompares, rfl⟩ := comparison?_eq_some_iff.mp hcomparison
      simp only [Literal.read_dropWhile]
      constructor
      · intro h
        obtain ⟨steps, hpath, h⟩ := Result.bind_eq_ok.mp h
        obtain ⟨value, hliteral, h⟩ := Result.bind_eq_ok.mp h
        cases h
        exact .comparison hcompares (readPath_eq_ok_iff.mp hpath) hliteral
      · intro h
        cases h with
        | @comparison path' literal' r' steps value hs hpath hliteral =>
            have hagain := comparison?_eq_some_iff.mpr ⟨literal', hs, rfl⟩
            rw [hcomparison, Option.some.injEq, Prod.mk.injEq, Prod.mk.injEq] at hagain
            obtain ⟨rfl, rfl, hrest⟩ := hagain
            rw [← Literal.read_dropWhile literal, hrest, Literal.read_dropWhile, hliteral,
              readPath_eq_ok_iff.mpr hpath]
            rfl
        | bare _ hnone _ => exact absurd hcompares (hnone path r literal)
  | none =>
      have hnone := comparison?_eq_none_iff.mp hcomparison
      simp only
      constructor
      · intro h
        split at h
        · rename_i path
          obtain ⟨steps, hpath, h⟩ := Result.bind_eq_ok.mp h
          cases h
          exact .bare rfl hnone (readPath_eq_ok_iff.mp hpath)
        · cases h
      · intro h
        cases h with
        | comparison hs _ _ => exact absurd hs (hnone _ _ _)
        | @bare path steps hs _ hpath =>
            subst hs
            have hread : readPath ('.' :: path) = .ok steps := readPath_eq_ok_iff.mpr hpath
            simp only [hread, Result.bind_ok, Result.pure_eq_ok]

/-! ### Stages -/

variable {limit : Nat} {filter : Filter}

/-- The text is cut into segments. -/
theorem read_selecting_eq_ok_iff : read limit (String.ofList (selecting s)) = .ok filter ↔
    ∃ segments, Text.cutOutside ['|'] (selecting s) = .ok segments ∧
      List.Forall₂ (fun trimmed stage => trimmed ≠ [] ∧
        readStage (readChain limit limit) trimmed = .ok stage) (segments.map Text.trim) filter := by
  have hne : Text.trim (String.ofList (selecting s)).toList ≠ [] := by
    rw [String.toList_ofList, trim_selecting]
    exact List.cons_ne_nil _ _
  rw [read_eq_readChain hne, String.toList_ofList, readChain_eq_ok_iff]

/-- A balanced condition makes one stage. -/
theorem read_selecting (h : Text.Balanced s) :
    read limit (String.ofList (selecting s)) = .ok filter ↔
      ∃ condition, readCondition s = .ok condition ∧ filter = [.select condition] := by
  have hbrackets : Text.Undivided '|' ('(' :: s ++ [')'] ++ []) := .brackets (by decide) h .nil
  have hname : Text.Passes '|' false ['s', 'e', 'l', 'e', 'c', 't'] :=
    Text.passes_of_forall (chars_forall (by decide))
  rw [List.append_nil] at hbrackets
  have hcut : Text.cutOutside ['|'] (selecting s) = .ok [selecting s] :=
    (hname.append hbrackets.passes).cutOutside_eq
  have hstage : ∀ stage, readStage (readChain limit limit) (selecting s) = .ok stage ↔
      ∃ condition, readCondition s = .ok condition ∧ stage = .select condition := by
    intro stage
    rw [readStage_selecting, if_pos (Text.isBalanced_iff.mpr h), Result.bind_eq_ok]
    simp [eq_comm]
  rw [read_selecting_eq_ok_iff, hcut]
  constructor
  · rintro ⟨_, ⟨⟩, hfilter⟩
    rw [List.map_singleton, trim_selecting, List.forall₂_cons_left_iff] at hfilter
    obtain ⟨stage, rest, ⟨-, hstage'⟩, hrest, rfl⟩ := hfilter
    obtain ⟨condition, hcondition, rfl⟩ := (hstage stage).mp hstage'
    rw [List.forall₂_nil_left_iff.mp hrest]
    exact ⟨condition, hcondition, rfl⟩
  · rintro ⟨condition, hcondition, rfl⟩
    refine ⟨_, rfl, ?_⟩
    rw [List.map_singleton, trim_selecting]
    exact .cons ⟨List.cons_ne_nil _ _, (hstage _).mpr ⟨condition, hcondition, rfl⟩⟩ .nil

/-- Any other condition is read only with another stage behind it. -/
theorem length_of_read_selecting (h : ¬ Text.Balanced s)
    (hread : read limit (String.ofList (selecting s)) = .ok filter) : 1 < filter.length := by
  obtain ⟨segments, hcut, hfilter⟩ := read_selecting_eq_ok_iff.mp hread
  obtain ⟨hne, hjoin, -⟩ := (Text.cutOutside_eq_ok_iff (by decide)).mp hcut
  have hlength : segments.length = filter.length := by
    rw [← hfilter.length_eq, List.length_map]
  obtain ⟨segment, rest, rfl⟩ := List.exists_cons_of_ne_nil hne
  cases rest with
  | nil =>
      -- one segment would be the whole text, which is no stage
      rw [List.intercalate_singleton] at hjoin
      rw [List.map_singleton, hjoin, trim_selecting, List.forall₂_cons_left_iff] at hfilter
      obtain ⟨stage, -, ⟨-, hstage⟩, -, -⟩ := hfilter
      rw [readStage_selecting, if_neg (h ∘ Text.isBalanced_iff.mp)] at hstage
      cases hstage
  | cons next rest =>
      rw [← hlength, List.length_cons, List.length_cons]
      omega

/-- A sign outside a comparison is in a name. -/
theorem Says.mem_field {condition : Condition} (h : Says (Text.trim s) condition)
    (hbare : condition.test = none) (hsign : c ∈ Filtering.signs) (hmem : c ∈ s) :
    ∃ name, .field name ∈ condition.path ∧ c ∈ name.toList := by
  have hnames : Path.InNames c := Path.inNames_of_mem_signs hsign
  have htrim : c ∈ Text.trim s := Text.mem_of_trim hnames.isBlank hmem
  generalize Text.trim s = s at h htrim
  cases h with
  | comparison => cases hbare
  | bare hs _ hpath =>
      subst hs
      have hpathMem := (List.mem_cons.mp htrim).resolve_left hnames.ne.1
      exact Path.mem_field_of_read hnames hpath (by rwa [String.toList_ofList])

theorem Says.isSome_test_iff {condition : Condition} (h : Says s condition) :
    condition.test.isSome = true ↔ ∃ path r literal, Compares s path r literal := by
  cases h with
  | comparison hs => exact iff_of_true rfl ⟨_, _, _, hs⟩
  | bare _ hnone =>
      exact iff_of_false Bool.false_ne_true fun ⟨path, r, literal, hs⟩ => hnone path r literal hs

/-- **What a select stage says.**  A text with `select` and brackets around it is read as one select
stage if and only if it is balanced and, without the blanks at its ends, says a condition.  A text
that is not balanced is read only as a longer chain.

The condition compares if and only if its text is a comparison.  Where it does not, every character
of a sign is in a name of its path. -/
theorem select_exact (limit : Nat) (text : String) :
    (∀ condition, read limit ("select(" ++ text ++ ")") = .ok [.select condition] ↔
      Text.Balanced text.toList ∧ Says (Text.trim text.toList) condition) ∧
    (∀ filter, read limit ("select(" ++ text ++ ")") = .ok filter →
      (∃ condition, filter = [.select condition]) ∨
        ¬ Text.Balanced text.toList ∧ 1 < filter.length) ∧
    ∀ condition, Says (Text.trim text.toList) condition →
      (condition.test.isSome = true ↔
        ∃ path r literal, Compares (Text.trim text.toList) path r literal) ∧
      (condition.test = none → ∀ c ∈ text.toList, c ∈ Filtering.signs →
        ∃ name, .field name ∈ condition.path ∧ c ∈ name.toList) := by
  have htext : "select(" ++ text ++ ")" = String.ofList (selecting text.toList) := by
    simp [← String.toList_inj, selecting]
  rw [htext]
  refine ⟨fun condition => ?_, fun filter hread => ?_, fun condition hmeans =>
    ⟨hmeans.isSome_test_iff, fun hbare c hmem hsign => hmeans.mem_field hbare hsign hmem⟩⟩
  · by_cases h : Text.Balanced text.toList
    · rw [read_selecting h]
      simp [h, readCondition_eq_ok_iff]
    · refine iff_of_false (fun hread => ?_) (fun hmeans => h hmeans.1)
      exact absurd (length_of_read_selecting h hread) (by simp)
  · by_cases h : Text.Balanced text.toList
    · obtain ⟨condition, -, hfilter⟩ := (read_selecting h).mp hread
      exact .inl ⟨condition, hfilter⟩
    · exact .inr ⟨h, length_of_read_selecting h hread⟩

/-- A comparison with a sign that begins with another, and without blanks around it. -/
theorem select_exact_at_least :
    let condition : Condition := ⟨[.field "a"], some (.ge, .number (.int 1))⟩
    read 512 "select( .a>=1 )" = .ok [.select condition] ∧
      Says ".a>=1".toList condition ∧ ∃ path r literal, Compares ".a>=1".toList path r literal := by
  intro condition
  have hread : read 512 "select( .a>=1 )" = .ok [.select condition] := rfl
  have htrim : Text.trim " .a>=1 ".toList = ".a>=1".toList := by decide
  obtain ⟨hiff, -, hmeans⟩ := select_exact 512 " .a>=1 "
  rw [htrim] at hiff hmeans
  obtain ⟨-, hcondition⟩ := (hiff condition).mp hread
  exact ⟨hread, hcondition, (hmeans condition hcondition).1.mp rfl⟩

/-- A single equality sign makes no comparison, but a name. -/
theorem select_single_equals :
    Text.Balanced ".a = 1".toList ∧ ¬ Text.Undivided '=' ".a = 1".toList ∧
      read 512 "select(.a = 1)" = .ok [.select ⟨[.field "a = 1"], none⟩] := by
  have hread : read 512 "select(.a = 1)" = .ok [.select ⟨[.field "a = 1"], none⟩] := rfl
  have hcut : Text.cutOutside ['='] ".a = 1".toList = .ok [".a ".toList, " 1".toList] := by
    decide
  refine ⟨Text.balanced_of_cutFrom (Text.cutOutside_ok.mp hcut), fun hundivided => ?_, hread⟩
  cases hcut.symm.trans hundivided.passes.cutOutside_eq

end Filter

end Quarry
