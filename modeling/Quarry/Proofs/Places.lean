import Quarry.Proofs.Literals
import Quarry.Proofs.Nesting

/-!
# Places — paths written and read

A path is written segment by segment behind the place it starts from (`Path.place`).  Without the
root, and without the dot that a first name would begin with, this is a text that can be read as a
path (`Path.write`).

A bare name has no dot, bracket, quote or blank, so it is one piece of a text, whatever follows;
any other name is quoted, and a quoted text is one piece whatever it quotes.  Hence the pieces of a
written path are those of its segments, one after another (`pieces_text`), and reading gives the
segments back (`read_write`).  There is one exception.  The name `*` is bare, but as a piece it is
a wildcard (`Segment.reread`).
-/

namespace Quarry

/-! ### Writing -/

/-- The place of what a segment leads to. -/
def Segment.place (place : String) : Segment → String
  | .field name => Place.member place name
  | .index n => Place.item place n
  | .wildcard => place ++ "[*]"

/-- What a segment adds to a place. -/
def Segment.text : Segment → List Char
  | .field name =>
      if Place.isBareName name.toList then '.' :: name.toList
      else '[' :: (Text.quoted name.toList ++ [']'])
  | .index n => '[' :: (Nat.toDigits 10 n ++ [']'])
  | .wildcard => ['[', '*', ']']

/-- What a written segment is read as: a name `*` is taken for a wildcard. -/
def Segment.reread : Segment → Segment
  | .field name => if name = "*" then .wildcard else .field name
  | segment => segment

namespace Path

/-- The place of what a path leads to. -/
def place (root : String) (path : Path) : String :=
  path.foldl Segment.place root

/-- A path as text: its place without a root, and without a dot at the front. -/
def write (path : Path) : String :=
  String.ofList (Text.dropLeading '.' (path.place "").toList)

/-- What a written path is read as. -/
def reread (path : Path) : Path :=
  path.map Segment.reread

end Path

theorem Segment.place_toList (place : String) (segment : Segment) :
    (segment.place place).toList = place.toList ++ segment.text := by
  cases segment with
  | field name =>
      simp only [Segment.place, Place.member, text]
      split <;> simp
  | index n => simp [Segment.place, Place.item, text]
  | wildcard => simp [Segment.place, text]

theorem Path.place_toList (root : String) (path : Path) :
    (path.place root).toList = root.toList ++ path.flatMap Segment.text := by
  induction path generalizing root with
  | nil => simp [place]
  | cons segment path ih =>
      have hrest := ih (segment.place root)
      rw [Segment.place_toList, List.append_assoc] at hrest
      rw [List.flatMap_cons]
      exact hrest

theorem Path.write_toList (path : Path) :
    path.write.toList = Text.dropLeading '.' (path.flatMap Segment.text) := by
  rw [write, String.toList_ofList, place_toList]
  rfl

/-! ### Bare names -/

namespace Place

theorem isBare_iff {c : Char} :
    isBare c = true ↔
      Path.endsName c = false ∧ Text.isQuote c = false ∧ Text.isBlank c = false := by
  simp only [isBare, Path.endsName, Text.isQuote, Bool.and_eq_true, bne_iff_ne, ne_eq,
    Bool.not_eq_true', Bool.or_eq_false_iff, decide_eq_false_iff_not]
  tauto

theorem isBareName_iff {name : List Char} :
    isBareName name = true ↔ name ≠ [] ∧ ∀ c ∈ name, isBare c = true := by
  simp [isBareName]

end Place

/-! ### Brackets -/

namespace Text

/-- The written form of a character inside quotes is passed over. -/
theorem delimited?_encodeChar (c : Char) (s : List Char) :
    delimited? '"' (encodeChar c ++ s) =
      (delimited? '"' s).map fun (text, rest) => (encodeChar c ++ text, rest) := by
  have hplain : ∀ d t, d ≠ '"' ∧ d ≠ '\\' → delimited? '"' (d :: t) =
      (delimited? '"' t).map fun (text, rest) => (d :: text, rest) := by
    intro d t hd
    rw [delimited?.eq_def]
    simp only [if_neg hd.1, if_neg hd.2]
  have hprotected : ∀ d t, d ≠ '\n' → delimited? '"' ('\\' :: d :: t) =
      (delimited? '"' t).map fun (text, rest) => ('\\' :: d :: text, rest) := by
    intro d t hd
    rw [delimited?.eq_def]
    simp only [Char.reduceEq, if_neg hd, ↓reduceIte]
  rw [encodeChar]
  cases he : shortEscape? c with
  | some e =>
      have hbreak : e ≠ '\n' := by
        rintro rfl
        have := shortEscaped?_of_shortEscape? he
        cases this
      exact hprotected e s hbreak
  | none =>
      simp only
      split
      · have hdigit : ∀ m, hexDigit (m % 16) ≠ '"' ∧ hexDigit (m % 16) ≠ '\\' := fun m =>
          hexDigit_ne _ (Nat.mod_lt _ (by decide))
        simp only [unicodeEscape, hex_four, List.cons_append, List.nil_append]
        rw [hprotected _ _ (by decide), hplain _ _ (hdigit _), hplain _ _ (hdigit _),
          hplain _ _ (hdigit _), hplain _ _ (hdigit _)]
        simp only [Option.map_map, Function.comp_def]
      · exact hplain c s (ne_of_shortEscape?_eq_none he)

theorem delimited?_encode (s rest : List Char) :
    delimited? '"' (encode s ++ '"' :: rest) = some (encode s ++ ['"'], rest) := by
  induction s with
  | nil =>
      rw [delimited?.eq_def]
      rfl
  | cons c s ih =>
      rw [encode_cons, List.append_assoc, delimited?_encodeChar, ih]
      simp

end Text

namespace Path

/-- Brackets hold a quoted text whatever it quotes. -/
theorem bracket?_quoted (s rest : List Char) :
    bracket? (Text.quoted s ++ ']' :: rest) = some (Text.quoted s, rest) := by
  have hdelimited := Text.delimited?_encode s (']' :: rest)
  have hquoted : quotedBracket? (Text.quoted s ++ ']' :: rest) = some (Text.quoted s, rest) := by
    have hfront : Stops Text.isBlank (Text.quoted s ++ ']' :: rest) := stops_cons.mpr rfl
    have hback : Stops Text.isBlank (']' :: rest) := stops_cons.mpr rfl
    rw [quotedBracket?, dropWhile_of_stops hfront]
    simp only [Text.quoted, List.cons_append, List.append_assoc, List.nil_append,
      (by decide : Text.isQuote '"' = true), ↓reduceIte, hdelimited, dropWhile_of_stops hback]
  rw [bracket?, hquoted]

/-- A character that brackets hold as it is. -/
def isInner (c : Char) : Bool :=
  c != ']' && !Text.isQuote c && !Text.isBlank c

/-- Brackets hold a text without quotes up to the closing one. -/
theorem bracket?_inner {s : List Char} (hne : s ≠ []) (h : ∀ c ∈ s, isInner c = true)
    (rest : List Char) : bracket? (s ++ ']' :: rest) = some (s, rest) := by
  have hspan : (s ++ ']' :: rest).span (· ≠ ']') = (s, ']' :: rest) := by
    refine span_append_of_stops (fun c hc => ?_) (stops_cons.mpr rfl)
    have := h c hc
    simp only [isInner, Bool.and_eq_true, bne_iff_ne] at this
    exact decide_eq_true this.1.1
  obtain ⟨c, s, rfl⟩ := List.exists_cons_of_ne_nil hne
  have hc := h c List.mem_cons_self
  simp only [isInner, Bool.and_eq_true, Bool.not_eq_true'] at hc
  have hunquoted : quotedBracket? (c :: s ++ ']' :: rest) = none := by
    rw [quotedBracket?, List.cons_append, dropWhile_of_stops (stops_cons.mpr hc.2)]
    simp only [hc.1.2, Bool.false_eq_true, ↓reduceIte]
  rw [bracket?, hunquoted, hspan]

theorem isInner_of_isDigit {c : Char} (h : c.isDigit = true) : isInner c = true :=
  literalPart_forall (p := fun c => isInner c = true) (by decide)
    (isLiteralPart_of_isDigit h)

/-! ### Pieces -/

/-- The pieces of a segment. -/
def segmentPieces : Segment → List Piece
  | .field name =>
      if Place.isBareName name.toList then [.dot, .name name.toList]
      else [.bracket (Text.quoted name.toList)]
  | .index n => [.bracket (Nat.toDigits 10 n)]
  | .wildcard => [.bracket ['*']]

theorem piecesFrom_dot (length fuel : Nat) (s : List Char) :
    piecesFrom length (fuel + 1) ('.' :: s) = .dot :: piecesFrom length fuel s := by
  rw [piecesFrom, if_pos rfl]

theorem piecesFrom_bracket {s inner rest : List Char} (h : bracket? s = some (inner, rest))
    (htrim : Text.Trimmed inner) (length fuel : Nat) :
    piecesFrom length (fuel + 1) ('[' :: s) = .bracket inner :: piecesFrom length fuel rest := by
  rw [piecesFrom, if_neg (by decide), if_pos rfl, h]
  simp only [Text.trim_of_trimmed htrim]

/-- A written path begins where a name ends. -/
theorem stops_text (path : Path) :
    Stops (fun c => !endsName c) (path.flatMap Segment.text) := by
  cases path with
  | nil => exact stops_nil
  | cons segment path =>
      rw [List.flatMap_cons]
      cases segment with
      | field name =>
          rw [Segment.text]
          split <;> exact stops_cons.mpr rfl
      | index n => exact stops_cons.mpr rfl
      | wildcard => exact stops_cons.mpr rfl

theorem trimmed_toDigits (n : Nat) : Text.Trimmed (Nat.toDigits 10 n) :=
  Text.trimmed_of_forall fun c hc => by
    have := isInner_of_isDigit (allDigits_toDigits n c hc)
    simp only [isInner, Bool.and_eq_true, Bool.not_eq_true'] at this
    exact this.2

/-- A segment is a dot and a bare name, or stands in brackets. -/
theorem segment_cases (segment : Segment) :
    (∃ name, segment.text = '.' :: name ∧ segmentPieces segment = [.dot, .name name] ∧
      Place.isBareName name = true) ∨
    ∃ inner, segment.text = '[' :: (inner ++ [']']) ∧ segmentPieces segment = [.bracket inner] ∧
      Text.Trimmed inner ∧ ∀ rest, bracket? (inner ++ ']' :: rest) = some (inner, rest) := by
  cases segment with
  | field name =>
      rw [Segment.text, segmentPieces]
      by_cases hbare : Place.isBareName name.toList = true
      · rw [if_pos hbare, if_pos hbare]
        exact .inl ⟨_, rfl, rfl, hbare⟩
      · rw [if_neg hbare, if_neg hbare]
        exact .inr ⟨_, rfl, rfl, trimmed_quoted _, bracket?_quoted _⟩
  | index n =>
      refine .inr ⟨_, rfl, rfl, trimmed_toDigits n, bracket?_inner Nat.toDigits_ne_nil ?_⟩
      exact fun c hc => isInner_of_isDigit (allDigits_toDigits n c hc)
  | wildcard =>
      exact .inr ⟨['*'], rfl, rfl, Text.trimmed_of_forall (chars_forall (by decide)),
        bracket?_inner (by decide) (chars_forall (by decide))⟩

/-- A segment takes its pieces off the front of a text. -/
theorem piecesFrom_segment (segment : Segment) {rest : List Char}
    (hrest : Stops (fun c => !endsName c) rest) (length : Nat) {fuel : Nat}
    (hfuel : (segment.text ++ rest).length ≤ fuel) :
    ∃ fuel', rest.length ≤ fuel' ∧
      piecesFrom length fuel (segment.text ++ rest) =
        segmentPieces segment ++ piecesFrom length fuel' rest := by
  rcases segment_cases segment with
    ⟨name, htext, hpieces, hbare⟩ | ⟨inner, htext, hpieces, htrim, hinner⟩
  · obtain ⟨hne, hchars⟩ := Place.isBareName_iff.mp hbare
    have hname : ∀ c ∈ name, endsName c = false := fun c hc =>
      (Place.isBare_iff.mp (hchars c hc)).1
    have hpos := List.length_pos_iff.mpr hne
    rw [htext, List.cons_append, List.length_cons, List.length_append] at hfuel
    -- one step for the dot and one for the name
    obtain ⟨fuel, rfl⟩ : ∃ n, fuel = n + 2 := ⟨fuel - 2, by omega⟩
    refine ⟨fuel, by omega, ?_⟩
    rw [htext, hpieces, List.cons_append, piecesFrom_dot, piecesFrom_name hne hname hrest]
    rfl
  · rw [htext, List.cons_append, List.length_cons, List.append_assoc, List.length_append,
      List.length_append] at hfuel
    obtain ⟨fuel, rfl⟩ := Nat.exists_eq_add_one.mpr (Nat.zero_lt_of_lt hfuel)
    refine ⟨fuel, by omega, ?_⟩
    rw [htext, hpieces, List.cons_append, List.append_assoc, List.singleton_append,
      piecesFrom_bracket (hinner rest) htrim]
    rfl

/-- **The pieces of a written path** are those of its segments. -/
theorem piecesFrom_text (path : Path) (length : Nat) {fuel : Nat}
    (hfuel : (path.flatMap Segment.text).length ≤ fuel) :
    piecesFrom length fuel (path.flatMap Segment.text) = path.flatMap segmentPieces := by
  induction path generalizing fuel with
  | nil => exact piecesFrom_nil length fuel
  | cons segment path ih =>
      rw [List.flatMap_cons] at hfuel ⊢
      obtain ⟨fuel', hfuel', hpieces⟩ :=
        piecesFrom_segment segment (stops_text path) length hfuel
      rw [hpieces, ih hfuel', List.flatMap_cons]

/-! ### Reading -/

/-- An index in brackets, if it has few enough digits. -/
theorem bracketSegment_index (text : String) {n : Nat} (hn : n < Number.digitBound) :
    bracketSegment text (Nat.toDigits 10 n) = .ok (.index n) := by
  have hdigits := allDigits_toDigits n
  have hstar : Nat.toDigits 10 n ≠ ['*'] := by
    intro h
    have hdigit := hdigits '*' (h ▸ List.mem_cons_self)
    cases hdigit
  have hlength : ¬ Number.digitLimit < (Nat.toDigits 10 n).length :=
    Nat.not_lt.mpr ((Nat.length_toDigits_le_iff (by decide) (by decide)).mpr hn)
  rw [bracketSegment]
  simp only [if_neg hstar, Text.isNumeral_toDigits, ↓reduceIte, if_neg hlength,
    Text.naturalOf_toDigits]

/-- A quoted name in brackets, whatever the name is. -/
theorem bracketSegment_quoted (text name : String) :
    bracketSegment text (Text.quoted name.toList) = .ok (.field name) := by
  have hstar : Text.quoted name.toList ≠ ['*'] := by
    rintro ⟨⟩
  have hnumeral : Text.isNumeral (Text.quoted name.toList) = false := rfl
  rw [bracketSegment]
  simp only [if_neg hstar, hnumeral, Bool.false_eq_true, ↓reduceIte, Literal.unquote?_quoted]

theorem nameSegment_bare {name : String} (h : Place.isBareName name.toList = true) :
    nameSegment name.toList = (Segment.field name).reread := by
  obtain ⟨-, hchars⟩ := Place.isBareName_iff.mp h
  have htrim : Text.trim name.toList = name.toList :=
    Text.trim_of_trimmed (Text.trimmed_of_forall fun c hc =>
      (Place.isBare_iff.mp (hchars c hc)).2.2)
  have hstar : name.toList = ['*'] ↔ name = "*" := by
    rw [← String.toList_inj]
    rfl
  simp only [nameSegment, htrim, hstar, Segment.reread, String.ofList_toList]

/-- **One segment.**  The pieces of a segment are put together to the segment, a name `*` to a
wildcard. -/
theorem assemble_segment (text : String) {segment : Segment}
    (hindex : ∀ n, segment = .index n → n < Number.digitBound) (rest : List Piece) :
    assemble text false (segmentPieces segment ++ rest) =
      (do return segment.reread :: (← assemble text false rest)) := by
  cases segment with
  | field name =>
      rw [segmentPieces]
      by_cases hbare : Place.isBareName name.toList = true
      · rw [if_pos hbare, List.cons_append, List.singleton_append, assemble, assemble,
          nameSegment_bare hbare]
      · have hstar : name ≠ "*" := by
          rintro rfl
          exact hbare (by decide)
        rw [if_neg hbare, List.singleton_append, assemble, bracketSegment_quoted,
          Segment.reread, if_neg hstar]
        rfl
  | index n =>
      rw [segmentPieces, List.singleton_append, assemble, bracketSegment_index text (hindex n rfl)]
      rfl
  | wildcard => rfl

theorem assemble_pieces (text : String) {path : Path}
    (hindex : ∀ n, Segment.index n ∈ path → n < Number.digitBound) :
    assemble text false (path.flatMap segmentPieces) = .ok path.reread := by
  induction path with
  | nil => rfl
  | cons segment path ih =>
      have hsegment : ∀ n, segment = .index n → n < Number.digitBound := fun n hn =>
        hindex n (hn ▸ List.mem_cons_self)
      have hrest := ih fun n hn => hindex n (List.mem_cons_of_mem segment hn)
      rw [List.flatMap_cons, assemble_segment text hsegment, hrest]
      rfl

/-- A text may begin without the dot of its first name. -/
theorem assemble_dropLeading (text : String) (segment : Segment) (path : Path) :
    assemble text true
        (pieces (Text.dropLeading '.' ((segment :: path).flatMap Segment.text))) =
      assemble text false ((segment :: path).flatMap segmentPieces) := by
  have hwhole := fun length => piecesFrom_text (segment :: path) length (Nat.le_refl _)
  simp only [List.flatMap_cons] at hwhole ⊢
  rcases segment_cases segment with ⟨name, htext, -, -⟩ | ⟨inner, htext, hpieces, -, -⟩
  · rw [htext, List.cons_append] at hwhole ⊢
    -- all pieces but the dot
    have hrest := hwhole (name ++ path.flatMap Segment.text).length
    rw [List.length_cons, piecesFrom_dot] at hrest
    rw [Text.dropLeading, if_pos rfl, pieces, ← hrest, assemble]
  · rw [htext, List.cons_append] at hwhole ⊢
    rw [Text.dropLeading, if_neg (by decide), pieces, hwhole, hpieces, List.singleton_append,
      assemble, assemble]

/-- **Reading what was written** gives the segments back, but a name `*` as a wildcard. -/
theorem read_write {path : Path} (hindex : ∀ n, Segment.index n ∈ path → n < Number.digitBound) :
    read path.write = .ok path.reread := by
  rw [read, write_toList]
  cases path with
  | nil => rfl
  | cons segment path =>
      rw [assemble_dropLeading, assemble_pieces _ hindex]

theorem reread_eq_iff {path : Path} : path.reread = path ↔ Segment.field "*" ∉ path := by
  induction path with
  | nil => simp [reread]
  | cons segment path ih =>
      have hsegment : segment.reread = segment ↔ Segment.field "*" ≠ segment := by
        cases segment with
        | field name =>
            rw [Segment.reread]
            split
            · rename_i hname
              simp [hname]
            · rename_i hname
              simpa using Ne.symm hname
        | index n => simp [Segment.reread]
        | wildcard => simp [Segment.reread]
      rw [reread, List.map_cons, List.cons.injEq, hsegment, ← reread, ih, List.mem_cons, not_or]

/-- **Writing and reading are inverse except on one name.**  A path whose indices have few enough
digits is always read, and it is read as itself if and only if no name in it is `*`. -/
theorem read_write_eq_iff {path : Path}
    (hindex : ∀ n, Segment.index n ∈ path → n < Number.digitBound) :
    ∃ found, read path.write = .ok found ∧ (found = path ↔ Segment.field "*" ∉ path) :=
  ⟨_, read_write hindex, reread_eq_iff⟩

/-- A path of awkward names, and the path of the one name that is read as a wildcard. -/
theorem read_write_eq_iff_awkward :
    let path : Path := [.field "a.]\"b", .index 12, .field "", .field "c"]
    path.write = "[\"a.]\\\"b\"][12][\"\"].c" ∧ read path.write = .ok path ∧
      ∃ found, read (write [.field "*"]) = .ok found ∧ found ≠ [.field "*"] := by
  intro path
  have hpath : ∀ n, Segment.index n ∈ path → n < Number.digitBound := by
    intro n hn
    obtain rfl : n = 12 := by simpa [path] using hn
    calc 12 < 10 ^ 2 := by decide
      _ ≤ Number.digitBound := Nat.pow_le_pow_right (by decide) (by decide)
  have hstar : ∀ n, Segment.index n ∈ [Segment.field "*"] → n < Number.digitBound := by
    simp
  obtain ⟨found, hread, hiff⟩ := read_write_eq_iff hpath
  obtain ⟨other, hother, hotherIff⟩ := read_write_eq_iff hstar
  have hfound : found = path := hiff.mpr (by decide)
  rw [hfound] at hread
  refine ⟨by decide, hread, other, hother, ?_⟩
  simp [hotherIff]

end Path

end Quarry
