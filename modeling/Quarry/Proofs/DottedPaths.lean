import Quarry.Criteria.Basic
import Quarry.Path.Reader
import Quarry.Proofs.Scanning
import Quarry.Proofs.Values

/-!
# Dotted paths — names between dots

A text without brackets is cut at the dots, and every segment is a name (`Path.read_unbracketed`).
Only then are the blanks around names taken off, so a segment of blanks is not an empty segment but
a name, the empty one.

A path of names that are identifiers can be written with dots alone.  `Path.read` finds the names
again (`read_dotted`), and so does cutting at the dots.  The chain of names that criteria walk
leads to the same place as the path (`Field.walk_eq_follow`): an identifier is no index, so
neither looks into arrays.
-/

namespace Quarry

/-- A letter or an underscore. -/
def isNameStart (c : Char) : Bool :=
  c.isAlpha || c = '_'

/-- A letter, a digit or an underscore. -/
def isNamePart (c : Char) : Bool :=
  c.isAlphanum || c = '_'

/-- A character of a dotted path. -/
def isDottedPart (c : Char) : Bool :=
  isNamePart c || c = '.'

/-- A name of letters, digits and underscores that does not begin with a digit. -/
def IsIdentifier (name : List Char) : Prop :=
  Stops (!isNameStart ·) name ∧ name ≠ [] ∧ ∀ c ∈ name, isNamePart c = true

/-- Names between dots. -/
abbrev dotted (names : List (List Char)) : List Char :=
  List.intercalate ['.'] names

/-! ### Characters -/

theorem isNamePart_ascii {c : Char} (h : isNamePart c = true) : c.toNat < 128 := by
  simp only [isNamePart, Char.isAlphanum, Char.isDigit] at h
  delta Char.isAlpha Char.isUpper Char.isLower at h
  simp only [Bool.or_eq_true, Bool.and_eq_true, decide_eq_true_eq, UInt32.le_iff_toNat_le,
    ge_iff_le] at h
  have hc : c.toNat = c.val.toNat := rfl
  have hZ : 'Z'.val.toNat = 90 := rfl
  have hz : 'z'.val.toNat = 122 := rfl
  have h9 : '9'.val.toNat = 57 := rfl
  rcases h with h | rfl
  · omega
  · decide

/-- A property of the characters of dotted paths, checked one by one. -/
theorem dottedPart_forall {p : Char → Prop}
    (h : ∀ n < 128, isDottedPart (Char.ofNat n) = true → p (Char.ofNat n)) {c : Char}
    (hc : isDottedPart c = true) : p c := by
  have hascii : c.toNat < 128 := by
    rcases Bool.or_eq_true_iff.mp hc with hpart | hdot
    · exact isNamePart_ascii hpart
    · rw [of_decide_eq_true hdot]
      decide
  exact ascii_forall (p := fun c => isDottedPart c = true → p c) h hascii hc

theorem IsIdentifier.exists_cons {name : List Char} (h : IsIdentifier name) :
    ∃ c s, name = c :: s ∧ isNameStart c = true := by
  obtain ⟨c, s, rfl⟩ := List.exists_cons_of_ne_nil h.2.1
  exact ⟨c, s, rfl, by simpa using stops_cons.mp h.1⟩

theorem IsIdentifier.dottedPart {name : List Char} (h : IsIdentifier name) :
    ∀ c ∈ name, isDottedPart c = true :=
  fun c hc => by rw [isDottedPart, h.2.2 c hc, Bool.true_or]

theorem IsIdentifier.dot_notMem {name : List Char} (h : IsIdentifier name) : '.' ∉ name :=
  fun hdot => absurd (h.2.2 '.' hdot) (by decide)

theorem isDigit_of_isNameStart {c : Char} (h : isNameStart c = true) : Text.isDigit c = false := by
  have hpart : isDottedPart c = true := by
    simp only [isNameStart, Bool.or_eq_true, decide_eq_true_eq] at h
    simp only [isDottedPart, isNamePart, Char.isAlphanum, Bool.or_eq_true, decide_eq_true_eq]
    tauto
  exact dottedPart_forall (p := fun c => isNameStart c = true → Text.isDigit c = false)
    (by decide) hpart h

/-- An identifier is not an index. -/
theorem IsIdentifier.isNumeral {name : List Char} (h : IsIdentifier name) :
    Text.isNumeral name = false := by
  obtain ⟨c, s, rfl, hc⟩ := h.exists_cons
  simp [Text.isNumeral, isDigit_of_isNameStart hc]

/-- The characters of a dotted path. -/
theorem dotted_forall {names : List (List Char)} (h : ∀ name ∈ names, IsIdentifier name) :
    ∀ c ∈ dotted names, isDottedPart c = true := by
  induction names with
  | nil => nofun
  | cons name names ih =>
      have hname := (h name List.mem_cons_self).dottedPart
      cases names with
      | nil => rwa [dotted, List.intercalate_singleton]
      | cons name' names =>
          have hrest := ih fun n hn => h n (List.mem_cons_of_mem name hn)
          rw [dotted, List.intercalate_cons_cons]
          intro c hc
          rcases List.mem_append.mp hc with hc | hc
          · rcases List.mem_append.mp hc with hc | hc
            · exact hname c hc
            · rw [List.mem_singleton.mp hc]
              rfl
          · exact hrest c hc

/-- A dotted path begins like a name. -/
theorem dotted_cons {names : List (List Char)} (hne : names ≠ [])
    (h : ∀ name ∈ names, IsIdentifier name) :
    ∃ c s, dotted names = c :: s ∧ isNameStart c = true := by
  obtain ⟨name, names, rfl⟩ := List.exists_cons_of_ne_nil hne
  obtain ⟨c, s, rfl, hc⟩ := (h name List.mem_cons_self).exists_cons
  cases names with
  | nil => exact ⟨c, s, List.intercalate_singleton, hc⟩
  | cons name' names =>
      exact ⟨c, s ++ ['.'] ++ dotted (name' :: names), List.intercalate_cons_cons, hc⟩

namespace Text

variable {sep : Char} {s : List Char}

/-- Cutting at every occurrence of a character splits the list there. -/
theorem cutAll_eq_splitOn (sep : Char) (s : List Char) : cutAll sep s = s.splitOn sep := by
  induction s with
  | nil => rw [cutAll, List.splitOn_nil]
  | cons c s ih =>
      obtain ⟨part, parts, hparts⟩ := List.exists_cons_of_ne_nil (List.splitOn_ne_nil sep s)
      rw [cutAll, ih, List.splitOn_cons_eq_if_modifyHead, hparts]
      simp only [beq_iff_eq, List.modifyHead_cons]

/-- The parts have the characters of the text other than the separator. -/
theorem forall_mem_splitOn {p : Char → Prop} (h : ∀ c ∈ s, c ≠ sep → p c) :
    ∀ part ∈ s.splitOn sep, ∀ c ∈ part, p c := by
  induction s with
  | nil => simp
  | cons c s ih =>
      obtain ⟨hc, hs⟩ := List.forall_mem_cons.mp h
      obtain ⟨part, parts, hparts⟩ := List.exists_cons_of_ne_nil (List.splitOn_ne_nil sep s)
      have hrest := ih hs
      rw [List.splitOn_cons_eq_if_modifyHead]
      split
      · exact List.forall_mem_cons.mpr ⟨List.forall_mem_nil _, hrest⟩
      · rename_i hne
        rw [hparts] at hrest ⊢
        obtain ⟨hpart, hrest⟩ := List.forall_mem_cons.mp hrest
        have hfirst : p c := hc fun heq => hne (beq_iff_eq.mpr heq)
        exact List.forall_mem_cons.mpr ⟨List.forall_mem_cons.mpr ⟨hfirst, hpart⟩, hrest⟩

end Text

/-! ### Reading -/

namespace Path

/-- The path of members with the given names. -/
def fields (names : List (List Char)) : Path :=
  names.map fun name => .field (String.ofList name)

theorem nameSegment_identifier {name : List Char} (h : IsIdentifier name) :
    nameSegment name = .field (String.ofList name) := by
  have htrim : Text.trim name = name :=
    Text.trim_of_trimmed (Text.trimmed_of_forall fun c hc =>
      dottedPart_forall (p := fun c => Text.isBlank c = false) (by decide)
        (h.dottedPart c hc))
  have hstar : name ≠ ['*'] := by
    rintro rfl
    exact absurd (h.2.2 '*' List.mem_cons_self) (by decide)
  simp only [nameSegment, htrim, if_neg hstar]

theorem endsName_of_identifier {name : List Char} (h : IsIdentifier name) :
    ∀ c ∈ name, endsName c = false := fun c hc =>
  dottedPart_forall (p := fun c => isNamePart c = true → endsName c = false)
    (by decide) (h.dottedPart c hc) (h.2.2 c hc)

/-- A name is one piece. -/
theorem piecesFrom_name {name rest : List Char} (hne : name ≠ [])
    (hname : ∀ c ∈ name, endsName c = false) (hrest : Stops (fun c => !endsName c) rest)
    (length fuel : Nat) :
    piecesFrom length (fuel + 1) (name ++ rest) = .name name :: piecesFrom length fuel rest := by
  have hspan : (name ++ rest).span (fun c => !endsName c) = (name, rest) :=
    span_append_of_stops (fun c hc => by rw [hname c hc]; rfl) hrest
  obtain ⟨c, s, rfl⟩ := List.exists_cons_of_ne_nil hne
  have hc := hname c List.mem_cons_self
  simp only [endsName, Bool.or_eq_false_iff, decide_eq_false_iff_not] at hc
  rw [List.cons_append] at hspan ⊢
  rw [piecesFrom, if_neg hc.1.1, if_neg hc.1.2, if_neg hc.2, hspan]

@[simp] theorem piecesFrom_nil (length fuel : Nat) : piecesFrom length fuel [] = [] := by
  cases fuel <;> rfl

/-- One segment with a dot behind it is a name, and then the reading starts again. -/
theorem assemble_name_dot (text : String) (length fuel : Nat) {segment : List Char}
    (hne : segment ≠ []) (h : ∀ c ∈ segment, endsName c = false) (rest : List Char) :
    assemble text true (piecesFrom length (fuel + 2) (segment ++ '.' :: rest)) = (do
      return nameSegment segment :: (← assemble text true (piecesFrom length fuel rest))) := by
  have hdot : Stops (fun c => !endsName c) ('.' :: rest) := stops_cons.mpr rfl
  rw [piecesFrom_name hne h hdot, piecesFrom, if_pos rfl, assemble, assemble]

/-- **Segments between dots.**  The first empty segment stops the reading: a dot stands where a
segment is expected, or else the text ends there.  Without one, every segment is a name. -/
theorem assemble_segments {text : String} (htext : text ≠ "") (length : Nat)
    {segments : List (List Char)} (hne : segments ≠ [])
    (h : ∀ segment ∈ segments, ∀ c ∈ segment, endsName c = false) {fuel : Nat}
    (hfuel : (dotted segments).length ≤ fuel) :
    assemble text true (piecesFrom length fuel (dotted segments)) =
      if [] ∈ segments.dropLast then .error (.query (.path (.emptySegment text)))
      else if [] ∈ segments then .error (.query (.path (.trailingDot text)))
      else .ok (segments.map nameSegment) := by
  induction segments generalizing fuel with
  | nil => exact absurd rfl hne
  | cons segment segments ih =>
      obtain ⟨hsegment, hrest⟩ := List.forall_mem_cons.mp h
      cases segments with
      | nil =>
          rw [dotted, List.intercalate_singleton] at *
          cases segment with
          | nil => simp [assemble, String.isEmpty_iff, htext]
          | cons c s =>
              obtain ⟨fuel, rfl⟩ := Nat.exists_eq_add_one.mpr (Nat.zero_lt_of_lt hfuel)
              have hpieces :=
                piecesFrom_name (List.cons_ne_nil c s) hsegment stops_nil length fuel
              rw [List.append_nil, piecesFrom_nil] at hpieces
              rw [hpieces, assemble]
              rfl
      | cons next segments =>
          rw [dotted, List.intercalate_cons_cons, List.length_append, List.length_append,
            List.length_singleton] at hfuel
          rw [dotted, List.intercalate_cons_cons, List.append_assoc, List.singleton_append,
            List.dropLast_cons_cons]
          cases segment with
          | nil =>
              rw [List.length_nil] at hfuel
              obtain ⟨fuel, rfl⟩ : ∃ n, fuel = n + 1 := ⟨fuel - 1, by omega⟩
              rw [List.nil_append, piecesFrom, if_pos rfl, assemble, if_pos List.mem_cons_self]
          | cons c s =>
              -- one step for the name and one for the dot
              rw [List.length_cons] at hfuel
              obtain ⟨fuel, rfl⟩ : ∃ n, fuel = n + 2 := ⟨fuel - 2, by omega⟩
              have hlength : (dotted (next :: segments)).length ≤ fuel := by
                rw [dotted]
                omega
              rw [assemble_name_dot text length fuel (List.cons_ne_nil c s) hsegment,
                ih (List.cons_ne_nil _ _) hrest hlength]
              simp only [List.mem_cons, List.nil_eq, reduceCtorEq, false_or]
              split
              · rfl
              · split <;> rfl

/-- What is read of segments between dots. -/
theorem read_segments {segments : List (List Char)} (hne : dotted segments ≠ [])
    (h : ∀ segment ∈ segments, ∀ c ∈ segment, endsName c = false) :
    read (String.ofList (dotted segments)) =
      if [] ∈ segments.dropLast then
        .error (.query (.path (.emptySegment (String.ofList (dotted segments)))))
      else if [] ∈ segments then
        .error (.query (.path (.trailingDot (String.ofList (dotted segments)))))
      else .ok (segments.map nameSegment) := by
  have hsegments : segments ≠ [] := by
    rintro rfl
    exact hne rfl
  have htext : String.ofList (dotted segments) ≠ "" := fun heq =>
    hne (by simpa using congrArg String.toList heq)
  rw [read, pieces, String.toList_ofList]
  exact assemble_segments htext _ hsegments h (Nat.le_refl _)

/-- **A dotted path is read as its names.** -/
theorem read_dotted {names : List (List Char)} (hne : names ≠ [])
    (h : ∀ name ∈ names, IsIdentifier name) :
    read (String.ofList (dotted names)) = .ok (fields names) := by
  obtain ⟨c, s, hcons, -⟩ := dotted_cons hne h
  have hnil : [] ∉ names := fun hmem => (h [] hmem).2.1 rfl
  have hnil' : [] ∉ names.dropLast := fun hmem => hnil (List.dropLast_subset names hmem)
  rw [read_segments (hcons ▸ List.cons_ne_nil c s)
      fun name hn => endsName_of_identifier (h name hn),
    if_neg hnil', if_neg hnil, fields]
  exact congrArg Except.ok (List.map_congr_left fun name hn => nameSegment_identifier (h name hn))

/-- A text without brackets is cut at the dots. -/
theorem read_splitOn {text : String} (hopen : '[' ∉ text.toList) (hclose : ']' ∉ text.toList)
    (htext : text ≠ "") :
    read text =
      if [] ∈ (text.toList.splitOn '.').dropLast then
        .error (.query (.path (.emptySegment text)))
      else if [] ∈ text.toList.splitOn '.' then .error (.query (.path (.trailingDot text)))
      else .ok ((text.toList.splitOn '.').map nameSegment) := by
  have hdotted : dotted (text.toList.splitOn '.') = text.toList := List.intercalate_splitOn '.'
  have hends : ∀ c ∈ text.toList, c ≠ '.' → endsName c = false := fun c hc hdot => by
    have hc' : c ≠ '[' ∧ c ≠ ']' := ⟨ne_of_mem_of_not_mem hc hopen, ne_of_mem_of_not_mem hc hclose⟩
    simp [endsName, hdot, hc']
  have hne : dotted (text.toList.splitOn '.') ≠ [] := by simpa [hdotted] using htext
  have hread := read_segments hne (Text.forall_mem_splitOn hends)
  rwa [hdotted, String.ofList_toList] at hread

/-- **Paths without brackets** are cut at the dots.  A text is read if it is empty or no segment is
empty, and then every segment is a name without the blanks around it, or a wildcard; otherwise it
is refused for the first empty segment.  It is as if the segments were trimmed before they are
looked at, unless there are segments of blanks only and none that is empty: such a text is read
too, and a segment of blanks is the empty name. -/
theorem read_unbracketed {text : String} (hopen : '[' ∉ text.toList) (hclose : ']' ∉ text.toList) :
    let segments := text.toList.splitOn '.'
    (∀ path, read text = .ok path ↔
      text = "" ∧ path = [] ∨
      [] ∉ segments ∧ path = segments.map fun segment =>
        if Text.trim segment = ['*'] then .wildcard
        else .field (String.ofList (Text.trim segment))) ∧
    (∀ fault, read text = .error fault ↔
      text ≠ "" ∧ [] ∈ segments ∧ fault = .query (.path
        (if [] ∈ segments.dropLast then .emptySegment text else .trailingDot text))) ∧
    (((∃ path, read text = .ok path) ↔
        text = "" ∨ ∀ segment ∈ segments, Text.trim segment ≠ []) ↔
      text = "" ∨ [] ∈ segments ∨ ∀ segment ∈ segments, Text.trim segment ≠ []) := by
  intro segments
  -- the empty text has one empty segment and is read all the same
  by_cases htext : text = ""
  · subst htext
    have hread : read "" = .ok [] := rfl
    have hempty : [] ∈ segments := by simp [segments]
    refine ⟨fun path => ?_, fun fault => ?_, ?_⟩
    · simp [hread, hempty, eq_comm (b := path)]
    · simp [hread]
    · simp [hread]
  have hread := read_splitOn hopen hclose htext
  -- a segment is refused if it is empty, and not if it is blank
  by_cases hempty : [] ∈ segments
  · have hfault : read text = .error (.query (.path
        (if [] ∈ segments.dropLast then .emptySegment text else .trailingDot text))) := by
      rw [hread, if_pos hempty]
      split <;> rfl
    have hblank : ¬ ∀ segment ∈ segments, Text.trim segment ≠ [] := fun h => h [] hempty rfl
    refine ⟨fun path => ?_, fun fault => ?_, ?_⟩
    · simp [hfault, htext, hempty]
    · simp [hfault, htext, hempty, eq_comm (b := fault)]
    · simp only [hfault, htext, hempty, hblank, reduceCtorEq, exists_false, false_or, true_or]
  · have hok : read text = .ok (segments.map nameSegment) := by
      rw [hread, if_neg fun hmem => hempty (List.dropLast_subset segments hmem), if_neg hempty]
    refine ⟨fun path => ?_, fun fault => ?_, ?_⟩
    · rw [hok]
      constructor
      · exact fun h => .inr ⟨hempty, (Except.ok.inj h).symm⟩
      · rintro (⟨hnil, -⟩ | ⟨-, rfl⟩)
        · exact absurd hnil htext
        · rfl
    · simp [hok, hempty]
    · simp [hok, htext, hempty]

/-- Blanks around a name, a wildcard, and a segment of blanks. -/
theorem read_unbracketed_blanks :
    '[' ∉ " a .*. ".toList ∧ ']' ∉ " a .*. ".toList ∧
      read " a .*. " = .ok [.field "a", .wildcard, .field ""] := by
  have hopen : '[' ∉ " a .*. ".toList := by decide
  have hclose : ']' ∉ " a .*. ".toList := by decide
  refine ⟨hopen, hclose, ((read_unbracketed hopen hclose).1 _).mpr (.inr ⟨?_, ?_⟩)⟩
  · decide
  · decide

/-- A segment of blanks is empty when it is trimmed, and is read nevertheless. -/
theorem read_blank_segment :
    '[' ∉ "a. .b".toList ∧ ']' ∉ "a. .b".toList ∧
      ¬ ((∃ path, read "a. .b" = .ok path) ↔
        "a. .b" = "" ∨ ∀ segment ∈ "a. .b".toList.splitOn '.', Text.trim segment ≠ []) := by
  have hread : read "a. .b" = .ok [.field "a", .field "", .field "b"] := rfl
  refine ⟨by decide, by decide, fun hiff => ?_⟩
  rcases hiff.mp ⟨_, hread⟩ with hnil | htrim
  · exact absurd hnil (by decide)
  · exact htrim [' '] (by decide) (by decide)

theorem hasWildcard_fields (names : List (List Char)) : (fields names).hasWildcard = false := by
  simp [hasWildcard, fields]

/-- A path without wildcards is followed. -/
theorem resolve_eq_follow {path : Path} (h : path.hasWildcard = false) (v : Value) (spread : Bool) :
    path.resolve v spread = path.follow spread v := by
  rw [resolve, h]
  rfl

theorem resolve_field (name : String) (v : Value) :
    resolve [.field name] v false = v.member? name := by
  rw [resolve_eq_follow rfl, follow]
  cases v with
  | object members =>
      rw [Segment.follow, Value.member?]
      cases Members.find? members name <;> rfl
  | _ => rfl

theorem resolve_fields (names : List (List Char)) (v : Value) (spread : Bool) :
    (fields names).resolve v spread = (fields names).follow spread v :=
  resolve_eq_follow (hasWildcard_fields names) v spread

theorem resolveText_dotted {names : List (List Char)} (hne : names ≠ [])
    (h : ∀ name ∈ names, IsIdentifier name) (v : Value) :
    resolveText (String.ofList (dotted names)) v = .ok ((fields names).follow false v) := by
  rw [resolveText, read_dotted hne h]
  exact congrArg Except.ok (resolve_fields names v false)

/-- What a path of names leads to sits inside the value. -/
theorem inside_of_follow {names : List (List Char)} {v w : Value}
    (h : (fields names).follow false v = some w) : ∃ k, Value.Inside k w v := by
  induction names generalizing v with
  | nil =>
      cases h
      exact ⟨0, .here _⟩
  | cons name names ih =>
      cases v with
      | object members =>
          simp only [fields, List.map_cons, follow, Segment.follow] at h
          split at h
          · rename_i u hu
            obtain ⟨k, hk⟩ := ih h
            exact ⟨k + 1, .member (Members.mem_of_find? hu) hk⟩
          · cases h
      | _ => cases h

end Path

/-! ### Walking -/

namespace Field

theorem walk_none (names : List (List Char)) : walk none names = .ok none := by
  cases names <;> rfl

/-- Walking along names leads where their path leads. -/
theorem walk_eq_follow {names : List (List Char)} (h : ∀ name ∈ names, IsIdentifier name)
    (v : Value) : walk (some v) names = .ok ((Path.fields names).follow false v) := by
  induction names generalizing v with
  | nil => rfl
  | cons name names ih =>
      cases v with
      | object members =>
          simp only [walk, Path.fields, List.map_cons, Path.follow, Segment.follow]
          cases hfound : Members.find? members (String.ofList name) with
          | none => exact walk_none names
          | some w => exact ih (fun n hn => h n (List.mem_cons_of_mem name hn)) w
      | array items =>
          -- an identifier is not an index
          rw [walk, item?, (h name List.mem_cons_self).isNumeral]
          exact walk_none names
      | _ => rfl

/-- **The field of an object under a dotted path** is what the path leads to, unless the path has
dots and there is a member of exactly its name. -/
theorem find_dotted {names : List (List Char)} (hne : names ≠ [])
    (h : ∀ name ∈ names, IsIdentifier name) {members : List (String × Value)}
    (hliteral : 1 < names.length → Members.find? members (String.ofList (dotted names)) = none) :
    find members (String.ofList (dotted names)) =
      .ok ((Path.fields names).follow false (.object members)) := by
  cases hfound : Members.find? members (String.ofList (dotted names)) with
  | some v =>
      -- only a single name can be that of a member
      obtain ⟨name, rfl⟩ : ∃ name, names = [name] := by
        obtain ⟨name, names, rfl⟩ := List.exists_cons_of_ne_nil hne
        cases names with
        | nil => exact ⟨name, rfl⟩
        | cons name' names =>
            rw [hliteral (by simp)] at hfound
            cases hfound
      rw [find, hfound]
      rw [dotted, List.intercalate_singleton] at hfound
      simp only [Path.fields, List.map_cons, Path.follow, Segment.follow, hfound]
      rfl
  | none =>
      rw [find, hfound, String.toList_ofList, Text.cutAll_eq_splitOn,
        List.splitOn_intercalate '.' (fun name hn => (h name hn).dot_notMem) hne]
      simp only
      split
      · rename_i name
        rw [dotted, List.intercalate_singleton] at hfound
        simp only [Path.fields, List.map_cons, Path.follow, Segment.follow, hfound]
      · exact walk_eq_follow h _

end Field

end Quarry
