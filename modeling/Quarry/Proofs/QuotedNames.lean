import Quarry.Proofs.Matches
import Quarry.Proofs.Projections
import Quarry.Proofs.Signs

/-!
# Quoted names — what may be in them, and where

A name of any characters can be written in quotes and brackets, and a path of such names is read as
these (`Path.read_bracketed`).  Behind a dot it is a filter of one stage, as all that cuts or sorts
filter texts goes by the quotes (`Filter.read_quoted_names`).

Conditions and projections do not go by the quotes when they look for the end of a path.  In a
condition it is before the first blank or character of a sign, and in a projection before the first
colon.  Where such a character is in a quoted name, what is cut off is the front of the name with
its opening quote only.  This is not read as the name, if it is read at all, since that character is
missing (`Path.read_cut`).  Then the condition cannot tell an object that has the member from one
that lacks it (`Filter.select_quoted_iff`), and the projection does not find the member
(`Reshaping.map_quoted_iff`).  Where there is no such character, both find it.

Control characters are written as escapes, so among the blanks they are harmless.
-/

namespace Quarry

/-! ### Paths of quoted names -/

namespace Path

/-- Quoted names in brackets, one after another. -/
def bracketed (names : List String) : List Char :=
  names.flatMap fun name => '[' :: (Text.quoted name.toList ++ [']'])

variable {name : String} {names : List String}

theorem bracketed_cons (name : String) (names : List String) :
    bracketed (name :: names) =
      '[' :: (Text.quoted name.toList ++ ']' :: bracketed names) := by
  simp [bracketed]

theorem piecesFrom_bracketed (length : Nat) {fuel : Nat}
    (hfuel : (bracketed names).length ≤ fuel) :
    piecesFrom length fuel (bracketed names) =
      names.map fun name => .bracket (Text.quoted name.toList) := by
  induction names generalizing fuel with
  | nil => exact piecesFrom_nil length fuel
  | cons name names ih =>
      rw [bracketed_cons, List.length_cons, List.length_append, List.length_cons] at hfuel
      obtain ⟨fuel, rfl⟩ := Nat.exists_eq_add_one.mpr (Nat.zero_lt_of_lt hfuel)
      rw [bracketed_cons, piecesFrom_bracket (bracket?_quoted _ _) (trimmed_quoted _),
        ih (by omega), List.map_cons]

theorem assemble_bracketed (text : String) (names : List String) :
    assemble text false (names.map fun name => .bracket (Text.quoted name.toList)) =
      .ok (names.map .field) := by
  induction names with
  | nil => rfl
  | cons name names ih =>
      rw [List.map_cons, assemble, bracketSegment_quoted, ih]
      rfl

/-- **A path of quoted names** leads to the members with these names. -/
theorem read_bracketed (names : List String) :
    read (String.ofList (bracketed names)) = .ok (names.map .field) := by
  rw [read, String.toList_ofList, pieces, piecesFrom_bracketed _ (Nat.le_refl _)]
  cases names with
  | nil => rfl
  | cons name names =>
      rw [List.map_cons, assemble, bracketSegment_quoted, assemble_bracketed]
      rfl

theorem undivided_bracketed (sep : Char) (names : List String) :
    Text.Undivided sep (bracketed names) := by
  induction names with
  | nil => exact .nil
  | cons name names ih =>
      have hquoted : Text.Balanced (Text.quoted name.toList) := by
        have := Text.Balanced.quotes (.inl rfl) (Text.quotedRun_encode name.toList) .nil
        rwa [List.append_nil] at this
      have hbrackets := Text.Undivided.brackets
        (by decide : ('[', ']') ∈ Text.bracketPairs) hquoted ih
      rw [bracketed_cons]
      simpa using hbrackets

theorem trimmed_bracketed : Text.Trimmed (bracketed [name]) := by
  have := Text.trimmed_between (c := '[') (d := ']') (by decide) (by decide)
    (Text.quoted name.toList)
  rwa [bracketed, List.flatMap_cons, List.flatMap_nil, List.append_nil]

/-- Behind the last name are its closing quote and bracket. -/
theorem exists_bracketed_eq (hne : names ≠ []) : ∃ s, bracketed names = s ++ ['"', ']'] := by
  obtain ⟨front, name, rfl⟩ := (List.eq_nil_or_concat' names).resolve_left hne
  refine ⟨bracketed front ++ '[' :: '"' :: Text.encode name.toList, ?_⟩
  simp [bracketed, Text.quoted]

end Path

namespace Filter

/-- A stage that begins with a quoted name is a path stage. -/
theorem readStage_quoted (reader : List Char → Except Fault Filter) (s : List Char) :
    readStage reader ('.' :: '[' :: '"' :: s) = readPathStage ('.' :: '[' :: '"' :: s) := by
  have hbuiltin : builtin? ('.' :: '[' :: '"' :: s) = none :=
    builtin?_eq_none (by decide) List.mem_cons_self
  have hindex : indexText? ('.' :: '[' :: '"' :: s) = none := rfl
  have hslice : sliceText? ('.' :: '[' :: '"' :: s) = none := rfl
  have hmap : Text.callArgument? ['m', 'a', 'p'] ('.' :: '[' :: '"' :: s) = none := by
    rw [Text.callArgument?]
    rfl
  have hselect : Text.callArgument? ['s', 'e', 'l', 'e', 'c', 't'] ('.' :: '[' :: '"' :: s) =
      none := by
    rw [Text.callArgument?]
    rfl
  rw [readStage, if_neg (by simp), hbuiltin]
  simp only [hindex, hslice, hmap, hselect, List.head?_cons, ↓reduceIte]

/-- **Quoted names are safe.**  Whatever names are written in quotes and brackets behind a dot, the
text is a filter of one stage, which looks up the members with these names. -/
theorem read_quoted_names (limit : Nat) (name : String) (names : List String) :
    read limit (String.ofList ('.' :: Path.bracketed (name :: names))) =
      .ok [.path ((name :: names).map .field) false] := by
  obtain ⟨s, hs⟩ := Path.exists_bracketed_eq (List.cons_ne_nil name names)
  have hpasses : Text.Passes '|' false ('.' :: Path.bracketed (name :: names)) :=
    (Text.Undivided.char (by decide) (by decide) (Path.undivided_bracketed '|' _)).passes
  have htrimmed : Text.Trimmed ('.' :: Path.bracketed (name :: names)) := by
    rw [hs]
    have := Text.trimmed_between (c := '.') (d := ']') (by decide) (by decide) (s ++ ['"'])
    simpa using this
  have hopen : Text.dropTrailing? ['[', ']'] ('.' :: Path.bracketed (name :: names)) = none := by
    simp [Text.dropTrailing?, hs, List.isPrefixOf?]
  have hpath : readPath ('.' :: Path.bracketed (name :: names)) =
      .ok ((name :: names).map .field) :=
    readPath_eq_ok_iff.mpr (Path.read_bracketed (name :: names))
  refine read_of_passes hpasses (Text.trim_of_trimmed htrimmed) (List.cons_ne_nil _ _) ?_
  have hstage (reader) : readStage reader ('.' :: Path.bracketed (name :: names)) =
      readPathStage ('.' :: Path.bracketed (name :: names)) := readStage_quoted reader _
  simp only [hstage, readPathStage, hopen, hpath, Result.bind_ok, Result.pure_eq_ok]

end Filter

/-! ### Quotes cut apart -/

namespace Path

variable {s a : List Char} {k : String} {x : Char} {path : Path}

/-- **A quoted name without its end** is not read as the name.  Its closing quote is missing, so the
first bracket closes, and what is between the quotes is taken as it is: another name, since not all
characters of the name are there. -/
theorem read_cut (ha : a <+: Text.encode k.toList) (hx : x ∈ k.toList) (hxa : x ∉ a)
    (h : read (String.ofList ('[' :: '"' :: a)) = .ok path) :
    ∃ name rest, path = .field name :: rest ∧ name ≠ k := by
  rw [read, String.toList_ofList, pieces] at h
  rcases assemble_begins h with ⟨hdot, -⟩ |
    ⟨inner, rest, segment, path', -, hbracket, hsegment, -, rfl⟩ |
    ⟨-, name, rest, path', -, hname, -⟩
  · cases hdot
  · obtain ⟨b, hb⟩ := ha
    have hunquoted : quotedBracket? ('"' :: a) = none := by
      rw [quotedBracket?, dropWhile_of_stops (stops_cons.mpr (by decide))]
      simp only [(by decide : Text.isQuote '"' = true), ↓reduceIte, Text.delimited?_cut hb.symm]
    -- the brackets hold the quote and the front of the name up to the first closing bracket
    obtain ⟨front, back, rfl, hfront, hback⟩ := exists_front (fun c => decide (c ≠ ']')) a
    have hspan : ('"' :: (front ++ back)).span (fun c => decide (c ≠ ']')) = ('"' :: front, back) :=
      span_append_of_stops (List.forall_mem_cons.mpr ⟨by decide, hfront⟩) hback
    have hinner : inner = '"' :: front := by
      rw [bracket?, hunquoted, hspan] at hbracket
      cases back with
      | nil => cases hbracket
      | cons d back =>
          cases hbracket
          rfl
    obtain ⟨tail, htail⟩ := Text.trimRight_prefix front
    rw [hinner, Text.trim_cons (by decide)] at hsegment
    generalize Text.trimRight front = kept at htail hsegment
    subst htail
    have hcut : Text.encode k.toList = kept ++ (tail ++ back ++ b) := by
      rw [← hb]
      simp
    have hnumeral : Text.isNumeral ('"' :: kept) = false := rfl
    obtain ⟨name, hunquote, rfl⟩ :=
      exists_of_bracketSegment (by simp) (Bool.eq_false_iff.mp hnumeral) hsegment
    refine ⟨name, path', rfl, ?_⟩
    rintro rfl
    have hkept := Literal.unquote?_cut hcut hunquote x hx
    exact hxa (List.mem_append_left back (List.mem_append_left tail hkept))
  · cases hname '[' List.mem_cons_self

/-- Where a first name is not found there is nothing, or no matches. -/
theorem resolve_of_missing {name : String} {members : List (String × Value)}
    (h : Members.find? members name = none) (rest : Path) :
    resolve (.field name :: rest) (.object members) false =
      if rest.hasWildcard then some (.array []) else none := by
  have hfollow : (Segment.field name).follow false (.object members) = none := h
  have hne : Segment.field name ≠ .wildcard := nofun
  have hwildcard : hasWildcard (.field name :: rest) = rest.hasWildcard := by
    simp [hasWildcard]
  rw [resolve, locate_cons hne, follow, hfollow, hwildcard]
  rfl

/-- Behind brackets no name follows without a dot. -/
theorem read_bracketed_name {c : Char} (name : String) (hc : endsName c = false) :
    read (String.ofList (bracketed [name] ++ c :: s)) ≠ .ok path := by
  intro h
  have hne : c ≠ '.' ∧ c ≠ '[' := by
    simp only [endsName, Bool.or_eq_false_iff, decide_eq_false_iff_not] at hc
    exact hc.1
  have htext : bracketed [name] ++ c :: s = '[' :: (Text.quoted name.toList ++ ']' :: c :: s) := by
    simp [bracketed]
  rw [htext, read, String.toList_ofList, pieces, List.length_cons] at h
  rcases assemble_begins h with ⟨hdot, -⟩ |
    ⟨inner, rest, segment, path', -, hbracket, -, hrest, -⟩ | ⟨-, name, rest, path', -, hname, -⟩
  · cases hdot
  · rw [bracket?_quoted] at hbracket
    cases hbracket
    rw [List.length_append, List.length_cons, List.length_cons, ← Nat.add_assoc,
      ← Nat.add_assoc] at hrest
    rcases assemble_begins hrest with ⟨hdot, -⟩ | ⟨_, _, _, _, hopener, -⟩ | ⟨hopen, -⟩
    · exact hne.1 hdot
    · exact hne.2 hopener
    · cases hopen
  · cases hname '[' List.mem_cons_self

end Path

/-! ### In conditions -/

namespace Filter

variable {k : String} {lit : List Char} {limit : Nat}

theorem isEscapePart_of_endsPath {c : Char} (h : endsPath c = true) :
    Text.isEscapePart c = false := by
  simp only [endsPath, Bool.or_eq_true, decide_eq_true_eq] at h
  rcases h with (((rfl | rfl) | rfl) | rfl) | hblank
  · decide
  · decide
  · decide
  · decide
  · refine Bool.eq_false_iff.mpr fun hpart => ?_
    have hc := Text.isBlank_eq_false (p := Text.isEscapePart) (by decide) hpart
    cases hc.symm.trans hblank

/-- The characters of a name that would end a path, as far as they are written for themselves. -/
theorem endsPath_encode_iff : (∀ c ∈ Text.encode k.toList, endsPath c = false) ↔
    ∀ c ∈ k.toList, 32 ≤ c.toNat → endsPath c = false := by
  constructor
  · intro h c hmem hlower
    by_contra hends
    rw [Bool.not_eq_false] at hends
    have hencode := (Text.mem_encode_iff (isEscapePart_of_endsPath hends)).mpr ⟨hmem, hlower⟩
    cases (h c hencode).symm.trans hends
  · intro h c hmem
    by_contra hends
    rw [Bool.not_eq_false] at hends
    obtain ⟨hk, hlower⟩ := (Text.mem_encode_iff (isEscapePart_of_endsPath hends)).mp hmem
    cases (h c hk hlower).symm.trans hends

/-- The condition that a member with a quoted name is loosely equal to a literal. -/
def equation (k : String) (lit : List Char) : List Char :=
  '.' :: (Path.bracketed [k] ++ [' '] ++ (['=', '='] ++ ' ' :: lit))

theorem balanced_equation (hlit : Text.Balanced lit) : Text.Balanced (equation k lit) := by
  have hname : Text.Balanced (Path.bracketed [k]) := (Path.undivided_bracketed ',' [k]).balanced
  have hblank : Text.Balanced [' '] := .char (by decide) .nil
  exact .char (by decide) ((hname.append hblank).append
    (.char (by decide) (.char (by decide) (.char (by decide) hlit))))

theorem trim_equation (hne : lit ≠ []) (hlit : Text.Trimmed lit) :
    Text.trim (equation k lit) = equation k lit := by
  have := Text.Trimmed.append (s := ['.']) ⟨stops_cons.mpr rfl, stops_cons.mpr rfl⟩ hlit
    (List.cons_ne_nil _ _) hne (Path.bracketed [k] ++ [' ', '=', '=', ' '])
  refine Text.trim_of_trimmed ?_
  simpa [equation] using this

/-- It is a comparison if the name has no character that ends a path. -/
theorem compares_equation (h : ∀ c ∈ Text.encode k.toList, endsPath c = false) :
    Compares (equation k lit) ('.' :: Path.bracketed [k]) .eq (' ' :: lit) := by
  refine ⟨rfl, ?_, [' '], ['=', '='] ++ ' ' :: lit, rfl,
    chars_forall (by decide), rfl, List.cons_ne_nil _ _, ?_⟩
  · have hname : ∀ c ∈ Text.quoted k.toList, endsPath c = false := by
      simp only [Text.quoted, List.mem_append, List.mem_cons, List.not_mem_nil, or_false]
      rintro c ((rfl | hc) | rfl)
      · decide
      · exact h c hc
      · decide
    simp only [Path.bracketed, List.flatMap_cons, List.flatMap_nil, List.append_nil,
      List.mem_cons, List.mem_append, List.not_mem_nil, or_false]
    rintro c (rfl | rfl | hc | rfl)
    · decide
    · decide
    · exact hname c hc
    · decide
  · intro r' _ _ _
    cases r' <;> decide

/-- Otherwise it is no condition on the member: its path, if it has one, begins with another
name. -/
theorem Says.path_of_equation {condition : Condition}
    (h : ¬ ∀ c ∈ Text.encode k.toList, endsPath c = false)
    (hmeans : Says (equation k lit) condition) :
    ∃ name rest, condition.path = .field name :: rest ∧ name ≠ k := by
  obtain ⟨a, b, hencode, ha, hb⟩ := exists_front (fun c => !endsPath c) (Text.encode k.toList)
  have ha : ∀ c ∈ a, endsPath c = false := by simpa using ha
  cases b with
  | nil =>
      rw [List.append_nil] at hencode
      exact absurd (hencode ▸ ha) h
  | cons d b =>
      have hd : endsPath d = true := by simpa using stops_cons.mp hb
      have hdk : d ∈ k.toList :=
        ((Text.mem_encode_iff (isEscapePart_of_endsPath hd)).mp (hencode ▸ by simp)).1
      have hda : d ∉ a := fun hmem => by cases hd.symm.trans (ha d hmem)
      cases hmeans with
      | comparison hs hpath _ =>
          -- the path ends in the middle of the name
          have htext : equation k lit = ('.' :: '[' :: '"' :: a) ++
              d :: (b ++ '"' :: ']' :: ' ' :: '=' :: '=' :: ' ' :: lit) := by
            simp [equation, Path.bracketed, Text.quoted, hencode]
          have hfront : ∀ c ∈ '.' :: '[' :: '"' :: a, endsPath c = false := by
            simpa using ⟨by decide, by decide, by decide, ha⟩
          have hcut := (htext ▸ hs).path_eq hfront (stops_cons.mpr (by rw [hd]; rfl))
          subst hcut
          exact Path.read_cut ⟨_, hencode.symm⟩ hdk hda hpath
      | bare hs _ hpath =>
          obtain ⟨-, rfl⟩ := List.cons.inj hs
          rw [List.append_assoc, List.singleton_append] at hpath
          exact absurd hpath (Path.read_bracketed_name k (by decide))

/-- The stage keeps the items whose member is loosely equal to the literal. -/
theorem evaluate_equation (h : ∀ c ∈ Text.encode k.toList, endsPath c = false)
    {literal : Value} (hscalar : literal.IsScalar) (hfinite : literal.IsFinite)
    (hwritable : literal.isWritable = true) (items : List Value) :
    evaluate limit (String.ofList (selecting (equation k (Json.write .compact 0 literal))))
        (.array items) = (do
      return .array (← Items.keep
        (fun item => Relation.eq.compare (item.member? k) (some literal)) items)) := by
  obtain ⟨hne, htrimmed⟩ := trimmed_scalar hscalar hfinite
  have hbalanced : Text.Balanced (Json.write .compact 0 literal) :=
    Text.isBalanced_iff.mp (Text.passes_scalar hscalar hfinite (.inr rfl)).isBalanced
  have hblank : Text.trim (' ' :: Json.write .compact 0 literal) =
      Json.write .compact 0 literal := by
    have := Text.trim_blank_append (s := [' ']) (chars_forall (by decide))
      (t := Json.write .compact 0 literal)
    rwa [Text.trim_of_trimmed htrimmed] at this
  have hliteral : Literal.read (String.ofList (' ' :: Json.write .compact 0 literal)) =
      .ok literal.normalize :=
    Literal.read_write hscalar hfinite hwritable (by rw [String.toList_ofList, hblank])
  have hmeans : Says (Text.trim (equation k (Json.write .compact 0 literal)))
      ⟨[.field k], some (.eq, literal.normalize)⟩ := by
    rw [trim_equation hne htrimmed]
    exact .comparison (compares_equation h) (Path.read_bracketed [k]) hliteral
  have hread : read limit (String.ofList (selecting (equation k (Json.write .compact 0 literal)))) =
      .ok [.select ⟨[.field k], some (.eq, literal.normalize)⟩] :=
    (read_selecting (balanced_equation hbalanced)).mpr
      ⟨_, readCondition_eq_ok_iff.mpr hmeans, rfl⟩
  have hholds : Condition.holds ⟨[.field k], some (.eq, literal.normalize)⟩ =
      fun item => Relation.eq.compare (item.member? k) (some literal) := by
    funext item
    rw [Condition.holds, Path.resolve_field]
    exact Relation.compare_normalize .eq _ hscalar hfinite
  rw [evaluate_of_read hread, hholds]

/-- **A quoted name in a condition** means the member, whatever the literal and the items, if and
only if none of its characters that are written for themselves ends a path. -/
theorem select_quoted_iff (limit : Nat) (k : String) :
    (∀ (literal : Value) (text : String) (items : List Value), literal.IsScalar →
      literal.IsFinite → Json.render (.ofIndent 0) literal = .ok text →
      evaluate limit (String.ofList (selecting (equation k text.toList))) (.array items) = (do
        return .array (← Items.keep
          (fun item => Relation.eq.compare (item.member? k) (some literal)) items))) ↔
    ∀ c ∈ k.toList, 32 ≤ c.toNat → endsPath c = false := by
  rw [← endsPath_encode_iff]
  constructor
  · intro h
    by_contra hends
    -- the member is null in one object, and another object lacks it
    let item : Value := .object [(k, .null)]
    have hnull := h .null "null" [item, .object []] trivial Value.everyNumber_null rfl
    have hkeep : Items.keep (fun item : Value => Relation.eq.compare (item.member? k) (some .null))
        [item, .object []] = .ok [item] := by
      simp [item, Items.keep, Value.member?, Members.find?, Relation.compare, Operand.looselySame,
        Value.same]
    rw [hkeep] at hnull
    obtain ⟨filter, hread, -⟩ := Result.bind_eq_ok.mp hnull
    have hbalanced : Text.Balanced (equation k "null".toList) :=
      balanced_equation (Text.isBalanced_iff.mp (by decide))
    obtain ⟨condition, hcondition, rfl⟩ := (read_selecting hbalanced).mp hread
    have hmeans : Says (equation k "null".toList) condition := by
      have := readCondition_eq_ok_iff.mp hcondition
      rwa [trim_equation (by decide) (Text.trimmed_of_forall (chars_forall (by decide)))] at this
    obtain ⟨name, rest, hpath, hne⟩ := hmeans.path_of_equation hends
    have hsame : condition.holds item = condition.holds (.object []) := by
      have hmissing : Members.find? [(k, Value.null)] name = none := by
        simp [Members.find?, hne.symm]
      rw [Condition.holds, Condition.holds, hpath, Path.resolve_of_missing hmissing,
        Path.resolve_of_missing rfl]
    -- so both objects pass or neither does
    rw [evaluate_of_read hread] at hnull
    cases hitem : condition.holds item with
    | error fault =>
        rw [Items.keep, hitem] at hnull
        cases hnull
    | ok answer =>
        rw [Items.keep, Items.keep, Items.keep, ← hsame, hitem] at hnull
        cases answer <;> cases hnull
  · intro h literal text items hscalar hfinite hrender
    rw [Json.render] at hrender
    split at hrender
    · rename_i hwritable
      cases hrender
      rw [String.toList_ofList]
      exact evaluate_equation h hscalar hfinite hwritable items
    · cases hrender

end Filter

/-! ### In projections -/

namespace Reshaping

variable {limit : Nat} {k : String} {inner source target : List Char}

/-- A name that stands for itself as the target of an entry. -/
def IsTarget (name : String) : Prop :=
  name.toList ≠ [] ∧ ∀ c ∈ name.toList, Text.isBlank c = false ∧ c ∉ Text.marks ∧ c ≠ ','

/-- An entry with a quoted name for its source. -/
def entry (k target : String) : List Char :=
  Path.bracketed [k] ++ [':', ' '] ++ target.toList

theorem gather_singleton (name : String) (path : Path) (v : Value) :
    gather [(name, path)] v = .object ((path.resolve v false).map (name, ·)).toList := by
  rw [gather, Value.ofPairs, List.filterMap_cons, List.filterMap_nil]
  cases hfound : path.resolve v false <;> simp [hfound, Members.merge, Members.put]

/-- A projection of one entry gathers what is at its source, under its target. -/
theorem project_entry (hcut : Text.cutOutside [','] inner = .ok [inner])
    (htrim : Text.trim inner = inner)
    (hcolon : Text.cutFirst? [':'] inner = some (source, target))
    (hsource : Text.trim source ≠ []) (htarget : Text.trim target ≠ []) (items : List Value) :
    project limit (String.ofList ('\x7b' :: (inner ++ ['\x7d']))) items = (do
      let path ← Path.read (String.ofList (Text.trim source))
      return items.map (gather [(String.ofList (Text.trim target), path)])) := by
  have hentry : readProjected inner = (do
      return some (← Path.read (String.ofList (Text.trim source)),
        String.ofList (Text.trim target))) := by
    rw [readProjected, htrim]
    cases inner with
    | nil => cases hcolon
    | cons c inner => simp [hcolon, hsource, htarget]
  rw [project, readProjection, braced?_braces]
  simp only [hcut, Result.bind_ok, List.mapM_cons, List.mapM_nil, hentry]
  cases Path.read (String.ofList (Text.trim source)) <;> rfl

theorem cutOutside_entry {target : String} (h : IsTarget target) :
    Text.cutOutside [','] (entry k target) = .ok [entry k target] := by
  have htarget : Text.Passes ',' false target.toList := Text.passes_of_forall fun c hc =>
    ⟨Text.isPlain_iff.mpr (h.2 c hc).2.1, .inr (h.2 c hc).2.2⟩
  have hcolon : Text.Passes ',' false [':', ' '] :=
    Text.passes_of_forall (chars_forall (by decide))
  exact (((Path.undivided_bracketed ',' [k]).passes.append hcolon).append htarget).cutOutside_eq

theorem trim_target {target : String} (h : IsTarget target) :
    Text.trim (' ' :: target.toList) = target.toList := by
  have := Text.trim_blank_append (s := [' ']) (chars_forall (by decide)) (t := target.toList)
  rwa [Text.trim_of_trimmed (Text.trimmed_of_forall fun c hc => (h.2 c hc).1)] at this

theorem trim_entry {target : String} (h : IsTarget target) :
    Text.trim (entry k target) = entry k target := by
  have htarget := Text.trimmed_of_forall fun c hc => (h.2 c hc).1
  exact Text.trim_of_trimmed (Path.trimmed_bracketed.append htarget (List.cons_ne_nil _ _) h.1 _)

/-- The entry puts the member under its target. -/
theorem project_quoted (hk : ':' ∉ k.toList) {target : String} (h : IsTarget target)
    (items : List Value) :
    project limit (String.ofList ('\x7b' :: (entry k target ++ ['\x7d']))) items =
      .ok (items.map fun item => .object ((item.member? k).map (target, ·)).toList) := by
  have hencode : ':' ∉ Text.encode k.toList := fun hmem =>
    hk ((Text.mem_encode_iff (by decide)).mp hmem).1
  have hname : ':' ∉ Path.bracketed [k] := by
    simpa [Path.bracketed, Text.quoted] using hencode
  have hcolon : Text.cutFirst? [':'] (entry k target) =
      some (Path.bracketed [k], ' ' :: target.toList) := by
    rw [entry, List.append_assoc]
    exact Text.cutFirst?_append hname [] (' ' :: target.toList)
  have hsource : Text.trim (Path.bracketed [k]) = Path.bracketed [k] :=
    Text.trim_of_trimmed Path.trimmed_bracketed
  have hsourceNe : Text.trim (Path.bracketed [k]) ≠ [] := hsource.symm ▸ List.cons_ne_nil _ _
  have htargetNe : Text.trim (' ' :: target.toList) ≠ [] := (trim_target h).symm ▸ h.1
  rw [project_entry (cutOutside_entry h) (trim_entry h) hcolon hsourceNe htargetNe, hsource,
    Path.read_bracketed, Result.bind_ok, trim_target h, String.ofList_toList]
  refine congrArg Except.ok (List.map_congr_left fun item _ => ?_)
  rw [List.map_singleton, gather_singleton, Path.resolve_field]

/-- A colon in the name cuts it, and what is left of it is read as another name, if at all. -/
theorem project_cut (hk : ':' ∈ k.toList) {target : String} (h : IsTarget target)
    {items ws : List Value}
    (hproject : project limit (String.ofList ('\x7b' :: (entry k target ++ ['\x7d']))) items =
      .ok ws) :
    ∃ target' name rest, name ≠ k ∧ ws = items.map (gather [(target', .field name :: rest)]) := by
  have hencode : ':' ∈ Text.encode k.toList :=
    (Text.mem_encode_iff (by decide)).mpr ⟨hk, by decide⟩
  obtain ⟨a, b, hab, ha⟩ := List.eq_append_cons_of_mem hencode
  have htext : entry k target =
      ('[' :: '"' :: a) ++ ([':'] ++ (b ++ '"' :: ']' :: ':' :: ' ' :: target.toList)) := by
    simp [entry, Path.bracketed, Text.quoted, hab]
  have hfront : ':' ∉ '[' :: '"' :: a := by simpa using ha
  have hcolon := Text.cutFirst?_append hfront [] (b ++ '"' :: ']' :: ':' :: ' ' :: target.toList)
  rw [← htext] at hcolon
  have hsource : Text.trim ('[' :: '"' :: a) = '[' :: '"' :: Text.trimRight a := by
    rw [Text.trim_cons (by decide), Text.trimRight_cons (by decide)]
  have hsourceNe : Text.trim ('[' :: '"' :: a) ≠ [] := hsource.symm ▸ List.cons_ne_nil _ _
  have htargetNe : Text.trim (b ++ '"' :: ']' :: ':' :: ' ' :: target.toList) ≠ [] :=
    Text.trim_ne_nil_of_mem (c := ']') (by decide) (by simp)
  rw [project_entry (cutOutside_entry h) (trim_entry h) hcolon hsourceNe htargetNe,
    hsource] at hproject
  obtain ⟨path, hpath, hws⟩ := Result.bind_eq_ok.mp hproject
  have hprefix : Text.trimRight a <+: Text.encode k.toList :=
    (Text.trimRight_prefix a).trans ⟨_, hab.symm⟩
  have hkept : ':' ∉ Text.trimRight a := fun hmem => ha ((Text.trimRight_prefix a).subset hmem)
  obtain ⟨name, rest, rfl, hne⟩ := Path.read_cut hprefix hk hkept hpath
  exact ⟨_, name, rest, hne, (Except.ok.inj hws).symm⟩

/-- **A quoted name in a projection** means the member, whatever the target and the items, if and
only if there is no colon in it. -/
theorem map_quoted_iff (settings : Settings) (k : String) :
    (∀ (target : String) (items : List Value) (step : Step), IsTarget target → step.kind = .map →
      step.config = String.ofList ('\x7b' :: (entry k target ++ ['\x7d'])) →
      step.run settings (.array items) = .ok (.array (items.map fun item =>
        .object ((item.member? k).map (target, ·)).toList))) ↔
    ':' ∉ k.toList := by
  have hrun {step : Step} (hkind : step.kind = .map) (items : List Value) :
      step.run settings (.array items) = (do
        return .array (← project settings.maxDepth step.config items)) := by
    rw [Step.run, hkind]
    rfl
  constructor
  · intro h hk
    have htarget : IsTarget "t" := ⟨by decide, chars_forall (by decide)⟩
    have hitem := h "t" [.object [(k, .null)]]
      ⟨"", .map, String.ofList ('\x7b' :: (entry k "t" ++ ['\x7d'])), "", true⟩ htarget rfl rfl
    rw [hrun rfl] at hitem
    obtain ⟨ws, hproject, hws⟩ := Result.bind_eq_ok.mp hitem
    obtain ⟨target', name, rest, hne, rfl⟩ := project_cut hk htarget hproject
    have hmissing : Members.find? [(k, Value.null)] name = none := by
      simp [Members.find?, hne.symm]
    rw [List.map_singleton, gather_singleton, Path.resolve_of_missing hmissing] at hws
    split at hws <;> simp [Value.member?, Members.find?] at hws
  · intro hk target items step htarget hkind hconfig
    rw [hrun hkind, hconfig, project_quoted hk htarget]
    rfl

end Reshaping

/-! ### Both -/

/-- **Where a quoted name means the member.**  In a condition it does, for every scalar and all
items, if and only if no character of the name that is written for itself ends a path; in a
projection, for every target and all items, if and only if there is no colon in the name. -/
theorem quoted_name_iff (limit : Nat) (settings : Settings) (k : String) :
    let place := "[" ++ String.ofList (Text.quoted k.toList) ++ "]"
    ((∀ (literal : Value) (text : String) (items : List Value), literal.IsScalar →
        literal.IsFinite → Json.render (.ofIndent 0) literal = .ok text →
        Filter.evaluate limit ("select(." ++ place ++ " == " ++ text ++ ")") (.array items) = (do
          return .array (← Items.keep
            (fun item => Relation.eq.compare (item.member? k) (some literal)) items))) ↔
      ∀ c ∈ k.toList, 32 ≤ c.toNat → Filter.endsPath c = false) ∧
    ((∀ (target : String) (items : List Value) (step : Step), Reshaping.IsTarget target →
        step.kind = .map → step.config = "\x7b" ++ place ++ ": " ++ target ++ "\x7d" →
        step.run settings (.array items) = .ok (.array (items.map fun item =>
          .object ((item.member? k).map (target, ·)).toList))) ↔
      ':' ∉ k.toList) := by
  intro place
  have hselect (text : String) : "select(." ++ place ++ " == " ++ text ++ ")" =
      String.ofList (Filter.selecting (Filter.equation k text.toList)) := by
    simp [← String.toList_inj, place, Filter.selecting, Filter.equation, Path.bracketed]
  have hmap (target : String) : "\x7b" ++ place ++ ": " ++ target ++ "\x7d" =
      String.ofList ('\x7b' :: (Reshaping.entry k target ++ ['\x7d'])) := by
    simp [← String.toList_inj, place, Reshaping.entry, Path.bracketed]
  simp only [hselect, hmap]
  exact ⟨Filter.select_quoted_iff limit k, Reshaping.map_quoted_iff settings k⟩

/-- A name with a dot, a bracket and a quote, in both places. -/
theorem quoted_name_iff_awkward :
    let k := "a.]\""
    let item : Value := .object [(k, .bool true)]
    let step : Step := ⟨"s", .map, "\x7b[\"a.]\\\"\"]: t\x7d", "", true⟩
    Filter.evaluate 512 "select(.[\"a.]\\\"\"] == true)" (.array [item, .null]) =
        .ok (.array [item]) ∧
      step.run {} (.array [item, .null]) =
        .ok (.array [.object [("t", .bool true)], .object []]) := by
  intro k item step
  have hends : ∀ c ∈ k.toList, 32 ≤ c.toNat → Filter.endsPath c = false :=
    chars_forall (by decide)
  have hcolon : ':' ∉ k.toList := by decide
  have htarget : Reshaping.IsTarget "t" := ⟨by decide, chars_forall (by decide)⟩
  have hselect : "select(." ++ ("[" ++ String.ofList (Text.quoted k.toList) ++ "]") ++ " == " ++
      "true" ++ ")" = "select(.[\"a.]\\\"\"] == true)" := by decide
  have hmap : step.config =
      "\x7b" ++ ("[" ++ String.ofList (Text.quoted k.toList) ++ "]") ++ ": " ++ "t" ++ "\x7d" := by
    decide
  have hmember : item.member? k = some (.bool true) := by
    simp [item, Value.member?, Members.find?]
  have hkeep : Items.keep
      (fun item : Value => Relation.eq.compare (item.member? k) (some (.bool true))) [item, .null] =
        .ok [item] := by
    have hnull : Value.null.member? k = none := rfl
    rw [Items.keep, Items.keep, hmember, hnull]
    rfl
  obtain ⟨hiff, hiff'⟩ := quoted_name_iff 512 {} k
  have hkept := hiff.mpr hends (.bool true) "true" [item, .null] trivial
    (Value.everyNumber_bool true) rfl
  rw [hselect, hkeep] at hkept
  have hmapped := hiff'.mpr hcolon "t" [item, .null] step htarget rfl hmap
  rw [List.map_cons, List.map_cons, hmember] at hmapped
  exact ⟨hkept, hmapped⟩

/-- A blank or a colon in a quoted name, and the member is not found. -/
theorem quoted_name_blank_colon :
    let item : Value := .object [("a b", .bool true), ("a:b", .bool true)]
    let step : Step := ⟨"s", .map, "\x7b[\"a:b\"]: t\x7d", "", true⟩
    Relation.eq.compare (item.member? "a b") (some (.bool true)) = .ok true ∧
      (Filter.evaluate 512 "select(.[\"a b\"] == true)" (.array [item])).isOk = false ∧
      item.member? "a:b" = some (.bool true) ∧ Reshaping.IsTarget "t" ∧
      (step.run {} (.array [item])).isOk = false := by
  intro item step
  have htarget : Reshaping.IsTarget "t" := ⟨by decide, chars_forall (by decide)⟩
  exact ⟨rfl, by decide +kernel, rfl, htarget, by decide +kernel⟩

end Quarry
