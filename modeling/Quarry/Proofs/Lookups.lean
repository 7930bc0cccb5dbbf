import Quarry.Operand.Basic
import Quarry.Operand.Literal
import Quarry.Operand.Relation
import Quarry.Path.Reader
import Quarry.Proofs.DottedPaths
import Quarry.Proofs.Invariants
import Quarry.Text.Cut

/-!
# Lookups — paths, literals and comparisons

What is at a path has the invariants of the value that it is in: a lookup takes parts of the value
and collects them in arrays.  Reading a path or a literal, and comparing, have no limits; they fail
as queries do, or where a number leaves its range.
-/

namespace Quarry

/-! ### Classes of faults -/

/-- A number that left its range. -/
def Fault.OfNumber : Fault → Prop
  | .number _ => True
  | _ => False

/-- A path text that is wrong, or an index with too many digits. -/
def Fault.OfPath : Fault → Prop
  | .query _ | .number (.longNumeral _) => True
  | _ => False

/-- A query text that is wrong, or a number that left its range. -/
def Fault.OfQuery : Fault → Prop
  | .query _ | .number _ => True
  | _ => False

theorem Fault.OfNumber.ofQuery {fault : Fault} (h : fault.OfNumber) : fault.OfQuery := by
  cases fault with
  | number cause => trivial
  | _ => cases h

theorem Fault.OfPath.ofQuery {fault : Fault} (h : fault.OfPath) : fault.OfQuery := by
  cases fault with
  | query cause => trivial
  | number cause => trivial
  | _ => cases h

section

variable {α : Type} {q : α → Prop} {x y : Except Fault α}

/-- A query that only meets numbers out of range ends as a query does, -/
theorem EndsAlike.ofNumber (h : EndsAlike Fault.OfNumber q x y) : EndsAlike Fault.OfQuery q x y :=
  h.mono (fun _ => Fault.OfNumber.ofQuery) fun _ => id

/-- and so does one that only reads a path. -/
theorem EndsAlike.ofPath (h : EndsAlike Fault.OfPath q x y) : EndsAlike Fault.OfQuery q x y :=
  h.mono (fun _ => Fault.OfPath.ofQuery) fun _ => id

end

/-! ### Numeric views and texts -/

/-- An integer may be too large for a double. -/
theorem Number.toFloat_ends (n : Number) : Ends Fault.OfNumber Any n.toFloat := by
  cases n with
  | float x => exact .ok trivial
  | int n =>
      rw [toFloat]
      cases Binary64.ofInt n with
      | finite x => exact .ok trivial
      | _ => exact .fault trivial

/-- Every value has a numeric view, unless it is such an integer. -/
theorem Value.toFloat_ends (v : Value) : Ends Fault.OfNumber Any v.toFloat := by
  cases v with
  | number n => exact n.toFloat_ends
  | string s =>
      rw [toFloat]
      split
      · exact .ok trivial
      · split <;> exact .ok trivial
  | _ => exact .ok trivial

theorem Operand.toFloat_ends (a : Operand) : Ends Fault.OfNumber Any a.toFloat := by
  cases a with
  | none => exact .ok trivial
  | some v => exact v.toFloat_ends

/-- A value is written unless one of its integers has too many digits. -/
theorem Json.render_ends (layout : Layout) (v : Value) :
    Ends Fault.OfNumber Any (render layout v) := by
  rw [render]
  split
  · exact .ok trivial
  · exact .fault trivial

/-- The text of a value fails for such an integer only. -/
theorem Value.text_ends (v : Value) : Ends Fault.OfNumber Any v.text := by
  cases v with
  | number n =>
      rw [text]
      split
      · exact .ok trivial
      · exact .fault trivial
  | array items => exact Json.render_ends _ _
  | object members => exact Json.render_ends _ _
  | _ => exact .ok trivial

/-! ### Comparisons -/

/-- Loose equality takes the numeric views of two scalars of different kinds, and these may fail. -/
theorem Operand.looselySame_ends (a b : Operand) : Ends Fault.OfNumber Any (looselySame a b) := by
  have hviews (v w : Value) : Ends Fault.OfNumber Any (looselySame.numericallySame v w) :=
    v.toFloat_ends.bind fun _ _ => w.toFloat_ends.bind fun _ _ => .ok trivial
  rw [looselySame.eq_def]
  split
  · exact .ok trivial
  · exact .ok trivial
  · exact .ok trivial
  · split
    · exact .ok trivial
    · split
      · exact hviews _ _
      · exact hviews _ _
      · exact .ok trivial

/-- An order of two operands is one of their numeric views, or of texts that have none. -/
theorem Operand.order?_ends (a b : Operand) : Ends Fault.OfNumber Any (order? a b) := by
  refine a.toFloat_ends.bind fun x _ => b.toFloat_ends.bind fun y _ => ?_
  split <;> exact .ok trivial

/-- So comparisons fail for numbers out of range, and for nothing else. -/
theorem Relation.compare_ends (r : Relation) (a b : Operand) :
    Ends Fault.OfNumber Any (r.compare a b) := by
  cases r with
  | eq => exact Operand.looselySame_ends a b
  | ne => exact (Operand.looselySame_ends a b).map fun _ _ => trivial
  | _ => exact (Operand.order?_ends a b).map fun _ _ => trivial

/-! ### Totals -/

/-- A running sum fails when it overflows, -/
theorem Binary64.Sum.insert_ends (s : Sum) (x : Binary64) :
    Ends Fault.OfNumber Any (s.insert x) := by
  rw [insert.eq_def]
  split
  · exact .ok trivial
  · exact .ok trivial
  · exact .ok trivial
  · split
    · exact .ok trivial
    · exact .fault trivial

/-- or when it is asked for its value with both infinities in it. -/
theorem Binary64.Sum.total_ends (s : Sum) : Ends Fault.OfNumber Any s.total := by
  rw [total]
  split
  · exact .fault trivial
  · repeat' split
    all_goals exact .ok trivial

theorem Value.total_ends (items : List Value) : Ends Fault.OfNumber Any (total items) := by
  refine EndsAlike.bind (q := Any) ?_ fun sum _ => sum.total_ends
  exact .foldlM fun sum v _ => v.toFloat_ends.bind fun x _ => sum.insert_ends x

/-! ### Literals -/

/-- An integer with too many digits is refused. -/
theorem Number.readInt_ends (negative : Bool) (value count : Nat) :
    Ends Fault.OfPath Any (readInt negative value count) := by
  rw [readInt]
  split
  · exact .fault trivial
  · exact .ok trivial

theorem Text.integerOf_ends (s : List Char) : Ends Fault.OfPath Any (integerOf s) :=
  Number.readInt_ends _ _ _

theorem Text.Numeral.toNumber_ends (n : Numeral) : Ends Fault.OfPath Any n.toNumber := by
  rw [toNumber]
  split
  · exact (Number.readInt_ends _ _ _).map fun _ _ => trivial
  · exact .ok trivial

/-- A literal is a constant, a numeral or a text, and only a numeral can be refused. -/
theorem Literal.read_ends (text : String) : Ends Fault.OfQuery Any (read text) := by
  have hnumeral (n : Text.Numeral) :
      Ends Fault.OfQuery Any (do return Value.number (← n.toNumber)) :=
    n.toNumber_ends.ofPath.map fun _ _ => trivial
  rw [read]
  repeat' split
  all_goals first | exact .ok trivial | exact hnumeral _

/-! ### Path texts -/

namespace Path

/-- What stands between brackets is an index, a quoted name or a wildcard, or the path is wrong. -/
theorem bracketSegment_ends (text : String) (inner : List Char) :
    Ends Fault.OfPath Any (bracketSegment text inner) := by
  rw [bracketSegment]
  dsimp only
  split
  · exact .ok trivial
  · split
    · split
      · exact .fault trivial
      · exact .ok trivial
    · split
      · exact .ok trivial
      · repeat' split
        all_goals exact .fault trivial

/-- The pieces of a path are put together from left to right, by induction on what is left. -/
theorem assemble_ends (text : String) (open? : Bool) (pieces : List Piece) :
    Ends Fault.OfPath Any (assemble text open? pieces) := by
  induction pieces generalizing open? with
  | nil =>
      cases open? with
      | false => exact .ok trivial
      | true =>
          rw [assemble]
          split
          · exact .ok trivial
          · exact .fault trivial
  | cons piece pieces ih =>
      cases piece with
      | stray c offset => cases open? <;> exact .fault trivial
      | dot =>
          cases open? with
          | true => exact .fault trivial
          | false => exact ih true
      | bracket inner =>
          rw [assemble]
          exact (bracketSegment_ends text inner).bind fun _ _ => (ih false).map fun _ _ => trivial
      | name name =>
          cases open? with
          | false => exact .fault trivial
          | true => exact (ih false).map fun _ _ => trivial

/-- **A path text** is read, or it is wrong, or an index in it has too many digits. -/
theorem read_ends (text : String) : Ends Fault.OfPath Any (read text) :=
  assemble_ends text true _

end Path

/-- Cutting a text fails where a bracket or a quote is left open, or a bracket closes nothing. -/
theorem Text.cutOutside_ends (sep text : List Char) :
    Ends Fault.OfPath Any (cutOutside sep text) := by
  rw [cutOutside]
  cases cutFrom text sep {} text with
  | ok parts => exact .ok trivial
  | error cause => exact .fault trivial

/-! ### What is at a path -/

section

variable {p : Value → Prop}

/-- What is under a name of an object has what the object has, -/
theorem Value.Hereditary.find? (hp : Value.Hereditary p) {members : List (String × Value)}
    (h : p (.object members)) (name : String) : ∀ v ∈ Members.find? members name, p v :=
  fun _ hv => hp.member h _ (Members.mem_of_find? hv)

/-- also if the value need not be an object. -/
theorem Value.Hereditary.member? (hp : Value.Hereditary p) {v : Value} (h : p v) (name : String) :
    ∀ w ∈ v.member? name, p w := by
  cases v with
  | object members => exact hp.find? h name
  | _ => rintro _ ⟨⟩

/-- One segment of a path leads to a part of the value, to the array of its parts, or to the value
itself. -/
theorem Segment.follow_invariant (hp : Value.Hereditary p) (spread : Bool) (segment : Segment)
    {v : Value} (h : p v) : ∀ w ∈ segment.follow spread v, p w := by
  intro w hw
  rw [follow.eq_def] at hw
  split at hw
  · exact hp.find? h _ w hw
  · split at hw
    · cases hw
      refine hp.array.mpr fun u hu => ?_
      -- a name on an array: the array of what its items have under the name
      obtain ⟨item, hitem, hu⟩ := List.mem_filterMap.mp hu
      exact hp.member? (hp.array.mp h item hitem) _ u hu
    · cases hw
  · exact hp.array.mp h w (List.mem_of_getElem? hw)
  · cases hw
    exact h
  · cases hw
    exact hp.values h
  · cases hw

namespace Path

/-- By induction on the path, so does a path that is followed, -/
theorem follow_invariant (hp : Value.Hereditary p) (spread : Bool) (path : Path) {v : Value}
    (h : p v) : ∀ w ∈ path.follow spread v, p w := by
  induction path generalizing v with
  | nil =>
      rintro _ ⟨⟩
      exact h
  | cons segment path ih =>
      intro w hw
      rw [follow] at hw
      split at hw
      · rename_i u hu
        exact ih (segment.follow_invariant hp spread h u hu) w hw
      · cases hw

/-- and everything that is found along one with wildcards has what the value has. -/
theorem locate_invariant (hp : Value.Hereditary p) (path : Path) (place : String) {v : Value}
    (h : p v) : ∀ found ∈ path.locate place v, p found.2 := by
  induction path generalizing place v with
  | nil =>
      intro found hfound
      rw [locate, List.mem_singleton] at hfound
      rw [hfound]
      exact h
  | cons segment path ih =>
      intro found hfound
      rw [locate.eq_def] at hfound
      split at hfound
      · cases ‹segment :: path = []›
      · cases ‹_ = Segment.wildcard :: _›
        obtain ⟨item, hitem, hfound⟩ := List.mem_flatMap.mp hfound
        exact ih _ (hp.array.mp h _ (List.fst_mem_of_mem_zipIdx hitem)) found hfound
      · cases ‹segment :: path = _›
        obtain ⟨member, hmember, hfound⟩ := List.mem_flatMap.mp hfound
        exact ih _ (hp.member h member hmember) found hfound
      · cases ‹segment :: path = _›
        split at hfound
        · rename_i u hu
          exact ih _ (hp.find? h _ u hu) found hfound
        · cases hfound
      · cases ‹segment :: path = _›
        split at hfound
        · rename_i u hu
          exact ih _ (hp.array.mp h u (List.mem_of_getElem? hu)) found hfound
        · cases hfound
      · cases hfound

/-- **What is at a path** has the hereditary properties of the value that the path starts from. -/
theorem resolve_invariant (hp : Value.Hereditary p) (path : Path) (spread : Bool) {v : Value}
    (h : p v) : ∀ w ∈ path.resolve v spread, p w := by
  rw [resolve]
  split
  · rintro _ ⟨⟩
    refine hp.array.mpr fun w hw => ?_
    obtain ⟨found, hfound, rfl⟩ := List.mem_map.mp hw
    exact locate_invariant hp path "$" h found hfound
  · exact follow_invariant hp spread path h

/-- The same for a path that is still to be read. -/
theorem resolveText_ends (hp : Value.Hereditary p) (text : String) {v : Value} (h : p v) :
    Ends Fault.OfPath (fun a => ∀ w ∈ a, p w) (resolveText text v) := by
  rw [resolveText]
  exact (read_ends text).map fun path _ => path.resolve_invariant hp false h

end Path

end

end Quarry
