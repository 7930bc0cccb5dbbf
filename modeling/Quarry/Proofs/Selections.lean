import Quarry.Criteria.Reader
import Quarry.Proofs.Documents
import Quarry.Proofs.Lookups

/-!
# Selections — what criteria leave of a collection

A selection takes items away and changes none, so it keeps every invariant.  The limit is on the
nesting of the document of criteria, and nothing else depends on it (`evaluate_endsAlike`).
Beside what other queries fail with, there are faults of patterns and of their options.
-/

namespace Quarry

/-- A fault of a query, of a pattern in it or of the options of a pattern. -/
def Fault.OfCriteria : Fault → Prop
  | .query _ | .number _ | .option _ | .pattern _ => True
  | _ => False

theorem Fault.OfQuery.ofCriteria {fault : Fault} (h : fault.OfQuery) : fault.OfCriteria := by
  cases fault with
  | query cause => trivial
  | number cause => trivial
  | _ => cases h

/-- What can end as a query does can end as criteria do. -/
theorem EndsAlike.ofQuery {α : Type} {q : α → Prop} {x y : Except Fault α}
    (h : EndsAlike Fault.OfQuery q x y) : EndsAlike Fault.OfCriteria q x y :=
  h.mono (fun _ => Fault.OfQuery.ofCriteria) fun _ => id

/-! ### Fields -/

namespace Field

/-- Only a name that stands for a number with too many digits makes the lookup of an item fail, -/
theorem item?_ends (items : List Value) (name : List Char) :
    Ends Fault.OfNumber Any (item? items name) := by
  have hread (negative : Bool) (value count : Nat) :
      Ends Fault.OfNumber Any (Number.readInt negative value count) := by
    rw [Number.readInt]
    split
    · exact .fault trivial
    · exact .ok trivial
  have hinteger : Ends Fault.OfNumber Any (Text.integerOf name) := hread _ _ _
  rw [item?]
  split
  · exact hinteger.map fun _ _ => trivial
  · exact .ok trivial

/-- so a walk along the names of a dotted path fails for such a name or not at all, -/
theorem walk_ends (a : Operand) (names : List (List Char)) :
    Ends Fault.OfNumber Any (walk a names) := by
  induction names generalizing a with
  | nil =>
      rw [walk]
      exact .ok trivial
  | cons name names ih =>
      rw [walk.eq_def]
      split
      · exact .ok trivial
      · cases ‹name :: names = _›
        exact ih _
      · cases ‹name :: names = _›
        exact (item?_ends _ _).bind fun a _ => ih a
      · exact .ok trivial

/-- and so does a search for a field, which tries the whole name first. -/
theorem find_ends (members : List (String × Value)) (name : String) :
    Ends Fault.OfNumber Any (find members name) := by
  rw [find]
  split
  · exact .ok trivial
  · split
    · exact .ok trivial
    · exact walk_ends _ _

end Field

/-! ### Matching -/

/-- Comparing with one candidate after the other fails where a comparison does. -/
theorem isAmong_ends (a : Operand) (candidates : List Value) :
    Ends Fault.OfNumber Any (isAmong a candidates) := by
  induction candidates with
  | nil => exact .ok trivial
  | cons v candidates ih =>
      rw [isAmong]
      refine (Operand.looselySame_ends _ _).bind fun found _ => ?_
      cases found with
      | true => exact .ok trivial
      | false => exact ih

/-- A test fails where a number leaves its range: in a comparison, or in the text that a pattern is
matched against. -/
theorem FieldTest.holds_ends (a : Operand) (t : FieldTest) :
    Ends Fault.OfNumber Any (t.holds a) := by
  cases t with
  | relation r v => exact r.compare_ends _ _
  | among negated candidates => exact (isAmong_ends a candidates).map fun _ _ => trivial
  | present wanted => exact .ok trivial
  | pattern node =>
      cases a with
      | none => exact .ok trivial
      | some v => exact v.text_ends.map fun _ _ => trivial
  | options => exact .ok trivial

/-- Tests are made up to the first that does not hold, and those behind it cannot fail. -/
theorem passesAll_ends (a : Operand) (tests : List FieldTest) :
    Ends Fault.OfNumber Any (passesAll a tests) := by
  induction tests with
  | nil => exact .ok trivial
  | cons t tests ih =>
      rw [passesAll]
      refine (t.holds_ends a).bind fun passes _ => ?_
      cases passes with
      | true => exact ih
      | false => exact .ok trivial

/-- A condition is one comparison or a list of tests. -/
theorem FieldCondition.holds_ends (a : Operand) (c : FieldCondition) :
    Ends Fault.OfNumber Any (c.holds a) := by
  cases c with
  | equal v => exact Operand.looselySame_ends _ _
  | tests tests => exact passesAll_ends a tests

namespace Criteria

mutual

/-- **Matching fails only for numbers.**  Criteria that were read have no fault of their own; the
induction is on how they are built. -/
theorem holds_ends (members : List (String × Value)) :
    ∀ c : Criteria, Ends Fault.OfNumber Any (holds members c)
  | field name condition => by
      rw [holds]
      exact (Field.find_ends members name).bind fun a _ => condition.holds_ends a
  | every parts => by
      rw [holds]
      exact everyHolds_ends members parts
  | some parts => by
      rw [holds]
      exact someHolds_ends members parts
  | not part => by
      rw [holds]
      exact (holds_ends members part).map fun _ _ => trivial

theorem everyHolds_ends (members : List (String × Value)) :
    ∀ parts : List Criteria, Ends Fault.OfNumber Any (everyHolds members parts)
  | [] => by
      rw [everyHolds]
      exact .ok trivial
  | c :: parts => by
      rw [everyHolds]
      refine (holds_ends members c).bind fun holds _ => ?_
      cases holds with
      | true => exact everyHolds_ends members parts
      | false => exact .ok trivial

theorem someHolds_ends (members : List (String × Value)) :
    ∀ parts : List Criteria, Ends Fault.OfNumber Any (someHolds members parts)
  | [] => by
      rw [someHolds]
      exact .ok trivial
  | c :: parts => by
      rw [someHolds]
      refine (holds_ends members c).bind fun holds _ => ?_
      cases holds with
      | true => exact .ok trivial
      | false => exact someHolds_ends members parts

end

/-- A value that is no object matches nothing and has no number to fail for. -/
theorem matches?_ends (c : Criteria) (v : Value) : Ends Fault.OfNumber Any (c.matches? v) := by
  cases v with
  | object members => exact holds_ends members c
  | _ => exact .ok trivial

/-- The array that a selection picks from an object is a member of it. -/
theorem firstArray?_mem {members : List (String × Value)} {items : List Value}
    (h : firstArray? members = Option.some items) :
    ∃ member ∈ members, member.2 = .array items := by
  obtain ⟨member, hmember, h⟩ := List.exists_of_findSome?_eq_some h
  refine ⟨member, hmember, ?_⟩
  split at h
  · cases h
    rfl
  · cases h

variable {p : Value → Prop}

/-- What is kept of an array are items of it, so the array of these has every invariant of the
first. -/
theorem keep_ends (hp : Value.Invariant p) (c : Criteria) {items : List Value}
    (h : ∀ v ∈ items, p v) :
    Ends Fault.OfNumber p (do return Value.array (← Items.keep c.matches? items)) :=
  (EndsAlike.keep fun v _ => c.matches?_ends v).map fun _ hkept =>
    hp.array.mpr fun v hv => h v (hkept v hv)

/-- A selection from an array, from the first array in an object, or of an object itself keeps every
invariant. -/
theorem select_ends (hp : Value.Invariant p) (c : Criteria) {v : Value} (h : p v) :
    Ends Fault.OfNumber p (c.select v) := by
  rw [select.eq_def]
  split
  · exact keep_ends hp c (hp.array.mp h)
  · rename_i members
    split
    · rename_i items hitems
      -- the array is inside the object, so it has what the object has
      obtain ⟨member, hmember, heq⟩ := firstArray?_mem hitems
      exact keep_ends hp c (hp.array.mp (heq ▸ hp.member h member hmember))
    · refine (holds_ends members c).map fun holds _ => ?_
      cases holds with
      | true => exact h
      | false => exact hp.null
  · exact .ok h

/-! ### Patterns -/

/-- An option is a known letter, or the fault is about it, -/
theorem optionLetter_ends (entry : Value) : Ends Fault.OfCriteria Any (optionLetter entry) := by
  rw [optionLetter.eq_def]
  repeat' split
  all_goals first | exact .ok trivial | exact .fault trivial

/-- and options are looked through as a text, as an array or by the names of an object; nothing else
has options in it. -/
theorem optionLetters_ends (options : Value) :
    Ends Fault.OfCriteria Any (optionLetters options) := by
  have hall {α : Type} (entry : α → Value) (as : List α) :
      Ends Fault.OfCriteria Any (as.mapM fun a => optionLetter (entry a)) :=
    (EndsAlike.mapM fun a _ => optionLetter_ends (entry a)).mono (fun _ => id) fun _ _ => trivial
  cases options with
  | string s => exact hall (fun c => .string (String.singleton c)) _
  | array entries => exact hall id entries
  | object members => exact hall (fun m : String × Value => .string m.1) members
  | _ => exact .fault trivial

section

variable [Pattern.Names]

/-- A pattern that cannot be read is a fault of the pattern or of its options. -/
theorem readPattern_ends (text : String) (options : Value) :
    Ends Fault.OfCriteria Any (readPattern text options) := by
  refine (optionLetters_ends options).bind fun letters _ => ?_
  dsimp only
  split
  · exact .fault trivial
  · exact .fault trivial
  · exact .ok trivial
  · exact .fault trivial

/-- An object with a pattern may have other members besides, -/
theorem ownPattern_ends (members : List (String × Value)) :
    Ends Fault.OfCriteria Any (ownPattern members) := by
  rw [ownPattern]
  split
  · exact (readPattern_ends _ _).map fun _ _ => trivial
  · exact .ok trivial

mutual

/-- and patterns are looked for at every depth of the document. -/
theorem patterns_ends : ∀ v : Value, Ends Fault.OfCriteria Any (patterns v)
  | .array items => by
      rw [patterns]
      exact patternsInItems_ends items
  | .object members => by
      rw [patterns]
      exact (ownPattern_ends members).bind fun _ _ =>
        (patternsInMembers_ends members).map fun _ _ => trivial
  | .null | .bool _ | .number _ | .string _ => .ok trivial

theorem patternsInItems_ends : ∀ items, Ends Fault.OfCriteria Any (patternsInItems items)
  | [] => .ok trivial
  | v :: items => by
      rw [patternsInItems]
      exact (patterns_ends v).bind fun _ _ => (patternsInItems_ends items).map fun _ _ => trivial

theorem patternsInMembers_ends : ∀ members, Ends Fault.OfCriteria Any (patternsInMembers members)
  | [] => .ok trivial
  | (_, v) :: members => by
      rw [patternsInMembers]
      exact (patterns_ends v).bind fun _ _ =>
        (patternsInMembers_ends members).map fun _ _ => trivial

end

end

/-! ### Building -/

/-- Building the test of an operator fails for an unknown operator or a pattern that was not
read. -/
theorem buildTest_ends (read : List ReadPattern) (tests : List (String × Value))
    (operator : String) (operand : Value) :
    Ends Fault.OfQuery Any (buildTest read tests operator operand) := by
  have hpattern (text options : String) :
      Ends Fault.OfQuery Any (findPattern read text options) := by
    rw [findPattern]
    split
    · exact .ok trivial
    · exact .fault trivial
  rw [buildTest]
  repeat' split
  all_goals first
    | exact .ok trivial
    | exact .fault trivial
    | exact (hpattern _ _).map fun _ _ => trivial

/-- An object whose names all begin with a dollar is a list of tests; every other value is to be
equal to. -/
theorem buildCondition_ends (read : List ReadPattern) (v : Value) :
    Ends Fault.OfQuery Any (buildCondition read v) := by
  rw [buildCondition.eq_def]
  split
  · split
    · refine (EndsAlike.mapM (r := Any) fun test _ => ?_).map fun _ _ => trivial
      exact buildTest_ends read _ test.1 test.2
    · exact .ok trivial
  · exact .ok trivial

mutual

/-- Building criteria fails as queries do, by induction on the document. -/
theorem build_ends (read : List ReadPattern) :
    ∀ v : Value, Ends Fault.OfQuery Any (build read v)
  | .object members => by
      rw [build]
      exact (buildMembers_ends read members).map fun _ _ => trivial
  | .null | .bool _ | .number _ | .string _ | .array _ => .ok trivial

theorem buildMembers_ends (read : List ReadPattern) :
    ∀ members, Ends Fault.OfQuery Any (buildMembers read members)
  | [] => by
      rw [buildMembers]
      exact .ok trivial
  | (name, v) :: members => by
      have hrest (part : Criteria) :
          Ends Fault.OfQuery Any (do return part :: (← buildMembers read members)) :=
        (buildMembers_ends read members).map fun _ _ => trivial
      rw [buildMembers.eq_def]
      dsimp only
      split
      -- `$and` and `$or` with arrays, then `$not`, then a field
      · split
        · exact (buildItems_ends read _).bind fun _ _ => hrest _
        · exact hrest _
      · split
        · split
          · exact (buildItems_ends read _).bind fun _ _ => hrest _
          · exact hrest _
        · split
          · exact (build_ends read v).bind fun _ _ => hrest _
          · exact (buildCondition_ends read v).bind fun _ _ => hrest _

theorem buildItems_ends (read : List ReadPattern) :
    ∀ items, Ends Fault.OfQuery Any (buildItems read items)
  | [] => by
      rw [buildItems]
      exact .ok trivial
  | v :: items => by
      rw [buildItems]
      exact (build_ends read v).bind fun _ _ =>
        (buildItems_ends read items).map fun _ _ => trivial

end

/-! ### Criteria texts -/

/-- The document of a criteria text is empty for a blank one, and what is not JSON is refused. -/
theorem document_ends (text : String) : Ends Fault.OfCriteria Any (document text) := by
  rw [document]
  split
  · exact .ok trivial
  · cases Json.read true text.toList with
    | ok v => exact .ok trivial
    | error cause => exact .fault trivial

variable [Pattern.Names] [Shape.Report] {limit limit' : Nat}

/-- Reading criteria is refused for the nesting of the document, for its form, or for a pattern.
Only the first depends on the limit. -/
theorem read_endsAlike (h : limit ≤ limit') (text : String) :
    EndsAlike Fault.OfCriteria Any (read limit text) (read limit' text) := by
  refine (document_ends text).bind fun raw _ => ?_
  refine (Value.accept_endsAlike (q := Any) h trivial).bind fun accepted _ => ?_
  split
  · exact .fault trivial
  -- patterns are read from the document as it was written, and criteria from the accepted value
  · exact (patterns_ends raw).bind fun patterns _ => (build_ends patterns accepted).ofQuery

/-- **Selections** keep every invariant and, within a wider limit, end in the same way. -/
theorem evaluate_endsAlike (hp : Value.Invariant p) (h : limit ≤ limit') (text : String)
    {v : Value} (hv : p v) :
    EndsAlike Fault.OfCriteria p (evaluate limit text v) (evaluate limit' text v) :=
  (read_endsAlike h text).bind fun c _ => (c.select_ends hp hv).ofNumber.ofQuery

end Criteria

end Quarry
