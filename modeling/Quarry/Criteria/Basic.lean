import Quarry.Operand.Relation
import Quarry.Pattern.Search
import Quarry.Text.Cut
import Quarry.Value.Items

/-!
# Criteria — which documents of a collection match

Criteria are built from conditions on fields by "every", "some" and "not".  A condition on a
field is a value that the field has to equal, or a list of tests that it has to pass.  Only
objects match.  Parts are tried in order, and the first that decides is the last that is tried.
-/

namespace Quarry

/-- A test of a field that may not exist. -/
inductive FieldTest where
  | relation (r : Relation) (v : Value)
  | among (negated : Bool) (candidates : List Value)
  | present (wanted : Bool)
  | pattern (p : Pattern.Node)
  /-- Options of a pattern, which say nothing by themselves. -/
  | options

/-- What is asked of a field. -/
inductive FieldCondition where
  | equal (v : Value)
  | tests (ts : List FieldTest)

/-- What is asked of an object. -/
inductive Criteria where
  | field (name : String) (condition : FieldCondition)
  | every (parts : List Criteria)
  | some (parts : List Criteria)
  | not (part : Criteria)

/-! ### Fields -/

namespace Field

/-- The item of an array at a place that is written in digits. -/
def item? (items : List Value) (name : List Char) : Except Fault Operand :=
  if Text.isNumeral name then do
    let i ← Text.integerOf name
    return items[i.toNat]?
  else .ok none

/-- What is at the end of a chain of member names and indices. -/
def walk : Operand → List (List Char) → Except Fault Operand
  | v, [] => .ok v
  | some (.object members), name :: names =>
      walk (Members.find? members (String.ofList name)) names
  | some (.array items), name :: names => do walk (← item? items name) names
  | _, _ :: _ => .ok none

/-- The field of a given name: the member of that name if there is one, and otherwise what is at
the end of the chain between its dots. -/
def find (members : List (String × Value)) (name : String) : Except Fault Operand :=
  match Members.find? members name with
  | some v => .ok (some v)
  | none =>
      match Text.cutAll '.' name.toList with
      | [_] => .ok none
      | names => walk (some (.object members)) names

end Field

/-! ### Matching -/

/-- Some candidate is loosely equal to an operand. -/
def isAmong (a : Operand) : List Value → Except Fault Bool
  | [] => .ok false
  | v :: vs => do if ← Operand.looselySame a (some v) then return true else isAmong a vs

/-- An operand passes a test. -/
def FieldTest.holds (a : Operand) : FieldTest → Except Fault Bool
  | relation r v => r.compare a (some v)
  | among negated candidates => do return (← isAmong a candidates) != negated
  | present wanted => .ok (a.isSome == wanted)
  | pattern p =>
      match a with
      | none => .ok false
      | some v => do return Pattern.occursIn p (← v.text).toList
  | options => .ok true

/-- An operand passes every test of a list. -/
def passesAll (a : Operand) : List FieldTest → Except Fault Bool
  | [] => .ok true
  | t :: ts => do if ← t.holds a then passesAll a ts else return false

/-- An operand meets a condition. -/
def FieldCondition.holds (a : Operand) : FieldCondition → Except Fault Bool
  | equal v => Operand.looselySame a (some v)
  | tests ts => passesAll a ts

namespace Criteria

mutual

/-- An object with the given members meets criteria. -/
def holds (members : List (String × Value)) : Criteria → Except Fault Bool
  | field name condition => do condition.holds (← Field.find members name)
  | every parts => everyHolds members parts
  | some parts => someHolds members parts
  | not part => do return !(← holds members part)

/-- All parts hold. -/
def everyHolds (members : List (String × Value)) : List Criteria → Except Fault Bool
  | [] => .ok true
  | c :: cs => do if ← holds members c then everyHolds members cs else return false

/-- Some part holds. -/
def someHolds (members : List (String × Value)) : List Criteria → Except Fault Bool
  | [] => .ok false
  | c :: cs => do if ← holds members c then return true else someHolds members cs

end

/-- A value matches: it is an object that meets the criteria. -/
def matches? (c : Criteria) : Value → Except Fault Bool
  | .object members => c.holds members
  | _ => .ok false

/-- The first member that is an array. -/
def firstArray? (members : List (String × Value)) : Option (List Value) :=
  members.findSome? fun
    | (_, .array items) => Option.some items
    | _ => none

/-- The part of a collection that matches: of an array its items, of an object those of its
first array or else the object itself.  A value that is neither passes. -/
def select (c : Criteria) : Value → Except Fault Value
  | .array items => do return .array (← Items.keep c.matches? items)
  | .object members =>
      match firstArray? members with
      | Option.some items => do return .array (← Items.keep c.matches? items)
      | none => do return if ← c.holds members then .object members else .null
  | v => .ok v

end Criteria

end Quarry
