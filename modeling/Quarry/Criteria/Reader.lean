import Quarry.Criteria.Basic
import Quarry.Criteria.Patterns
import Quarry.Criteria.Shape
import Quarry.Json.Reader

/-!
# Read criteria — from documents to tests

A text of criteria is a JSON document; a blank one is the empty document, which every object
matches.  Its nesting is bounded first, then its shape is checked and its patterns are read, and
only then the criteria are built, so a text that is accepted cannot fail by its form later.

As for any document, halves of character pairs that stand alone are idealized away, and so is the
host's limit on nested calls: a document for which it runs out of them, while it is read or while
its shape is checked, would be reported as too deep, and here only the caller's limit is.
-/

namespace Quarry.Criteria

variable [Pattern.Names] [Shape.Report]

/-- The pattern with a text and options among those that were read. -/
def findPattern (read : List ReadPattern) (text options : String) : Except Fault Pattern.Node :=
  match read.find? fun p => p.text = text && p.options = options with
  | Option.some p => .ok p.node
  | none => .error (.query (.criteria (.missingPattern text)))

/-- The text under a name; the empty text if there is none. -/
def textUnder (members : List (String × Value)) (name : String) : String :=
  match Members.find? members name with
  | Option.some (.string s) => s
  | _ => ""

/-- The items of an array, and no items of any other value. -/
def candidates : Value → List Value
  | .array items => items
  | _ => []

/-- The relation that an operator stands for. -/
def relationOf? (operator : String) : Option Relation :=
  [("$eq", Relation.eq), ("$ne", .ne), ("$gt", .gt), ("$gte", .ge), ("$lt", .lt),
    ("$lte", .le)].lookup operator

/-- The test that an operator and its operand make, among the `tests` of a field. -/
def buildTest (read : List ReadPattern) (tests : List (String × Value)) (operator : String)
    (operand : Value) : Except Fault FieldTest :=
  match relationOf? operator with
  | Option.some r => .ok (.relation r operand)
  | none =>
      if operator = "$in" then .ok (.among false (candidates operand))
      else if operator = "$nin" then .ok (.among true (candidates operand))
      else if operator = "$exists" then .ok (.present operand.holds)
      else if operator = "$regex" then do
        let options := textUnder tests "$options"
        return .pattern (← findPattern read (textUnder tests "$regex") options)
      else if operator = "$options" then .ok .options
      else .error (.query (.criteria (.unknownOperator operator)))

/-- The condition that a value writes. -/
def buildCondition (read : List ReadPattern) (v : Value) : Except Fault FieldCondition :=
  match v with
  | .object members =>
      if Shape.isMarkedObject members then do
        return .tests (← members.mapM fun (name, operand) => buildTest read members name operand)
      else .ok (.equal v)
  | _ => .ok (.equal v)

/-- No object matches. -/
def never : Criteria :=
  .some []

mutual

/-- The criteria that a document writes; nothing matches what is not an object. -/
def build (read : List ReadPattern) : Value → Except Fault Criteria
  | .object members => do return .every (← buildMembers read members)
  | _ => .ok never

/-- The criteria that members write. -/
def buildMembers (read : List ReadPattern) :
    List (String × Value) → Except Fault (List Criteria)
  | [] => .ok []
  | (name, v) :: rest => do
      let part ←
        if name = "$and" then
          match v with
          | .array items => do pure (Criteria.every (← buildItems read items))
          | _ => pure never
        else if name = "$or" then
          match v with
          | .array items => do pure (Criteria.some (← buildItems read items))
          | _ => pure never
        else if name = "$not" then do pure (Criteria.not (← build read v))
        else do pure (Criteria.field name (← buildCondition read v))
      return part :: (← buildMembers read rest)

/-- The criteria that items write. -/
def buildItems (read : List ReadPattern) : List Value → Except Fault (List Criteria)
  | [] => .ok []
  | v :: vs => do return (← build read v) :: (← buildItems read vs)

end

/-- The document that a text writes, numbers as written. -/
def document (text : String) : Except Fault Value :=
  if (Text.trim text.toList).isEmpty then .ok (.object [])
  else (Json.read true text.toList).mapError fun cause => .query (.criteria (.notJson cause))

/-- The criteria that a text writes, nested at most `limit` deep. -/
def read (limit : Nat) (text : String) : Except Fault Criteria := do
  let raw ← document text
  let accepted ← raw.accept limit
  match Shape.misfit? raw with
  | Option.some place => throw (.query (.criteria (.badShape place)))
  | none => build (← patterns raw) accepted

/-- The part of a collection that matches the criteria of a text. -/
def evaluate (limit : Nat) (text : String) (v : Value) : Except Fault Value := do
  (← read limit text).select v

end Quarry.Criteria
