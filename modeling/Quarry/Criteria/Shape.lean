import Quarry.Value.Basic

/-!
# Shape — which documents are criteria

A document of criteria is an object.  Its names may start with a dollar sign only for the three
connectives, and then hold further documents.  Under any other name stands a condition: an object
whose names all start with a dollar sign is a list of tests and has to be one of the known form,
and everything else is a value.

Of a document that has another shape, one place is reported.  There may be many to choose from, and
the choice belongs to whoever checks schemas (`Report`): what is here says only whether a document
has the shape.
-/

namespace Quarry.Shape

/-! ### Conditions -/

/-- A name is marked as that of an operator. -/
def isMarked (name : String) : Bool :=
  name.toList.head? = some '$'

/-- The operators of conditions. -/
def operators : List String :=
  ["$eq", "$ne", "$gt", "$gte", "$lt", "$lte", "$in", "$nin", "$exists", "$regex"]

/-- The letters of options, perhaps with a line break at the end. -/
def areOptions (s : String) : Bool :=
  let letters := if s.toList.getLast? = some '\n' then s.toList.dropLast else s.toList
  letters.all ['i', 'm', 's', 'x'].contains

/-- An operand has the form that its operator asks for. -/
def fits (name : String) (operand : Value) : Bool :=
  if name = "$in" || name = "$nin" then operand.kind = .array
  else if name = "$regex" then operand.kind = .string
  else if name = "$options" then
    match operand with
    | .string s => areOptions s
    | _ => false
  else true

/-- An object is meant as a list of tests. -/
def isMarkedObject (members : List (String × Value)) : Bool :=
  !members.isEmpty && members.all fun m => isMarked m.1

/-- The operators are known, and options come with a pattern. -/
def areTests (members : List (String × Value)) : Bool :=
  members.all (fun m => operators.contains m.1 || m.1 = "$options")
    && (Members.has members "$options" → Members.has members "$regex")

/-- What may stand under the name of a field. -/
def isCondition : Value → Bool
  | .object members =>
      !isMarkedObject members || (members.all fun m => fits m.1 m.2) && areTests members
  | _ => true

/-! ### Documents -/

/-- The connectives. -/
def connectives : List String :=
  ["$and", "$or", "$not"]

mutual

/-- A document is one of criteria. -/
def accepts : Value → Bool
  | .object members =>
      (members.all fun m => !isMarked m.1 || connectives.contains m.1) && acceptsMembers members
  | _ => false

/-- What stands under each name is what may stand there. -/
def acceptsMembers : List (String × Value) → Bool
  | [] => true
  | (name, v) :: rest =>
      (if name = "$and" || name = "$or" then
        match v with
        | .array items => !items.isEmpty && acceptsItems items
        | _ => false
      else if name = "$not" then accepts v
      else isCondition v)
        && acceptsMembers rest

/-- All items are documents of criteria. -/
def acceptsItems : List Value → Bool
  | [] => true
  | v :: vs => accepts v && acceptsItems vs

end

/-! ### Reports -/

/-- The choice of what is reported. -/
class Report where
  /-- The place that is named for a document of another shape. -/
  place : Value → List String
deriving Inhabited

/-- The place that is reported, unless the document has the shape of criteria. -/
def misfit? [Report] (document : Value) : Option (List String) :=
  if accepts document then none else some (Report.place document)

end Quarry.Shape
