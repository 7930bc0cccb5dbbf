import Quarry.Path.Reader
import Quarry.Text.Case
import Quarry.Text.Cut

/-!
# Exploring — where things are

A text that starts with `$` is a path with a result for each match, one that is empty or starts
with a dot is a path that is resolved once, and any other is looked for in the names of members at
every depth, without regard to case.
-/

namespace Quarry.Explore

/-- A place with the value at it. -/
abbrev Found := String × Value

mutual

/-- The members at every depth whose lower-case name contains `needle`, each before what is found
inside it. -/
def searchNames (needle : List Char) (place : String) : Value → List Found
  | .array items => searchItems needle place 0 items
  | .object members => searchMembers needle place members
  | _ => []

/-- What is found in items, of which the first has index `n`. -/
def searchItems (needle : List Char) (place : String) (n : Nat) : List Value → List Found
  | [] => []
  | v :: vs =>
      searchNames needle (Place.item place n) v ++ searchItems needle place (n + 1) vs

/-- What is found in members. -/
def searchMembers (needle : List Char) (place : String) : List (String × Value) → List Found
  | [] => []
  | (name, v) :: rest =>
      let here := Place.member place name
      (if Text.occurs needle (Text.lower name.toList) then [(here, v)] else [])
        ++ searchNames needle here v ++ searchMembers needle place rest

end

/-- The places that a text asks for. -/
def search (expression : String) (v : Value) : Except Fault (List Found) :=
  let text := Text.trim expression.toList
  match text with
  | [] => .ok [("$", v)]
  | '$' :: rest =>
      match Text.dropLeading '.' rest with
      | '.' :: _ => .error (.query (.recursiveDescent (String.ofList text)))
      | rest => do return (← Path.read (String.ofList rest)).locate "$" v
  | '.' :: rest => do
      match (← Path.read (String.ofList rest)).resolve v false with
      | some w => return [(String.ofList text, w)]
      | none => return []
  | _ => .ok (searchNames (Text.lower text) "$" v)

end Quarry.Explore
