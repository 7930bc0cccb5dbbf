import Quarry.Operand.Literal
import Quarry.Operand.Relation
import Quarry.Path.Reader
import Quarry.Text.Cut
import Quarry.Value.Items

/-!
# Filtering — keeping the items that pass a test

A test is `field OP literal`.  The operators are tried in a fixed order and the first one that
occurs anywhere in the text counts, at its first occurrence; a text without one keeps every item.
-/

namespace Quarry.Filtering

/-- An operator of a test. -/
inductive Operator where
  | relation (r : Relation)
  | contains
deriving DecidableEq

def Operator.symbol : Operator → String
  | .relation r => r.symbol
  | .contains => "contains"

/-- The operators in the order in which they are tried. -/
def operators : List Operator :=
  [.relation .ge, .relation .le, .relation .ne, .relation .eq, .relation .gt, .relation .lt,
    .contains]

/-- A test of one field. -/
structure Test where
  field : String
  operator : Operator
  literal : Value

/-- The test that a text writes, if there is an operator in it. -/
def read (config : String) : Except Fault (Option Test) :=
  let found := operators.findSome? fun o =>
    (Text.cutFirst? o.symbol.toList config.toList).map (o, ·)
  match found with
  | none => .ok none
  | some (o, before, after) => do
      let literal ← Literal.read (String.ofList after)
      return some ⟨String.ofList (Text.dropLeading '.' (Text.trim before)), o, literal⟩

/-- An item is among those loosely equal to `needle`. -/
def hasItem (needle : Value) : List Value → Except Fault Bool
  | [] => .ok false
  | v :: vs => do
      if ← Operand.looselySame (some v) (some needle) then return true
      else hasItem needle vs

/-- An array has the needle among its items; any other value has it in its text. -/
def contains (a : Operand) (needle : Value) : Except Fault Bool :=
  match a with
  | none => .ok false
  | some (.array items) => hasItem needle items
  | some v => do
      let part ← needle.text
      return Text.occurs part.toList (← v.text).toList

/-- An item passes a test whose field is at `path`. -/
def passes (path : Path) (o : Operator) (literal item : Value) : Except Fault Bool :=
  let found := path.resolve item false
  match o with
  | .contains => contains found literal
  | .relation r => r.compare found (some literal)

/-- The items that pass the test that a text writes. -/
def apply (config : String) (items : List Value) : Except Fault (List Value) := do
  match ← read config with
  | none => return items
  | some test =>
      let path ← Path.read test.field
      Items.keep (passes path test.operator test.literal) items

end Quarry.Filtering
