import Quarry.Text.Quoted
import Quarry.Value.Basic

/-!
# Written JSON — values as text

The compact layout has no blanks.  The other layout puts every item and member on a line of its
own, indented by a fixed width for each level, and a blank after each colon; an empty container
stays on one line.  `render` refuses a value with an integer of too many digits.
-/

namespace Quarry.Json

/-- How containers are laid out. -/
inductive Layout where
  | compact
  | lines (width : Nat)
deriving DecidableEq

/-- The layout for a width of indentation, none being compact. -/
def Layout.ofIndent (width : Nat) : Layout :=
  if width = 0 then .compact else .lines width

/-- What separates the parts of a container, before a part at nesting `level`. -/
def Layout.lineBreak (level : Nat) : Layout → List Char
  | .compact => []
  | .lines width => '\n' :: List.replicate (level * width) ' '

/-- What follows a name. -/
def Layout.colon : Layout → List Char
  | .compact => [':']
  | .lines _ => [':', ' ']

/-- The text of a number. -/
def writeNumber (n : Number) : List Char :=
  n.textWith "Infinity" "NaN"

mutual

/-- The text of a value that stands at nesting `level`. -/
def write (layout : Layout) (level : Nat) : Value → List Char
  | .null => ['n', 'u', 'l', 'l']
  | .bool true => ['t', 'r', 'u', 'e']
  | .bool false => ['f', 'a', 'l', 's', 'e']
  | .number n => writeNumber n
  | .string s => Text.quoted s.toList
  | .array [] => ['[', ']']
  | .array (v :: vs) =>
      '[' :: layout.lineBreak (level + 1) ++ write layout (level + 1) v
        ++ writeItems layout (level + 1) vs ++ layout.lineBreak level ++ [']']
  | .object [] => ['{', '}']
  | .object ((name, v) :: vs) =>
      '{' :: layout.lineBreak (level + 1) ++ Text.quoted name.toList ++ layout.colon
        ++ write layout (level + 1) v ++ writeMembers layout (level + 1) vs
        ++ layout.lineBreak level ++ ['}']

/-- The text of the items after the first. -/
def writeItems (layout : Layout) (level : Nat) : List Value → List Char
  | [] => []
  | v :: vs =>
      ',' :: layout.lineBreak level ++ write layout level v ++ writeItems layout level vs

/-- The text of the members after the first. -/
def writeMembers (layout : Layout) (level : Nat) : List (String × Value) → List Char
  | [] => []
  | (name, v) :: vs =>
      ',' :: layout.lineBreak level ++ Text.quoted name.toList ++ layout.colon
        ++ write layout level v ++ writeMembers layout level vs

end

/-- The text of a value. -/
def render (layout : Layout) (v : Value) : Except Fault String :=
  if v.isWritable then .ok (String.ofList (write layout 0 v))
  else .error (.number .longInteger)

end Quarry.Json
