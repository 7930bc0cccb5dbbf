import Quarry.Pattern.Reader
import Quarry.Text.Cited

/-!
# Patterns in criteria — every pattern of a document, read once

A document of criteria is searched at every depth for texts under `$regex`.  Each is read in the
mode that the options beside it ask for, and kept under its text and that of the options.
-/

namespace Quarry.Criteria

variable [Pattern.Names]

/-- A pattern with its text and its options. -/
structure ReadPattern where
  text : String
  options : String
  node : Pattern.Node

/-- The name of the type of a value that has no parts to go through. -/
def scalarType : Value → String
  | .null => "NoneType"
  | .bool _ => "bool"
  | .number (.int _) => "int"
  | .number (.float _) => "float"
  | .string _ => "str"
  | .array _ => "list"
  | .object _ => "dict"

/-- The letter of an entry in a list of options. -/
def optionLetter (entry : Value) : Except Fault Char :=
  match entry with
  | .array _ | .object _ => .error (.option (.notComparable (scalarType entry)))
  | .string s =>
      match s.toList with
      | [c] => if ['i', 'm', 's', 'x'].contains c then .ok c
          else .error (.option (.unknownLetter s))
      | _ => .error (.option (.unknownLetter s))
  | v => .error (.option (.unknownEntry (Text.listed v)))

/-- The letters of options: those of a text, the entries of a list or the names of an object. -/
def optionLetters (options : Value) : Except Fault (List Char) :=
  match options with
  | .string s => s.toList.mapM fun c => optionLetter (.string (String.singleton c))
  | .array entries => entries.mapM optionLetter
  | .object members => members.mapM fun m => optionLetter (.string m.1)
  | v => .error (.option (.notSequence (scalarType v)))

/-- The pattern of a text and options; options have to be a text to be remembered. -/
def readPattern (text : String) (options : Value) : Except Fault ReadPattern := do
  let mode := ({} : Pattern.Mode).change (← optionLetters options) []
  match Pattern.read mode text.toList, options with
  | .error .malformed, _ => throw (.query (.criteria (.badPattern text)))
  | .error (.excessive cause), _ => throw (.pattern cause)
  | .ok node, .string s => return ⟨text, s, node⟩
  | .ok _, v => throw (.option (.notComparable (scalarType v)))

/-- The pattern of an object, if it has one. -/
def ownPattern (members : List (String × Value)) : Except Fault (List ReadPattern) :=
  match Members.find? members "$regex" with
  | some (.string text) => do
      return [← readPattern text ((Members.find? members "$options").getD (.string ""))]
  | _ => .ok []

mutual

/-- Every pattern in a document: first that of an object, then those inside it. -/
def patterns : Value → Except Fault (List ReadPattern)
  | .array items => patternsInItems items
  | .object members => do return (← ownPattern members) ++ (← patternsInMembers members)
  | _ => .ok []

/-- Every pattern in a list of values. -/
def patternsInItems : List Value → Except Fault (List ReadPattern)
  | [] => .ok []
  | v :: vs => do return (← patterns v) ++ (← patternsInItems vs)

/-- Every pattern in the values of members. -/
def patternsInMembers : List (String × Value) → Except Fault (List ReadPattern)
  | [] => .ok []
  | (_, v) :: vs => do return (← patterns v) ++ (← patternsInMembers vs)

end

end Quarry.Criteria
