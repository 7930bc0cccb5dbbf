import Quarry.Json.Reader
import Quarry.Operand.Basic

/-!
# Literals — constants in queries

A literal is one of the three words for null and truth, a text between quotes of either kind, or
a numeral; any other text stands for itself.
-/

namespace Quarry.Literal

/-- A text between two equal quotes, and the quote. -/
def betweenQuotes? (s : List Char) : Option (Char × List Char) :=
  match s with
  | q :: rest =>
      if (q = '"' || q = '\x27') && rest.getLast? = some q then some (q, rest.dropLast) else none
  | [] => none

/-- The JSON string that fills `s`. -/
def wholeQuoted? (s : List Char) : Option String :=
  match Json.readQuoted s with
  | .ok (text, rest) => if (Json.skipSpace rest).isEmpty then some text else none
  | .error _ => none

/-- The text that a quoted text stands for: with double quotes a JSON string if it is one, and
what is between the quotes otherwise. -/
def unquote? (s : List Char) : Option String :=
  match betweenQuotes? s with
  | none => none
  | some (q, inner) =>
      if q = '"' then some ((wholeQuoted? s).getD (String.ofList inner))
      else some (String.ofList inner)

/-- The value that a text stands for, without the blanks around it. -/
def read (text : String) : Except Fault Value :=
  let s := Text.trim text.toList
  let trimmed := String.ofList s
  if trimmed = "null" then .ok .null
  else if trimmed = "true" then .ok (.bool true)
  else if trimmed = "false" then .ok (.bool false)
  else
    match unquote? s with
    | some inner => .ok (.string inner)
    | none =>
        match Text.numeral? s with
        | some n => return .number (← n.toNumber)
        | none => .ok (.string trimmed)

end Quarry.Literal
