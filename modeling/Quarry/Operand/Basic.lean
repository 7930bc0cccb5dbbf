import Quarry.Json.Writer
import Quarry.Number.Sum
import Quarry.Text.Class
import Quarry.Text.Numeral

/-!
# Operands — values as numbers, truth and text

An operand is a value, or nothing where a place does not exist.  Its numeric view is `nan` where
it has none; the text view of containers is their compact form.  `Value.total` adds numeric views.
-/

namespace Quarry

/-- A value, or none for a place that does not exist. -/
abbrev Operand := Option Value

namespace Value

/-- The numeric view.  A text counts if it is a numeral or blank. -/
def toFloat : Value → Except Fault Binary64
  | number n => n.toFloat
  | null => .ok (.zero false)
  | bool b => .ok (.ofInt (if b then 1 else 0))
  | string s =>
      match Text.trim s.toList with
      | [] => .ok (.zero false)
      | text =>
          match Text.numeral? text with
          | some n => .ok n.toFloat
          | none => .ok .nan
  | _ => .ok .nan

/-- Null, false, zero and the empty text do not hold. -/
def holds : Value → Bool
  | null => false
  | bool b => b
  | number n => !n.isZero
  | string s => s ≠ ""
  | _ => true

/-- The text view. -/
def text : Value → Except Fault String
  | string s => .ok s
  | null => .ok "null"
  | bool b => .ok (if b then "true" else "false")
  | number n =>
      if n.isWritable then .ok (String.ofList (n.textWith "inf" "nan"))
      else .error (.number .longInteger)
  | v => Json.render .compact v

/-- The items of an array, or the value alone. -/
def itemsOrSelf : Value → List Value
  | .array items => items
  | v => [v]

/-- The sum of numeric views, rounded once. -/
def total (items : List Value) : Except Fault Binary64 := do
  let sum ← items.foldlM (fun sum v => do sum.insert (← v.toFloat)) ({} : Binary64.Sum)
  sum.total

end Value

namespace Operand

/-- The numeric view; nothing has none. -/
def toFloat : Operand → Except Fault Binary64
  | some v => v.toFloat
  | none => .ok .nan

/-- The truth view; nothing does not hold. -/
def holds : Operand → Bool
  | some v => v.holds
  | none => false

/-- The text view; nothing is the empty text. -/
def text : Operand → Except Fault String
  | some v => v.text
  | none => .ok ""

/-- What stands for an operand in a document: null for nothing. -/
def orNull (a : Operand) : Value :=
  a.getD .null

end Operand

end Quarry
