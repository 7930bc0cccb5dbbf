import Quarry.Number.Basic
import Quarry.Text.Class

/-!
# Numerals — decimal notation in texts

A numeral is a sign, digits with at most one point among or before them, and an exponent.  The
digits may be of any script.  A numeral without point and exponent writes an integer, the others
write doubles.
-/

namespace Quarry.Text

/-- A numeral by its parts. -/
structure Numeral where
  negative : Bool
  whole : List Char
  fraction : List Char
  exponent : Int
  /-- There is neither a point nor an exponent. -/
  isInteger : Bool

/-- A sign, and the text after it. -/
def signed : List Char → Bool × List Char
  | '-' :: s => (true, s)
  | '+' :: s => (false, s)
  | s => (false, s)

/-- The exponent that fills `s`, if `s` is not empty. -/
def exponent? : List Char → Option (Option Int)
  | [] => some none
  | c :: s =>
      if c = 'e' || c = 'E' then
        let (negative, digits) := signed s
        if isNumeral digits then
          some (some (if negative then -(naturalOf digits : Int) else naturalOf digits))
        else none
      else none

/-- The parts of a numeral that fills `s`. -/
def numeral? (s : List Char) : Option Numeral :=
  let (negative, s) := signed s
  let (whole, s) := s.span isDigit
  let (point, fraction, s) := match s with
    | '.' :: s => let (fraction, s) := s.span isDigit; (true, fraction, s)
    | s => (false, [], s)
  if whole.isEmpty && fraction.isEmpty then none
  else
    match exponent? s with
    | none => none
    | some e => some ⟨negative, whole, fraction, e.getD 0, !point && e.isNone⟩

/-- The nearest double. -/
def Numeral.toFloat (n : Numeral) : Binary64 :=
  .ofDecimal n.negative (naturalOf (n.whole ++ n.fraction)) (n.exponent - n.fraction.length)

/-- The number that a numeral writes, in normal form. -/
def Numeral.toNumber (n : Numeral) : Except Fault Number :=
  if n.isInteger then
    return .int (← Number.readInt n.negative (naturalOf n.whole) n.whole.length)
  else .ok (.ofFloat n.toFloat)

/-- The integer that a sign and digits write. -/
def integerOf (s : List Char) : Except Fault Int :=
  let (negative, digits) := signed s
  Number.readInt negative (naturalOf digits) digits.length

end Quarry.Text
