import Quarry.Number.Binary64

/-!
# Shortest decimals — the fewest digits that read back

Among the decimal numbers that round to a given double, `shortest` finds one with the fewest
digits, and of those the nearest, half way between two the one with the even last digit.  A grid
of `n` digits is tried for `n = 1, 2, …, 17`: if any of its points rounds to the double, then one
of the two points around the double does.
-/

namespace Quarry.Binary64

-- powers of integers are those of the core library, whatever is imported besides
attribute [local instance (high)] instPowNat

/-- A positive decimal number `0.d₁d₂… · 10 ^ point`. -/
structure Decimal where
  digits : List Char
  point : Int

/-- How many decimal digits a number has. -/
def decimalLength (n : Nat) : Nat :=
  (Nat.toDigits 10 n).length

/-- The exponent `k` with `10 ^ (k - 1) ≤ num / den < 10 ^ k`, for a fraction that is not a
negative power of ten. -/
def decimalPoint (num den : Nat) : Int :=
  if den ≤ num then decimalLength (num / den) else 1 - decimalLength (den / num)

/-- The numbers that round to a double, as fractions with the common denominator `den`. -/
structure Interval where
  value : Nat
  low : Nat
  high : Nat
  closed : Bool
  den : Nat

/-- The interval of a double: half a step to each side, a quarter step below a power of two, with
the ends when the significand is even. -/
def Finite.interval (x : Finite) : Interval :=
  let below := if x.significand = 2 ^ (52 : Nat) && 0 < x.shift then 1 else 2
  let scale := 2 ^ x.shift
  { value := 4 * x.significand * scale
    low := (4 * x.significand - below) * scale
    high := (4 * x.significand + 2) * scale
    closed := x.significand % 2 = 0
    den := 4 * unitsPerOne }

/-- The interval after multiplication by `10 ^ e`. -/
def Interval.rescale (i : Interval) (e : Int) : Interval :=
  let up := 10 ^ e.toNat
  let down := 10 ^ (-e).toNat
  { i with value := i.value * up, low := i.low * up, high := i.high * up, den := i.den * down }

/-- The whole number `d` lies in the interval. -/
def Interval.contains (i : Interval) (d : Nat) : Bool :=
  let point := d * i.den
  if i.closed then i.low ≤ point && point ≤ i.high else i.low < point && point < i.high

/-- The whole number of the interval nearest to its value, if it has one beside the value; half
way between two the even one. -/
def Interval.wholeNumber? (i : Interval) : Option Nat :=
  let d := i.value / i.den
  let rest := i.value % i.den
  match i.contains d, i.contains (d + 1) with
  | true, true =>
      if 2 * rest < i.den then some d
      else if i.den < 2 * rest then some (d + 1)
      else some (d + d % 2)
  | true, false => some d
  | false, true => some (d + 1)
  | false, false => none

/-- The whole number `d`, without the zeros at its end, after moving the point by `e`. -/
def Decimal.ofWhole (d : Nat) (e : Int) : Decimal :=
  let digits := Nat.toDigits 10 d
  ⟨(digits.reverse.dropWhile (· = '0')).reverse, digits.length + e⟩

/-- The shortest decimal that rounds to the magnitude of `x`, nearest among those; `x` is not
zero. -/
def Finite.shortest (x : Finite) : Decimal :=
  let i := x.interval
  let point := decimalPoint i.value i.den
  let onGrid (n : Nat) : Option Decimal :=
    (i.rescale (n - point)).wholeNumber?.map fun d => Decimal.ofWhole d (point - n)
  ((List.range' 1 17).findSome? onGrid).getD ⟨['0'], 1⟩

/-- Decimal notation: positional while the point stands from three places before the first digit
to the sixteenth digit, with an exponent of at least two digits otherwise. -/
def Decimal.text (d : Decimal) : List Char :=
  let count := d.digits.length
  if d.point < -3 || 16 < d.point then
    let e := d.point - 1
    let mantissa := match d.digits with
      | c :: c' :: rest => c :: '.' :: c' :: rest
      | short => short
    let exponent := Nat.toDigits 10 e.natAbs
    mantissa ++ ['e', if e < 0 then '-' else '+']
      ++ (if exponent.length < 2 then ['0'] else []) ++ exponent
  else if d.point ≤ 0 then
    ['0', '.'] ++ List.replicate (-d.point).toNat '0' ++ d.digits
  else
    let whole := d.point.toNat
    if count ≤ whole then d.digits ++ List.replicate (whole - count) '0' ++ ['.', '0']
    else d.digits.take whole ++ ['.'] ++ d.digits.drop whole

/-- The text of a finite double. -/
def Finite.text (x : Finite) : List Char :=
  let digits := if x.significand = 0 then ['0', '.', '0'] else x.shortest.text
  if x.negative then '-' :: digits else digits

/-- The text of a double with the given words for the ones that are not finite. -/
def textWith (infinity notANumber : String) : Binary64 → List Char
  | .finite x => x.text
  | .infinite negative => (if negative then ['-'] else []) ++ infinity.toList
  | .nan => notANumber.toList

end Quarry.Binary64
