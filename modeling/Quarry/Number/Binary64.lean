/-!
# Binary64 — double-precision numbers as exact data

A finite double is a signed whole number of *units*, the unit being `2 ^ -1074`, the least
positive double.  Arithmetic is done on those whole numbers and rounded once, to the nearest
double with a tie going to the even significand, so every operation below is the exact one
followed by `ofQuotient`.
-/

namespace Quarry

-- powers of integers are those of the core library, whatever is imported besides
attribute [local instance (high)] instPowNat

/-- The two parts of a finite double: fewer than 54 bits, all 53 of them in use as soon as the
number is scaled up. -/
def Binary64.Canonical (significand shift : Nat) : Prop :=
  significand < 2 ^ (53 : Nat) ∧ (2 ^ (52 : Nat) ≤ significand ∨ shift = 0) ∧ shift ≤ 2045

instance (significand shift : Nat) : Decidable (Binary64.Canonical significand shift) :=
  inferInstanceAs (Decidable (_ ∧ _ ∧ _))

/-- A finite double of magnitude `significand · 2 ^ shift` units. -/
structure Binary64.Finite where
  negative : Bool
  significand : Nat
  shift : Nat
  canonical : Binary64.Canonical significand shift
deriving DecidableEq

/-- A double-precision number. -/
inductive Binary64 where
  | finite (x : Binary64.Finite)
  | infinite (negative : Bool)
  | nan
deriving DecidableEq

namespace Binary64

/-- How many units make one. -/
def unitsPerOne : Nat := 2 ^ (1074 : Nat)

/-- Magnitude in units. -/
def Finite.magnitude (x : Finite) : Nat :=
  x.significand * 2 ^ x.shift

/-- Signed value in units. -/
def Finite.units (x : Finite) : Int :=
  if x.negative then -(x.magnitude : Int) else x.magnitude

/-- The zero of the given sign. -/
def zero (negative : Bool) : Binary64 :=
  .finite ⟨negative, 0, 0, by decide⟩

/-- The double with these parts; beyond the largest finite one it is infinite. -/
def ofParts (negative : Bool) (significand shift : Nat) : Binary64 :=
  if h : Canonical significand shift then .finite ⟨negative, significand, shift, h⟩
  else .infinite negative

/-- The whole number nearest to `num / den`, a tie going to the even one. -/
def roundDiv (num den : Nat) : Nat :=
  let q := num / den
  let r := num % den
  if 2 * r < den then q
  else if den < 2 * r then q + 1
  else q + q % 2

/-- The double nearest to `num / den` units. -/
def ofQuotient (negative : Bool) (num den : Nat) : Binary64 :=
  let shift := (num / den).log2 - 52
  let significand := roundDiv num (den * 2 ^ shift)
  if significand < 2 ^ (53 : Nat) then ofParts negative significand shift
  else ofParts negative (2 ^ (52 : Nat)) (shift + 1)

/-- The double nearest to a signed number of units; `zeroSign` is the sign of an exact zero. -/
def ofUnits (n : Int) (zeroSign : Bool) : Binary64 :=
  ofQuotient (if n = 0 then zeroSign else n < 0) n.natAbs 1

/-- The double nearest to an integer. -/
def ofInt (n : Int) : Binary64 :=
  ofQuotient (n < 0) (n.natAbs * unitsPerOne) 1

/-- The double nearest to `digits · 10 ^ exponent`.  Exponents that put the number beyond every
finite double, or below half a unit, are settled without computing the power. -/
def ofDecimal (negative : Bool) (digits : Nat) (exponent : Int) : Binary64 :=
  if digits = 0 then zero negative
  else if 400 < exponent then .infinite negative
  else if exponent + (digits.log2 / 3 + 1 : Nat) < -400 then zero negative
  else ofQuotient negative (digits * 10 ^ exponent.toNat * unitsPerOne) (10 ^ (-exponent).toNat)

/-- The sign, also of a zero or an infinity. -/
def isNegative : Binary64 → Bool
  | .finite x => x.negative
  | .infinite negative => negative
  | .nan => false

def isNaN : Binary64 → Bool
  | .nan => true
  | _ => false

def isFinite : Binary64 → Bool
  | .finite _ => true
  | _ => false

/-- Equal to zero, of either sign. -/
def isZero : Binary64 → Bool
  | .finite x => x.significand = 0
  | _ => false

/-! ### Arithmetic -/

def neg : Binary64 → Binary64
  | .finite x => .finite { x with negative := !x.negative }
  | .infinite negative => .infinite (!negative)
  | .nan => .nan

def add : Binary64 → Binary64 → Binary64
  | .finite x, .finite y => ofUnits (x.units + y.units) (x.negative && y.negative)
  | .infinite s, .infinite t => if s = t then .infinite s else .nan
  | .infinite s, .finite _ => .infinite s
  | .finite _, .infinite t => .infinite t
  | _, _ => .nan

def sub (x y : Binary64) : Binary64 :=
  add x y.neg

def mul : Binary64 → Binary64 → Binary64
  | .finite x, .finite y =>
      ofQuotient (x.negative != y.negative) (x.magnitude * y.magnitude) unitsPerOne
  | .nan, _ => .nan
  | _, .nan => .nan
  | x, y => if x.isZero || y.isZero then .nan else .infinite (x.isNegative != y.isNegative)

/-- Division; the divisor is never zero where it is used, and a zero divisor gives `nan`. -/
def div : Binary64 → Binary64 → Binary64
  | .finite x, .finite y =>
      if y.significand = 0 then .nan
      else ofQuotient (x.negative != y.negative) (x.magnitude * unitsPerOne) y.magnitude
  | .infinite s, .finite y => .infinite (s != y.negative)
  | .finite x, .infinite t => zero (x.negative != t)
  | _, _ => .nan

/-- The remainder of `x` by `y` with the sign of `x`.  It is always a double, so nothing is
rounded away. -/
def Finite.remainder (x y : Finite) : Binary64 :=
  ofQuotient x.negative (x.magnitude % y.magnitude) 1

/-- The greatest integer that is not above `x`. -/
def Finite.floor (x : Finite) : Int :=
  x.units / unitsPerOne

/-! ### Order -/

/-- Numeric comparison; `none` when a side is not a number. -/
def order? : Binary64 → Binary64 → Option Ordering
  | .nan, _ => none
  | _, .nan => none
  | .finite x, .finite y => some (compare x.units y.units)
  | .infinite s, .infinite t => some (compare t s)
  | .infinite s, .finite _ => some (if s then .lt else .gt)
  | .finite _, .infinite t => some (if t then .gt else .lt)

/-- Numeric equality: the two zeros are equal and `nan` is equal to nothing. -/
def same (x y : Binary64) : Bool :=
  order? x y = some .eq

def lt (x y : Binary64) : Bool :=
  order? x y = some .lt

/-- Comparison of an integer with a double, without rounding the integer. -/
def orderInt? (n : Int) : Binary64 → Option Ordering
  | .nan => none
  | .finite y => some (compare (n * unitsPerOne) y.units)
  | .infinite t => some (if t then .gt else .lt)

/-- The integer that a double is equal to. -/
def Finite.toInt? (x : Finite) : Option Int :=
  if x.magnitude % unitsPerOne = 0 then some (x.units / unitsPerOne) else none

end Binary64

end Quarry
