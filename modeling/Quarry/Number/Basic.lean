import Quarry.Fault
import Quarry.Number.Shortest

/-!
# Numbers — integers of any size and doubles

A number is an integer or a double.  The two kinds compare by exact value.  In normal form a
double that is an integer below `2 ^ 53` in magnitude is written as that integer, so small equal
numbers have one form.
-/

namespace Quarry

-- powers of integers are those of the core library, whatever is imported besides
attribute [local instance (high)] instPowNat

/-- A number as it is written or computed. -/
inductive Number where
  | int (n : Int)
  | float (x : Binary64)
deriving DecidableEq

namespace Number

/-- The integers below this bound in magnitude are all doubles. -/
def safeBound : Nat := 2 ^ (53 : Nat)

/-- The machine integers are those below this bound and not below its negation. -/
def machineBound : Nat := 2 ^ (63 : Nat)

/-- The number a double stands for, an integer if it is a small one. -/
def ofFloat (x : Binary64) : Number :=
  match x with
  | .finite y =>
      match y.toInt? with
      | some n => if n.natAbs < safeBound then .int n else .float x
      | none => .float x
  | _ => .float x

/-- Normal form. -/
def normalize : Number → Number
  | .int n => .int n
  | .float x => ofFloat x

/-- A double that is neither small and integral nor `nan`, or an integer. -/
def IsNormal (n : Number) : Prop :=
  n.normalize = n ∧ n ≠ .float .nan

/-- A double that has to be finite. -/
def ifFinite (cause : NumberFault) : Binary64 → Except Fault Binary64
  | .finite x => .ok (.finite x)
  | _ => .error (.number cause)

/-- The double that is nearest; an integer beyond all of them has none. -/
def toFloat : Number → Except Fault Binary64
  | .float x => .ok x
  | .int n => ifFinite .integerTooLarge (Binary64.ofInt n)

/-- Comparison by exact value; `none` when a side is `nan`. -/
def order? : Number → Number → Option Ordering
  | .int m, .int n => some (compare m n)
  | .int m, .float y => Binary64.orderInt? m y
  | .float x, .int n => (Binary64.orderInt? n x).map Ordering.swap
  | .float x, .float y => Binary64.order? x y

/-- Equality by exact value. -/
def same (m n : Number) : Bool :=
  order? m n = some .eq

/-- Comparison in which `nan` equals everything. -/
def order (m n : Number) : Ordering :=
  (order? m n).getD .eq

def isZero : Number → Bool
  | .int n => n = 0
  | .float x => x.isZero

/-- Neither infinite nor `nan`. -/
def isFinite : Number → Bool
  | .int _ => true
  | .float x => x.isFinite

/-! ### Text -/

/-- Integers with more decimal digits than this are neither read nor written. -/
def digitLimit : Nat := 4300

/-- The least natural number with too many digits. -/
def digitBound : Nat := 10 ^ digitLimit

/-- Few enough digits to be written. -/
def isWritable : Number → Bool
  | .int n => n.natAbs < digitBound
  | .float _ => true

/-- The decimal text of an integer. -/
def intText (n : Int) : List Char :=
  if n < 0 then '-' :: Nat.toDigits 10 n.natAbs else Nat.toDigits 10 n.natAbs

/-- The integer with this sign and these digits, if they are not too many. -/
def readInt (negative : Bool) (value count : Nat) : Except Fault Int :=
  if digitLimit < count then .error (.number (.longNumeral count))
  else .ok (if negative then -(value : Int) else value)

/-- The text of a number, with the given words for infinity and `nan`. -/
def textWith (infinity notANumber : String) : Number → List Char
  | .int n => intText n
  | .float x => x.textWith infinity notANumber

/-! ### Arithmetic

Integers stay exact under `+`, `-` and `*`; everything else is done on doubles. -/

/-- An operation that is exact on integers and rounds otherwise. -/
def combine (onInts : Int → Int → Int) (onFloats : Binary64 → Binary64 → Binary64) :
    Number → Number → Except Fault Number
  | .int m, .int n => .ok (.int (onInts m n))
  | x, y => do
      let a ← x.toFloat
      let b ← y.toFloat
      return .float (onFloats a b)

def add : Number → Number → Except Fault Number :=
  combine (· + ·) Binary64.add

def sub : Number → Number → Except Fault Number :=
  combine (· - ·) Binary64.sub

def mul : Number → Number → Except Fault Number :=
  combine (· * ·) Binary64.mul

/-- Division; a quotient of integers is rounded once. The divisor is not zero. -/
def div : Number → Number → Except Fault Number
  | .int m, .int n => do
      let q := Binary64.ofQuotient ((m < 0) != (n < 0)) (m.natAbs * Binary64.unitsPerOne) n.natAbs
      return .float (← ifFinite .quotientTooLarge q)
  | x, y => do
      let a ← x.toFloat
      let b ← y.toFloat
      return .float (a.div b)

/-- The remainder of doubles, with the sign of the dividend.  The divisor is not zero. -/
def rem (x y : Number) : Except Fault Number := do
  let a ← x.toFloat
  let b ← y.toFloat
  match a, b with
  | .nan, _ => return .float .nan
  | _, .nan => return .float .nan
  | .infinite _, _ => throw (.number .remainderOfInfinity)
  | .finite u, .infinite _ => return .float (.finite u)
  | .finite u, .finite v => return .float (u.remainder v)

def neg : Number → Number
  | .int n => .int (-n)
  | .float x => .float x.neg

/-- The integer nearest to a number, a half going up.  The half is added as a double. -/
def round (x : Number) : Except Fault Int := do
  let a ← x.toFloat
  match a.add (Binary64.ofQuotient false Binary64.unitsPerOne 2) with
  | .finite u => return u.floor
  | _ => throw (.number .infiniteFloor)

end Number

end Quarry
