import Quarry.Number.Basic

/-!
# Sums — adding doubles with a single rounding

A running sum is kept as a list of doubles, least first, whose exact total is the exact sum so
far.  A new summand is added to each of them in turn; what a rounded addition loses stays in the
list.  The list is rounded once, at the end.
-/

namespace Quarry.Binary64

/-- A running sum. -/
structure Sum where
  /-- Doubles whose exact total is the sum of the finite summands. -/
  parts : List Finite := []
  plusInfinity : Bool := false
  minusInfinity : Bool := false
  notANumber : Bool := false

/-- What is lost when `x + y` is rounded to `z`. -/
def lost (x y z : Finite) : Binary64 :=
  ofUnits (x.units + y.units - z.units) false

/-- Carry `x` through the parts of a sum.  `none` when a partial sum is beyond every double. -/
def carry (x : Finite) : List Finite → Option (List Finite)
  | [] => if x.significand = 0 then some [] else some [x]
  | y :: ys =>
      match add (.finite x) (.finite y) with
      | .finite z =>
          match lost x y z with
          | .finite r =>
              if r.significand = 0 then carry z ys
              else (carry z ys).map (r :: ·)
          | _ => none
      | _ => none

/-- The sum with one more summand. -/
def Sum.insert (s : Sum) : Binary64 → Except Fault Sum
  | .nan => .ok { s with parts := [], notANumber := true }
  | .infinite false => .ok { s with parts := [], plusInfinity := true }
  | .infinite true => .ok { s with parts := [], minusInfinity := true }
  | .finite x =>
      match carry x s.parts with
      | some parts => .ok { s with parts }
      | none => .error (.number .sumOverflow)

/-- The double nearest to the sum. -/
def Sum.total (s : Sum) : Except Fault Binary64 :=
  if s.plusInfinity && s.minusInfinity then .error (.number .oppositeInfinities)
  else if s.notANumber then .ok .nan
  else if s.plusInfinity then .ok (.infinite false)
  else if s.minusInfinity then .ok (.infinite true)
  else .ok (ofUnits (s.parts.foldr (fun x total => x.units + total) 0) false)

end Quarry.Binary64
