import Quarry.Value.Basic

/-!
# Items — arrays by element

Keeping the items that pass a test, and counting from either end: an index below zero counts from
the end, and the bounds of a slice are cut off at both ends.
-/

namespace Quarry.Items

variable {α : Type}

/-- The items that pass a test, in order; the first failure of the test ends it. -/
def keep (test : α → Except Fault Bool) : List α → Except Fault (List α)
  | [] => .ok []
  | a :: as => do
      let passes ← test a
      let rest ← keep test as
      return if passes then a :: rest else rest

/-- The item at an index, counted from the end below zero. -/
def at? (items : List α) (i : Int) : Option α :=
  let j := if i < 0 then i + items.length else i
  if j < 0 then none else items[j.toNat]?

/-- A bound of a slice as a number of items from the front. -/
def bound (length : Nat) (i : Int) : Nat :=
  min length (if i < 0 then i + length else i).toNat

/-- The items from one bound up to another. -/
def slice (items : List α) (start stop : Option Int) : List α :=
  let first := (start.map (bound items.length)).getD 0
  let last := (stop.map (bound items.length)).getD items.length
  (items.take last).drop first

end Quarry.Items
