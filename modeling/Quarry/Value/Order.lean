import Quarry.Value.Basic

/-!
# Order — the total order of values

Null comes before truth values, and these before numbers, texts, arrays and objects.  Arrays
compare item by item.  Objects compare by their names in alphabetical order and then by the
values under those names, so the order of the members does not matter: `arrange` puts them in
alphabetical order at every depth and `orderArranged` compares what is left.
-/

namespace Quarry.Value

/-- The place of a kind in the order. -/
def rank : Value → Nat
  | null => 0
  | bool _ => 1
  | number _ => 2
  | string _ => 3
  | array _ => 4
  | object _ => 5

mutual

/-- The value with the members of every object in alphabetical order. -/
def arrange : Value → Value
  | array items => array (arrangeItems items)
  | object members =>
      object ((arrangeMembers members).mergeSort fun a b => a.1 ≤ b.1)
  | v => v

/-- Items arranged. -/
def arrangeItems : List Value → List Value
  | [] => []
  | v :: vs => arrange v :: arrangeItems vs

/-- Members arranged, each in its place. -/
def arrangeMembers : List (String × Value) → List (String × Value)
  | [] => []
  | (name, v) :: vs => (name, arrange v) :: arrangeMembers vs

end

/-- Alphabetical order of lists of names. -/
def orderNames : List String → List String → Ordering
  | [], [] => .eq
  | [], _ :: _ => .lt
  | _ :: _, [] => .gt
  | s :: ss, t :: ts => (compare s t).then (orderNames ss ts)

mutual

/-- Order of arranged values. -/
def orderArranged : Value → Value → Ordering
  | bool b, bool c => compare b c
  | number m, number n => m.order n
  | string s, string t => compare s t
  | array xs, array ys => orderItems xs ys
  | object xs, object ys =>
      (orderNames (Members.names xs) (Members.names ys)).then (orderMembers xs ys)
  | v, w => compare v.rank w.rank

/-- Order item by item; a shorter list that agrees so far comes first. -/
def orderItems : List Value → List Value → Ordering
  | [], [] => .eq
  | [], _ :: _ => .lt
  | _ :: _, [] => .gt
  | v :: vs, w :: ws => (orderArranged v w).then (orderItems vs ws)

/-- Order of the values of members, member by member. -/
def orderMembers : List (String × Value) → List (String × Value) → Ordering
  | [], [] => .eq
  | [], _ :: _ => .lt
  | _ :: _, [] => .gt
  | (_, v) :: vs, (_, w) :: ws => (orderArranged v w).then (orderMembers vs ws)

end

/-- The total order of values. -/
def order (v w : Value) : Ordering :=
  orderArranged v.arrange w.arrange

/-- The items in non-decreasing order; equal ones stay in the order in which they came. -/
def sort (items : List Value) : List Value :=
  items.mergeSort fun v w => order v w ≠ .gt

/-- The first of the least items. -/
def least : Value → List Value → Value
  | v, [] => v
  | v, w :: ws => if order w v = .lt then least w ws else least v ws

/-- The first of the greatest items. -/
def greatest : Value → List Value → Value
  | v, [] => v
  | v, w :: ws => if order w v = .gt then greatest w ws else greatest v ws

end Quarry.Value
