import Quarry.Number.Basic
import Quarry.Value.Members

/-!
# Values — what documents are made of

A value is null, a truth value, a number, a text, an array or an object.  A place that does not
exist has no value: this is `none`, and never `null`.  Equality compares numbers by exact value
and members in order.
-/

namespace Quarry

/-- A JSON value. -/
inductive Value where
  | null
  | bool (b : Bool)
  | number (n : Number)
  | string (s : String)
  | array (items : List Value)
  | object (members : List (String × Value))

namespace Value

def kind : Value → Kind
  | null => .null
  | bool _ => .bool
  | number _ => .number
  | string _ => .string
  | array _ => .array
  | object _ => .object

/-- The object that a list of pairs leaves: of a repeated name, the first place and the last
value. -/
def ofPairs (pairs : List (String × Value)) : Value :=
  object (Members.merge pairs)

/-- The object with exactly these members, whose names have to differ. -/
def ofMembers (members : List (String × Value)) : Except Fault Value :=
  if Members.Distinct members then .ok (object members) else .error .repeatedName

/-- A natural number as a value. -/
def ofNat (n : Nat) : Value :=
  number (.int n)

/-- A double as a value. -/
def ofFloat (x : Binary64) : Value :=
  number (.ofFloat x)

/-- The member of an object under a name. -/
def member? : Value → String → Option Value
  | object members, name => Members.find? members name
  | _, _ => none

mutual

/-- Equality of values. -/
def same : Value → Value → Bool
  | null, null => true
  | bool b, bool c => b == c
  | number m, number n => m.same n
  | string s, string t => s == t
  | array xs, array ys => sameItems xs ys
  | object xs, object ys => sameMembers xs ys
  | _, _ => false

/-- Equality item by item. -/
def sameItems : List Value → List Value → Bool
  | [], [] => true
  | v :: vs, w :: ws => same v w && sameItems vs ws
  | _, _ => false

/-- Equality member by member, names included. -/
def sameMembers : List (String × Value) → List (String × Value) → Bool
  | [], [] => true
  | (name, v) :: vs, (other, w) :: ws => name == other && same v w && sameMembers vs ws
  | _, _ => false

end

instance : BEq Value := ⟨same⟩

mutual

/-- How many containers the most deeply placed value sits under. -/
def depth : Value → Nat
  | array items => depthItems items
  | object members => depthMembers members
  | _ => 0

/-- The depth that items give the array around them. -/
def depthItems : List Value → Nat
  | [] => 0
  | v :: vs => max (depth v + 1) (depthItems vs)

/-- The depth that members give the object around them. -/
def depthMembers : List (String × Value) → Nat
  | [] => 0
  | (_, v) :: vs => max (depth v + 1) (depthMembers vs)

end

mutual

/-- The value with its numbers in normal form.  A number that is infinite or `nan` has no JSON
form and becomes null. -/
def normalize : Value → Value
  | number n => if n.isFinite then number n.normalize else null
  | array items => array (normalizeItems items)
  | object members => object (normalizeMembers members)
  | v => v

/-- Items with their numbers in normal form. -/
def normalizeItems : List Value → List Value
  | [] => []
  | v :: vs => normalize v :: normalizeItems vs

/-- Members with their numbers in normal form. -/
def normalizeMembers : List (String × Value) → List (String × Value)
  | [] => []
  | (name, v) :: vs => (name, normalize v) :: normalizeMembers vs

end

/-- The value in normal form, if it nests at most `limit` deep. -/
def accept (limit : Nat) (v : Value) : Except Fault Value :=
  if v.depth ≤ limit then .ok v.normalize else .error (.tooDeep limit)

mutual

/-- The names of every object are distinct and every number is in normal form. -/
def WellFormed : Value → Prop
  | number n => n.IsNormal
  | array items => WellFormedItems items
  | object members => Members.Distinct members ∧ WellFormedMembers members
  | _ => True

/-- Every item is well formed. -/
def WellFormedItems : List Value → Prop
  | [] => True
  | v :: vs => WellFormed v ∧ WellFormedItems vs

/-- Every member is well formed. -/
def WellFormedMembers : List (String × Value) → Prop
  | [] => True
  | (_, v) :: vs => WellFormed v ∧ WellFormedMembers vs

end

mutual

/-- Every integer has few enough digits to be written. -/
def isWritable : Value → Bool
  | number n => n.isWritable
  | array items => areWritable items
  | object members => membersWritable members
  | _ => true

/-- Every item can be written. -/
def areWritable : List Value → Bool
  | [] => true
  | v :: vs => isWritable v && areWritable vs

/-- Every member can be written. -/
def membersWritable : List (String × Value) → Bool
  | [] => true
  | (_, v) :: vs => isWritable v && membersWritable vs

end

/-- The items without the ones equal to an earlier item; `seen` are the earlier ones. -/
def distinctFrom (seen : List Value) : List Value → List Value
  | [] => []
  | v :: vs => if seen.any (same v) then distinctFrom seen vs else v :: distinctFrom (v :: seen) vs

/-- The first of each group of equal items, in order. -/
def distinct (items : List Value) : List Value :=
  distinctFrom [] items

end Value

end Quarry
