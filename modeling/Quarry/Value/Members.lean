/-!
# Members — ordered lists of named things

An object keeps its members in the order in which their names first came.  `put` replaces the
thing under a name in place, or adds it at the end, and `merge` puts the pairs of a list one
after another, so of a repeated name the first place and the last thing count.
-/

namespace Quarry.Members

variable {α : Type}

/-- The members after `name` is given the thing `a`. -/
def put (members : List (String × α)) (name : String) (a : α) : List (String × α) :=
  match members with
  | [] => [(name, a)]
  | (other, b) :: rest =>
      if other = name then (name, a) :: rest else (other, b) :: put rest name a

/-- The members that a list of pairs leaves. -/
def merge (pairs : List (String × α)) : List (String × α) :=
  pairs.foldl (fun members pair => put members pair.1 pair.2) []

/-- The thing under a name. -/
def find? (members : List (String × α)) (name : String) : Option α :=
  match members with
  | [] => none
  | (other, a) :: rest => if other = name then some a else find? rest name

/-- The names in order. -/
def names (members : List (String × α)) : List String :=
  members.map Prod.fst

/-- A name is among the members. -/
def has (members : List (String × α)) (name : String) : Bool :=
  members.any fun member => member.1 = name

/-- No name comes twice. -/
def Distinct (members : List (String × α)) : Prop :=
  (names members).Nodup

instance (members : List (String × α)) : Decidable (Distinct members) :=
  inferInstanceAs (Decidable (List.Nodup _))

end Quarry.Members
