import Quarry.Criteria.Shape

/-!
# Complaints — the place that is reported for a document of another shape

`complaints` finds everything that is wrong with a document, each with the way to it, and `worst?`
the complaint that is reported: the one with the shortest way, among those the one with the last
way.  Inside a condition it is the first operand, in alphabetical order, that does not fit.

This is the choice that the engine makes when it runs; nothing else depends on it.
-/

namespace Quarry.Shape

/-- A step on the way to a part of a document. -/
inductive Step where
  | name (s : String)
  | index (n : Nat)
deriving DecidableEq

/-- A way to a part of a document. -/
abbrev Way := List Step

/-- How a step is written. -/
def Step.text : Step → String
  | name s => s
  | index n => toString n

/-- Order of steps. -/
def Step.order : Step → Step → Ordering
  | name s, name t => compare s t
  | index m, index n => compare m n
  | name _, index _ => .gt
  | index _, name _ => .lt

/-- Order of ways, step by step. -/
def orderWays : Way → Way → Ordering
  | [], [] => .eq
  | [], _ :: _ => .lt
  | _ :: _, [] => .gt
  | s :: ss, t :: ts => (s.order t).then (orderWays ss ts)

/-- Something wrong: the way to it, and inside a condition the operand at which it shows. -/
structure Complaint where
  way : Way
  operand : Option String := none
deriving DecidableEq

/-! ### What is wrong -/

/-- The least of names. -/
def least? (names : List String) : Option String :=
  names.foldl (fun found name =>
    match found with
    | some s => if compare name s = .lt then some name else found
    | none => some name) none

/-- What is wrong with a condition: the first name, in alphabetical order, under which the
operand does not fit, or the condition as a whole. -/
def conditionComplaints (way : Way) : Value → List Complaint
  | .object members =>
      if isMarkedObject members then
        match least? ((members.filter fun m => !fits m.1 m.2).map Prod.fst) with
        | some name => [⟨way, some name⟩]
        | none => if areTests members then [] else [⟨way, none⟩]
      else []
  | _ => []

mutual

/-- What is wrong with a document of criteria. -/
def complaints (way : Way) : Value → List Complaint
  | .object members =>
      (if members.all fun m => !isMarked m.1 || connectives.contains m.1 then []
        else [⟨way, none⟩])
        ++ memberComplaints way members
  | _ => [⟨way, none⟩]

/-- What is wrong with the members of a document. -/
def memberComplaints (way : Way) : List (String × Value) → List Complaint
  | [] => []
  | (name, v) :: rest =>
      let here := way ++ [.name name]
      (if name = "$and" || name = "$or" then
        match v with
        | .array [] => [⟨here, none⟩]
        | .array items => itemComplaints here 0 items
        | _ => [⟨here, none⟩]
      else if name = "$not" then complaints here v
      else conditionComplaints here v)
        ++ memberComplaints way rest

/-- What is wrong with a list of documents, of which the first has index `n`. -/
def itemComplaints (way : Way) (n : Nat) : List Value → List Complaint
  | [] => []
  | v :: vs => complaints (way ++ [.index n]) v ++ itemComplaints way (n + 1) vs

end

/-! ### The complaint that is reported -/

/-- A complaint comes before another one. -/
def Complaint.beats (a b : Complaint) : Bool :=
  a.way.length < b.way.length
    || (a.way.length = b.way.length && orderWays a.way b.way = .gt)

/-- The complaint that is reported. -/
def worst? : List Complaint → Option Complaint
  | [] => none
  | c :: cs =>
      match worst? cs with
      | some d => if d.beats c then some d else some c
      | none => some c

/-- The place that a complaint names. -/
def Complaint.place (c : Complaint) : List String :=
  c.way.map Step.text ++ c.operand.toList

instance : Report where
  place document := ((worst? (complaints [] document)).map Complaint.place).getD []

end Quarry.Shape
