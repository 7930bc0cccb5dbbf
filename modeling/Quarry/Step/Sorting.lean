import Quarry.Path.Reader
import Quarry.Text.Case
import Quarry.Text.Cut

/-!
# Sorting — natural order by a field

A natural key cuts a text into runs of digits, which count by their value, and the texts between
them, which count without case.  Digits come before texts.  Sorting is stable in both directions.
-/

namespace Quarry

/-- A part of a natural key. -/
inductive Chunk where
  | number (n : Nat)
  | text (s : List Char)
deriving DecidableEq

namespace Chunk

/-- Order of parts. -/
def order : Chunk → Chunk → Ordering
  | number m, number n => compare m n
  | number _, text _ => .lt
  | text _, number _ => .gt
  | text s, text t => compare s t

/-- Order of keys, part by part. -/
def orderKeys : List Chunk → List Chunk → Ordering
  | [], [] => .eq
  | [], _ :: _ => .lt
  | _ :: _, [] => .gt
  | c :: cs, d :: ds => (order c d).then (orderKeys cs ds)

/-- The maximal runs of digits and of other characters. -/
def runs : List Char → List (List Char)
  | [] => []
  | c :: s =>
      match runs s with
      | (d :: run) :: rest =>
          if Text.isDigit c = Text.isDigit d then (c :: d :: run) :: rest
          else [c] :: (d :: run) :: rest
      | rest => [c] :: rest

/-- The part of a key that a run makes. -/
def ofRun (run : List Char) : Except Fault Chunk :=
  if Text.isNumeral run then
    if Number.digitLimit < run.length then .error (.number (.longNumeral run.length))
    else .ok (.number (Text.naturalOf run))
  else .ok (.text (Text.fold run))

/-- The natural key of a text. -/
def key (s : String) : Except Fault (List Chunk) :=
  (runs s.toList).mapM ofRun

end Chunk

namespace Sorting

/-- What to sort by, and whether the greatest comes first. -/
structure Plan where
  field : String
  descending : Bool

/-- The plan that a text writes: a field and a direction, ascending if there is none. -/
def read (config : String) : Except Fault Plan :=
  match Text.words config.toList with
  | [] => .ok ⟨"", false⟩
  | [field] => .ok ⟨String.ofList (Text.dropLeading '.' field), false⟩
  | field :: direction :: _ =>
      let field := String.ofList (Text.dropLeading '.' field)
      let word := String.ofList (Text.lower direction)
      if word = "asc" then .ok ⟨field, false⟩
      else if word = "desc" then .ok ⟨field, true⟩
      else .error (.query (.step (.badDirection (String.ofList direction))))

/-- An item with the natural key of what is at a path. -/
def keyed (path : Path) (item : Value) : Except Fault (List Chunk × Value) := do
  let text ← (path.resolve item false).text
  return (← Chunk.key text, item)

/-- Keyed items in order; those with equal keys stay in the order in which they came. -/
def arrange (descending : Bool) (items : List (List Chunk × Value)) :
    List (List Chunk × Value) :=
  items.mergeSort fun a b =>
    if descending then Chunk.orderKeys a.1 b.1 ≠ .lt else Chunk.orderKeys a.1 b.1 ≠ .gt

/-- The items in the order that a text asks for. -/
def apply (config : String) (items : List Value) : Except Fault (List Value) := do
  let plan ← read config
  let path ← Path.read plan.field
  let keyedItems ← items.mapM (keyed path)
  return (arrange plan.descending keyedItems).map Prod.snd

end Sorting

end Quarry
