import Quarry.Number.Basic
import Quarry.Yaml.Node

/-!
# Data — what a settings text stands for

`Datum.ofNode` gives the datum of a node: its tag has to fit its shape, and keys have to be
scalars.  A mapping has one entry for each key, in the order in which the keys first occur and
with the value that comes last; the entries it takes over from other mappings come before its
own.  `read` reads a whole text.
-/

namespace Quarry.Yaml

inductive Datum where
  | null
  | truth (b : Bool)
  | number (n : Number)
  | text (s : String)
  | instant (t : Instant)
  | sequence (items : List Datum)
  | mapping (entries : List (Datum × Datum))
  | set (members : List Datum)

namespace Datum

/-- The name of the type of a datum. -/
def typeName : Datum → String
  | .null => "NoneType"
  | .truth _ => "bool"
  | .number (.int _) => "int"
  | .number (.float _) => "float"
  | .text _ => "str"
  | .instant (.day _) => "date"
  | .instant (.moment _ _) => "datetime"
  | .sequence _ => "list"
  | .mapping _ => "dict"
  | .set _ => "set"

/-- The datum can be a key. -/
def isKey : Datum → Bool
  | .sequence _ => false
  | .mapping _ => false
  | .set _ => false
  | _ => true

/-- The number that a key counts as. -/
def number? : Datum → Option Number
  | .number n => some n
  | .truth b => some (.int (if b then 1 else 0))
  | _ => none

/-- The two keys are one.  Numbers are compared by value, and truth values are numbers. -/
def sameKey (a b : Datum) : Bool :=
  match a, b with
  | .null, .null => true
  | .text s, .text t => s = t
  | .instant s, .instant t => s = t
  | a, b =>
      match a.number?, b.number? with
      | some m, some n => m = n || Number.same m n
      | _, _ => false

/-- The entries with the value of a key set; a new key comes last. -/
def setEntry (entries : List (Datum × Datum)) (key value : Datum) : List (Datum × Datum) :=
  match entries with
  | [] => [(key, value)]
  | (k, v) :: rest =>
      if sameKey k key then (k, value) :: rest else (k, v) :: setEntry rest key value

/-- The mapping with these entries. -/
def ofEntries (entries : List (Datum × Datum)) : Except Fault (List (Datum × Datum)) :=
  if entries.all fun (k, _) => k.isKey then
    .ok (entries.foldl (fun done (k, v) => setEntry done k v) [])
  else refuse

/-- The datum of a scalar. -/
def ofScalar (tag : Tag) (s : String) : Except Fault Datum :=
  match tag with
  | .null => .ok .null
  | .truth => .truth <$> readTruth s.toList
  | .integer => (.number <| .int ·) <$> readInteger s.toList
  | .float => (.number <| .float ·) <$> readFloat s.toList
  | .instant => .instant <$> readInstant s.toList
  | .text => .ok (.text s)
  | _ => refuse

/-- Entries taken over from other mappings, and a mapping's own. -/
structure Entries where
  taken : List (Datum × Datum) := []
  own : List (Datum × Datum) := []

/-- All entries of a mapping. -/
def Entries.all (e : Entries) : List (Datum × Datum) :=
  e.taken ++ e.own

mutual

/-- The datum of a node. -/
def ofNode : Node → Except Fault Datum
  | .scalar tag s => ofScalar tag s
  | .sequence tag items =>
      match tag with
      | .sequence => .sequence <$> itemsOf items
      | .entries => .sequence <$> pairsOf items
      | _ => refuse
  | .mapping tag entries =>
      match tag with
      | .mapping => do return .mapping (← ofEntries (← entriesOf entries).all)
      | .set => do return .set ((← ofEntries (← entriesOf entries).all).map Prod.fst)
      | _ => refuse

/-- The data of nodes. -/
def itemsOf : List Node → Except Fault (List Datum)
  | [] => .ok []
  | node :: nodes => do return (← ofNode node) :: (← itemsOf nodes)

/-- The data of mappings with one entry each. -/
def pairsOf : List Node → Except Fault (List Datum)
  | [] => .ok []
  | .mapping _ [(k, v)] :: nodes => do
      let pair := Datum.sequence [← ofNode k, ← ofNode v]
      return pair :: (← pairsOf nodes)
  | _ :: _ => refuse

/-- The data of entries; the key for a default value is a text. -/
def entriesOf : List (Node × Node) → Except Fault Entries
  | [] => .ok {}
  | (k, v) :: entries => do
      match k.tag with
      | .merge =>
          let taken ← takenFrom v
          let rest ← entriesOf entries
          return { rest with taken := taken ++ rest.taken }
      | .default =>
          let entry := (Datum.text "=", ← ofNode v)
          let rest ← entriesOf entries
          return { rest with own := entry :: rest.own }
      | _ =>
          let entry := (← ofNode k, ← ofNode v)
          let rest ← entriesOf entries
          return { rest with own := entry :: rest.own }

/-- The entries that are taken over from a mapping, or from several, of which the first counts
most and so comes last. -/
def takenFrom : Node → Except Fault (List (Datum × Datum))
  | .mapping _ entries => return (← entriesOf entries).all
  | .sequence _ items => takenFromAll items
  | .scalar _ _ => refuse

/-- The entries that are taken over from several mappings. -/
def takenFromAll : List Node → Except Fault (List (Datum × Datum))
  | [] => .ok []
  | .mapping _ entries :: nodes => do
      let taken ← entriesOf entries
      return (← takenFromAll nodes) ++ taken.all
  | _ :: _ => refuse

end

end Datum

/-- The datum that a text stands for; a text without a document stands for nothing. -/
def read (text : String) : Except Fault Datum := do
  match ← Node.ofTokens? (← scan (unifyBreaks text.toList)) with
  | none => return .null
  | some node => Datum.ofNode node

end Quarry.Yaml
