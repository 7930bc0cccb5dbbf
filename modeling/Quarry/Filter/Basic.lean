import Quarry.Filter.Builtin
import Quarry.Operand.Relation
import Quarry.Value.Items

/-!
# Filters — chains of stages

A filter takes a value through its stages one after another.  A stage that meets a value of the
wrong kind passes it on unchanged.  `map` runs a chain on every item, one level deeper; `levels`
is how many levels are left, and a chain needs one.
-/

namespace Quarry

/-- A test of a select stage: a comparison with a literal, or whether what is at the path
holds. -/
structure Condition where
  path : Path
  test : Option (Relation × Value)

/-- A stage of a filter. -/
inductive Stage where
  | identity
  | path (path : Path) (iterate : Bool)
  | index (n : Int)
  | slice (start stop : Option Int)
  | builtin (b : Builtin)
  | map (body : List Stage)
  | select (condition : Condition)

/-- A filter: its stages in order. -/
abbrev Filter := List Stage

/-- A value passes a condition. -/
def Condition.holds (c : Condition) (v : Value) : Except Fault Bool :=
  let found := c.path.resolve v false
  match c.test with
  | none => .ok found.holds
  | some (relation, literal) => relation.compare found (some literal)

namespace Stage

/-- What a path stage finds: containers only are looked into, and a place that does not exist
is null. -/
def lookUp (path : Path) (iterate : Bool) (v : Value) : Value :=
  match v with
  | .array _ | .object _ =>
      match path.resolve v true with
      | none => .null
      | some (.object members) =>
          if iterate then .array (members.map Prod.snd) else .object members
      | some w => w
  | _ => v

/-- The item at an index. -/
def itemAt (n : Int) : Value → Value
  | .array items => (Items.at? items n).getD .null
  | v => v

/-- A part of an array or a text. -/
def cut (start stop : Option Int) : Value → Value
  | .array items => .array (Items.slice items start stop)
  | .string s => .string (String.ofList (Items.slice s.toList start stop))
  | v => v

mutual

/-- What a stage makes of a value, with `levels` left for the chains inside it. -/
def apply (limit levels : Nat) : Stage → Value → Except Fault Value
  | identity, v => .ok v
  | path p iterate, v => .ok (lookUp p iterate v)
  | index n, v => .ok (itemAt n v)
  | slice start stop, v => .ok (cut start stop v)
  | builtin b, v => b.apply v
  | map body, .array items =>
      match levels with
      | 0 => if items.isEmpty then .ok (.array []) else .error (.tooDeep limit)
      | levels' + 1 => do return .array (← items.mapM (applyAll limit levels' body))
  | select c, .array items => do return .array (← Items.keep c.holds items)
  | _, v => .ok v

/-- What a chain of stages makes of a value. -/
def applyAll (limit levels : Nat) : List Stage → Value → Except Fault Value
  | [], v => .ok v
  | stage :: chain, v => do applyAll limit levels chain (← apply limit levels stage v)

end

end Stage

namespace Filter

/-- What a filter makes of a value, with nesting of maps up to `limit`. -/
def run (limit : Nat) (filter : Filter) (v : Value) : Except Fault Value :=
  Stage.applyAll limit limit filter v

end Filter

end Quarry
