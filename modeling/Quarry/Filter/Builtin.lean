import Quarry.Operand.Basic
import Quarry.Path.Basic
import Quarry.Value.Order

/-!
# Builtins — the stages with a name

Each builtin works on the kinds of value it is meant for and leaves the others as they are.
-/

namespace Quarry

/-- A stage with a name. -/
inductive Builtin where
  | keys | values | length | type | sort | unique | reverse | first | last | not
  | toEntries | fromEntries | flatten
deriving DecidableEq

namespace Builtin

def name : Builtin → String
  | .keys => "keys"
  | .values => "values"
  | .length => "length"
  | .type => "type"
  | .sort => "sort"
  | .unique => "unique"
  | .reverse => "reverse"
  | .first => "first"
  | .last => "last"
  | .not => "not"
  | .toEntries => "to_entries"
  | .fromEntries => "from_entries"
  | .flatten => "flatten"

/-- Every builtin. -/
def all : List Builtin :=
  [.keys, .values, .length, .type, .sort, .unique, .reverse, .first, .last, .not,
    .toEntries, .fromEntries, .flatten]

/-- The builtin of a given name. -/
def ofName? (s : String) : Option Builtin :=
  all.find? (·.name = s)

/-- A member as an entry. -/
def toEntry (member : String × Value) : Except Fault Value :=
  Value.ofMembers [("key", .string member.1), ("value", member.2)]

/-- The pair that an entry stands for; other values stand for none. -/
def ofEntry? (v : Value) : Except Fault (Option (String × Value)) :=
  match v.member? "key", v.member? "value" with
  | some k, some w => return some (← k.text, w)
  | _, _ => return none

/-- The items of arrays in the place of the arrays, one level deep. -/
def flattenItems (items : List Value) : List Value :=
  items.flatMap fun
    | .array inner => inner
    | v => [v]

/-- What a builtin makes of a value. -/
def apply : Builtin → Value → Except Fault Value
  | .keys, .object members => .ok (.array (members.map fun m => .string m.1))
  | .keys, .array items => .ok (.array ((List.range items.length).map .ofNat))
  | .values, .object members => .ok (.array (members.map Prod.snd))
  | .length, .array items => .ok (.ofNat items.length)
  | .length, .object members => .ok (.ofNat members.length)
  | .length, .string s => .ok (.ofNat s.toList.length)
  | .type, v => .ok (.string v.kind.name)
  | .sort, .array items => .ok (.array (Value.sort items))
  | .unique, .array items => .ok (.array (Value.distinct items))
  | .reverse, .array items => .ok (.array items.reverse)
  | .first, .array items => .ok (items.head?.getD .null)
  | .last, .array items => .ok (items.getLast?.getD .null)
  | .not, v => .ok (.bool !v.holds)
  | .toEntries, .object members => do return .array (← members.mapM toEntry)
  | .fromEntries, .array items => do
      let pairs ← items.mapM ofEntry?
      return Value.ofPairs (pairs.filterMap id)
  | .flatten, .array items => .ok (.array (flattenItems items))
  | _, v => .ok v

end Builtin

end Quarry
