import Quarry.Filter.Reader

/-!
# Reshaping — picking, omitting, renaming and projecting members

The first three work on every item of an array, or on a value that is not an array; their texts
are lists between commas in which blank entries do not count.  A projection works on the items of
an array: between braces it builds objects member by member, and otherwise it is a filter.
-/

namespace Quarry.Reshaping

/-- The entries of a list between commas, without blanks and blank entries. -/
def entries (config : String) : List (List Char) :=
  ((Text.cutAll ',' config.toList).map Text.trim).filter (!·.isEmpty)

/-- Every item of an array, or the value itself. -/
def each (f : Value → Value) : Value → Value
  | .array items => .array (items.map f)
  | v => f v

/-- The object of what is found in a value at paths, each under its name. -/
def gather (fields : List (String × Path)) (v : Value) : Value :=
  Value.ofPairs (fields.filterMap fun (name, path) => (path.resolve v false).map (name, ·))

/-! ### Picking and omitting -/

/-- The paths to pick, each named by its text. -/
def readPicks (config : String) : Except Fault (List (String × Path)) :=
  (entries config).mapM fun entry => do
    let name := String.ofList entry
    return (name, ← Path.read name)

/-- Only what is at the listed paths. -/
def pick (config : String) (v : Value) : Except Fault Value := do
  return each (gather (← readPicks config)) v

/-- An object without the members of some names. -/
def without (names : List String) : Value → Except Fault Value
  | .object members => Value.ofMembers (members.filter fun m => !names.contains m.1)
  | v => .ok v

/-- All members but the listed ones. -/
def omitted (config : String) (v : Value) : Except Fault Value :=
  let names := (entries config).map String.ofList
  match v with
  | .array items => do return .array (← items.mapM (without names))
  | v => without names v

/-! ### Renaming -/

/-- The old and the new name of an entry. -/
def readRename (entry : List Char) : Except Fault (String × String) :=
  let bad : Except Fault (String × String) :=
    .error (.query (.step (.badRename (String.ofList entry))))
  match Text.cutFirst? [':'] entry with
  | none => bad
  | some (old, new) =>
      match Text.trim old, Text.trim new with
      | [], _ => bad
      | _, [] => bad
      | old, new => .ok (String.ofList old, String.ofList new)

/-- The new names under the old ones; of a repeated old name the last new one counts. -/
def readRenames (config : String) : Except Fault (List (String × String)) := do
  return Members.merge (← (entries config).mapM readRename)

/-- An object with its members under new names, all at once. -/
def renamed (renames : List (String × String)) : Value → Value
  | .object members =>
      Value.ofPairs (members.map fun (name, v) => ((Members.find? renames name).getD name, v))
  | v => v

/-- Members under the names that the entries give them. -/
def rename (config : String) (v : Value) : Except Fault Value := do
  return each (renamed (← readRenames config)) v

/-! ### Projecting -/

/-- The source and the target of an entry of a projection, the source being the target if there is
no colon; a blank entry does not count. -/
def readProjected (raw : List Char) : Except Fault (Option (Path × String)) :=
  match Text.trim raw with
  | [] => .ok none
  | entry =>
      let (source, target) := match Text.cutFirst? [':'] entry with
        | some (source, target) => (Text.trim source, Text.trim target)
        | none => (entry, entry)
      if source.isEmpty || target.isEmpty then
        .error (.query (.step (.badProjection (String.ofList entry))))
      else return some (← Path.read (String.ofList source), String.ofList target)

/-- The inside of braces around a text. -/
def braced? (config : String) : Option (List Char) :=
  match Text.trim config.toList with
  | '\x7b' :: s => if s.getLast? = some '\x7d' then some s.dropLast else none
  | _ => none

/-- The sources and targets of a projection, if the text stands in braces. -/
def readProjection (config : String) : Except Fault (Option (List (Path × String))) :=
  match braced? config with
  | none => .ok none
  | some inner => do
      let found ← (← Text.cutOutside [','] inner).mapM readProjected
      return some (found.filterMap id)

/-- What a projection or a filter makes of every item. -/
def project (limit : Nat) (config : String) (items : List Value) : Except Fault (List Value) := do
  match ← readProjection config with
  | some fields => return items.map (gather (fields.map fun (path, target) => (target, path)))
  | none =>
      if (Text.trim config.toList).isEmpty then return items
      else
        let filter ← Filter.read limit config
        items.mapM (filter.run limit)

end Quarry.Reshaping
