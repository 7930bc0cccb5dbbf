import Quarry.Operand.Basic
import Quarry.Text.Quoted

/-!
# Paths — places inside a value

A path is a list of segments: a member's name, an item's index, or a wildcard for every child.
`resolve` finds what is at a path, all of it in one array if there are wildcards; `locate` finds
every match with the place where it is.  `Place.member` and `Place.item` write places so that
they can be read as paths again.
-/

namespace Quarry

/-- One step of a path. -/
inductive Segment where
  | field (name : String)
  | index (n : Nat)
  | wildcard
deriving DecidableEq

/-- A place inside a value. -/
abbrev Path := List Segment

/-- A character that stands in a member's name without quotes. -/
def Place.isBare (c : Char) : Bool :=
  c != '.' && c != '[' && c != ']' && c != '"' && c != '\x27' && !Text.isBlank c

/-- A name that is written without quotes. -/
def Place.isBareName (name : List Char) : Bool :=
  !name.isEmpty && name.all Place.isBare

/-- The place of a member. -/
def Place.member (place name : String) : String :=
  if Place.isBareName name.toList then place ++ "." ++ name
  else place ++ String.ofList ('[' :: Text.quoted name.toList ++ [']'])

/-- The place of an item. -/
def Place.item (place : String) (n : Nat) : String :=
  place ++ String.ofList ('[' :: Nat.toDigits 10 n ++ [']'])

/-- What a segment leads to.  With `spread` a name on an array leads to the array of what it leads
to in the items that have it. -/
def Segment.follow (spread : Bool) : Segment → Value → Operand
  | .field name, .object members => Members.find? members name
  | .field name, .array items =>
      if spread then some (.array (items.filterMap (·.member? name))) else none
  | .index n, .array items => items[n]?
  | .wildcard, .array items => some (.array items)
  | .wildcard, .object members => some (.array (members.map Prod.snd))
  | _, _ => none

namespace Path

/-- There is a wildcard in the path. -/
def hasWildcard (path : Path) : Bool :=
  path.any (· = .wildcard)

/-- What a path leads to, segment by segment. -/
def follow (spread : Bool) : Path → Value → Operand
  | [], v => some v
  | segment :: path, v =>
      match segment.follow spread v with
      | some w => follow spread path w
      | none => none

/-- Every match of a path with its place, `place` being the place of the value. -/
def locate : Path → String → Value → List (String × Value)
  | [], place, v => [(place, v)]
  | .wildcard :: path, place, .array items =>
      items.zipIdx.flatMap fun (item, n) => locate path (Place.item place n) item
  | .wildcard :: path, place, .object members =>
      members.flatMap fun (name, v) => locate path (Place.member place name) v
  | .field name :: path, place, .object members =>
      match Members.find? members name with
      | some v => locate path (Place.member place name) v
      | none => []
  | .index n :: path, place, .array items =>
      match items[n]? with
      | some v => locate path (Place.item place n) v
      | none => []
  | _, _, _ => []

/-- What is at a path; the matches of a path with wildcards are collected in an array. -/
def resolve (path : Path) (v : Value) (spread : Bool) : Operand :=
  if path.hasWildcard then some (.array ((path.locate "$" v).map Prod.snd))
  else path.follow spread v

end Path

end Quarry
