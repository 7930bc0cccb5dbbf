import Quarry.Operand.Basic
import Quarry.Operand.Literal
import Quarry.Operand.Relation
import Quarry.Path.Reader
import Quarry.Text.Cut
import Quarry.Value.Items

/-!
# Navigation — what is at the end of a way

A way is a list of segments between dots; a sign for the root may stand in front.  A segment is a
name, `*` for the children, or a name with a condition in brackets: an index, or a comparison
that items have to pass.  A name on an array collects what is under it in the objects among the
items.  Three functions take the value at the end of a way: `$count`, `$sum` and `$distinct`.

Ways and functions are a small part of a language that others define.  A text outside that language
is refused, and whether a text is in it is asked of a `Grammar` that comes from outside; the reason
for a refusal stays there too.
-/

namespace Quarry.Navigation

def failWith {α : Type} (cause : NavigationFault) : Except Fault α :=
  .error (.query (.navigation cause))

/-! ### Segments -/

/-- The signs for the root. -/
def isRoot (segment : List Char) : Bool :=
  segment = ['$'] || segment = ['$', '$']

/-- A name without the backticks around it. -/
def bareName (name : List Char) : String :=
  match name with
  | '\x60' :: rest =>
      if rest.getLast? = some '\x60' then String.ofList rest.dropLast else String.ofList name
  | _ => String.ofList name

/-- What one item adds to the collection of what is under a name: all items of an array. -/
def collected (name : String) (item : Value) : List Value :=
  match item.member? name with
  | some (.array items) => items
  | some v => [v]
  | none => []

/-- What is under a name. -/
def member (name : List Char) : Value → Operand
  | .object members => Members.find? members (bareName name)
  | .array items => some (.array (items.flatMap (collected (bareName name))))
  | _ => none

/-! ### Conditions -/

/-- A comparison of what is at a path, given as text, with a literal. -/
structure Comparison where
  path : String
  relation : Relation
  literal : List Char

/-- The comparisons by their signs; of two that fit, the first counts. -/
def relations : List (List Char × Relation) :=
  [(['!', '='], .ne), (['>', '='], .ge), (['<', '='], .le), (['='], .eq), (['>'], .gt),
    (['<'], .lt)]

/-- A character of the path in a comparison. -/
def isPathChar (c : Char) : Bool :=
  Text.isWordPart c || c = '$' || c = '.' || c = '-'

/-- The comparison that a text writes. -/
def comparison? (s : List Char) : Option Comparison :=
  match s.span isPathChar with
  | ([], _) => none
  | (path, rest) =>
      let rest := Text.trimLeft rest
      relations.findSome? fun (sign, relation) =>
        match sign.isPrefixOf? rest with
        | some after =>
            if after.isEmpty then none
            else some ⟨String.ofList path, relation, Text.trimLeft after⟩
        | none => none

/-- An index: digits of any script after a minus sign or without one. -/
def isIndex (s : List Char) : Bool :=
  Text.isNumeral (Text.dropLeading '-' s)

/-- An item is an object that passes a comparison. -/
def passes (c : Comparison) (literal item : Value) : Except Fault Bool :=
  match item with
  | .object _ => do
      let found ← Path.resolveText c.path item
      c.relation.compare found (some literal)
  | _ => .ok false

/-- What a condition leaves of a value. -/
def constrained (inner : List Char) (v : Value) : Except Fault Operand :=
  if isIndex inner then do
    let i ← Text.integerOf inner
    return Items.at? v.itemsOrSelf i
  else
    match comparison? inner with
    | none => failWith (.unsupportedPredicate (String.ofList inner))
    | some c =>
        match v with
        | .array items => do
            let literal ← Literal.read (String.ofList c.literal)
            return some (.array (← Items.keep (passes c literal) items))
        | _ => .ok (some v)

/-! ### Ways -/

/-- The name and the condition of a segment that has a condition. -/
def constraint? (segment : List Char) : Option (List Char × List Char) :=
  match segment.span fun c => c ≠ '[' && c ≠ ']' with
  | (name, '[' :: rest) =>
      if name.isEmpty || rest.getLast? ≠ some ']' || rest.dropLast.isEmpty then none
      else some (Text.trim name, Text.trim rest.dropLast)
  | _ => none

/-- What a segment leads to. -/
def follow (segment : List Char) (v : Value) : Except Fault Operand :=
  if segment = ['*'] then
    match v with
    | .object members => .ok (some (.array (members.map Prod.snd)))
    | _ => .ok (some v)
  else
    match constraint? segment with
    | none => .ok (member segment v)
    | some (name, inner) =>
        match if isRoot name then some v else member name v with
        | some target => constrained inner target
        | none => .ok none

/-- What segments lead to; the first that leads nowhere ends the way. -/
def followAll (path : String) : List (List Char) → Value → Except Fault Operand
  | [], v => .ok (some v)
  | segment :: segments, v =>
      if segment.isEmpty then failWith (.emptySegment path)
      else do
        match ← follow segment v with
        | some w => followAll path segments w
        | none => return none

/-- The segments after the sign for the root. -/
def withoutRoot : List (List Char) → List (List Char)
  | [] => []
  | segment :: segments => if isRoot segment then segments else segment :: segments

/-- What is at the end of the way that a text writes. -/
def resolve (path : String) (v : Value) : Except Fault Operand := do
  let parts ← Text.cutOutside ['.'] (Text.trim path.toList)
  followAll path (withoutRoot (parts.map Text.trim)) v

/-! ### Functions -/

/-- A function of what is at the end of a way. -/
inductive Aggregate where
  | count | sum | distinct
deriving DecidableEq

def Aggregate.name : Aggregate → String
  | .count => "$count"
  | .sum => "$sum"
  | .distinct => "$distinct"

/-- The functions in the order in which they are looked for. -/
def Aggregate.all : List Aggregate :=
  [.count, .sum, .distinct]

/-- How many items or members a value has; any other value counts once. -/
def size : Value → Nat
  | .array items => items.length
  | .object members => members.length
  | _ => 1

/-- What a function makes of what is at the end of a way. -/
def Aggregate.apply : Aggregate → Operand → Except Fault Operand
  | .count, none => .ok (some (.ofNat 0))
  | .count, some v => .ok (some (.ofNat (size v)))
  | .sum, none => .ok (some (.ofNat 0))
  | .sum, some v => do
      let total ← Value.total v.itemsOrSelf
      return some (if total.isNaN then .null else .ofFloat total)
  | .distinct, none => .ok none
  | .distinct, some v => .ok (some (.array (Value.distinct v.itemsOrSelf)))

/-- The function that a text calls, and its argument. -/
def call? (text : List Char) : Option (Aggregate × List Char) :=
  Aggregate.all.findSome? fun f => (Text.callArgument? f.name.toList text).map (f, ·)

/-! ### Texts -/

/-- The grammar of the language that navigations are part of. -/
class Grammar where
  /-- A text, without blanks around it, is in the language. -/
  accepts : List Char → Bool
deriving Inhabited

/-- What a navigation text finds in a value; a blank one finds the value. -/
def evaluate [Grammar] (text : String) (v : Value) : Except Fault Operand :=
  match Text.trim text.toList with
  | [] => .ok (some v)
  | s =>
      if !Grammar.accepts s then failWith (.notJsonata (String.ofList s))
      else
        match call? s with
        | some (f, argument) => do f.apply (← resolve (String.ofList argument) v)
        | none => resolve (String.ofList s) v

end Quarry.Navigation
