import Quarry.Operand.Literal
import Quarry.Path.Basic
import Quarry.Text.Cut
import Quarry.Text.Letter
import Quarry.Text.Nesting

/-!
# Path text

Segments are names between dots, or stand in brackets: an index, a quoted name, or `*`.  A text
is first taken apart into dots, names and brackets, and these are then put together; reading
stops at the first thing that is wrong.
-/

namespace Quarry.Path

/-- A piece of path text.  `stray` is a character that starts no piece, with its offset; nothing
comes after it. -/
inductive Piece where
  | dot
  | name (text : List Char)
  | bracket (inner : List Char)
  | stray (c : Char) (offset : Nat)
deriving DecidableEq

/-- A character that ends a name. -/
def endsName (c : Char) : Bool :=
  c = '.' || c = '[' || c = ']'

/-- The inside of brackets that hold one quoted text, which may contain brackets, and what comes
after them. -/
def quotedBracket? (s : List Char) : Option (List Char × List Char) :=
  match s.dropWhile Text.isBlank with
  | q :: s' =>
      if Text.isQuote q then
        match Text.delimited? q s' with
        | some (text, rest) =>
            match rest.dropWhile Text.isBlank with
            | ']' :: rest' => some (q :: text, rest')
            | _ => none
        | none => none
      else none
  | [] => none

/-- The inside of brackets, and what comes after them. -/
def bracket? (s : List Char) : Option (List Char × List Char) :=
  match quotedBracket? s with
  | some found => some found
  | none =>
      match s.span (· ≠ ']') with
      | (inner, _ :: rest) => some (inner, rest)
      | (_, []) => none

/-- The pieces of a text; the number bounds how many there are. -/
def piecesFrom (length : Nat) : Nat → List Char → List Piece
  | 0, _ => []
  | _ + 1, [] => []
  | fuel + 1, c :: s =>
      if c = '.' then .dot :: piecesFrom length fuel s
      else if c = '[' then
        match bracket? s with
        | some (inner, rest) => .bracket (Text.trim inner) :: piecesFrom length fuel rest
        | none => [.stray c (length - (c :: s).length)]
      else if c = ']' then [.stray c (length - (c :: s).length)]
      else
        let (name, rest) := (c :: s).span (fun d => !endsName d)
        .name name :: piecesFrom length fuel rest

/-- The pieces of a text. -/
def pieces (text : List Char) : List Piece :=
  piecesFrom text.length text.length text

/-- The segment that brackets hold. -/
def bracketSegment (text : String) (inner : List Char) : Except Fault Segment :=
  let fail (cause : PathFault) : Except Fault Segment := .error (.query (.path cause))
  if inner = ['*'] then .ok .wildcard
  else if Text.isNumeral inner then
    if Number.digitLimit < inner.length then .error (.number (.longNumeral inner.length))
    else .ok (.index (Text.naturalOf inner))
  else
    match Literal.unquote? inner with
    | some name => .ok (.field name)
    | none =>
        if inner.isEmpty then fail (.emptyBrackets text)
        else if Text.isNumeral (inner.dropWhile (· = '-')) then
          fail (.negativeIndex (String.ofList inner) text)
        else if inner.contains ':' then fail (.slice (String.ofList inner) text)
        else fail (.badIndex (String.ofList inner) text)

/-- The segment that a name is. -/
def nameSegment (name : List Char) : Segment :=
  let name := Text.trim name
  if name = ['*'] then .wildcard else .field (String.ofList name)

/-- The segments that pieces make.  `open?` says that a segment has to come next. -/
def assemble (text : String) : (open? : Bool) → List Piece → Except Fault Path
  | true, [] => if text.isEmpty then .ok [] else .error (.query (.path (.trailingDot text)))
  | false, [] => .ok []
  | _, .stray c offset :: _ => .error (.query (.path (.unexpected c offset text)))
  | true, .dot :: _ => .error (.query (.path (.emptySegment text)))
  | false, .dot :: rest => assemble text true rest
  | _, .bracket inner :: rest => do
      let segment ← bracketSegment text inner
      return segment :: (← assemble text false rest)
  | false, .name name :: _ =>
      .error (.query (.path (.missingDot (String.ofList name) text)))
  | true, .name name :: rest => do
      return nameSegment name :: (← assemble text false rest)

/-- The path that a text writes. -/
def read (text : String) : Except Fault Path :=
  assemble text true (pieces text.toList)

/-- A character of the simplest paths. -/
def isPlain (c : Char) : Bool :=
  Text.isWordPart c || c = '$' || c = '-' || c = '.' || c = '[' || c = ']'

/-- The text is a dot and a path without wildcards, of plain characters only. -/
def isPlainText (text : String) : Except Fault Bool :=
  match text.toList with
  | '.' :: s =>
      if s.all isPlain then
        match read (String.ofList s) with
        | .ok path => .ok !path.hasWildcard
        | .error (.query _) => .ok false
        | .error fault => .error fault
      else .ok false
  | _ => .ok false

/-- What is at the path that a text writes. -/
def resolveText (text : String) (v : Value) : Except Fault Operand := do
  return (← read text).resolve v false

end Quarry.Path
