import Quarry.Fault
import Quarry.Pattern.Basic
import Quarry.Text.Identifier

/-!
# Reading patterns — tokens and what is known on the way

A text is first cut into tokens: a backslash makes one token with the character after it.  A
reader works on the tokens that are left and keeps count of the groups.

A pattern may write a character by its name.  Which names there are is no matter of patterns, so
readers take them from outside (`Names`).
-/

namespace Quarry.Pattern

/-! ### Tokens -/

/-- A character, a character after a backslash, or a backslash at the end. -/
inductive Token where
  | char (c : Char)
  | escape (c : Char)
  | dangling
deriving DecidableEq

/-- The tokens of a text. -/
def tokens : List Char → List Token
  | [] => []
  | ['\\'] => [.dangling]
  | '\\' :: c :: s => .escape c :: tokens s
  | c :: s => .char c :: tokens s

/-- The characters of a token. -/
def Token.chars : Token → List Char
  | char c => [c]
  | escape c => ['\\', c]
  | dangling => ['\\']

/-- A token that is a character with a property. -/
def Token.satisfies (p : Char → Bool) : Token → Bool
  | char c => p c
  | _ => false

/-! ### Names -/

/-- The names of characters. -/
class Names where
  /-- The character of a name, if there is one. -/
  find? : List Char → Option Char
deriving Inhabited

/-! ### The state of reading -/

/-- Why a pattern is refused: its form, or a limit. -/
inductive Refusal where
  | malformed
  | excessive (cause : PatternFault)

/-- What is known while a pattern is read: the tokens that are left, the mode of the whole
pattern, the names and widths of the groups, and inside a part that looks behind the first number
that it may not refer to. -/
structure Reading where
  tokens : List Token
  mode : Mode
  /-- The large alphabet is asked for by a letter. -/
  large : Bool := false
  /-- Repetition is forbidden by a letter. -/
  template : Bool := false
  /-- The number of the next group. -/
  next : Nat := 1
  names : List (String × Nat) := []
  /-- The widths of the groups that are closed. -/
  widths : List (Nat × Width) := []
  barrier : Option Nat := none
  /-- Numbers of groups that conditions refer to. -/
  cited : List Nat := []

/-- A reader. -/
abbrev Reader := StateT Reading (Except Refusal)

def refuse {α : Type} : Reader α :=
  throw .malformed

/-- Goes on with the given tokens; a backslash at the end is refused as soon as it is next. -/
def moveTo (rest : List Token) : Reader Unit :=
  match rest with
  | .dangling :: _ => refuse
  | _ => modify fun r => { r with tokens := rest }

/-- The next token, if there is one. -/
def peek : Reader (Option Token) := do
  return (← get).tokens.head?

/-- The next token, which is passed. -/
def take : Reader Token := do
  match (← get).tokens with
  | [] => refuse
  | t :: rest => do
      moveTo rest
      return t

/-- Passes a character if it is next. -/
def accept (c : Char) : Reader Bool := do
  match (← get).tokens with
  | .char d :: rest => if d = c then do moveTo rest; return true else return false
  | _ => return false

/-- Passes a character that has to be next. -/
def expect (c : Char) : Reader Unit := do
  if ← accept c then return else refuse

/-- Passes up to `limit` characters with a property. -/
def takeWhile (limit : Nat) (p : Char → Bool) : Reader (List Char) := do
  let found := ((← get).tokens.take limit).takeWhile (Token.satisfies p)
  moveTo ((← get).tokens.drop found.length)
  return found.flatMap Token.chars

/-- Passes everything up to and with a character, which has to come; what is before it. -/
def takeUntil (c : Char) : Reader (List Char) := do
  let before := (← get).tokens.takeWhile (· ≠ .char c)
  match (← get).tokens.drop before.length with
  | [] => refuse
  | _ :: rest => do
      moveTo rest
      return before.flatMap Token.chars

/-- Passes a remark, up to and with the end of the line or the text. -/
def skipRemark : Reader Unit := do
  match (← get).tokens.dropWhile fun t => t ≠ .char '\n' && t ≠ .dangling with
  | .char _ :: rest => moveTo rest
  | rest => moveTo rest

/-! ### Groups -/

/-- A new group, perhaps with a name. -/
def openGroup (name : Option String) : Reader Nat := do
  let r ← get
  match name with
  | some s => if (r.names.lookup s).isSome then refuse
  | none => pure ()
  let names := match name with
    | some s => (s, r.next) :: r.names
    | none => r.names
  set { r with next := r.next + 1, names }
  return r.next

/-- The group is closed. -/
def closeGroup (index : Nat) (width : Width) : Reader Unit :=
  modify fun r => { r with widths := (index, width) :: r.widths }

/-- A group to which a part that looks behind may refer. -/
def checkBarrier (index : Nat) : Reader Unit := do
  let r ← get
  match r.barrier with
  | none => return
  | some first =>
      if (r.widths.lookup index).isSome && index < first then return else refuse

/-- The node that matches a group again; the group has to be closed. -/
def readAgain (mode : Mode) (index : Nat) : Reader Node := do
  match (← get).widths.lookup index with
  | none => refuse
  | some width => do
      checkBarrier index
      return .again mode index width

/-- The name of a group, up to a closing character. -/
def readName (closer : Char) : Reader String := do
  let name ← takeUntil closer
  if Text.isIdentifier name then return String.ofList name else refuse

end Quarry.Pattern
