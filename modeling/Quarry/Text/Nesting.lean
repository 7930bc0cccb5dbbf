import Quarry.Fault

/-!
# Nesting — quotes and brackets

`cutOutside` cuts a text at a separator wherever it stands outside all quotes and brackets.
Brackets of three kinds have to balance and quotes of two kinds have to close; inside quotes a
backslash protects the character after it.
-/

namespace Quarry.Text

/-- A quote of either kind. -/
def isQuote (c : Char) : Bool :=
  c = '"' || c = '\x27'

/-- The bracket that closes an opening one. -/
def closerOf? (c : Char) : Option Char :=
  if c = '(' then some ')'
  else if c = '[' then some ']'
  else if c = '\x7b' then some '\x7d'
  else none

/-- The bracket that opens what a closing one closes. -/
def openerOf? (c : Char) : Option Char :=
  if c = ')' then some '('
  else if c = ']' then some '['
  else if c = '\x7d' then some '\x7b'
  else none

/-- Where a cutter stands: the open quote, the open brackets from the innermost, the characters of
a separator still to pass, and the current part, backwards. -/
structure Cutter where
  offset : Nat := 0
  quote : Option Char := none
  stack : List Char := []
  skip : Nat := 0
  part : List Char := []

/-- The cutter after taking `c` into the current part. -/
def Cutter.take (k : Cutter) (c : Char) : Cutter :=
  { k with offset := k.offset + 1, part := c :: k.part }

/-- The parts of the text that is left. -/
def cutFrom (text sep : List Char) (k : Cutter) :
    List Char → Except NestingFault (List (List Char))
  | [] =>
      match k.quote, k.stack with
      | some _, _ => .error (.openString (String.ofList text))
      | none, opener :: _ => .error (.unclosed opener (String.ofList text))
      | none, [] => .ok [k.part.reverse]
  | c :: s =>
      match k.skip with
      | n + 1 => cutFrom text sep { k with offset := k.offset + 1, skip := n } s
      | 0 =>
          match k.quote with
          | some q =>
              if c = '\\' then
                match s with
                | [] => cutFrom text sep (k.take c) []
                | d :: s' => cutFrom text sep ((k.take c).take d) s'
              else cutFrom text sep { k.take c with quote := if c = q then none else some q } s
          | none =>
              if isQuote c then cutFrom text sep { k.take c with quote := some c } s
              else if (closerOf? c).isSome then
                cutFrom text sep { k.take c with stack := c :: k.stack } s
              else
                match openerOf? c with
                | some opener =>
                    match k.stack with
                    | top :: stack =>
                        if top = opener then cutFrom text sep { k.take c with stack } s
                        else .error (.unbalanced c k.offset)
                    | [] => .error (.unbalanced c k.offset)
                | none =>
                    if k.stack.isEmpty && sep.isPrefixOf (c :: s) then
                      (cutFrom text sep
                        { k with offset := k.offset + 1, skip := sep.length - 1, part := [] } s).map
                        (k.part.reverse :: ·)
                    else cutFrom text sep (k.take c) s

/-- The parts of a text between the separators that stand outside quotes and brackets. -/
def cutOutside (sep text : List Char) : Except Fault (List (List Char)) :=
  (cutFrom text sep {} text).mapError fun cause => .query (.nesting cause)

/-- Quotes close and brackets balance. -/
def isBalanced (text : List Char) : Bool :=
  match cutFrom text [','] {} text with
  | .ok _ => true
  | .error _ => false

/-- The balanced text between the brackets of `name(…)`. -/
def callArgument? (name text : List Char) : Option (List Char) :=
  match (name ++ ['(']).isPrefixOf? text with
  | none => none
  | some rest =>
      if rest.getLast? = some ')' && isBalanced rest.dropLast then some rest.dropLast else none

end Quarry.Text
