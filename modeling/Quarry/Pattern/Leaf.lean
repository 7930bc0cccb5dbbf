import Quarry.Pattern.Reading

/-!
# Leaves — escapes and sets

A letter after a backslash stands for a character, a class or a position, and digits for a
character or for a group; a name in braces stands for the character that is called so.  A set is a
list of characters, ranges and classes between square brackets.
-/

namespace Quarry.Pattern

variable [Names]

/-! ### Escapes -/

def isHex (c : Char) : Bool :=
  ('0' ≤ c && c ≤ '9') || ('a' ≤ c && c ≤ 'f') || ('A' ≤ c && c ≤ 'F')

def isOctal (c : Char) : Bool :=
  '0' ≤ c && c ≤ '7'

def hexValue (c : Char) : Nat :=
  if c ≤ '9' then c.toNat - 48 else if c ≤ 'F' then c.toNat - 55 else c.toNat - 87

/-- The number that digits write in a base. -/
def valueIn (base : Nat) (digits : List Char) : Nat :=
  digits.foldl (fun n c => base * n + hexValue c) 0

/-- The code point that exactly `count` hexadecimal digits write. -/
def readHex (count : Nat) : Reader Nat := do
  let digits ← takeWhile count isHex
  let code := valueIn 16 digits
  if digits.length ≠ count then refuse
  else if 2147483647 < code then throw (.excessive .codeTooLarge)
  else if 0x10FFFF < code then refuse
  else return code

/-- The code point that an octal number writes. -/
def octalPoint (digits : List Char) : Reader Nat :=
  let code := valueIn 8 digits
  if 255 < code then refuse else return code

/-- The code point of the character whose name stands in braces. -/
def readNamed : Reader Nat := do
  expect '\x7b'
  let name ← takeUntil '\x7d'
  if name.isEmpty then refuse
  else
    match Names.find? name with
    | some c => return c.toNat
    | none => refuse

/-- The code points of the letters for control characters. -/
def controlPoint? (c : Char) : Option Nat :=
  [('a', 7), ('b', 8), ('f', 12), ('n', 10), ('r', 13), ('t', 9), ('v', 11)].lookup c

/-- The class that a letter stands for. -/
def classOf? (c : Char) : Option SetItem :=
  [('d', SetItem.kind .digit false), ('D', .kind .digit true), ('s', .kind .space false),
    ('S', .kind .space true), ('w', .kind .word false), ('W', .kind .word true)].lookup c

/-- The test of a position that a letter stands for. -/
def anchorOf? (c : Char) : Option Anchor :=
  [('A', Anchor.textStart), ('b', .wordEdge), ('B', .noWordEdge), ('Z', .textFinish)].lookup c

/-- The code point after a backslash, digits apart. -/
def readPoint (c : Char) : Reader Nat := do
  match controlPoint? c with
  | some code => return code
  | none =>
      if c = 'x' then readHex 2
      else if c = 'u' then readHex 4
      else if c = 'U' then readHex 8
      else if c = 'N' then readNamed
      else if c.isAlpha then refuse
      else return c.toNat

/-- The part of a set after a backslash. -/
def readSetEscape (c : Char) : Reader SetItem := do
  match classOf? c with
  | some item => return item
  | none =>
      if isOctal c then return .point (← octalPoint (c :: (← takeWhile 2 isOctal)))
      else if c.isDigit then refuse
      else return .point (← readPoint c)

/-- A number after a backslash: three octal digits write a code point, one or two digits refer
to a group. -/
def readNumber (mode : Mode) (c : Char) : Reader Node := do
  let second ← takeWhile 1 Char.isDigit
  let third ←
    if isOctal c && second.any isOctal then takeWhile 1 isOctal else pure []
  let digits := c :: second ++ third
  if third.isEmpty then readAgain mode (valueIn 10 digits)
  else return .unit mode (.point false (← octalPoint digits))

/-- The node after a backslash. -/
def readEscape (mode : Mode) (c : Char) : Reader Node := do
  match anchorOf? c, classOf? c with
  | some a, _ => return .anchor mode a
  | none, some item => return .unit mode (.set false [item])
  | none, none =>
      if c = '0' then
        return .unit mode (.point false (valueIn 8 (← takeWhile 2 isOctal)))
      else if c.isDigit then readNumber mode c
      else return .unit mode (.point false (← readPoint c))

/-! ### Sets -/

/-- The part of a set that starts with a token. -/
def readSetItem (t : Token) : Reader SetItem :=
  match t with
  | .char c => return .point c.toNat
  | .escape c => readSetEscape c
  | .dangling => refuse

/-- The range between two parts, which have to be single characters in order. -/
def rangeOf (first last : SetItem) : Reader SetItem :=
  match first, last with
  | .point a, .point b => if b < a then refuse else return .range a b
  | _, _ => refuse

/-- The rest of a set, up to the closing bracket; `items` are the parts so far, backwards. -/
def readSetRest : Nat → List SetItem → Reader (List SetItem)
  | 0, _ => refuse
  | fuel + 1, items => do
      let t ← take
      if t = .char ']' && !items.isEmpty then return items.reverse
      else
        let item ← readSetItem t
        if ← accept '-' then
          let u ← take
          if u = .char ']' then return (.point 45 :: item :: items).reverse
          else readSetRest fuel ((← rangeOf item (← readSetItem u)) :: items)
        else readSetRest fuel (item :: items)

/-- The items without repetition. -/
def withoutRepeats : List SetItem → List SetItem
  | [] => []
  | i :: is => i :: (withoutRepeats is).filter (· ≠ i)

/-- The test by a set; a set of one character is that character. -/
def setTest (negated : Bool) (items : List SetItem) : Test :=
  match withoutRepeats items with
  | [.point c] => .point negated c
  | items => .set negated items

/-- The set after its opening bracket. -/
def readSet (mode : Mode) : Reader Node := do
  let negated ← accept '^'
  let items ← readSetRest (← get).tokens.length.succ []
  return .unit mode (setTest negated items)

end Quarry.Pattern
