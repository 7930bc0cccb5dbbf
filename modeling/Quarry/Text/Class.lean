/-!
# Character classes — turning points, blanks and digits

A set of code points is written as the increasing list of those at which membership changes, the
first of which is its least member.

A blank is a space, a tab, a line break, an information separator, or one of the spaces above
ASCII.  `trim` takes blanks off both ends and `words` cuts at runs of them.

A decimal script has ten consecutive code points for its digits, so the zeros determine them all.
`naturalOf` reads a numeral in any mixture of scripts.
-/

namespace Quarry.Text

/-- Membership of a code point in a set written by its turning points. -/
def inRanges (c : Nat) : List Nat → Bool
  | [] => false
  | turn :: turns => if c < turn then false else !inRanges c turns

/-! ### Blanks -/

/-- The turning points of the blanks. -/
def blankTurns : List Nat :=
  [9, 14, 28, 33, 133, 134, 160, 161, 5760, 5761,
    8192, 8203, 8232, 8234, 8239, 8240, 8287, 8288, 12288, 12289]

def isBlank (c : Char) : Bool :=
  inRanges c.toNat blankTurns

def trimLeft (s : List Char) : List Char :=
  s.dropWhile isBlank

def trimRight (s : List Char) : List Char :=
  (s.reverse.dropWhile isBlank).reverse

/-- The text without the blanks at its ends. -/
def trim (s : List Char) : List Char :=
  trimRight (trimLeft s)

/-- The first of the words that are left of a text when `word` has been read so far, backwards. -/
def wordsFrom (word : List Char) : List Char → List (List Char)
  | [] => if word.isEmpty then [] else [word.reverse]
  | c :: s =>
      if isBlank c then
        if word.isEmpty then wordsFrom [] s else word.reverse :: wordsFrom [] s
      else wordsFrom (c :: word) s

/-- The maximal runs of characters that are not blank. -/
def words (s : List Char) : List (List Char) :=
  wordsFrom [] s

/-! ### Digits -/

/-- The zeros of the decimal scripts above ASCII. -/
def scriptZeros : List Nat := [
    1632, 1776, 1984, 2406, 2534, 2662, 2790, 2918, 3046, 3174, 3302, 3430, 3558, 3664, 3792,
    3872, 4160, 4240, 6112, 6160, 6470, 6608, 6784, 6800, 6992, 7088, 7232, 7248, 42528, 43216,
    43264, 43472, 43504, 43600, 44016, 65296, 66720, 68912, 69734, 69872, 69942, 70096, 70384,
    70736, 70864, 71248, 71360, 71472, 71904, 72016, 72784, 73040, 73120, 92768, 92864, 93008,
    120782, 120792, 120802, 120812, 120822, 123200, 123632, 125264, 130032
  ]

/-- The value of a decimal digit. -/
def digitValue? (c : Char) : Option Nat :=
  if c.toNat < 128 then
    if '0' ≤ c && c ≤ '9' then some (c.toNat - 48) else none
  else
    match scriptZeros.find? (fun base => base ≤ c.toNat && c.toNat < base + 10) with
    | some base => some (c.toNat - base)
    | none => none

def isDigit (c : Char) : Bool :=
  (digitValue? c).isSome

/-- Not empty and made of decimal digits. -/
def isNumeral (s : List Char) : Bool :=
  !s.isEmpty && s.all isDigit

/-- The number that digits write; other characters count as zero. -/
def naturalOf (s : List Char) : Nat :=
  s.foldl (fun n c => 10 * n + (digitValue? c).getD 0) 0

end Quarry.Text
