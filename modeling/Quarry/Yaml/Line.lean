import Quarry.Text.Class

/-!
# Lines — breaks, gaps and marks in settings texts

A text is made of lines.  Besides the newline three characters end a line; two of them, the
separators, stay in a text that is spread over lines, and the others become newlines.  A gap is
a blank, a tab, a break or the end of the text.
-/

namespace Quarry.Yaml

/-- The characters that end a line. -/
def isBreak (c : Char) : Bool :=
  c = '\n' || c = '\x85' || c = '\u2028' || c = '\u2029'

/-- What a break leaves in a text. -/
def breakText (c : Char) : Char :=
  if c = '\u2028' || c = '\u2029' then c else '\n'

def isGap (c : Char) : Bool :=
  c = ' ' || c = '\t' || isBreak c

/-- A gap follows. -/
def startsGap : List Char → Bool
  | [] => true
  | c :: _ => isGap c

/-- A break or a blank other than a tab follows. -/
def startsSpace : List Char → Bool
  | [] => true
  | c :: _ => c = ' ' || isBreak c

/-- The mark that starts a document follows. -/
def startsDocument : List Char → Bool
  | '-' :: '-' :: '-' :: s => startsGap s
  | _ => false

/-- The mark that ends a document follows. -/
def endsDocument : List Char → Bool
  | '.' :: '.' :: '.' :: s => startsGap s
  | _ => false

/-- A mark between documents follows. -/
def startsMark (s : List Char) : Bool :=
  startsDocument s || endsDocument s

/-- What is left of the line's text is skipped. -/
def dropLine (s : List Char) : List Char :=
  s.dropWhile fun c => !isBreak c

/-- The text with a newline for each return, with or without a newline after it. -/
def unifyBreaks : List Char → List Char
  | [] => []
  | '\r' :: '\n' :: s => '\n' :: unifyBreaks s
  | c :: s => (if c = '\r' then '\n' else c) :: unifyBreaks s

/-- The turning points of the characters that may occur. -/
def allowedTurns : List Nat :=
  [0x09, 0x0B, 0x0D, 0x0E, 0x20, 0x7F, 0x85, 0x86, 0xA0, 0xD800, 0xE000, 0xFFFE, 0x10000, 0x110000]

def isAllowed (c : Char) : Bool :=
  Text.inRanges c.toNat allowedTurns

end Quarry.Yaml
