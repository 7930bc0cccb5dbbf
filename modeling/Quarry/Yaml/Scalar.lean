import Quarry.Fault
import Quarry.Text.Quoted
import Quarry.Yaml.Line

/-!
# Scalars — quoted, plain and block texts

A scalar is a text in one of three forms.  Quoted and plain texts may go on over several
lines: a single break between two lines is a blank, further breaks stay, and the blanks around
them do not count.  A block text keeps its lines, or folds those that do not start with a blank.

Every reader gives the text it has read and the characters that are left.  A first argument
`fuel` bounds the number of rounds; the callers give the number of characters.
-/

namespace Quarry.Yaml

/-- The text is not in the format. -/
def refuse {α : Type} : Except Fault α :=
  .error (.settings .notYaml)

/-- What stands between two lines for the break that ends the first and those that follow. -/
def folded (first : Char) (others : List Char) : List Char :=
  if breakText first ≠ '\n' then breakText first :: others
  else if others.isEmpty then [' ']
  else others

/-! ### Quoted texts -/

/-- The breaks of empty lines inside quotes, and the blanks around them.  No line may be a mark
between documents. -/
def quotedBreaks (lineStart : Bool) : List Char → Except Fault (List Char × List Char)
  | [] => .ok ([], [])
  | c :: s =>
      if lineStart && startsMark (c :: s) then refuse
      else if c = ' ' || c = '\t' then quotedBreaks false s
      else if isBreak c then do
        let (breaks, rest) ← quotedBreaks true s
        return (breakText c :: breaks, rest)
      else .ok ([], c :: s)

/-- What a backslash and this character stand for. -/
def escaped? (c : Char) : Option Char :=
  if c = '0' then some '\x00'
  else if c = 'a' then some '\x07'
  else if c = 'b' then some '\x08'
  else if c = 't' || c = '\t' then some '\t'
  else if c = 'n' then some '\n'
  else if c = 'v' then some '\x0b'
  else if c = 'f' then some '\x0c'
  else if c = 'r' then some '\r'
  else if c = 'e' then some '\x1b'
  else if c = ' ' || c = '"' || c = '\\' || c = '/' then some c
  else if c = 'N' then some '\x85'
  else if c = '_' then some '\xa0'
  else if c = 'L' then some '\u2028'
  else if c = 'P' then some '\u2029'
  else none

/-- How many hexadecimal digits follow a backslash and this character. -/
def escapeWidth? (c : Char) : Option Nat :=
  if c = 'x' then some 2
  else if c = 'u' then some 4
  else if c = 'U' then some 8
  else none

/-- The number in exactly `count` hexadecimal digits, after the number read so far. -/
def readHex (number : Nat) : (count : Nat) → List Char → Except Fault (Nat × List Char)
  | 0, s => .ok (number, s)
  | _ + 1, [] => refuse
  | count + 1, c :: s =>
      match Text.hexValue? c with
      | some d => readHex (16 * number + d) count s
      | none => refuse

/-- The character with this number; a half of a pair stands for the replacement character. -/
def characterAt (number : Nat) : Except Fault Char :=
  if 0x80000000 ≤ number then .error (.settings (.scalar .codeTooLarge))
  else if 0x110000 ≤ number then .error (.settings (.scalar .notCodePoint))
  else if 0xD800 ≤ number && number < 0xE000 then .ok '\ufffd'
  else .ok (Char.ofNat number)

/-- What a backslash starts. -/
def readEscape : List Char → Except Fault (List Char × List Char)
  | [] => refuse
  | c :: s =>
      match escaped? c, escapeWidth? c with
      | some d, _ => .ok ([d], s)
      | none, some width => do
          let (number, rest) ← readHex 0 width s
          return ([← characterAt number], rest)
      | none, none => if isBreak c then quotedBreaks true s else refuse

/-- The text up to the closing quote. -/
def quotedText (double : Bool) : (fuel : Nat) → List Char → Except Fault (List Char × List Char)
  | 0, _ => refuse
  | _ + 1, [] => refuse
  | fuel + 1, c :: s =>
      if c = (if double then '"' else '\x27') then
        match double, s with
        | false, '\x27' :: s' => do
            let (text, rest) ← quotedText double fuel s'
            return (c :: text, rest)
        | _, _ => .ok ([], s)
      else if double && c = '\\' then do
        let (part, s') ← readEscape s
        let (text, rest) ← quotedText double fuel s'
        return (part ++ text, rest)
      else if isGap c then do
        let (blanks, s') := (c :: s).span fun d => d = ' ' || d = '\t'
        match s' with
        | [] => refuse
        | d :: s'' =>
            if isBreak d then
              let (breaks, s''') ← quotedBreaks true s''
              let (text, rest) ← quotedText double fuel s'''
              return (folded d breaks ++ text, rest)
            else
              let (text, rest) ← quotedText double fuel s'
              return (blanks ++ text, rest)
      else do
        let (text, rest) ← quotedText double fuel s
        return (c :: text, rest)

/-! ### Plain texts -/

/-- The characters that have a meaning of their own in a flow collection. -/
def isFlowMark (c : Char) : Bool :=
  c = ',' || c = '[' || c = ']' || c = '\x7b' || c = '\x7d'

/-- A plain text ends before `c`, which `s` follows: at a gap, at a colon before a gap, and inside
flow collections also at their marks. -/
def endsPlain (flow : Bool) (c : Char) (s : List Char) : Bool :=
  isGap c
    || (c = ':' && (startsGap s || (flow && (s.head?.map isFlowMark).getD false)))
    || (flow && (c = '?' || isFlowMark c))

/-- The plain characters up to the next gap. -/
def plainRun (flow : Bool) : List Char → List Char × List Char
  | [] => ([], [])
  | c :: s =>
      if endsPlain flow c s then ([], c :: s)
      else
        let (run, rest) := plainRun flow s
        (c :: run, rest)

/-- What separates the lines of a plain text. -/
structure LineGap where
  /-- A mark between documents ends the text. -/
  marked : Bool
  breaks : List Char
  /-- Where the next line starts. -/
  column : Nat
  rest : List Char

/-- The breaks of empty lines, and the blanks before the next line. -/
def plainBreaks (lineStart : Bool) (column : Nat) : List Char → LineGap
  | [] => ⟨false, [], column, []⟩
  | c :: s =>
      if lineStart && startsMark (c :: s) then ⟨true, [], 0, c :: s⟩
      else if c = ' ' then plainBreaks false (column + 1) s
      else if isBreak c then
        let gap := plainBreaks true 0 s
        { gap with breaks := breakText c :: gap.breaks }
      else ⟨false, [], column, c :: s⟩

/-- A plain text: its characters, whether a line ended after it, and what is left. -/
structure Plain where
  text : List Char
  crossed : Bool
  rest : List Char

/-- A comment follows. -/
def startsComment : List Char → Bool
  | '#' :: _ => true
  | _ => false

/-- The plain text that goes on after `gap`.  Outside flow collections its lines start at
`indent` at the least. -/
def plainText (flow : Bool) (indent : Nat) :
    (fuel : Nat) → (gap : List Char) → (crossed : Bool) → List Char → Plain
  | 0, _, crossed, s => ⟨[], crossed, s⟩
  | fuel + 1, gap, crossed, s =>
      if startsComment s then ⟨[], crossed, s⟩
      else
        match plainRun flow s with
        | ([], _) => ⟨[], crossed, s⟩
        | (run, s') =>
            let (blanks, s'') := s'.span (· = ' ')
            match s'' with
            | [] => ⟨gap ++ run, false, []⟩
            | c :: rest =>
                if isBreak c then
                  let next := plainBreaks true 0 rest
                  if next.marked || startsComment next.rest || (!flow && next.column < indent) then
                    ⟨gap ++ run, true, next.rest⟩
                  else
                    let more := plainText flow indent fuel (folded c next.breaks) true next.rest
                    { more with text := gap ++ run ++ more.text }
                else if blanks.isEmpty then ⟨gap ++ run, false, s''⟩
                else
                  let more := plainText flow indent fuel blanks false s''
                  { more with text := gap ++ run ++ more.text }

/-! ### Block texts -/

/-- What stays of the breaks at the end of a block text. -/
inductive Chomping where
  /-- Nothing. -/
  | strip
  /-- The break of the last line. -/
  | clip
  /-- All of them. -/
  | keep

/-- The breaks that stay, given the one of the last line and those after it. -/
def Chomping.ending : Chomping → (last others : List Char) → List Char
  | .strip, _, _ => []
  | .clip, last, _ => last
  | .keep, last, others => last ++ others

/-- The sign for a way of chomping. -/
def Chomping.ofSign? (c : Char) : Option Chomping :=
  if c = '+' then some .keep
  else if c = '-' then some .strip
  else none

/-- A digit of the header of a block text. -/
def headerDigit? (c : Char) : Option Nat :=
  if '0' ≤ c && c ≤ '9' then some (c.toNat - 48) else none

/-- The sign and the digit of a header, in either order. -/
def headerMarks : List Char → Chomping × Option Nat × List Char
  | [] => (.clip, none, [])
  | c :: s =>
      match Chomping.ofSign? c, headerDigit? c with
      | some way, _ =>
          match s with
          | d :: s' =>
              match headerDigit? d with
              | some n => (way, some n, s')
              | none => (way, none, s)
          | [] => (way, none, [])
      | none, some n =>
          match s with
          | d :: s' =>
              match Chomping.ofSign? d with
              | some way => (way, some n, s')
              | none => (.clip, some n, s)
          | [] => (.clip, some n, [])
      | none, none => (.clip, none, c :: s)

/-- What may stand between the last mark of a line and its end: blanks, then a comment. -/
def lineEnd (s : List Char) : Except Fault (List Char) :=
  let s := s.dropWhile (· = ' ')
  match (if startsComment s then dropLine s else s) with
  | [] => .ok []
  | c :: rest => if isBreak c then .ok rest else refuse

/-- The empty lines before a block text: their breaks, the greatest column that their blanks
reach, the column of the first other character, and what is left. -/
def leadingBreaks (column widest : Nat) : List Char → List Char × Nat × Nat × List Char
  | [] => ([], widest, column, [])
  | c :: s =>
      if c = ' ' then leadingBreaks (column + 1) (max widest (column + 1)) s
      else if isBreak c then
        let (breaks, widest, rest) := leadingBreaks 0 widest s
        (breakText c :: breaks, widest, rest)
      else ([], widest, column, c :: s)

/-- The empty lines inside a block text, whose lines start at `indent`. -/
def innerBreaks (indent column : Nat) : List Char → List Char × Nat × List Char
  | [] => ([], column, [])
  | c :: s =>
      if c = ' ' && column < indent then innerBreaks indent (column + 1) s
      else if isBreak c then
        let (breaks, rest) := innerBreaks indent 0 s
        (breakText c :: breaks, rest)
      else ([], column, c :: s)

/-- The first character is neither a blank nor a tab. -/
def startsFull : List Char → Bool
  | [] => true
  | c :: _ => c ≠ ' ' && c ≠ '\t'

/-- The lines of a block text from one that starts at `indent`, after the breaks before it. -/
def blockLines (fold : Bool) (way : Chomping) (indent : Nat) :
    (fuel : Nat) → (before : List Char) → List Char → List Char × List Char
  | 0, before, s => (before, s)
  | fuel + 1, before, s =>
      let (line, s') := s.span fun c => !isBreak c
      let last := (s'.head?.map breakText).toList
      let (breaks, column, rest) := innerBreaks indent 0 (s'.drop 1)
      if column = indent && !rest.isEmpty then
        let joint :=
          if fold && last = ['\n'] && startsFull line && startsFull rest then
            if breaks.isEmpty then [' '] else []
          else last
        let (more, rest) := blockLines fold way indent fuel breaks rest
        (before ++ line ++ joint ++ more, rest)
      else (before ++ line ++ way.ending last breaks, rest)

/-- A block text after its indicator; `least` is the least column at which it may start. -/
def blockText (fold : Bool) (least : Nat) (s : List Char) :
    Except Fault (List Char × List Char) := do
  let (way, width, s) := headerMarks s
  if width = some 0 || !startsSpace s then refuse
  let s ← lineEnd s
  let (before, indent, column, s) := match width with
    | none =>
        let (breaks, widest, column, rest) := leadingBreaks 0 0 s
        (breaks, max least widest, column, rest)
    | some n =>
        let indent := least + n - 1
        let (breaks, column, rest) := innerBreaks indent 0 s
        (breaks, indent, column, rest)
  if column = indent && !s.isEmpty then return blockLines fold way indent s.length before s
  else return (way.ending [] before, s)

end Quarry.Yaml
