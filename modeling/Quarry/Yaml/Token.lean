import Quarry.Yaml.Scalar

/-!
# Tokens — the words of a settings text

Indentation opens and closes block collections, so tokens for their starts and ends stand beside
those that are written.  A key is recognised late, by the colon after it: whatever may be a key
is remembered as a candidate, and the colon puts the token for a key before it.  A candidate has
to be followed by its colon on the same line and within `keyWidth` characters.

`Scan` is what is known between two tokens.  `Scan.token` reads one token, and `scan` all.
-/

namespace Quarry.Yaml

/-- What a line that starts with a percent sign says. -/
inductive Directive where
  /-- The version of the format. -/
  | version (major : Nat)
  /-- A handle and the start of the tags that are written with it. -/
  | handle (name start : String)
  | other
deriving DecidableEq

/-- The parts of a text. -/
inductive Token where
  | directive (d : Directive)
  | documentStart
  | documentEnd
  | blockSequence
  | blockMapping
  | blockEnd
  | flowSequence
  | flowSequenceEnd
  | flowMapping
  | flowMappingEnd
  /-- An item of a block sequence. -/
  | item
  /-- The comma between parts of a flow collection. -/
  | comma
  | key
  | value
  | alias (name : String)
  | anchor (name : String)
  /-- A tag by its handle, if it has one, and the rest. -/
  | tag (handle : Option String) (rest : String)
  /-- A scalar, which may be plain. -/
  | scalar (plain : Bool) (text : String)
deriving DecidableEq

/-! ### Words -/

/-- The characters of names. -/
def isNameChar (c : Char) : Bool :=
  c.isAlphanum || c = '-' || c = '_'

/-- The characters of tags, without the percent sign. -/
def isTagChar (c : Char) : Bool :=
  isNameChar c || ";/?:@&=+$,.!~*'()[]".toList.contains c

/-- A name that is not empty. -/
def readName (s : List Char) : Except Fault (String × List Char) :=
  match s.span isNameChar with
  | ([], _) => refuse
  | (name, rest) => .ok (String.ofList name, rest)

/-- A name after `*` or `&`, and what may follow it. -/
def readAnchor (s : List Char) : Except Fault (String × List Char) := do
  let (name, rest) ← readName s
  let closed := match rest with
    | [] => true
    | c :: _ => isGap c || "?:,]\x7d%@\x60".toList.contains c
  if closed then return (name, rest) else refuse

/-- A digit and more of them. -/
def readNatural (s : List Char) : Except Fault (Nat × List Char) :=
  match s.span fun c => '0' ≤ c && c ≤ '9' with
  | ([], _) => refuse
  | (digits, rest) => .ok (digits.foldl (fun n c => 10 * n + (c.toNat - 48)) 0, rest)

/-- Bytes in hexadecimal digits, each after a percent sign. -/
def readBytes : List Char → Except Fault (List UInt8 × List Char)
  | '%' :: a :: b :: s =>
      match Text.hexValue? a, Text.hexValue? b with
      | some a, some b => do
          let (bytes, rest) ← readBytes s
          return ((16 * a + b).toUInt8 :: bytes, rest)
      | _, _ => refuse
  | '%' :: _ => refuse
  | s => .ok ([], s)

/-- The text of a tag; its bytes are in the usual encoding. -/
def tagText : (fuel : Nat) → List Char → Except Fault (List Char × List Char)
  | 0, s => .ok ([], s)
  | fuel + 1, s =>
      match s with
      | [] => .ok ([], [])
      | c :: s' =>
          if c = '%' then do
            let (bytes, rest) ← readBytes s
            match String.fromUTF8? ⟨bytes.toArray⟩ with
            | some part =>
                let (more, rest) ← tagText fuel rest
                return (part.toList ++ more, rest)
            | none => refuse
          else if isTagChar c then do
            let (more, rest) ← tagText fuel s'
            return (c :: more, rest)
          else .ok ([], s)

/-- The text of a tag that is not empty. -/
def readTagText (s : List Char) : Except Fault (String × List Char) := do
  match ← tagText s.length s with
  | ([], _) => refuse
  | (text, rest) => return (String.ofList text, rest)

/-- A handle: an exclamation mark, or a name between two of them. -/
def readHandle : List Char → Except Fault (String × List Char)
  | '!' :: s =>
      match s with
      | ' ' :: _ => .ok ("!", s)
      | _ =>
          match s.span isNameChar with
          | (name, '!' :: rest) => .ok (String.ofList ('!' :: name ++ ['!']), rest)
          | _ => refuse
  | _ => refuse

/-- A second exclamation mark stands in the first word. -/
def hasHandle (s : List Char) : Bool :=
  (s.takeWhile fun c => c ≠ ' ' && !isBreak c).contains '!'

/-- A tag after its exclamation mark. -/
def readTag (s : List Char) : Except Fault (Token × List Char) := do
  let (token, rest) ← match s with
    | '<' :: s' => do
        match ← readTagText s' with
        | (text, '>' :: rest) => return (Token.tag none text, rest)
        | _ => refuse
    | _ =>
        if startsGap s then return (Token.tag none "!", s)
        else if hasHandle s then do
          let (handle, s') ← readHandle ('!' :: s)
          let (text, rest) ← readTagText s'
          return (Token.tag (some handle) text, rest)
        else do
          let (text, rest) ← readTagText s
          return (Token.tag (some "!") text, rest)
  if startsSpace rest then return (token, rest) else refuse

/-- A directive after its percent sign, with the end of its line. -/
def readDirective (s : List Char) : Except Fault (Directive × List Char) := do
  let (name, s) ← readName s
  if !startsSpace s then refuse
  let words := s.dropWhile (· = ' ')
  if name = "YAML" then
    let (major, s) ← readNatural words
    match s with
    | '.' :: s' =>
        let (_, s'') ← readNatural s'
        if startsSpace s'' then return (.version major, ← lineEnd s'') else refuse
    | _ => refuse
  else if name = "TAG" then
    let (handle, s) ← readHandle words
    match s with
    | ' ' :: _ =>
        let (start, s') ← readTagText (s.dropWhile (· = ' '))
        if startsSpace s' then return (.handle handle start, ← lineEnd s') else refuse
    | _ => refuse
  else return (.other, ← lineEnd (dropLine s))

/-! ### The state between two tokens -/

/-- Something that may turn out to be a key. -/
structure Candidate where
  /-- How many tokens come before it. -/
  number : Nat
  /-- Nothing but a key may stand here. -/
  required : Bool
  offset : Nat
  line : Nat
  column : Nat

/-- A candidate for a key is at most this long. -/
def keyWidth : Nat := 1024

/-- What is known between two tokens. -/
structure Scan where
  rest : List Char
  offset : Nat := 0
  line : Nat := 0
  column : Nat := 0
  /-- The columns of the open block collections, innermost first. -/
  columns : List Nat := []
  /-- The candidate of the innermost flow collection. -/
  candidate : Option Candidate := none
  /-- The candidates of the collections around it, innermost first. -/
  outer : List (Option Candidate) := []
  keyAllowed : Bool := true
  /-- The tokens, last first. -/
  tokens : List Token := []

namespace Scan

/-- Some flow collection is open. -/
def inFlow (s : Scan) : Bool :=
  !s.outer.isEmpty

/-- The place after one more character. -/
def pass (s : Scan) (c : Char) : Scan :=
  if isBreak c then { s with offset := s.offset + 1, line := s.line + 1, column := 0 }
  else if c = '\ufeff' then { s with offset := s.offset + 1 }
  else { s with offset := s.offset + 1, column := s.column + 1 }

/-- The place at which `rest` is left. -/
def moveTo (s : Scan) (rest : List Char) : Scan :=
  { (s.rest.take (s.rest.length - rest.length)).foldl pass s with rest }

def emit (s : Scan) (t : Token) : Scan :=
  { s with tokens := t :: s.tokens }

/-- The state with `t` put before the tokens from `number` on. -/
def emitAt (s : Scan) (number : Nat) (t : Token) : Scan :=
  let later := s.tokens.length - number
  { s with tokens := s.tokens.take later ++ t :: s.tokens.drop later }

/-- The candidate, unless it is too far away for its colon. -/
def stillOpen? (s : Scan) : Option Candidate → Except Fault (Option Candidate)
  | none => .ok none
  | some k =>
      if k.line ≠ s.line || keyWidth < s.offset - k.offset then
        if k.required then refuse else .ok none
      else .ok (some k)

/-- The state without the candidates that are too far away. -/
def dropStale (s : Scan) : Except Fault Scan := do
  return { s with candidate := ← s.stillOpen? s.candidate, outer := ← s.outer.mapM s.stillOpen? }

/-- The state without its innermost candidate. -/
def forget (s : Scan) : Except Fault Scan :=
  match s.candidate with
  | some k => if k.required then refuse else .ok { s with candidate := none }
  | none => .ok s

/-- The next token may be a key. -/
def remember (s : Scan) : Except Fault Scan := do
  if s.keyAllowed then
    let s ← s.forget
    return { s with
      candidate := some
        { number := s.tokens.length
          required := !s.inFlow && s.columns.head? = some s.column
          offset := s.offset, line := s.line, column := s.column } }
  else return s

/-- The block collections are closed up to one whose column is as wanted. -/
def closeBlocks (s : Scan) (wanted : Nat → Bool) : Scan :=
  if s.inFlow then s
  else
    let (closed, columns) := s.columns.span fun column => !wanted column
    { s with columns, tokens := closed.map (fun _ => Token.blockEnd) ++ s.tokens }

/-- A block collection is opened at `column`, unless one is open there or farther in. -/
def openBlock (s : Scan) (column number : Nat) (t : Token) : Scan :=
  if s.columns.head?.all (· < column) then
    { s with columns := column :: s.columns }.emitAt number t
  else s

/-- The blanks, comments and breaks before the next token; whether there are breaks. -/
def gap (crossed comment : Bool) : List Char → Bool × List Char
  | [] => (crossed, [])
  | c :: s =>
      if isBreak c then gap true false s
      else if comment || c = ' ' then gap crossed comment s
      else if c = '#' then gap crossed true s
      else (crossed, c :: s)

/-- The state before the next token. -/
def settle (s : Scan) : Except Fault Scan := do
  let (crossed, rest) := gap false false s.rest
  let s := { s.moveTo rest with keyAllowed := s.keyAllowed || (crossed && !s.inFlow) }
  let s ← s.dropStale
  return s.closeBlocks (· ≤ s.column)

/-! ### Tokens -/

/-- A token of `width` characters. -/
def punctuation (s : Scan) (width : Nat) (t : Token) : Scan :=
  (s.moveTo (s.rest.drop width)).emit t

/-- A line that is not part of any document. -/
def leaveDocument (s : Scan) : Except Fault Scan := do
  let s ← (s.closeBlocks fun _ => false).forget
  return { s with keyAllowed := false }

def openFlow (s : Scan) (t : Token) : Except Fault Scan := do
  let s ← s.remember
  let inner := { s with candidate := none, outer := s.candidate :: s.outer, keyAllowed := true }
  return inner.punctuation 1 t

def closeFlow (s : Scan) (t : Token) : Except Fault Scan := do
  let s ← s.forget
  match s.outer with
  | [] => refuse
  | candidate :: outer =>
      return { s with candidate, outer, keyAllowed := false }.punctuation 1 t

/-- A mark that stands before a part of a block collection, which it may open. -/
def blockMark (s : Scan) (collection : Token) : Except Fault Scan :=
  if s.inFlow then .ok s
  else if s.keyAllowed then .ok (s.openBlock s.column s.tokens.length collection)
  else refuse

def readItem (s : Scan) : Except Fault Scan := do
  let s ← (← s.blockMark .blockSequence).forget
  return { s with keyAllowed := true }.punctuation 1 .item

def readKey (s : Scan) : Except Fault Scan := do
  let s ← (← s.blockMark .blockMapping).forget
  return { s with keyAllowed := !s.inFlow }.punctuation 1 .key

/-- A colon: the candidate is a key, or a key that was announced is complete. -/
def readValue (s : Scan) : Except Fault Scan := do
  match s.candidate with
  | some k =>
      let s := { s with candidate := none, keyAllowed := false }.emitAt k.number .key
      let s := if s.inFlow then s else s.openBlock k.column k.number .blockMapping
      return s.punctuation 1 .value
  | none =>
      let s ← s.blockMark .blockMapping
      return { s with keyAllowed := !s.inFlow }.punctuation 1 .value

/-- A token that may be, or start, a key. -/
def readWord (s : Scan) (t : Token) (rest : List Char) : Except Fault Scan := do
  let s ← s.remember
  return ({ s with keyAllowed := false }.moveTo rest).emit t

def readBlockText (s : Scan) (fold : Bool) (rest : List Char) : Except Fault Scan := do
  let s ← s.forget
  let (text, rest) ← blockText fold (s.columns.head?.elim 1 (· + 1)) rest
  return ({ s with keyAllowed := true }.moveTo rest).emit (.scalar false (String.ofList text))

def readQuotedText (s : Scan) (double : Bool) (rest : List Char) : Except Fault Scan := do
  let (text, rest) ← quotedText double rest.length rest
  s.readWord (.scalar false (String.ofList text)) rest

def readPlainText (s : Scan) : Except Fault Scan := do
  let s ← s.remember
  let plain := plainText s.inFlow (s.columns.head?.elim 0 (· + 1)) s.rest.length [] false s.rest
  let s := { s with keyAllowed := plain.crossed }.moveTo plain.rest
  return s.emit (.scalar true (String.ofList plain.text))

/-- A plain text may start with `c`, which `rest` follows. -/
def startsPlain (s : Scan) (c : Char) (rest : List Char) : Bool :=
  !(isGap c || "-?:,[]\x7b\x7d#&*!|>'\"%@\x60".toList.contains c)
    || (!startsGap rest && (c = '-' || (!s.inFlow && (c = '?' || c = ':'))))

/-- The token that starts with `c`, which `rest` follows. -/
def token (s : Scan) (c : Char) (rest : List Char) : Except Fault Scan :=
  if c = '%' && s.column = 0 then do
    let s ← s.leaveDocument
    let (d, rest) ← readDirective rest
    return (s.moveTo rest).emit (.directive d)
  else if s.column = 0 && startsDocument s.rest then do
    return (← s.leaveDocument).punctuation 3 .documentStart
  else if s.column = 0 && endsDocument s.rest then do
    return (← s.leaveDocument).punctuation 3 .documentEnd
  else if c = '[' then s.openFlow .flowSequence
  else if c = '\x7b' then s.openFlow .flowMapping
  else if c = ']' then s.closeFlow .flowSequenceEnd
  else if c = '\x7d' then s.closeFlow .flowMappingEnd
  else if c = ',' then do
    return { ← s.forget with keyAllowed := true }.punctuation 1 .comma
  else if c = '-' && startsGap rest then s.readItem
  else if c = '?' && (s.inFlow || startsGap rest) then s.readKey
  else if c = ':' && (s.inFlow || startsGap rest) then s.readValue
  else if c = '*' then do
    let (name, rest) ← readAnchor rest
    s.readWord (.alias name) rest
  else if c = '&' then do
    let (name, rest) ← readAnchor rest
    s.readWord (.anchor name) rest
  else if c = '!' then do
    let (t, rest) ← readTag rest
    s.readWord t rest
  else if c = '|' && !s.inFlow then s.readBlockText false rest
  else if c = '>' && !s.inFlow then s.readBlockText true rest
  else if c = '\x27' then s.readQuotedText false rest
  else if c = '"' then s.readQuotedText true rest
  else if s.startsPlain c rest then s.readPlainText
  else refuse

/-- The tokens from here on; the first number bounds how many there are. -/
def run : Nat → Scan → Except Fault (List Token)
  | 0, _ => refuse
  | fuel + 1, s => do
      let s ← s.settle
      match s.rest with
      | [] => return (← s.leaveDocument).tokens.reverse
      | c :: rest => run fuel (← s.token c rest)

end Scan

/-- The tokens of a text. -/
def scan (s : List Char) : Except Fault (List Token) :=
  if s.all isAllowed then
    match s with
    | '\ufeff' :: s' => Scan.run (s'.length + 1) { rest := s', offset := 1 }
    | _ => Scan.run (s.length + 1) { rest := s }
  else refuse

end Quarry.Yaml
