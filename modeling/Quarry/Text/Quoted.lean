import Quarry.Fault

/-!
# Quoted text — JSON strings

`encode` writes the inside of a quoted text.  Quotes, backslashes and control characters are
escaped; the ASCII variant escapes everything that is not a printable ASCII character, those
beyond four hexadecimal digits as a pair.  `decode` reads a quoted text up to its closing quote.

A text is a list of whole characters, so an escape for a half of a pair that stands alone is read
as U+FFFD (`joinHalves`).  That a host may keep such a half in its texts is idealized away.
-/

namespace Quarry.Text

/-- The lower-case hexadecimal digit of a number below sixteen. -/
def hexDigit (n : Nat) : Char :=
  if n < 10 then Char.ofNat (48 + n) else Char.ofNat (87 + n)

/-- The last `width` hexadecimal digits of `n`. -/
def hex (n : Nat) : (width : Nat) → List Char
  | 0 => []
  | width + 1 => hex (n / 16) width ++ [hexDigit (n % 16)]

/-- The value of a hexadecimal digit in either case. -/
def hexValue? (c : Char) : Option Nat :=
  if '0' ≤ c && c ≤ '9' then some (c.toNat - 48)
  else if 'a' ≤ c && c ≤ 'f' then some (c.toNat - 87)
  else if 'A' ≤ c && c ≤ 'F' then some (c.toNat - 55)
  else none

/-- The escape of a character that has a short one. -/
def shortEscape? (c : Char) : Option Char :=
  if c = '"' then some '"'
  else if c = '\\' then some '\\'
  else if c = '\n' then some 'n'
  else if c = '\r' then some 'r'
  else if c = '\t' then some 't'
  else if c = '\x0c' then some 'f'
  else if c = '\x08' then some 'b'
  else none

/-- What a short escape stands for. -/
def shortEscaped? (c : Char) : Option Char :=
  if c = '"' then some '"'
  else if c = '\\' then some '\\'
  else if c = '/' then some '/'
  else if c = 'n' then some '\n'
  else if c = 'r' then some '\r'
  else if c = 't' then some '\t'
  else if c = 'f' then some '\x0c'
  else if c = 'b' then some '\x08'
  else none

/-- A numbered escape of four digits. -/
def unicodeEscape (n : Nat) : List Char :=
  '\\' :: 'u' :: hex n 4

/-- The written form of a character inside quotes. -/
def encodeChar (c : Char) : List Char :=
  match shortEscape? c with
  | some e => ['\\', e]
  | none => if c.toNat < 32 then unicodeEscape c.toNat else [c]

/-- The written form of a character inside quotes, in printable ASCII. -/
def encodeCharAscii (c : Char) : List Char :=
  match shortEscape? c with
  | some e => ['\\', e]
  | none =>
      let n := c.toNat
      if 32 ≤ n && n < 127 then [c]
      else if n < 0x10000 then unicodeEscape n
      else
        let m := n - 0x10000
        unicodeEscape (0xD800 + m / 0x400) ++ unicodeEscape (0xDC00 + m % 0x400)

/-- The written form of a text inside quotes. -/
def encode (s : List Char) : List Char :=
  s.flatMap encodeChar

/-- The text between quotes, in its written form. -/
def quoted (s : List Char) : List Char :=
  '"' :: encode s ++ ['"']

/-- The text between quotes, in printable ASCII. -/
def quotedAscii (s : List Char) : List Char :=
  '"' :: s.flatMap encodeCharAscii ++ ['"']

/-- The value of exactly four hexadecimal digits. -/
def hex4? (a b c d : Char) : Option Nat := do
  let a ← hexValue? a
  let b ← hexValue? b
  let c ← hexValue? c
  let d ← hexValue? d
  return ((a * 16 + b) * 16 + c) * 16 + d

/-- Where reading a quoted text stopped: the cause and what is left from there. -/
abbrev Stop := JsonCause × List Char

/-- What reading a numbered escape gives. -/
inductive Unit16 where
  /-- The value of the four digits, and the text after them. -/
  | unit (value : Nat) (rest : List Char)
  | bad

/-- The four digits at the front of a text. -/
def unit16 : List Char → Unit16
  | a :: b :: c :: d :: rest =>
      match hex4? a b c d with
      | some n => .unit n rest
      | none => .bad
  | _ => .bad

/-- The character of a numbered escape whose first half is `high`, with the text after it.  A high
half and the low half that follows it make one character; a half on its own is shown as the
replacement character. -/
def joinHalves (high : Nat) (rest : List Char) : Except Stop (Char × List Char) :=
  if 0xD800 ≤ high && high < 0xDC00 then
    match rest with
    | '\\' :: 'u' :: a :: b :: c :: d :: e :: rest' =>
        match hex4? a b c d with
        | none => .error (.badUnicodeEscape, 'u' :: a :: b :: c :: d :: e :: rest')
        | some low =>
            if 0xDC00 ≤ low && low < 0xE000 then
              .ok (Char.ofNat (0x10000 + (high - 0xD800) * 0x400 + (low - 0xDC00)), e :: rest')
            else .ok ('\ufffd', rest)
    | _ => .ok ('\ufffd', rest)
  else if 0xDC00 ≤ high && high < 0xE000 then .ok ('\ufffd', rest)
  else .ok (Char.ofNat high, rest)

/-- The quoted text at the front of `s`, which follows the opening quote `opening`, and what comes
after its closing quote.  The number is a bound on the characters that are left to read. -/
def decodeFrom (opening : List Char) : Nat → List Char → Except Stop (List Char × List Char)
  | 0, _ => .error (.unterminatedString, opening)
  | _ + 1, [] => .error (.unterminatedString, opening)
  | fuel + 1, c :: s =>
      if c = '"' then .ok ([], s)
      else if c = '\\' then
        match s with
        | [] => .error (.unterminatedString, opening)
        | 'u' :: s' =>
            if s'.length < 5 then .error (.badUnicodeEscape, 'u' :: s')
            else
              match unit16 s' with
              | .bad => .error (.badUnicodeEscape, 'u' :: s')
              | .unit high s'' => do
                  let (d, s''') ← joinHalves high s''
                  let (text, rest) ← decodeFrom opening fuel s'''
                  return (d :: text, rest)
        | e :: s' =>
            match shortEscaped? e with
            | none => .error (.badEscape, c :: s)
            | some d => do
                let (text, rest) ← decodeFrom opening fuel s'
                return (d :: text, rest)
      else if c.toNat < 32 then .error (.controlCharacter, c :: s)
      else do
        let (text, rest) ← decodeFrom opening fuel s
        return (c :: text, rest)

/-- The quoted text whose opening quote is the first character of `opening`, and what comes after
it. -/
def decode (opening : List Char) : Except Stop (List Char × List Char) :=
  decodeFrom opening (opening.length + 1) (opening.drop 1)

end Quarry.Text
