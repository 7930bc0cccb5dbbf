import Quarry.Text.Quoted
import Quarry.Value.Basic

/-!
# Read JSON — values from text

`read` takes the strict grammar with three additions: the words `NaN`, `Infinity` and
`-Infinity` are numbers if the caller allows them, a half of a character pair stands for the
replacement character, and of a repeated name the last value counts.  A refused text comes with
the cause and the place where it was noticed.

The readers work on the characters that are left.  Their first argument bounds the number of
nested calls; `read` starts with more than the text can need.

Two things are idealized.  A text here holds whole characters only, so a half of a pair that stands
alone, which a host may keep as it is, becomes U+FFFD (`Text.joinHalves`).  And nested calls are not
limited: a host that runs out of them reports that the document is too deep, or fails in its own
way if it has read it already, and here only the caller's limit can be passed.
-/

namespace Quarry.Json

/-- Why reading ended early: a break of the grammar with the characters left at its place, a
word for a number that the caller does not allow, or an integer that is too long. -/
inductive Halt where
  | malformed (cause : JsonCause) (rest : List Char)
  | constant (name : String)
  | longInteger (digits : Nat)

/-- The four blanks of JSON. -/
def isSpace (c : Char) : Bool :=
  c = ' ' || c = '\t' || c = '\n' || c = '\r'

def skipSpace (s : List Char) : List Char :=
  s.dropWhile isSpace

def isAsciiDigit (c : Char) : Bool :=
  '0' ≤ c && c ≤ '9'

/-- The quoted text that starts with the first character of `s`. -/
def readQuoted (s : List Char) : Except Halt (String × List Char) :=
  match Text.decode s with
  | .ok (text, rest) => .ok (String.ofList text, rest)
  | .error (cause, rest) => .error (.malformed cause rest)

/-- The digits before the point: a zero alone, or any number of them. -/
def wholePart : List Char → Option (List Char × List Char)
  | '0' :: s => some (['0'], s)
  | s =>
      match s.span isAsciiDigit with
      | ([], _) => none
      | (digits, rest) => some (digits, rest)

/-- The digits after a point, if at least one follows it. -/
def fractionPart : List Char → List Char × List Char
  | '.' :: s =>
      match s.span isAsciiDigit with
      | ([], _) => ([], '.' :: s)
      | (digits, rest) => (digits, rest)
  | s => ([], s)

/-- The sign that may stand before the digits of an exponent. -/
def exponentSign : List Char → Bool × List Char
  | '-' :: s => (true, s)
  | '+' :: s => (false, s)
  | s => (false, s)

/-- The exponent, if it has at least one digit. -/
def exponentPart : List Char → Option Int × List Char
  | c :: s =>
      if c = 'e' || c = 'E' then
        let (negative, s') := exponentSign s
        match s'.span isAsciiDigit with
        | ([], _) => (none, c :: s)
        | (digits, rest) =>
            let n : Int := Nat.ofDigitChars 10 digits 0
            (some (if negative then -n else n), rest)
      else (none, c :: s)
  | [] => (none, [])

/-- The unsigned number at the front of `s`. -/
def readUnsigned (negative : Bool) (start s : List Char) : Except Halt (Value × List Char) :=
  match wholePart s with
  | none => .error (.malformed .valueExpected start)
  | some (whole, s₁) =>
      match fractionPart s₁ with
      | (fraction, s₂) =>
          match exponentPart s₂ with
          | (exponent, s₃) =>
              if fraction.isEmpty && exponent.isNone then
                let n := Nat.ofDigitChars 10 whole 0
                if Number.digitLimit < whole.length then .error (.longInteger whole.length)
                else .ok (.number (.int (if negative then -(n : Int) else n)), s₃)
              else
                let n := Nat.ofDigitChars 10 (whole ++ fraction) 0
                let e := exponent.getD 0 - fraction.length
                .ok (.number (.float (Binary64.ofDecimal negative n e)), s₃)

/-- The number at the front of `s`. -/
def readNumber (s : List Char) : Except Halt (Value × List Char) :=
  match s with
  | '-' :: s' => readUnsigned true s s'
  | _ => readUnsigned false s s

/-- A number that is written as a word. -/
def readConstant (allowed : Bool) (name : String) (x : Binary64) (rest : List Char) :
    Except Halt (Value × List Char) :=
  if allowed then .ok (.number (.float x), rest) else .error (.constant name)

/-- The word or number at the front of `s`. -/
def readScalar (constants : Bool) (s : List Char) : Except Halt (Value × List Char) :=
  match s with
  | 'n' :: 'u' :: 'l' :: 'l' :: rest => .ok (.null, rest)
  | 't' :: 'r' :: 'u' :: 'e' :: rest => .ok (.bool true, rest)
  | 'f' :: 'a' :: 'l' :: 's' :: 'e' :: rest => .ok (.bool false, rest)
  | 'N' :: 'a' :: 'N' :: rest => readConstant constants "NaN" .nan rest
  | 'I' :: 'n' :: 'f' :: 'i' :: 'n' :: 'i' :: 't' :: 'y' :: rest =>
      readConstant constants "Infinity" (.infinite false) rest
  | '-' :: 'I' :: 'n' :: 'f' :: 'i' :: 'n' :: 'i' :: 't' :: 'y' :: rest =>
      readConstant constants "-Infinity" (.infinite true) rest
  | _ => readNumber s

mutual

/-- The value at the front of `s`. -/
def readValue (constants : Bool) : Nat → List Char → Except Halt (Value × List Char)
  | 0, s => .error (.malformed .valueExpected s)
  | fuel + 1, s =>
      match s with
      | '"' :: _ => do
          let (text, rest) ← readQuoted s
          return (.string text, rest)
      | '[' :: s' =>
          match skipSpace s' with
          | ']' :: rest => .ok (.array [], rest)
          | s'' => do
              let (items, rest) ← readItems constants fuel s''
              return (.array items, rest)
      | '{' :: s' =>
          match skipSpace s' with
          | '}' :: rest => .ok (.object [], rest)
          | s'' => do
              let (pairs, rest) ← readPairs constants fuel s''
              return (Value.ofPairs pairs, rest)
      | _ => readScalar constants s

/-- The items of an array, from the first one at the front of `s` to the closing bracket. -/
def readItems (constants : Bool) : Nat → List Char → Except Halt (List Value × List Char)
  | 0, s => .error (.malformed .valueExpected s)
  | fuel + 1, s => do
      let (v, s') ← readValue constants fuel s
      match skipSpace s' with
      | ']' :: rest => return ([v], rest)
      | ',' :: s'' => do
          let (vs, rest) ← readItems constants fuel (skipSpace s'')
          return (v :: vs, rest)
      | s'' => throw (.malformed .commaExpected s'')

/-- The members of an object, from the first name at the front of `s` to the closing brace. -/
def readPairs (constants : Bool) :
    Nat → List Char → Except Halt (List (String × Value) × List Char)
  | 0, s => .error (.malformed .nameExpected s)
  | fuel + 1, s =>
      match s with
      | '"' :: _ => do
          let (name, s₁) ← readQuoted s
          match skipSpace s₁ with
          | ':' :: s₂ => do
              let (v, s₃) ← readValue constants fuel (skipSpace s₂)
              match skipSpace s₃ with
              | '}' :: rest => return ([(name, v)], rest)
              | ',' :: s₄ => do
                  let (pairs, rest) ← readPairs constants fuel (skipSpace s₄)
                  return ((name, v) :: pairs, rest)
              | s₄ => throw (.malformed .commaExpected s₄)
          | s₂ => throw (.malformed .colonExpected s₂)
      | _ => .error (.malformed .nameExpected s)

end

/-- The value that fills a text, with blanks around it allowed. -/
def readText (constants : Bool) (text : List Char) : Except Halt Value :=
  match text with
  | '\ufeff' :: _ => .error (.malformed .byteOrderMark text)
  | _ => do
      let (v, rest) ← readValue constants (2 * text.length + 2) (skipSpace text)
      match skipSpace rest with
      | [] => return v
      | rest' => throw (.malformed .extraData rest')

/-- The fault that an early end of reading `text` stands for. -/
def Halt.fault (text : List Char) : Halt → JsonFault
  | .malformed cause rest => .malformed cause (.after text (text.length - rest.length))
  | .constant name => .constant name
  | .longInteger digits => .longInteger digits

/-- The value that a text writes, numbers as written; `constants` allows the words `NaN`,
`Infinity` and `-Infinity`. -/
def read (constants : Bool) (text : List Char) : Except JsonFault Value :=
  (readText constants text).mapError (Halt.fault text)

/-- The document that a text writes, in normal form and nested at most `limit` deep. -/
def parse (limit : Nat) (text : String) : Except Fault Value := do
  let v ← (read false text.toList).mapError Fault.document
  v.accept limit

end Quarry.Json
