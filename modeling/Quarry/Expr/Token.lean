import Quarry.Fault
import Quarry.Text.Class
import Quarry.Text.Cut

/-!
# Tokens — the words of expressions

`scan` takes a text apart into tokens with blanks between them.  At each place the longest token
of the first class that fits is taken; a text whose next character starts no token is refused.
-/

namespace Quarry.Expr

/-- The classes of tokens. -/
inductive TokenKind where
  | number | string | field
  | equal | notEqual | greaterEqual | lessEqual | greater | less
  | pipe | dot | leftBracket | rightBracket | leftParen | rightParen | leftBrace | rightBrace
  | comma | colon | plus | minus | star | slash | percent
  | word
  | finish
deriving DecidableEq

/-- The name of a class in messages. -/
def TokenKind.name : TokenKind → String
  | .number => "NUMBER"
  | .string => "STRING"
  | .field => "FIELD"
  | .equal => "EQEQ"
  | .notEqual => "NEQ"
  | .greaterEqual => "GTE"
  | .lessEqual => "LTE"
  | .greater => "GT"
  | .less => "LT"
  | .pipe => "PIPE"
  | .dot => "DOT"
  | .leftBracket => "LBRACKET"
  | .rightBracket => "RBRACKET"
  | .leftParen => "LPAREN"
  | .rightParen => "RPAREN"
  | .leftBrace => "LBRACE"
  | .rightBrace => "RBRACE"
  | .comma => "COMMA"
  | .colon => "COLON"
  | .plus => "PLUS"
  | .minus => "MINUS"
  | .star => "STAR"
  | .slash => "SLASH"
  | .percent => "PERCENT"
  | .word => "IDENT"
  | .finish => "EOF"

/-- A token with its text and its offset. -/
structure Token where
  kind : TokenKind
  text : List Char
  offset : Nat
deriving DecidableEq

/-- A character that starts a word. -/
def startsWord (c : Char) : Bool :=
  c.isAlpha || c = '_'

/-- A character that continues a word. -/
def continuesWord (c : Char) : Bool :=
  c.isAlphanum || c = '_'

/-- The longest run at the front of `s`, after what has been read. -/
def extend (p : Char → Bool) (front s : List Char) : List Char × List Char :=
  let (run, rest) := s.span p
  (front ++ run, rest)

/-- A point with digits after it, if the text goes on so. -/
def fraction (front s : List Char) : List Char × List Char :=
  match s with
  | '.' :: d :: s' =>
      if Text.isDigit d then extend Text.isDigit (front ++ ['.']) (d :: s') else (front, s)
  | _ => (front, s)

/-- An exponent with at least one digit, if the text goes on so. -/
def exponent (front s : List Char) : List Char × List Char :=
  match s with
  | e :: d :: s' =>
      if e = 'e' || e = 'E' then
        if Text.isDigit d then extend Text.isDigit (front ++ [e]) (d :: s')
        else if d = '+' || d = '-' then
          match s' with
          | d' :: s'' =>
              if Text.isDigit d' then extend Text.isDigit (front ++ [e, d]) (d' :: s'')
              else (front, s)
          | [] => (front, s)
        else (front, s)
      else (front, s)
  | _ => (front, s)

/-- The number at the front of a text that starts with a digit. -/
def scanNumber (s : List Char) : List Char × List Char :=
  let (front, rest) := extend Text.isDigit [] s
  let (front, rest) := fraction front rest
  exponent front rest

/-- The class of a single character that is a token. -/
def single? (c : Char) : Option TokenKind :=
  if c = '>' then some .greater
  else if c = '<' then some .less
  else if c = '|' then some .pipe
  else if c = '.' then some .dot
  else if c = '[' then some .leftBracket
  else if c = ']' then some .rightBracket
  else if c = '(' then some .leftParen
  else if c = ')' then some .rightParen
  else if c = '\x7b' then some .leftBrace
  else if c = '\x7d' then some .rightBrace
  else if c = ',' then some .comma
  else if c = ':' then some .colon
  else if c = '+' then some .plus
  else if c = '-' then some .minus
  else if c = '*' then some .star
  else if c = '/' then some .slash
  else if c = '%' then some .percent
  else none

/-- The class of two characters that are one token. -/
def double? (c d : Char) : Option TokenKind :=
  if d ≠ '=' then none
  else if c = '=' then some .equal
  else if c = '!' then some .notEqual
  else if c = '>' then some .greaterEqual
  else if c = '<' then some .lessEqual
  else none

/-- The token at the front of a text that does not start with a blank: its class, its text, and
what comes after it. -/
def scanOne? (c : Char) (s : List Char) : Option (TokenKind × List Char × List Char) :=
  if Text.isDigit c then
    let (text, rest) := scanNumber (c :: s)
    some (.number, text, rest)
  else if c = '"' || c = '\x27' then
    (Text.delimited? c s).map fun (text, rest) => (.string, c :: text, rest)
  else if startsWord c then
    let (text, rest) := (c :: s).span continuesWord
    some (.word, text, rest)
  else
    match s with
    | d :: s' =>
        if c = '.' && startsWord d then
          let (text, rest) := extend continuesWord ['.'] s
          some (.field, text, rest)
        else
          match double? c d with
          | some kind => some (kind, [c, d], s')
          | none => (single? c).map (·, [c], s)
    | [] => (single? c).map (·, [c], s)

/-- The tokens from `offset` on; the first number bounds how many characters there are. -/
def scanFrom : Nat → (offset : Nat) → List Char → Except Fault (List Token)
  | 0, offset, _ => .ok [⟨.finish, [], offset⟩]
  | _ + 1, offset, [] => .ok [⟨.finish, [], offset⟩]
  | fuel + 1, offset, c :: s =>
      if Text.isBlank c then scanFrom fuel (offset + 1) s
      else
        match scanOne? c s with
        | none => .error (.query (.expression (.unexpectedCharacter offset c)))
        | some (kind, text, rest) => do
            return ⟨kind, text, offset⟩ :: (← scanFrom fuel (offset + text.length) rest)

/-- The tokens of a text, with one for its end. -/
def scan (text : String) : Except Fault (List Token) :=
  let s := text.toList
  scanFrom s.length 0 s

end Quarry.Expr
