import Quarry.Json.Reader
import Quarry.Pattern.Named
import Quarry.Pattern.Reader

/-!
# Navigation tokens

The words of navigation texts are signs, quoted texts, numbers, names and variables, with blanks
and remarks between them.  A slash is a division where an operation can follow, and otherwise it
opens a pattern; so the tokens are read one at a time, each with the knowledge of what can follow
the one before.
-/

namespace Quarry.Navigation

/-- The signs, and the words that are signs. -/
inductive Sign where
  | dot | range | leftBracket | rightBracket | leftBrace | rightBrace | leftParen | rightParen
  | comma | at | hash | semicolon | colon | bind | question | otherwise | coalesce
  | plus | minus | star | descend | slash | percent | bar
  | equal | notEqual | less | lessEqual | greater | greaterEqual
  | caret | apply | both | oneOf | isIn | ampersand | bang | tilde
deriving DecidableEq

/-- A token. -/
inductive Token where
  | sign (s : Sign)
  | name (s : String)
  | variable
  | string
  | number
  | constant
  | pattern
  | finish
deriving DecidableEq

/-- Why a text is refused. -/
inductive Refusal where
  | malformed

/-- A reader's answer. -/
abbrev Reading := Except Refusal

def refuse {α : Type} : Reading α :=
  .error .malformed

/-- The signs of two characters. -/
def doubleSigns : List (List Char × Sign) :=
  [(['.', '.'], .range), ([':', '='], .bind), (['!', '='], .notEqual), (['>', '='], .greaterEqual),
    (['<', '='], .lessEqual), (['*', '*'], .descend), (['~', '>'], .apply),
    (['?', ':'], .otherwise), (['?', '?'], .coalesce)]

/-- The signs of one character. -/
def singleSigns : List (Char × Sign) :=
  [('.', .dot), ('[', .leftBracket), (']', .rightBracket), ('\x7b', .leftBrace),
    ('\x7d', .rightBrace), ('(', .leftParen), (')', .rightParen), (',', .comma), ('@', .at),
    ('#', .hash), (';', .semicolon), (':', .colon), ('?', .question), ('+', .plus),
    ('-', .minus), ('*', .star), ('/', .slash), ('%', .percent), ('|', .bar), ('=', .equal),
    ('<', .less), ('>', .greater), ('^', .caret), ('&', .ampersand), ('!', .bang), ('~', .tilde)]

/-- The sign at the front of a text. -/
def sign? (s : List Char) : Option (Sign × List Char) :=
  match doubleSigns.find? fun d => d.1.isPrefixOf s with
  | some (_, found) => some (found, s.drop 2)
  | none =>
      match s with
      | [] => none
      | c :: rest => (singleSigns.lookup c).map (·, rest)

/-- A blank between tokens. -/
def isSpace (c : Char) : Bool :=
  c = ' ' || c = '\t' || c = '\n' || c = '\r'

/-- The text without the blanks and remarks at its front, perhaps from inside a remark; a remark
has to be closed. -/
def skip : (inRemark : Bool) → List Char → Reading (List Char)
  | false, [] => .ok []
  | true, [] => refuse
  | true, '*' :: '/' :: s => skip false s
  | true, _ :: s => skip true s
  | false, '/' :: '*' :: s => skip true s
  | false, c :: s => if isSpace c then skip false s else .ok (c :: s)

/-- The rest after the quoted text that ends with `quote`. -/
def skipQuoted (quote : Char) : List Char → Reading (List Char)
  | [] => refuse
  | c :: s =>
      if c = quote then .ok s
      else if c = '\\' then
        match s with
        | [] => refuse
        | d :: rest =>
            if ['"', '\\', '/', 'b', 'f', 'n', 'r', 't'].contains d then skipQuoted quote rest
            else if d = 'u' then
              match rest with
              | a :: b :: e :: f :: rest' =>
                  if [a, b, e, f].all Pattern.isHex then skipQuoted quote rest' else refuse
              | _ => refuse
            else refuse
      else skipQuoted quote s

/-- The body of a pattern and what follows its closing slash.  A slash inside brackets or after
an odd number of backslashes, of which there are `backslashes`, does not close. -/
def cutPattern (depth : Int) (backslashes : Nat) (body : List Char) :
    List Char → Reading (List Char × List Char)
  | [] => refuse
  | c :: s =>
      if c = '/' && depth = 0 && backslashes % 2 = 0 then
        if body.isEmpty then refuse else .ok (body.reverse, s)
      else
        let bare := backslashes = 0
        let depth :=
          if bare && ['(', '[', '\x7b'].contains c then depth + 1
          else if bare && [')', ']', '\x7d'].contains c then depth - 1
          else depth
        cutPattern depth (if c = '\\' then backslashes + 1 else 0) (c :: body) s

/-- The rest after a pattern, which has to be well formed. -/
def skipPattern (s : List Char) : Reading (List Char) := do
  let (body, rest) ← cutPattern 0 0 [] s
  let (letters, rest) := rest.span fun c => c = 'i' || c = 'm'
  match Pattern.read (({} : Pattern.Mode).change letters []) body with
  | .ok _ => return rest
  | .error _ => refuse

/-- The rest after the number at the front of a text, which has to be that of a finite double. -/
def skipNumber? (s : List Char) : Option (Reading (List Char)) :=
  match s with
  | c :: _ =>
      if Json.isAsciiDigit c then
        match Json.readUnsigned false s s with
        | .ok (.number n, rest) =>
            match n.toFloat with
            | .ok (.finite _) => some (.ok rest)
            | _ => some refuse
        | _ => some refuse
      else none
  | [] => none

/-- The token of a name without quotes. -/
def nameToken (name : List Char) : Token :=
  match name with
  | '$' :: _ => .variable
  | _ =>
      let s := String.ofList name
      if s = "and" then .sign .both
      else if s = "or" then .sign .oneOf
      else if s = "in" then .sign .isIn
      else if s = "true" || s = "false" || s = "null" then .constant
      else .name s

/-- The first token of a text and what comes after it; `canOperate` says that an operation can
come next. -/
def nextToken (canOperate : Bool) (text : List Char) : Reading (Token × List Char) := do
  match ← skip false text with
  | [] => return (.finish, [])
  | c :: s =>
      if c = '/' && !canOperate then return (.pattern, ← skipPattern s)
      else
        match sign? (c :: s) with
        | some (found, rest) => return (.sign found, rest)
        | none =>
            if c = '"' || c = '\x27' then return (.string, ← skipQuoted c s)
            else if c = '\x60' then
              match s.span (· ≠ '\x60') with
              | (name, _ :: rest) => return (.name (String.ofList name), rest)
              | (_, []) => refuse
            else
              match skipNumber? (c :: s) with
              | some rest => return (.number, ← rest)
              | none =>
                  let (name, rest) :=
                    (c :: s).span fun d => !isSpace d && (singleSigns.lookup d).isNone
                  return (nameToken name, rest)

end Quarry.Navigation
