import Quarry.Navigation.Token

/-!
# Navigation forms — the grammar of navigation texts

A form is read by binding strength: an operation takes the forms on its sides as far as they bind
more tightly than it does.  The readers carry the token that is next and the text after it; the
first argument bounds the number of nested calls, and `read` starts with more than a text can
need.
-/

namespace Quarry.Navigation

/-- The form of a navigation text. -/
inductive Form where
  | name (s : String)
  | variable | string | number | constant | pattern
  | wildcard | descendant | parent
  /-- The place of an argument that is left open. -/
  | open
  /-- The end of the text in the place of a form. -/
  | missing
  | dot (left right : Form)
  | filter (left condition : Form)
  | group (left : Form) (members : List Form)
  | order (left : Form) (terms : List Form)
  | bind (left right : Form)
  | focus (left : Form)
  | index (left : Form)
  | apply (left right : Form)
  | binary (left right : Form)
  | negate (inner : Form)
  | array (items : List Form)
  | object (members : List Form)
  | call (function : Form) (arguments : List Form)
  | lambda (body : Form)
  | block (parts : List Form)
  | condition (parts : List Form)
  | transform (parts : List Form)

/-- The token that is next and the text after it. -/
structure Reader where
  token : Token
  rest : List Char

namespace Reader

/-- Past the next token. -/
def advance (canOperate : Bool) (r : Reader) : Reading Reader := do
  let (token, rest) ← nextToken canOperate r.rest
  return { token, rest }

/-- A sign is next. -/
def sees (s : Sign) (r : Reader) : Bool :=
  r.token = .sign s

/-- Past a sign that has to be next. -/
def expect (s : Sign) (canOperate : Bool) (r : Reader) : Reading Reader :=
  if r.sees s then r.advance canOperate else refuse

/-- Past a sign if it is next. -/
def accept (s : Sign) (r : Reader) : Reading (Option Reader) := do
  if r.sees s then return some (← r.advance false) else return none

end Reader

/-- How tightly a sign binds what stands before it. -/
def Sign.strength : Sign → Nat
  | .leftBracket | .leftParen | .at | .hash => 80
  | .dot => 75
  | .leftBrace => 70
  | .star | .slash | .percent => 60
  | .plus | .minus | .ampersand => 50
  | .equal | .notEqual | .less | .lessEqual | .greater | .greaterEqual | .caret | .apply
  | .isIn | .otherwise | .coalesce => 40
  | .both => 30
  | .oneOf => 25
  | .question => 20
  | .bind => 10
  | _ => 0

/-- How tightly a token binds what stands before it. -/
def Token.strength : Token → Nat
  | .sign s => s.strength
  | _ => 0

/-- A form that is a variable alone. -/
def Form.isVariable : Form → Bool
  | .variable => true
  | _ => false

/-- A form that is the name of a function in the making. -/
def Form.isFunctionWord : Form → Bool
  | .name s => s = "function" || s = "\u03bb"
  | _ => false

/-- Past the signature of a function, from its first bracket, of which `depth` are open. -/
def skipSignature : Nat → Nat → Reader → Reading Reader
  | 0, _, _ => refuse
  | fuel + 1, depth, r =>
      if depth = 0 || r.sees .leftBrace || r.token = .finish then r.expect .greater false
      else do
        let r ← r.advance false
        let depth :=
          if r.sees .greater then depth - 1 else if r.sees .less then depth + 1 else depth
        skipSignature fuel depth r

mutual

/-- A form whose operations bind more tightly than `strength`. -/
def readForm : Nat → Nat → Reader → Reading (Form × Reader)
  | 0, _, _ => refuse
  | fuel + 1, strength, r => do
      let (left, r) ← readStart fuel r.token (← r.advance true)
      readRest fuel strength left r

/-- The operations after a form. -/
def readRest : Nat → Nat → Form → Reader → Reading (Form × Reader)
  | 0, _, _, _ => refuse
  | fuel + 1, strength, left, r =>
      match r.token with
      | .sign s =>
          if strength < s.strength then do
            let (left, r) ← readOperation fuel s left (← r.advance false)
            readRest fuel strength left r
          else .ok (left, r)
      | _ => .ok (left, r)

/-- The form that starts with a token, which is passed. -/
def readStart : Nat → Token → Reader → Reading (Form × Reader)
  | 0, _, _ => refuse
  | fuel + 1, token, r =>
      match token with
      | .name s => .ok (.name s, r)
      | .variable => .ok (.variable, r)
      | .string => .ok (.string, r)
      | .number => .ok (.number, r)
      | .constant => .ok (.constant, r)
      | .pattern => .ok (.pattern, r)
      | .finish => .ok (.missing, r)
      | .sign .both => .ok (.name "and", r)
      | .sign .oneOf => .ok (.name "or", r)
      | .sign .isIn => .ok (.name "in", r)
      | .sign .star => .ok (.wildcard, r)
      | .sign .descend => .ok (.descendant, r)
      | .sign .percent => .ok (.parent, r)
      | .sign .minus => do
          let (inner, r) ← readForm fuel 70 r
          return (.negate inner, r)
      | .sign .leftParen => do
          let (parts, r) ← readParts fuel r
          return (.block parts, ← r.expect .rightParen true)
      | .sign .leftBracket => do
          let (items, r) ←
            if r.sees .rightBracket then pure ([], r) else readItems fuel r
          return (.array items, ← r.expect .rightBracket true)
      | .sign .leftBrace => do
          let (members, r) ← readMembers fuel r
          return (.object members, r)
      | .sign .bar => do
          let (source, r) ← readForm fuel 0 r
          let (update, r) ← readForm fuel 0 (← r.expect .bar false)
          match ← r.accept .comma with
          | some r => do
              let (removal, r) ← readForm fuel 0 r
              return (.transform [source, update, removal], ← r.expect .bar false)
          | none => return (.transform [source, update], ← r.expect .bar false)
      | _ => refuse

/-- The form that an operation makes with what stands before it. -/
def readOperation : Nat → Sign → Form → Reader → Reading (Form × Reader)
  | 0, _, _, _ => refuse
  | fuel + 1, s, left, r =>
      match s with
      | .leftParen => do
          let (arguments, r) ←
            if r.sees .rightParen then pure ([], r) else readArguments fuel r
          let r ← r.expect .rightParen true
          if left.isFunctionWord then
            if !arguments.all Form.isVariable then refuse
            else
              let r ← if r.sees .less then skipSignature (r.rest.length + 2) 1 r else pure r
              let (body, r) ← readForm fuel 0 (← r.expect .leftBrace false)
              return (.lambda body, ← r.expect .rightBrace false)
          else return (.call left arguments, r)
      | .leftBracket => do
          if r.sees .rightBracket then return (left, ← r.advance false)
          else
            let (condition, r) ← readForm fuel 0 r
            return (.filter left condition, ← r.expect .rightBracket true)
      | .leftBrace => do
          let (members, r) ← readMembers fuel r
          return (.group left members, r)
      | .caret => do
          let (terms, r) ← readTerms fuel (← r.expect .leftParen false)
          return (.order left terms, ← r.expect .rightParen false)
      | .bind =>
          if left.isVariable then do
            let (right, r) ← readForm fuel 9 r
            return (.bind left right, r)
          else refuse
      | .at => do
          let (right, r) ← readForm fuel 80 r
          if right.isVariable then return (.focus left, r) else refuse
      | .hash => do
          let (right, r) ← readForm fuel 80 r
          if right.isVariable then return (.index left, r) else refuse
      | .question => do
          let (first, r) ← readForm fuel 0 r
          if r.sees .colon then
            let (second, r) ← readForm fuel 0 (← r.advance false)
            return (.condition [left, first, second], r)
          else return (.condition [left, first], r)
      | .otherwise | .coalesce => do
          let (second, r) ← readForm fuel 0 r
          return (.condition [left, second], r)
      | .dot => do
          let (right, r) ← readForm fuel s.strength r
          return (.dot left right, r)
      | .apply => do
          let (right, r) ← readForm fuel s.strength r
          return (.apply left right, r)
      | _ => do
          let (right, r) ← readForm fuel s.strength r
          return (.binary left right, r)

/-- The parts of a block, up to its closing bracket. -/
def readParts : Nat → Reader → Reading (List Form × Reader)
  | 0, _ => refuse
  | fuel + 1, r => do
      if r.sees .rightParen then return ([], r)
      else
        let (part, r) ← readForm fuel 0 r
        match ← r.accept .semicolon with
        | some r => do
            let (parts, r) ← readParts fuel r
            return (part :: parts, r)
        | none => return ([part], r)

/-- The items of an array; an item can be a range. -/
def readItems : Nat → Reader → Reading (List Form × Reader)
  | 0, _ => refuse
  | fuel + 1, r => do
      let (first, r) ← readForm fuel 0 r
      let (item, r) ← match ← r.accept .range with
        | some r => do
            let (last, r) ← readForm fuel 0 r
            pure (Form.binary first last, r)
        | none => pure (first, r)
      match ← r.accept .comma with
      | some r => do
          let (items, r) ← readItems fuel r
          return (item :: items, r)
      | none => return ([item], r)

/-- The arguments of a call; an argument can be left open. -/
def readArguments : Nat → Reader → Reading (List Form × Reader)
  | 0, _ => refuse
  | fuel + 1, r => do
      let (argument, r) ← match ← r.accept .question with
        | some r => pure (Form.open, r)
        | none => readForm fuel 0 r
      match ← r.accept .comma with
      | some r => do
          let (arguments, r) ← readArguments fuel r
          return (argument :: arguments, r)
      | none => return ([argument], r)

/-- The terms of an order; a term can have a direction. -/
def readTerms : Nat → Reader → Reading (List Form × Reader)
  | 0, _ => refuse
  | fuel + 1, r => do
      let r ← if r.sees .less || r.sees .greater then r.advance false else pure r
      let (term, r) ← readForm fuel 0 r
      match ← r.accept .comma with
      | some r => do
          let (terms, r) ← readTerms fuel r
          return (term :: terms, r)
      | none => return ([term], r)

/-- The names and values of members, after the opening brace and with the closing one. -/
def readMembers : Nat → Reader → Reading (List Form × Reader)
  | 0, _ => refuse
  | fuel + 1, r => do
      if r.sees .rightBrace then return ([], ← r.advance true)
      else
        let (members, r) ← readPairs fuel r
        return (members, ← r.expect .rightBrace true)

/-- The names and values of members, at least one. -/
def readPairs : Nat → Reader → Reading (List Form × Reader)
  | 0, _ => refuse
  | fuel + 1, r => do
      let (name, r) ← readForm fuel 0 r
      let (v, r) ← readForm fuel 0 (← r.expect .colon false)
      match ← r.accept .comma with
      | some r => do
          let (members, r) ← readPairs fuel r
          return (name :: v :: members, r)
      | none => return ([name, v], r)

end

/-- The form that fills a text. -/
def read (text : List Char) : Reading Form := do
  let start ← ({ token := .finish, rest := text } : Reader).advance false
  let (form, r) ← readForm (8 * text.length + 16) 0 start
  if r.token = .finish then return form else refuse

end Quarry.Navigation
