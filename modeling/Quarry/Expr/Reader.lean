import Quarry.Expr.Basic
import Quarry.Expr.Token
import Quarry.Operand.Literal

/-!
# Expression text

The grammar, from the loosest operator to the tightest: `|`, `or`, `and`, the prefix `not`, one
comparison, `+ -`, `* / %`, the unary `-`, and then fields and indices after a primary.  Binary
operators group to the left.  Every bracket, conditional, call, prefix `not` and unary minus goes
one level deeper; `Level` holds the readers of one level, `Level.around` builds them from those
of the level inside, and `Level.at` counts the levels.
-/

namespace Quarry.Expr

/-- A reader takes tokens from the front of a list that ends in the token for the end. -/
abbrev Reader := StateT (List Token) (Except Fault)

/-- The readers that an enclosing level calls. -/
structure Level where
  pipe : Reader Expr
  disjunction : Reader Expr
  negation : Reader Expr
  unary : Reader Expr

/-- Failure with a cause. -/
def refuse {α : Type} (cause : ExprFault) : Reader α :=
  throw (.query (.expression cause))

/-! ### Single tokens -/

/-- The token that is next. -/
def current : Reader Token := fun tokens =>
  .ok (tokens.headD ⟨.finish, [], 0⟩, tokens)

/-- The class of the token after the next one. -/
def peekKind : Reader TokenKind := fun tokens =>
  .ok (match tokens with
    | _ :: t :: _ => t.kind
    | [t] => t.kind
    | [] => .finish, tokens)

/-- Pass the next token. -/
def advance : Reader Token := fun tokens =>
  .ok (tokens.headD ⟨.finish, [], 0⟩, tokens.tail)

/-- The text of a token in a message. -/
def Token.shown (t : Token) : String :=
  if t.text.isEmpty then "end of expression" else String.ofList t.text

/-- Pass the next token, which has to be of a class. -/
def expect (kind : TokenKind) : Reader Token := do
  let t ← current
  if t.kind = kind then advance
  else refuse (.expected kind.name t.offset t.shown)

/-- Pass the next token if it is of a class. -/
def accept? (kind : TokenKind) : Reader Bool := do
  if (← current).kind = kind then
    let _ ← advance
    return true
  else return false

/-- The token is a given word. -/
def Token.isWord (t : Token) (word : String) : Bool :=
  t.kind = .word && String.ofList t.text = word

/-- Pass the next token, which has to be a given word. -/
def expectWord (word : String) : Reader Unit := do
  let t ← current
  if t.isWord word then
    let _ ← advance
  else refuse (.expectedKeyword word t.offset (String.ofList t.text))

/-- The text that a quoted token stands for. -/
def quotedText (text : List Char) : Except Fault String :=
  match text with
  | '"' :: _ =>
      match Text.decode text with
      | .ok (s, _) => .ok (String.ofList s)
      | .error (cause, rest) =>
          .error (.quotedText (.malformed cause (.after text (text.length - rest.length))))
  | _ => .ok (String.ofList (Text.unprotect (text.drop 1).dropLast))

/-- The value that a number token stands for; its text is always a numeral. -/
def numberValue (text : List Char) : Except Fault Value :=
  match Text.numeral? text with
  | some n => return .number (← n.toNumber)
  | none => return .null

/-! ### Repetition

Each repetition passes at least one token, so the number of tokens bounds it. -/

/-- Operands joined by operators, grouped to the left; `left` is what has been read. -/
def joinFrom (operand : Reader Expr) (join? : Token → Option (Expr → Expr → Expr)) :
    Nat → Expr → Reader Expr
  | 0, left => return left
  | fuel + 1, left => do
      match join? (← current) with
      | none => return left
      | some join =>
          let _ ← advance
          let right ← operand
          joinFrom operand join? fuel (join left right)

/-- Operands of one kind joined by operators. -/
def joined (operand : Reader Expr) (join? : Token → Option (Expr → Expr → Expr)) :
    Reader Expr := do
  let left ← operand
  joinFrom operand join? (← get).length left

/-- Expressions after commas. -/
def moreItems (item : Reader Expr) : Nat → Reader (List Expr)
  | 0 => return []
  | fuel + 1 => do
      if ← accept? .comma then
        let e ← item
        return e :: (← moreItems item fuel)
      else return []

/-- Expressions between commas, up to a closing token. -/
def itemsUpTo (item : Reader Expr) (closer : TokenKind) : Reader (List Expr) := do
  let items ← if (← current).kind = closer then pure []
    else do
      let e ← item
      pure (e :: (← moreItems item (← get).length))
  let _ ← expect closer
  return items

/-! ### The grammar, around an inner level -/

/-- What may start an operand of the prefix `not`. -/
def startsPrimary : TokenKind → Bool
  | .number | .string | .field | .dot | .leftParen | .leftBracket | .leftBrace | .word | .minus =>
      true
  | _ => false

/-- The words that are no names of functions. -/
def keywords : List String :=
  ["and", "or", "if", "then", "elif", "else", "end"]

/-- The expression that a name with arguments makes. -/
def makeCall (t : Token) (arguments : List Expr) : Reader Expr := do
  let name := String.ofList t.text
  match FunctionName.ofName? name, arguments with
  | none, _ => refuse (.unknownFunction name t.offset)
  | some (.subject f), [] => return .subject f none
  | some (.subject f), [e] => return .subject f (some e)
  | some (.argument f), [e] => return .argument f e
  | some f, _ => refuse (.argumentCount name f.counts arguments.length)

/-- The branches after the first one of a conditional. -/
def readBranches (inner : Level) : Nat → Reader (List Branch)
  | 0 => return []
  | fuel + 1 => do
      if (← current).isWord "elif" then
        let _ ← advance
        let condition ← inner.pipe
        expectWord "then"
        let result ← inner.pipe
        return .mk condition result :: (← readBranches inner fuel)
      else return []

/-- A conditional. -/
def readConditional (enter : Except Fault Level) : Reader Expr := do
  expectWord "if"
  let inner ← enter
  let condition ← inner.pipe
  expectWord "then"
  let result ← inner.pipe
  let branches ← readBranches inner (← get).length
  let otherwise ← if (← current).isWord "else" then do
      let _ ← advance
      inner.pipe
    else pure .identity
  expectWord "end"
  return .conditional (.mk condition result :: branches) otherwise

/-- A constant, a conditional or a call. -/
def readNamed (enter : Except Fault Level) : Reader Expr := do
  let t ← current
  let name := String.ofList t.text
  if name = "true" then do
    let _ ← advance
    return .literal (.bool true)
  else if name = "false" then do
    let _ ← advance
    return .literal (.bool false)
  else if name = "null" then do
    let _ ← advance
    return .literal .null
  else if name = "if" then readConditional enter
  else if keywords.contains name then refuse (.unexpectedKeyword name t.offset)
  else
    let _ ← advance
    if ← accept? .leftParen then
      let inner ← enter
      makeCall t (← itemsUpTo inner.pipe .rightParen)
    else makeCall t []

/-- An array constructor. -/
def readArray (enter : Except Fault Level) : Reader Expr := do
  let _ ← expect .leftBracket
  let inner ← enter
  return .array (← itemsUpTo inner.pipe .rightBracket)

/-- The key of a member, fixed or computed. -/
def readKey (inner : Level) : Reader (String ⊕ Expr) := do
  let t ← current
  match t.kind with
  | .word =>
      let _ ← advance
      return .inl (String.ofList t.text)
  | .string =>
      let _ ← advance
      return .inl (← quotedText t.text)
  | .leftParen =>
      let _ ← advance
      let key ← inner.pipe
      let _ ← expect .rightParen
      return .inr key
  | _ => refuse (.keyExpected t.offset)

/-- A member of an object constructor. -/
def readEntry (inner : Level) : Reader Entry := do
  let t ← current
  let key ← readKey inner
  if ← accept? .colon then
    let e ← inner.disjunction
    match key with
    | .inl name => return .named name e
    | .inr key => return .computed key e
  else
    match key with
    | .inl name => return .named name (.field .identity name)
    | .inr _ => refuse (.computedKeyAlone t.offset)

/-- The members of an object constructor that are left. -/
def readEntries (inner : Level) : Nat → Reader (List Entry)
  | 0 => return []
  | fuel + 1 => do
      if (← current).kind = .rightBrace then return []
      else
        let e ← readEntry inner
        if ← accept? .comma then return e :: (← readEntries inner fuel)
        else return [e]

/-- A parenthesised expression. -/
def readGroup (enter : Except Fault Level) : Reader Expr := do
  let _ ← expect .leftParen
  let inner ← enter
  let e ← inner.pipe
  let _ ← expect .rightParen
  return e

/-- A dot, with a quoted name after it or alone. -/
def readDotted : Reader Expr := do
  let _ ← expect .dot
  let t ← current
  if t.kind = .string then
    let _ ← advance
    return .field .identity (← quotedText t.text)
  else return .identity

/-- Fields and indices after `source`. -/
def postfixFrom (enter : Except Fault Level) : Nat → Expr → Reader Expr
  | 0, source => return source
  | fuel + 1, source => do
      let t ← current
      match t.kind, ← peekKind with
      | .field, _ =>
          let _ ← advance
          postfixFrom enter fuel (.field source (String.ofList (t.text.drop 1)))
      | .dot, .string =>
          let _ ← advance
          let name ← advance
          postfixFrom enter fuel (.field source (← quotedText name.text))
      | .dot, .leftBracket =>
          let _ ← advance
          postfixFrom enter fuel source
      | .leftBracket, _ =>
          let _ ← advance
          let inner ← enter
          let index ← inner.pipe
          let _ ← expect .rightBracket
          postfixFrom enter fuel (.index source index)
      | _, _ => return source

/-- The operators of one comparison. -/
def relation? : TokenKind → Option Relation
  | .equal => some .eq
  | .notEqual => some .ne
  | .greaterEqual => some .ge
  | .lessEqual => some .le
  | .greater => some .gt
  | .less => some .lt
  | _ => none

def joinProduct (t : Token) : Option (Expr → Expr → Expr) :=
  match t.kind with
  | .star => some (.binary (.arithmetic .mul))
  | .slash => some (.binary (.arithmetic .div))
  | .percent => some (.binary (.arithmetic .rem))
  | _ => none

def joinSum (t : Token) : Option (Expr → Expr → Expr) :=
  match t.kind with
  | .plus => some (.binary (.arithmetic .add))
  | .minus => some (.binary (.arithmetic .sub))
  | _ => none

def joinAnd (t : Token) : Option (Expr → Expr → Expr) :=
  if t.isWord "and" then some (.binary .and) else none

def joinOr (t : Token) : Option (Expr → Expr → Expr) :=
  if t.isWord "or" then some (.binary .or) else none

def joinPipe (t : Token) : Option (Expr → Expr → Expr) :=
  if t.kind = .pipe then some .pipe else none

/-- An object constructor. -/
def readObject (enter : Except Fault Level) : Reader Expr := do
  let _ ← expect .leftBrace
  let inner ← enter
  let members ← readEntries inner (← get).length
  let _ ← expect .rightBrace
  return .object members

/-- A primary. -/
def readPrimary (enter : Except Fault Level) : Reader Expr := do
  let t ← current
  match t.kind with
  | .number =>
      let _ ← advance
      return .literal (← numberValue t.text)
  | .string =>
      let _ ← advance
      return .literal (.string (← quotedText t.text))
  | .field =>
      let _ ← advance
      return .field .identity (String.ofList (t.text.drop 1))
  | .dot => readDotted
  | .leftParen => readGroup enter
  | .leftBracket => readArray enter
  | .leftBrace => readObject enter
  | .word => readNamed enter
  | _ => refuse (.unexpected t.shown t.offset)

/-- A primary with the fields and indices after it. -/
def readPath (enter : Except Fault Level) : Reader Expr := do
  let source ← readPrimary enter
  postfixFrom enter (← get).length source

def readUnary (enter : Except Fault Level) : Reader Expr := do
  if ← accept? .minus then
    let inner ← enter
    return .negate (← inner.unary)
  else readPath enter

def readProduct (enter : Except Fault Level) : Reader Expr :=
  joined (readUnary enter) joinProduct

def readSum (enter : Except Fault Level) : Reader Expr :=
  joined (readProduct enter) joinSum

def readComparison (enter : Except Fault Level) : Reader Expr := do
  let left ← readSum enter
  match relation? (← current).kind with
  | none => return left
  | some r =>
      let _ ← advance
      return .binary (.relation r) left (← readSum enter)

def readNegation (enter : Except Fault Level) : Reader Expr := do
  let t ← current
  let next ← peekKind
  if t.isWord "not" && startsPrimary next then
    let _ ← advance
    let inner ← enter
    return .not (← inner.negation)
  else readComparison enter

def readConjunction (enter : Except Fault Level) : Reader Expr :=
  joined (readNegation enter) joinAnd

def readDisjunction (enter : Except Fault Level) : Reader Expr :=
  joined (readConjunction enter) joinOr

def readPipe (enter : Except Fault Level) : Reader Expr :=
  joined (readDisjunction enter) joinPipe

/-- The readers of a level whose inner level is `enter`. -/
def Level.around (enter : Except Fault Level) : Level :=
  ⟨readPipe enter, readDisjunction enter, readNegation enter, readUnary enter⟩

/-- The readers of a level with `levels` levels left inside it. -/
def Level.at (limit : Nat) : (levels : Nat) → Level
  | 0 => .around (.error (.tooDeep limit))
  | levels + 1 => .around (.ok (Level.at limit levels))

/-- The expression that tokens write, nested at most `limit` deep. -/
def ofTokens (limit : Nat) (tokens : List Token) : Except Fault Expr := do
  let whole : Reader Expr := do
    let e ← (Level.at limit limit).pipe
    let _ ← expect .finish
    return e
  return (← whole.run tokens).1

/-- The expression that a text writes, nested at most `limit` deep.  A blank text is the
identity. -/
def read (limit : Nat) (text : String) : Except Fault Expr := do
  if (Text.trim text.toList).isEmpty then return .identity
  else ofTokens limit (← scan text)

end Quarry.Expr
