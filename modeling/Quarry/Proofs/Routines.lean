import Quarry.Proofs.Precedence

/-!
# Routines — the grammar step by step

The readers of the grammar take tokens from the front of a list, and they are total by their types:
a level counts down, a repetition has its fuel, and a list without tokens reads as its end.  Here
the same grammar is a set of routines that call each other and share a cursor, which is an index
into all the tokens and a counter of the levels entered.  Nothing bounds these by itself.

A routine is a `Program`: the operations that it asks for, one after the other.  `Config` is a
moment in a run, with the callers that wait; `step` goes to the next one.  It goes `astray` where a
token is read that is not there, and nothing stops it from going on for ever.  A repetition is a
routine that calls itself with what it has so far, so its rounds are calls like all others.
-/

namespace Quarry.Expr

/-- Where a routine is: the index of the next token, and how many levels have been entered. -/
structure Cursor where
  index : Nat
  nesting : Nat
deriving DecidableEq

/-- The routines: those of whole texts, of the places of the grammar and of primaries, and the
repetitions. -/
inductive Routine where
  | whole
  | place (place : Place)
  | goOn (place : Place)
  | primary
  | array
  | object
  | conditional
  | named
  | moreItems
  | entries
  | branches
deriving DecidableEq

namespace Routine

/-- What a routine is given: the repetition of a place has what has been read. -/
abbrev Argument : Routine → Type
  | goOn _ => Expr
  | _ => Unit

/-- What a routine returns. -/
abbrev Result : Routine → Type
  | moreItems => List Expr
  | entries => List Entry
  | branches => List Branch
  | _ => Expr

end Routine

/-- What is left of a routine to run, up to its result. -/
inductive Program (α : Type) where
  | done (a : α)
  | fail (fault : Fault)
  /-- Read the next token. -/
  | onCurrent (next : Token → Program α)
  /-- Read the token after the next one, or the last. -/
  | onPeek (next : Token → Program α)
  /-- Pass the next token. -/
  | onPass (next : Program α)
  /-- Enter a level. -/
  | onEnter (next : Program α)
  /-- Leave a level. -/
  | onLeave (next : Program α)
  /-- Call a routine. -/
  | onCall (r : Routine) (argument : r.Argument) (next : r.Result → Program α)

namespace Program

variable {α β : Type}

/-- A program, and what follows with its result. -/
protected def bind : Program α → (α → Program β) → Program β
  | done a, f => f a
  | fail fault, _ => fail fault
  | onCurrent next, f => onCurrent fun t => (next t).bind f
  | onPeek next, f => onPeek fun t => (next t).bind f
  | onPass next, f => onPass (next.bind f)
  | onEnter next, f => onEnter (next.bind f)
  | onLeave next, f => onLeave (next.bind f)
  | onCall r x next, f => onCall r x fun result => (next result).bind f

instance : Monad Program where
  pure := done
  bind := Program.bind

/-! ### Operations -/

def current : Program Token := onCurrent done

def peek : Program Token := onPeek done

def pass : Program Unit := onPass (done ())

def enter : Program Unit := onEnter (done ())

def leave : Program Unit := onLeave (done ())

def call (r : Routine) (argument : r.Argument) : Program r.Result := onCall r argument done

/-- Call the routine of a place. -/
def callPlace (place : Place) : Program Expr := call (.place place) ()

/-- Failure with a cause. -/
def refuse (cause : ExprFault) : Program α := fail (.query (.expression cause))

/-- A result that may be a fault. -/
def attempt : Except Fault α → Program α
  | .ok a => done a
  | .error fault => fail fault

/-- Pass the next token. -/
def advance : Program Token := do
  let t ← current
  pass
  return t

/-- Pass the next token, which has to be of a class. -/
def expect (kind : TokenKind) : Program Token := do
  let t ← current
  if t.kind = kind then advance
  else refuse (.expected kind.name t.offset t.shown)

/-- Pass the next token if it is of a class. -/
def accept? (kind : TokenKind) : Program Bool := do
  if (← current).kind = kind then
    let _ ← advance
    return true
  else return false

/-- Pass the next token, which has to be a given word. -/
def expectWord (word : String) : Program Unit := do
  let t ← current
  if t.isWord word then
    let _ ← advance
  else refuse (.expectedKeyword word t.offset (String.ofList t.text))

/-- Expressions between commas, up to a closing token. -/
def itemsUpTo (closer : TokenKind) : Program (List Expr) := do
  let items ← if (← current).kind = closer then pure []
    else do
      let e ← callPlace .pipe
      pure (e :: (← call .moreItems ()))
  let _ ← expect closer
  return items

/-- The key of a member, fixed or computed. -/
def key : Program (String ⊕ Expr) := do
  let t ← current
  match t.kind with
  | .word =>
      let _ ← advance
      return .inl (String.ofList t.text)
  | .string =>
      let _ ← advance
      return .inl (← attempt (quotedText t.text))
  | .leftParen =>
      let _ ← advance
      let e ← callPlace .pipe
      let _ ← expect .rightParen
      return .inr e
  | _ => refuse (.keyExpected t.offset)

/-- A member of an object constructor. -/
def entry : Program Entry := do
  let t ← current
  let k ← key
  if ← accept? .colon then
    let e ← callPlace .disjunction
    match k with
    | .inl name => return .named name e
    | .inr k => return .computed k e
  else
    match k with
    | .inl name => return .named name (.field .identity name)
    | .inr _ => refuse (.computedKeyAlone t.offset)

/-! ### What the routines do -/

/-- The token is a `not` with an operand behind it. -/
def negates (t : Token) : Program Bool := do
  if t.isWord "not" then return startsPrimary (← peek).kind
  else return false

/-- The routine of a place. -/
def ofPlace : Place → Program Expr
  | .negation => do
      let t ← current
      if ← negates t then
        let _ ← advance
        enter
        let e ← callPlace .negation
        leave
        return .not e
      else callPlace .comparison
  | .comparison => do
      let left ← callPlace .sum
      match relation? (← current).kind with
      | none => return left
      | some r =>
          let _ ← advance
          return .binary (.relation r) left (← callPlace .sum)
  | .unary => do
      if ← accept? .minus then
        enter
        let e ← callPlace .unary
        leave
        return .negate e
      else callPlace .path
  | .path => do
      let source ← call .primary ()
      call (.goOn .path) source
  | p => do
      let left ← callPlace p.next
      call (.goOn p) left

/-- Fields and indices after `source`.  A dot in front of a bracket is passed and changes
nothing. -/
def goOnPath (source : Expr) : Program Expr := do
  let t ← current
  match t.kind with
  | .field =>
      let _ ← advance
      call (.goOn .path) (.field source (String.ofList (t.text.drop 1)))
  | .dot =>
      match (← peek).kind with
      | .string =>
          let _ ← advance
          let name ← advance
          call (.goOn .path) (.field source (← attempt (quotedText name.text)))
      | .leftBracket =>
          let _ ← advance
          call (.goOn .path) source
      | _ => return source
  | .leftBracket =>
      let _ ← advance
      enter
      let index ← callPlace .pipe
      leave
      let _ ← expect .rightBracket
      call (.goOn .path) (.index source index)
  | _ => return source

/-- The repetition of a place, after `e`. -/
def goOnPlace (place : Place) (e : Expr) : Program Expr :=
  match place.joins? with
  | some join? => do
      match join? (← current) with
      | none => return e
      | some join =>
          let _ ← advance
          let right ← callPlace place.next
          call (.goOn place) (join e right)
  | none => if place = .path then goOnPath e else return e

def ofPrimary : Program Expr := do
  let t ← current
  match t.kind with
  | .number =>
      let _ ← advance
      return .literal (← attempt (numberValue t.text))
  | .string =>
      let _ ← advance
      return .literal (.string (← attempt (quotedText t.text)))
  | .field =>
      let _ ← advance
      return .field .identity (String.ofList (t.text.drop 1))
  | .dot =>
      let _ ← advance
      let t ← current
      if t.kind = .string then
        let _ ← advance
        return .field .identity (← attempt (quotedText t.text))
      else return .identity
  | .leftParen =>
      let _ ← advance
      enter
      let e ← callPlace .pipe
      leave
      let _ ← expect .rightParen
      return e
  | .leftBracket => call .array ()
  | .leftBrace => call .object ()
  | .word => call .named ()
  | _ => refuse (.unexpected t.shown t.offset)

def ofArray : Program Expr := do
  let _ ← expect .leftBracket
  enter
  let items ← itemsUpTo .rightBracket
  leave
  return .array items

def ofObject : Program Expr := do
  let _ ← expect .leftBrace
  enter
  let members ← call .entries ()
  let _ ← expect .rightBrace
  leave
  return .object members

def ofConditional : Program Expr := do
  expectWord "if"
  enter
  let condition ← callPlace .pipe
  expectWord "then"
  let result ← callPlace .pipe
  let branches ← call .branches ()
  let otherwise ← if (← current).isWord "else" then do
      let _ ← advance
      callPlace .pipe
    else pure .identity
  expectWord "end"
  leave
  return .conditional (.mk condition result :: branches) otherwise

/-- A constant, a conditional or a call; making the call itself reads no token. -/
def ofNamed : Program Expr := do
  let t ← current
  let name := String.ofList t.text
  if name = "true" then do
    let _ ← advance
    return .literal (.bool true)
  else if name = "false" then do
    let _ ← advance
    return .literal (.bool false)
  else if name = "null" then do
    let _ ← advance
    return .literal .null
  else if name = "if" then call .conditional ()
  else if keywords.contains name then refuse (.unexpectedKeyword name t.offset)
  else
    let _ ← advance
    if ← accept? .leftParen then
      enter
      let arguments ← itemsUpTo .rightParen
      leave
      attempt ((makeCall t arguments).run' [])
    else attempt ((makeCall t []).run' [])

def ofItems : Program (List Expr) := do
  if ← accept? .comma then
    let e ← callPlace .pipe
    return e :: (← call .moreItems ())
  else return []

def ofEntries : Program (List Entry) := do
  if (← current).kind = .rightBrace then return []
  else
    let e ← entry
    if ← accept? .comma then return e :: (← call .entries ())
    else return [e]

def ofBranches : Program (List Branch) := do
  if (← current).isWord "elif" then
    let _ ← advance
    let condition ← callPlace .pipe
    expectWord "then"
    let result ← callPlace .pipe
    return .mk condition result :: (← call .branches ())
  else return []

def ofWhole : Program Expr := do
  let e ← callPlace .pipe
  let _ ← expect .finish
  return e

end Program

namespace Routine

/-- The rank of a routine.  As long as it has passed no token, a routine calls routines of lower
ranks only. -/
def rank : Routine → Nat
  | whole => 13
  | place p => 15 - p.rank
  | primary => 3
  | named => 2
  | array | object | conditional => 1
  | goOn _ | moreItems | entries | branches => 0

/-- What a routine does. -/
def body : (r : Routine) → r.Argument → Program r.Result
  | whole, _ => .ofWhole
  | place p, _ => .ofPlace p
  | goOn p, e => .goOnPlace p e
  | primary, _ => .ofPrimary
  | array, _ => .ofArray
  | object, _ => .ofObject
  | conditional, _ => .ofConditional
  | named, _ => .ofNamed
  | moreItems, _ => .ofItems
  | entries, _ => .ofEntries
  | branches, _ => .ofBranches

end Routine

/-! ### Runs -/

/-- A call that has not returned, with the cursor it began at. -/
structure Call where
  routine : Routine
  start : Cursor
deriving DecidableEq

/-- The callers of a routine: each began at a cursor and waits for a result to go on with. -/
inductive Stack : Routine → Type where
  | bottom : Stack .whole
  | frame {caller callee : Routine} (start : Cursor)
      (next : callee.Result → Program caller.Result) (rest : Stack caller) : Stack callee

/-- A moment in a run. -/
inductive Config where
  /-- In a routine that began at `start`. -/
  | running {r : Routine} (start : Cursor) (program : Program r.Result) (stack : Stack r)
      (c : Cursor)
  | finished (e : Expr) (c : Cursor)
  | failed (fault : Fault) (c : Cursor)
  /-- A token was read that is not there, or a level left that had not been entered. -/
  | astray

/-- The active calls, the innermost first. -/
def Stack.calls {r : Routine} (stack : Stack r) (start : Cursor) : List Call :=
  ⟨r, start⟩ :: match stack with
    | .bottom => []
    | .frame start _ rest => rest.calls start

/-- The innermost call returns. -/
def Stack.resume : {r : Routine} → Stack r → r.Result → Cursor → Config
  | _, .bottom, e, c => .finished e c
  | _, .frame start next rest, result, c => .running start (next result) rest c

/-- The next moment. -/
def step (tokens : List Token) (limit : Nat) : Config → Config
  | .running _ (.done result) stack c => stack.resume result c
  | .running _ (.fail fault) _ c => .failed fault c
  | .running start (.onCurrent next) stack c =>
      match tokens[c.index]? with
      | some t => .running start (next t) stack c
      | none => .astray
  | .running start (.onPeek next) stack c =>
      match tokens[min (c.index + 1) (tokens.length - 1)]? with
      | some t => .running start (next t) stack c
      | none => .astray
  | .running start (.onPass next) stack c =>
      .running start next stack ⟨c.index + 1, c.nesting⟩
  | .running start (.onEnter next) stack c =>
      if limit < c.nesting + 1 then .failed (.tooDeep limit) ⟨c.index, c.nesting + 1⟩
      else .running start next stack ⟨c.index, c.nesting + 1⟩
  | .running start (.onLeave next) stack c =>
      match c.nesting with
      | 0 => .astray
      | nesting + 1 => .running start next stack ⟨c.index, nesting⟩
  | .running start (.onCall r x next) stack c =>
      .running c (r.body x) (.frame start next stack) c
  | halted => halted

/-- The configuration after `n` steps from the first token. -/
def configAfter (tokens : List Token) (limit n : Nat) : Config :=
  (step tokens limit)^[n] (.running ⟨0, 0⟩ (Routine.whole.body ()) .bottom ⟨0, 0⟩)

end Quarry.Expr
