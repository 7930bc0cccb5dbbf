import Quarry.Pattern.Basic

/-!
# Search — where a pattern matches

A node is run at a place with a continuation for what follows it; the first way in which both
succeed counts.  A place is a position together with what the groups have matched so far.  A
repetition ends when a round leaves the position where it was, so each loop makes no more rounds
than it is required to make, and one for each character that is left.
-/

namespace Quarry.Pattern

/-- A position in a text, with where each group last started and stopped. -/
structure Place where
  position : Nat
  starts : List (Nat × Nat) := []
  stops : List (Nat × Nat) := []
deriving DecidableEq

namespace Place

def advance (p : Place) : Place :=
  { p with position := p.position + 1 }

def jump (p : Place) (position : Nat) : Place :=
  { p with position }

/-- The group starts here. -/
def start (index : Nat) (p : Place) : Place :=
  { p with starts := (index, p.position) :: p.starts }

/-- The group stops here. -/
def stop (index : Nat) (p : Place) : Place :=
  { p with stops := (index, p.position) :: p.stops }

/-- Where the group matched, if it did. -/
def span? (index : Nat) (p : Place) : Option (Nat × Nat) := do
  let first ← p.starts.lookup index
  let last ← p.stops.lookup index
  guard (first ≤ last)
  return (first, last)

end Place

/-- What is to be done at a place: it may fail, or end somewhere. -/
abbrev Action := Place → Option Place

/-- A node that is run with what follows it. -/
abbrev Runner := Place → Action → Option Place

/-! ### Positions -/

/-- The character at a position belongs to a word. -/
def isWordAt (mode : Mode) (text : Array Char) (position : Nat) : Bool :=
  match text[position]? with
  | some c => CharClass.word.has mode.ascii c.toNat
  | none => false

/-- The character before a position belongs to a word. -/
def isWordBefore (mode : Mode) (text : Array Char) (position : Nat) : Bool :=
  position ≠ 0 && isWordAt mode text (position - 1)

/-- The character before a position is a line break. -/
def followsBreak (text : Array Char) (position : Nat) : Bool :=
  position ≠ 0 && text[position - 1]? = some '\n'

/-- A position passes.  A text without characters has no edges of words, nor places without. -/
def Anchor.holds (mode : Mode) (text : Array Char) (position : Nat) : Anchor → Bool
  | start => position = 0 || (mode.multiline && followsBreak text position)
  | finish =>
      position = text.size
        || (text[position]? = some '\n' && (mode.multiline || position + 1 = text.size))
  | textStart => position = 0
  | textFinish => position = text.size
  | wordEdge =>
      !text.isEmpty && isWordBefore mode text position != isWordAt mode text position
  | noWordEdge =>
      !text.isEmpty && isWordBefore mode text position == isWordAt mode text position

/-- The length of a stretch of a text if it stands at a position too. -/
def repeatedLength? (mode : Mode) (text : Array Char) (span : Nat × Nat) (position : Nat) :
    Option Nat :=
  let form := fun c : Char => if mode.ignoreCase then mode.lowered c.toNat else c.toNat
  let part := (text.extract span.1 span.2).map form
  let here := (text.extract position (position + part.size)).map form
  if part = here then some part.size else none

/-! ### Loops -/

/-- More rounds first; `rounds` are made, and `last` is where the last round began that was not
required. -/
def greedyLoop (body : Runner) (least : Nat) (most : Option Nat) :
    Nat → Nat → Option Nat → Runner
  | 0, _, _, p, next => next p
  | fuel + 1, rounds, last, p, next =>
      if rounds < least then
        body p fun q => greedyLoop body least most fuel (rounds + 1) last q next
      else
        let more :=
          if most.all (rounds < ·) && last ≠ some p.position then
            body p fun q =>
              greedyLoop body least most fuel (rounds + 1) (some p.position) q next
          else none
        match more with
        | some q => some q
        | none => next p

/-- What follows first. -/
def lazyLoop (body : Runner) (least : Nat) (most : Option Nat) :
    Nat → Nat → Option Nat → Runner
  | 0, _, _, p, next => next p
  | fuel + 1, rounds, last, p, next =>
      if rounds < least then
        body p fun q => lazyLoop body least most fuel (rounds + 1) last q next
      else
        match next p with
        | some q => some q
        | none =>
            if most.all (rounds < ·) && last ≠ some p.position then
              body p fun q =>
                lazyLoop body least most fuel (rounds + 1) (some p.position) q next
            else none

/-- Each round once and for all; where the last round ends. -/
def possessiveLoop (body : Runner) (least : Nat) (most : Option Nat) :
    Nat → Nat → Option Nat → Action
  | 0, _, _, p => some p
  | fuel + 1, rounds, last, p =>
      if rounds < least then
        match body p some with
        | some q => possessiveLoop body least most fuel (rounds + 1) last q
        | none => none
      else if most.all (rounds < ·) && last ≠ some p.position then
        match body p some with
        | some q => possessiveLoop body least most fuel (rounds + 1) (some p.position) q
        | none => some p
      else some p

/-- The rounds of a body that a loop asks for. -/
def runLoop (greed : Greed) (least : Nat) (most : Option Nat) (size : Nat) (body : Runner) :
    Runner := fun p next =>
  let fuel := least + (size - p.position) + 2
  match greed with
  | .greedy => greedyLoop body least most fuel 0 none p next
  | .lazy => lazyLoop body least most fuel 0 none p next
  | .possessive => (possessiveLoop body least most fuel 0 none p).bind next

/-! ### Nodes -/

/-- The first way in which a node and what follows it succeed. -/
def Node.run (text : Array Char) : Node → Runner
  | empty, p, next => next p
  | unit mode test, p, next =>
      match text[p.position]? with
      | some c => if test.accepts mode c.toNat then next p.advance else none
      | none => none
  | anchor mode a, p, next => if a.holds mode text p.position then next p else none
  | seq a b, p, next => a.run text p fun q => b.run text q next
  | choice a b, p, next =>
      match a.run text p next with
      | some q => some q
      | none => b.run text p next
  | group index body, p, next => body.run text (p.start index) fun q => next (q.stop index)
  | scope body, p, next => body.run text p next
  | loop greed least most body, p, next =>
      runLoop greed least most text.size (body.run text) p next
  | again mode index _, p, next =>
      match (p.span? index).bind (repeatedLength? mode text · p.position) with
      | some length => next (p.jump (p.position + length))
      | none => none
  | ahead negated body, p, next =>
      match body.run text p some, negated with
      | some q, false => next (q.jump p.position)
      | none, true => next p
      | _, _ => none
  | behind negated width body, p, next =>
      let found :=
        if width ≤ p.position then body.run text (p.jump (p.position - width)) some else none
      match found, negated with
      | some q, false => next (q.jump p.position)
      | none, true => next p
      | _, _ => none
  | conditional index yes no, p, next =>
      if (p.span? index).isSome then yes.run text p next else no.run text p next
  | atomic body, p, next => (body.run text p some).bind next

/-- The pattern matches somewhere in a text. -/
def occursIn (pattern : Node) (text : List Char) : Bool :=
  (List.range (text.length + 1)).any fun start =>
    (pattern.run text.toArray ⟨start, [], []⟩ some).isSome

end Quarry.Pattern
