import Quarry.Pattern.Leaf

/-!
# Read patterns — from text to trees

A pattern is a choice between sequences of parts, some of them repeated.  Letters for the mode
of the whole pattern may only stand at its very start.  The first argument of a reader bounds
the number of nested calls; `read` starts with more than the tokens can need.
-/

namespace Quarry.Pattern

variable [Names]

/-! ### Repetition -/

/-- The number that digits write. -/
def countOf (digits : List Char) : Reader Nat :=
  if 4300 < digits.length then throw (.excessive (.longCount digits.length))
  else
    let n := valueIn 10 digits
    if 4294967295 ≤ n then throw (.excessive .repetitionTooLarge) else return n

/-- The bounds between braces; without a closing brace there are none. -/
def readBounds : Reader (Option (Nat × Option Nat)) := do
  let here := (← get).tokens
  let low ← takeWhile here.length Char.isDigit
  let comma ← accept ','
  let high ← if comma then takeWhile here.length Char.isDigit else pure low
  if !(← accept '\x7d') then
    moveTo here
    return none
  else
    let least ← if low.isEmpty then pure 0 else countOf low
    if high.isEmpty then return some (least, none)
    else
      let most ← countOf high
      if most < least then refuse else return some (least, some most)

/-- The bounds of a repetition that starts with `c`. -/
def readRepetition (c : Char) : Reader (Option (Nat × Option Nat)) := do
  if c = '?' then return some (0, some 1)
  else if c = '*' then return some (0, none)
  else if c = '+' then return some (1, none)
  else if (← peek) = some (.char '\x7d') then return none
  else readBounds

/-- The order in which the numbers of repetitions are tried. -/
def readGreed : Reader Greed := do
  if ← accept '?' then return .lazy
  else if ← accept '+' then return .possessive
  else return .greedy

/-! ### Modes -/

/-- The letters for modes. -/
def isModeLetter (c : Char) : Bool :=
  "iLmsxatu".toList.contains c

/-- The letters after a question mark: for the whole pattern, or to turn modes on and off in a
part. -/
inductive ModeLetters where
  | whole (on : List Char)
  | part (on off : List Char)

/-- The alphabets are asked for in a way that is possible. -/
def alphabetsAgree (letters : List Char) : Bool :=
  !letters.contains 'L' && !(letters.contains 'a' && letters.contains 'u')

/-- The letters for modes, the first of which is still to come. -/
def readModeLetters : Reader ModeLetters := do
  let size := (← get).tokens.length
  let on ← takeWhile size isModeLetter
  if !alphabetsAgree on then refuse
  else if !on.isEmpty && (← accept ')') then return .whole on
  else if on.contains 't' then refuse
  else if !on.isEmpty && (← accept ':') then return .part on []
  else
    expect '-'
    let off ← takeWhile size isModeLetter
    expect ':'
    if off.isEmpty || off.any ("Lautu".toList.contains ·) || off.any on.contains then refuse
    else return .part on off

/-- The mode with some letters turned on and some turned off. -/
def Mode.change (mode : Mode) (on off : List Char) : Mode :=
  let choose := fun letter now => (now || on.contains letter) && !off.contains letter
  { ignoreCase := choose 'i' mode.ignoreCase
    multiline := choose 'm' mode.multiline
    dotAll := choose 's' mode.dotAll
    verbose := choose 'x' mode.verbose
    ascii := if on.contains 'a' then true else if on.contains 'u' then false else mode.ascii }

/-- The mode of the whole pattern with some letters turned on. -/
def changeWhole (on : List Char) : Reader Mode := do
  let r ← get
  let mode := r.mode.change on []
  set { r with
    mode := { mode with ascii := r.mode.ascii || on.contains 'a' }
    large := r.large || on.contains 'u'
    template := r.template || on.contains 't' }
  return mode

/-! ### Sequences and alternatives -/

/-- A part of a sequence: a node, or a group without a number, which counts as one part until
the sequence is complete. -/
inductive Part where
  | node (n : Node)
  | bundle (nodes : List Node)

/-- The nodes of a part. -/
def Part.nodes : Part → List Node
  | node n => [n]
  | bundle ns => ns

/-- The parts of a sequence in the place of the last one repeated.  Nothing, a position and a
repetition cannot be repeated. -/
def repeatLast (greed : Greed) (least : Nat) (most : Option Nat) : List Part → Reader (List Part)
  | [] => refuse
  | .node (.anchor _ _) :: _ => refuse
  | .node (.loop _ _ _ _) :: _ => refuse
  | p :: ps => return .node (.loop greed least most (.ofList p.nodes)) :: ps

/-- Two nodes are the same leaf. -/
def sameLeaf : Node → Node → Bool
  | .unit m t, .unit m' t' => m = m' && t = t'
  | .anchor m a, .anchor m' a' => m = m' && a = a'
  | .again m i _, .again m' i' _ => m = m' && i = i'
  | _, _ => false

/-- The leaves with which a sequence and all others start, and what is left of each. -/
def commonStart : List Node → List (List Node) → List Node × List Node × List (List Node)
  | [], others => ([], [], others)
  | n :: ns, others =>
      if others.all fun o => o.head?.any (sameLeaf n) then
        let (start, rest, rests) := commonStart ns (others.map List.tail)
        (n :: start, rest, rests)
      else ([], n :: ns, others)

/-- The mode and the items of a sequence that is a single character or set. -/
def setOf? : List Node → Option (Mode × List SetItem)
  | [.unit mode (.point false c)] => some (mode, [.point c])
  | [.unit mode (.set false items)] => some (mode, items)
  | _ => none

/-- The set of alternatives that are single characters or sets. -/
def mergedSet? (alternatives : List (List Node)) : Option Node := do
  let sets ← alternatives.mapM setOf?
  let (mode, _) ← sets.head?
  return .unit mode (.set false (withoutRepeats (sets.flatMap Prod.snd)))

/-- The sequence that is a choice between sequences: what they start with in common, and then
a set or a choice between what is left. -/
def alternativesOf : List (List Node) → List Node
  | [] => []
  | [one] => one
  | first :: others =>
      let (start, rest, rests) := commonStart first others
      let choice := match mergedSet? (rest :: rests) with
        | some set => set
        | none => .ofAlternatives ((rest :: rests).map Node.ofList)
      start ++ [choice]

/-- The number in a condition: digits of any script, with a plus sign and blanks around them and
single underscores between them. -/
def groupNumber? (name : List Char) : Option Nat :=
  let digits := match Text.trim name with
    | '+' :: s => s
    | s => s
  let plain := digits.filter (· ≠ '_')
  let separated := digits.head? ≠ some '_' && digits.getLast? ≠ some '_'
    && (digits.zip digits.tail).all fun (a, b) => !(a = '_' && b = '_')
  if separated && Text.isNumeral plain && plain.length ≤ 4300 then
    let n := Text.naturalOf plain
    if n = 0 || 1073741823 ≤ n then none else some n
  else none

/-- The group that a condition refers to, by name or by number; a number may be that of a group
still to come. -/
def readCondition : Reader Nat := do
  let name ← takeUntil ')'
  let index ←
    if Text.isIdentifier name then
      match (← get).names.lookup (String.ofList name) with
      | some index => pure index
      | none => refuse
    else
      match groupNumber? name with
      | some index => do
          modify fun r => { r with cited := index :: r.cited }
          pure index
      | none => refuse
  checkBarrier index
  return index

/-- The parts after those that a character other than an opening bracket makes or changes. -/
def readPlain (mode : Mode) (c : Char) (parts : List Part) : Reader (List Part) := do
  let one := fun test => Part.node (.unit mode test) :: parts
  if mode.verbose && " \t\n\r\x0b\x0c".toList.contains c then return parts
  else if mode.verbose && c = '#' then
    skipRemark
    return parts
  else if c = '[' then return .node (← readSet mode) :: parts
  else if "*+?\x7b".toList.contains c then
    match ← readRepetition c with
    | none => return one (.point false c.toNat)
    | some (least, most) => repeatLast (← readGreed) least most parts
  else if c = '.' then return one .any
  else if c = '^' then return .node (.anchor mode .start) :: parts
  else if c = '$' then return .node (.anchor mode .finish) :: parts
  else return one (.point false c.toNat)

/-- What an opening bracket makes: a part, nothing, or a mode for all that follows. -/
inductive Opened where
  | part (p : Part)
  | nothing
  | mode (m : Mode)

mutual

/-- Alternatives, up to a closing bracket or the end. -/
def readAlternatives : Nat → Mode → Bool → Bool → Reader (List (List Node))
  | 0, _, _, _ => refuse
  | fuel + 1, mode, whole, first => do
      let now := (← get).mode
      let mode := if whole then now else mode
      let one ← readSequence fuel mode (whole && first) []
      if ← accept '|' then
        return one :: (← readAlternatives fuel mode whole false)
      else return [one]

/-- A sequence, up to a bar, a closing bracket or the end; `parts` are the parts so far,
backwards. -/
def readSequence : Nat → Mode → Bool → List Part → Reader (List Node)
  | 0, _, _, _ => refuse
  | fuel + 1, mode, first, parts => do
      match ← peek with
      | none => return parts.reverse.flatMap Part.nodes
      | some t =>
          if t = .char '|' || t = .char ')' then return parts.reverse.flatMap Part.nodes
          else
            let _ ← take
            match t with
            | .dangling => refuse
            | .escape c => do
                readSequence fuel mode first (.node (← readEscape mode c) :: parts)
            | .char c =>
                if c = '(' then do
                  match ← readBracket fuel mode with
                  | .part p => readSequence fuel mode first (p :: parts)
                  | .nothing => readSequence fuel mode first parts
                  | .mode m =>
                      if first && parts.isEmpty then readSequence fuel m first parts else refuse
                else do readSequence fuel mode first (← readPlain mode c parts)

/-- What stands after an opening bracket, up to the closing one. -/
def readBracket : Nat → Mode → Reader Opened
  | 0, _ => refuse
  | fuel + 1, mode => do
      if !(← accept '?') then readGroup fuel mode none
      else if ← accept 'P' then
        if ← accept '<' then readGroup fuel mode (some (← readName '>'))
        else if ← accept '=' then
          match (← get).names.lookup (← readName ')') with
          | some index => return .part (.node (← readAgain mode index))
          | none => refuse
        else refuse
      else if ← accept ':' then return .part (.bundle (← readInside fuel mode))
      else if ← accept '#' then
        let _ ← takeUntil ')'
        return .nothing
      else if ← accept '=' then
        return .part (.node (.ahead false (.ofList (← readInside fuel mode))))
      else if ← accept '!' then
        return .part (.node (.ahead true (.ofList (← readInside fuel mode))))
      else if ← accept '<' then
        if ← accept '=' then readBehind fuel mode false
        else if ← accept '!' then readBehind fuel mode true
        else refuse
      else if ← accept '(' then
        let index ← readCondition
        let yes ← readSequence fuel mode false []
        let no ← if ← accept '|' then readSequence fuel mode false [] else pure []
        expect ')'
        return .part (.node (.conditional index (.ofList yes) (.ofList no)))
      else if ← accept '>' then
        return .part (.node (.atomic (.ofList (← readInside fuel mode))))
      else
        match ← readModeLetters with
        | .whole on => return .mode (← changeWhole on)
        | .part on off => do
            let inside ← readInside fuel (mode.change on off)
            return .part (.node (.scope (.ofList inside)))

/-- Alternatives and the closing bracket. -/
def readInside : Nat → Mode → Reader (List Node)
  | 0, _ => refuse
  | fuel + 1, mode => do
      let inside ← readAlternatives fuel mode false false
      expect ')'
      return alternativesOf inside

/-- A group with a number, perhaps with a name. -/
def readGroup : Nat → Mode → Option String → Reader Opened
  | 0, _, _ => refuse
  | fuel + 1, mode, name => do
      let index ← openGroup name
      let body := Node.ofList (← readInside fuel mode)
      closeGroup index body.width
      return .part (.node (.group index body))

/-- A part that looks behind. -/
def readBehind : Nat → Mode → Bool → Reader Opened
  | 0, _, _ => refuse
  | fuel + 1, mode, negated => do
      let outside := (← get).barrier
      modify fun r => { r with barrier := some (outside.getD r.next) }
      let body := Node.ofList (← readInside fuel mode)
      modify fun r => { r with barrier := outside }
      return .part (.node (.behind negated body.width.least body))

end

/-- The tree of a pattern that fills the tokens. -/
def readWhole (mode : Mode) : Reader Node := do
  let start := (← get).tokens
  moveTo start
  let alternatives ← readAlternatives (8 * start.length + 8) mode true true
  let node := Node.ofList (alternativesOf alternatives)
  let r ← get
  if r.mode.ascii && r.large then throw (.excessive .mixedAlphabets)
  else if !r.tokens.isEmpty || r.cited.any (r.next ≤ ·) || !node.looksFixed
      || (r.template && node.hasLoop) then refuse
  else return node

/-- The tree that a text writes in a mode. -/
def read (mode : Mode) (text : List Char) : Except Refusal Node := do
  let (node, _) ← (readWhole mode).run { tokens := tokens text, mode }
  return node

end Quarry.Pattern
