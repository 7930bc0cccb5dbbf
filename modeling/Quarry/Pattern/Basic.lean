import Quarry.Pattern.Caseless
import Quarry.Text.Class
import Quarry.Text.Letter

/-!
# Patterns — regular expressions over texts

A pattern is a tree.  Its leaves test a single character or a position, or compare with what a
group has matched before; each leaf carries the mode in which it was read.  `Node.width` bounds
the number of characters that a node can match: what looks behind has to have a single width.
-/

namespace Quarry.Pattern

/-- How a part of a pattern is read and compared. -/
structure Mode where
  ignoreCase : Bool := false
  multiline : Bool := false
  dotAll : Bool := false
  verbose : Bool := false
  ascii : Bool := false
deriving DecidableEq

/-- The classes of characters that have a letter of their own. -/
inductive CharClass where
  | digit | space | word
deriving DecidableEq

/-- A part of a set of characters. -/
inductive SetItem where
  | point (c : Nat)
  | range (first last : Nat)
  | kind (k : CharClass) (negated : Bool)
deriving DecidableEq

/-- A test of a single character. -/
inductive Test where
  | any
  | point (negated : Bool) (c : Nat)
  | set (negated : Bool) (items : List SetItem)
deriving DecidableEq

/-- A test of a position. -/
inductive Anchor where
  | start | finish | textStart | textFinish | wordEdge | noWordEdge
deriving DecidableEq

/-- The order in which numbers of repetitions are tried. -/
inductive Greed where
  | greedy | lazy | possessive
deriving DecidableEq

/-- The least and the greatest number of characters that can match. -/
structure Width where
  least : Nat
  most : Option Nat
deriving DecidableEq

/-- A part of a pattern. -/
inductive Node where
  | empty
  | unit (mode : Mode) (test : Test)
  | anchor (mode : Mode) (a : Anchor)
  | seq (first second : Node)
  | choice (first second : Node)
  /-- A part whose match is remembered under a number. -/
  | group (index : Nat) (body : Node)
  /-- A part with a mode of its own. -/
  | scope (body : Node)
  | loop (greed : Greed) (least : Nat) (most : Option Nat) (body : Node)
  /-- What a group matched, again; the width is that of the group. -/
  | again (mode : Mode) (index : Nat) (width : Width)
  | ahead (negated : Bool) (body : Node)
  /-- A part that has to match, or not to match, right before, with its width. -/
  | behind (negated : Bool) (width : Nat) (body : Node)
  /-- A choice that depends on whether a group has matched. -/
  | conditional (index : Nat) (yes no : Node)
  /-- A part whose first match counts. -/
  | atomic (body : Node)

/-! ### Widths -/

namespace Width

def add (a b : Width) : Width :=
  ⟨a.least + b.least, do return (← a.most) + (← b.most)⟩

def either (a b : Width) : Width :=
  ⟨min a.least b.least, do return max (← a.most) (← b.most)⟩

/-- The width of at least `least` and at most `most` repetitions. -/
def times (least : Nat) (most : Option Nat) (a : Width) : Width :=
  ⟨least * a.least,
    match most, a.most with
    | some 0, _ => some 0
    | _, some 0 => some 0
    | some n, some m => some (n * m)
    | _, _ => none⟩

/-- All matches have one width, which is not too large. -/
def isFixed (a : Width) : Bool :=
  a.least ≤ 4294967295 && a.most = some a.least

end Width

namespace Node

/-- Nodes one after another. -/
def ofList : List Node → Node
  | [] => empty
  | [n] => n
  | n :: ns => seq n (ofList ns)

/-- Nodes as alternatives. -/
def ofAlternatives : List Node → Node
  | [] => empty
  | [n] => n
  | n :: ns => choice n (ofAlternatives ns)

/-- Bounds for the number of characters that a node matches. -/
def width : Node → Width
  | empty | anchor _ _ | ahead _ _ | behind _ _ _ => ⟨0, some 0⟩
  | unit _ _ => ⟨1, some 1⟩
  | seq a b => a.width.add b.width
  | choice a b => a.width.either b.width
  | group _ b | scope b | atomic b => b.width
  | loop _ least most b => b.width.times least most
  | again _ _ w => w
  | conditional _ a b => a.width.either b.width

/-- Everything that looks behind has a fixed width. -/
def looksFixed : Node → Bool
  | empty | unit _ _ | anchor _ _ | again _ _ _ => true
  | seq a b | choice a b | conditional _ a b => a.looksFixed && b.looksFixed
  | group _ b | scope b | atomic b | loop _ _ _ b | ahead _ b => b.looksFixed
  | behind _ _ b => b.width.isFixed && b.looksFixed

/-- Some part is repeated. -/
def hasLoop : Node → Bool
  | empty | unit _ _ | anchor _ _ | again _ _ _ => false
  | seq a b | choice a b | conditional _ a b => a.hasLoop || b.hasLoop
  | group _ b | scope b | atomic b | ahead _ b | behind _ _ b => b.hasLoop
  | loop _ _ _ _ => true

end Node

/-! ### Testing characters -/

/-- The partner of a code point that comparison without case goes by. -/
def Mode.lowered (mode : Mode) (c : Nat) : Nat :=
  if mode.ascii then if 65 ≤ c && c ≤ 90 then c + 32 else c
  else lowerPoint c

/-- A code point has case in a mode. -/
def Mode.cased (mode : Mode) (c : Nat) : Bool :=
  if mode.ascii then (65 ≤ c && c ≤ 90) || (97 ≤ c && c ≤ 122) else hasCase c

/-- The code points that are alike one in lower case, itself included. -/
def Mode.alike (mode : Mode) (c : Nat) : List Nat :=
  if mode.ascii then [c] else c :: kin c

namespace CharClass

/-- Membership in a class. -/
def has (k : CharClass) (ascii : Bool) (c : Nat) : Bool :=
  let char := Char.ofNat c
  match k with
  | digit => if ascii then 48 ≤ c && c ≤ 57 else Text.isDigit char
  | space => if ascii then c = 32 || (9 ≤ c && c ≤ 13) else Text.isBlank char
  | word => if ascii then char.isAlphanum || c = 95 else Text.isWordPart char

end CharClass

namespace SetItem

/-- Membership with regard to case. -/
def has (mode : Mode) (c : Nat) : SetItem → Bool
  | point p => c = p
  | range first last => first ≤ c && c ≤ last
  | kind k negated => k.has mode.ascii c != negated

/-- The part has a character with case, or reaches beyond the first plane. -/
def isCased (mode : Mode) : SetItem → Bool
  | point p => mode.cased p || 65536 ≤ mode.lowered p
  | range first last =>
      65536 ≤ last
        || (if mode.ascii then (first ≤ 90 && 65 ≤ last) || (first ≤ 122 && 97 ≤ last)
            else spanHasCase first last)
  | kind _ _ => false

/-- The code points that a mode takes to `c` in lower case. -/
def sources (mode : Mode) (c : Nat) : List Nat :=
  if mode.ascii then
    if 97 ≤ c && c ≤ 122 then [c, c - 32] else if 65 ≤ c && c ≤ 90 then [] else [c]
  else lowerSources c

/-- Membership of a lower-case code point without regard to case.  In the first plane the part
counts in lower case, with what is alike; beyond it, the part counts as it is written, and a
range also takes what it has in upper case. -/
def hasLowered (mode : Mode) (c : Nat) : SetItem → Bool
  | point p =>
      let low := mode.lowered p
      if low < 65536 then (mode.alike low).contains c else c = p
  | range first last =>
      let below := fun i => first ≤ i && i ≤ last && i < 65536
      (mode.alike c).any (fun d => (sources mode d).any below)
        || (65536 ≤ last
            && ((first ≤ c && c ≤ last) || (first ≤ upperPoint c && upperPoint c ≤ last)))
  | kind k negated => k.has mode.ascii c != negated

end SetItem

namespace Test

/-- A single character passes. -/
def accepts (mode : Mode) (c : Nat) : Test → Bool
  | any => mode.dotAll || c ≠ 10
  | point negated p =>
      let same :=
        if mode.ignoreCase && mode.cased p then
          (mode.alike (mode.lowered p)).contains (mode.lowered c)
        else c = p
      same != negated
  | set negated items =>
      let member :=
        if mode.ignoreCase && items.any (SetItem.isCased mode) then
          items.any (SetItem.hasLowered mode (mode.lowered c))
        else items.any (SetItem.has mode c)
      member != negated

end Test

end Quarry.Pattern
