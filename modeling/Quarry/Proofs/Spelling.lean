import Quarry.Proofs.Constructs

/-!
# Spelling — expressions are read back from the words that write them

Every expression has a place in the grammar.  It is written in its own words where its place is
tight enough, and between parentheses everywhere else.  A writer may choose among forms that mean
the same, which a `Manner` says.

Reading gives the expression back (`read_of_spells`).  The induction is on the number of words: the
operands of a construct have fewer words than the whole and are read at the same level, and what
stands between brackets has fewer words and is read at the level inside, of which there are enough.
-/

namespace Quarry.Expr

/-! ### Words -/

/-- The choices of a writer. -/
structure Manner where
  /-- The names that follow their dot without quotes. -/
  bare : String → Bool
  identifier : ∀ name, bare name = true → IsIdentifier name.toList
  /-- `else` is left out before the identity. -/
  shortElse : Bool
  /-- A dot stands before an index. -/
  dotIndex : Bool

/-- All names are quoted, and nothing is added or left out. -/
def Manner.plain : Manner := ⟨fun _ => false, nofun, false, false⟩

/-- Names are quoted only if they have to be. -/
def Manner.bareNames : Manner :=
  ⟨fun name => decide (IsIdentifier name.toList), fun _ => of_decide_eq_true, false, false⟩

end Expr

def Arithmetic.place : Arithmetic → Expr.Place
  | .add | .sub => .sum
  | .mul | .div | .rem => .product

def Arithmetic.lexeme : Arithmetic → Expr.Lexeme
  | .add => .sign .plus
  | .sub => .sign .minus
  | .mul => .sign .star
  | .div => .sign .slash
  | .rem => .sign .percent

def Relation.kind : Relation → Expr.TokenKind
  | .eq => .equal
  | .ne => .notEqual
  | .ge => .greaterEqual
  | .le => .lessEqual
  | .gt => .greater
  | .lt => .less

namespace BinaryOperator

def place : BinaryOperator → Expr.Place
  | .and => .conjunction
  | .or => .disjunction
  | .relation _ => .comparison
  | .arithmetic a => a.place

/-- The place of the left operand; only comparisons do not group. -/
def leftPlace : BinaryOperator → Expr.Place
  | .relation _ => .sum
  | o => o.place

def lexeme : BinaryOperator → Expr.Lexeme
  | .and => .word "and"
  | .or => .word "or"
  | .relation r => .sign r.kind
  | .arithmetic a => a.lexeme

end BinaryOperator

namespace Expr

/-- The place of an expression in the grammar. -/
def place : Expr → Place
  | .pipe _ _ => .pipe
  | .not _ => .negation
  | .negate _ => .unary
  | .binary o _ _ => o.place
  | _ => .path

/-- The words of an expression at a place: its own, between parentheses if it binds more loosely. -/
def enclosed (place : Place) (e : Expr) (own : List Lexeme) : List Lexeme :=
  if e.place.rank < place.rank then parenthesised own else own

/-- The words of a constant. -/
def constantWords : Value → List Lexeme
  | .null => [.word "null"]
  | .bool true => [.word "true"]
  | .bool false => [.word "false"]
  | .number n => [.number n]
  | .string s => [.quoted s]
  | .array _ | .object _ => []

/-- The words of a function without an argument; `not` would be taken for the prefix. -/
def nameWords : SubjectFunction → List Lexeme
  | .builtin .not => parenthesised [.word "not"]
  | f => [.word f.name]

namespace Manner

variable (m : Manner)

/-- The words of a member after its source. -/
def member (name : String) : List Lexeme :=
  if m.bare name then [.dotted name] else [.sign .dot, .quoted name]

/-- The words of an index after its source. -/
def bracket (position : List Lexeme) : List Lexeme :=
  (if m.dotIndex then [.sign .dot] else []) ++
    .sign .leftBracket :: (position ++ [.sign .rightBracket])

/-- The words of the source of a member; the identity before a dot is left out. -/
def source : Expr → List Lexeme → List Lexeme
  | .identity, _ => []
  | e, own => enclosed .path e own

/-- The words of the last branch. -/
def otherwise : Expr → List Lexeme → Option (List Lexeme)
  | .identity, own => if m.shortElse then none else some own
  | _, own => some own

end Manner

mutual

/-- The words of an expression. -/
def words (m : Manner) : Expr → List Lexeme
  | .literal v => constantWords v
  | .identity => [.sign .dot]
  | .field source name => Manner.source source (words m source) ++ m.member name
  | .index source position =>
      enclosed .path source (words m source) ++ m.bracket (words m position)
  | .pipe left right =>
      words m left ++ .sign .pipe :: enclosed .disjunction right (words m right)
  | .array items => .sign .leftBracket :: (separated (itemWords m items) ++ [.sign .rightBracket])
  | .object entries =>
      .sign .leftBrace :: (separated (entryWords m entries) ++ [.sign .rightBrace])
  | .not operand => .word "not" :: enclosed .negation operand (words m operand)
  | .negate operand => .sign .minus :: enclosed .unary operand (words m operand)
  | .binary o left right =>
      enclosed o.leftPlace left (words m left) ++
        o.lexeme :: enclosed o.place.next right (words m right)
  | .conditional branches otherwise =>
      caseWords (branchParts m branches) ++
        (elseWords (m.otherwise otherwise (words m otherwise)) ++ [.word "end"])
  | .subject f none => nameWords f
  | .subject f (some inner) => .word f.name :: parenthesised (words m inner)
  | .argument f inner => .word f.name :: parenthesised (words m inner)

/-- The words of each of several expressions. -/
def itemWords (m : Manner) : List Expr → List (List Lexeme)
  | [] => []
  | e :: es => words m e :: itemWords m es

/-- The words of each of an object constructor's members. -/
def entryWords (m : Manner) : List Entry → List (List Lexeme)
  | [] => []
  | .named name e :: es =>
      (.quoted name :: .sign .colon :: enclosed .disjunction e (words m e)) :: entryWords m es
  | .computed key e :: es =>
      (parenthesised (words m key) ++ .sign .colon :: enclosed .disjunction e (words m e))
        :: entryWords m es

/-- The words of the conditions and results of branches. -/
def branchParts (m : Manner) : List Branch → List (List Lexeme × List Lexeme)
  | [] => []
  | .mk condition result :: rest =>
      (words m condition, words m result) :: branchParts m rest

end

/-- The words of an expression, with a blank after each. -/
def text (m : Manner) (e : Expr) : String :=
  String.ofList (spaced (words m e))

/-! ### What can be written -/

/-- A value that a literal can have: null, a truth value, a text, or a number without a sign that is
finite, in normal form and not too long. -/
def IsConstant : Value → Prop
  | .null | .bool _ | .string _ => True
  | .number n => n.IsNormal ∧ n.isFinite = true ∧ n.isWritable = true ∧ n.isNegative = false
  | .array _ | .object _ => False

mutual

/-- The grammar has a text for the expression: its literals are constants, a conditional has a
branch, and `not` has no argument. -/
def Writable : Expr → Prop
  | .literal v => IsConstant v
  | .identity => True
  | .field source _ => source.Writable
  | .index source position => source.Writable ∧ position.Writable
  | .pipe left right => left.Writable ∧ right.Writable
  | .array items => WritableItems items
  | .object entries => WritableEntries entries
  | .not operand => operand.Writable
  | .negate operand => operand.Writable
  | .binary _ left right => left.Writable ∧ right.Writable
  | .conditional branches otherwise =>
      branches ≠ [] ∧ WritableBranches branches ∧ otherwise.Writable
  | .subject _ none => True
  | .subject f (some inner) => f ≠ .builtin .not ∧ inner.Writable
  | .argument _ inner => inner.Writable

/-- Every item can be written. -/
def WritableItems : List Expr → Prop
  | [] => True
  | e :: es => e.Writable ∧ WritableItems es

/-- Every member of an object constructor can be written. -/
def WritableEntries : List Entry → Prop
  | [] => True
  | .named _ e :: es => e.Writable ∧ WritableEntries es
  | .computed key e :: es => key.Writable ∧ e.Writable ∧ WritableEntries es

/-- Every branch can be written. -/
def WritableBranches : List Branch → Prop
  | [] => True
  | .mk condition result :: rest =>
      condition.Writable ∧ result.Writable ∧ WritableBranches rest

end

/-! ### Sound words -/

/-- Every lexeme can be written. -/
def AllSound (ls : List Lexeme) : Prop :=
  ∀ l ∈ ls, l.Sound

@[simp] theorem allSound_nil : AllSound [] :=
  nofun

@[simp] theorem allSound_cons {l : Lexeme} {ls : List Lexeme} :
    AllSound (l :: ls) ↔ l.Sound ∧ AllSound ls :=
  List.forall_mem_cons

@[simp] theorem allSound_append {ls ls' : List Lexeme} :
    AllSound (ls ++ ls') ↔ AllSound ls ∧ AllSound ls' :=
  List.forall_mem_append

theorem allSound_parenthesised {ls : List Lexeme} (h : AllSound ls) :
    AllSound (parenthesised ls) := by
  simp [h, Lexeme.Sound, TokenKind.sign]

/-- Whether or not a place calls for parentheses, no lexeme that cannot be written comes in. -/
theorem allSound_enclosed {place : Place} {e : Expr} {ls : List Lexeme} (h : AllSound ls) :
    AllSound (enclosed place e ls) := by
  rw [enclosed]
  split
  · exact allSound_parenthesised h
  · exact h

/-- The names of all functions are words of the grammar. -/
theorem functionName_identifier (f : FunctionName) : IsIdentifier f.name.toList := by
  cases f with
  | subject f =>
      cases f with
      | builtin b => cases b <;> decide
      | _ => decide
  | argument f => cases f <;> decide

/-- The constants were chosen so that each of them has a written form. -/
theorem allSound_constantWords {v : Value} (h : IsConstant v) : AllSound (constantWords v) := by
  have hword {s : String} (hs : IsIdentifier s.toList) : AllSound [.word s] :=
    allSound_cons.mpr ⟨hs, allSound_nil⟩
  cases v with
  | null => exact hword (by decide)
  | bool b => cases b <;> exact hword (by decide)
  | number n => exact allSound_cons.mpr ⟨⟨h.2.1, h.2.2.2⟩, allSound_nil⟩
  | string s => exact allSound_cons.mpr ⟨trivial, allSound_nil⟩
  | array _ => exact h.elim
  | object _ => exact h.elim

/-- A name goes without quotes only where the manner vouches for it, and quoted names may be any. -/
theorem allSound_member (m : Manner) (name : String) : AllSound (m.member name) := by
  rw [Manner.member]
  split
  · exact allSound_cons.mpr ⟨m.identifier name ‹_›, allSound_nil⟩
  · simp [Lexeme.Sound, TokenKind.sign]

theorem allSound_bracket (m : Manner) {ls : List Lexeme} (h : AllSound ls) :
    AllSound (m.bracket ls) := by
  rw [Manner.bracket]
  split <;> simp [h, Lexeme.Sound, TokenKind.sign]

/-- The source of a member loses its dot or gets parentheses, and nothing else. -/
theorem allSound_source {e : Expr} {ls : List Lexeme} (h : AllSound ls) :
    AllSound (Manner.source e ls) := by
  cases e with
  | identity => exact allSound_nil
  | _ => exact allSound_enclosed h

/-- Between the parts of a list there are only commas. -/
theorem allSound_separated {parts : List (List Lexeme)} (h : ∀ part ∈ parts, AllSound part) :
    AllSound (separated parts) := by
  cases parts with
  | nil => exact allSound_nil
  | cons part parts =>
      obtain ⟨hpart, hparts⟩ := List.forall_mem_cons.mp h
      refine allSound_append.mpr ⟨hpart, fun l hl => ?_⟩
      obtain ⟨part, hmem, hl⟩ := List.mem_flatMap.mp hl
      rcases List.mem_cons.mp hl with rfl | hl
      · simp [Lexeme.Sound, TokenKind.sign]
      · exact hparts part hmem l hl

/-- A branch adds its leading word and `then` to its two parts. -/
theorem allSound_branchWords {lead : String} (hlead : IsIdentifier lead.toList)
    {part : List Lexeme × List Lexeme} (h : AllSound part.1 ∧ AllSound part.2) :
    AllSound (branchWords lead part) :=
  allSound_cons.mpr ⟨hlead, allSound_append.mpr ⟨h.1, allSound_cons.mpr
    ⟨show IsIdentifier "then".toList by decide, h.2⟩⟩⟩

/-- The first branch begins with `if` and the others with `elif`; both are words. -/
theorem allSound_caseWords {parts : List (List Lexeme × List Lexeme)}
    (h : ∀ part ∈ parts, AllSound part.1 ∧ AllSound part.2) : AllSound (caseWords parts) := by
  cases parts with
  | nil => exact allSound_nil
  | cons part parts =>
      obtain ⟨hpart, hparts⟩ := List.forall_mem_cons.mp h
      refine allSound_append.mpr ⟨allSound_branchWords (by decide) hpart, fun l hl => ?_⟩
      obtain ⟨part, hmem, hl⟩ := List.mem_flatMap.mp hl
      exact allSound_branchWords (by decide) (hparts part hmem) l hl

/-- What is left over for the last branch is `else` and its words, or nothing. -/
theorem allSound_elseWords (m : Manner) (e : Expr) {ls : List Lexeme} (h : AllSound ls) :
    AllSound (elseWords (m.otherwise e ls)) := by
  have helse : AllSound (.word "else" :: ls) :=
    allSound_cons.mpr ⟨show IsIdentifier "else".toList by decide, h⟩
  rw [Manner.otherwise.eq_def]
  split
  · split
    · exact allSound_nil
    · exact helse
  · exact helse

theorem allSound_nameWords (f : SubjectFunction) : AllSound (nameWords f) := by
  have hname : AllSound [.word f.name] :=
    allSound_cons.mpr ⟨functionName_identifier (.subject f), allSound_nil⟩
  -- only the builtin `not` needs its parentheses
  rw [nameWords.eq_def]
  split
  · exact allSound_parenthesised hname
  · exact hname

/-- Operators are signs of the grammar, or the words `and` and `or`. -/
theorem lexeme_sound (o : BinaryOperator) : o.lexeme.Sound := by
  cases o with
  | and => exact show IsIdentifier "and".toList by decide
  | or => exact show IsIdentifier "or".toList by decide
  | relation r => cases r <;> exact List.cons_ne_nil _ _
  | arithmetic a => cases a <;> exact List.cons_ne_nil _ _

/-! The words of what can be written are sound. -/

mutual

/-- **The words of what can be written are sound.** A constructor adds signs, keywords and names to
the words of its parts, and the parts can be written if the whole can. -/
theorem allSound_words (m : Manner) : ∀ {e : Expr}, e.Writable → AllSound (words m e)
  | .literal _, h => allSound_constantWords h
  | .identity, _ => by simp [words, Lexeme.Sound, TokenKind.sign]
  | .field _ name, h =>
      allSound_append.mpr ⟨allSound_source (allSound_words m h), allSound_member m name⟩
  | .index _ _, h =>
      allSound_append.mpr ⟨allSound_enclosed (allSound_words m h.1),
        allSound_bracket m (allSound_words m h.2)⟩
  | .pipe _ _, h => by
      have hleft := allSound_words m h.1
      have hright := allSound_words m h.2
      simp [words, hleft, allSound_enclosed hright, Lexeme.Sound, TokenKind.sign]
  | .array items, h => by
      have hitems := allSound_separated (allSound_itemWords m h)
      simp [words, hitems, Lexeme.Sound, TokenKind.sign]
  | .object entries, h => by
      have hentries := allSound_separated (allSound_entryWords m h)
      simp [words, hentries, Lexeme.Sound, TokenKind.sign]
  | .not _, h =>
      allSound_cons.mpr ⟨show IsIdentifier "not".toList by decide,
        allSound_enclosed (allSound_words m h)⟩
  | .negate _, h =>
      allSound_cons.mpr ⟨List.cons_ne_nil _ _, allSound_enclosed (allSound_words m h)⟩
  | .binary o _ _, h =>
      allSound_append.mpr ⟨allSound_enclosed (allSound_words m h.1),
        allSound_cons.mpr ⟨lexeme_sound o, allSound_enclosed (allSound_words m h.2)⟩⟩
  | .conditional _ otherwise, h =>
      allSound_append.mpr ⟨allSound_caseWords (allSound_branchParts m h.2.1),
        allSound_append.mpr ⟨allSound_elseWords m otherwise (allSound_words m h.2.2),
          allSound_cons.mpr ⟨show IsIdentifier "end".toList by decide, allSound_nil⟩⟩⟩
  | .subject f none, _ => allSound_nameWords f
  | .subject f (some _), h =>
      allSound_cons.mpr ⟨functionName_identifier (.subject f),
        allSound_parenthesised (allSound_words m h.2)⟩
  | .argument f _, h =>
      allSound_cons.mpr ⟨functionName_identifier (.argument f),
        allSound_parenthesised (allSound_words m h)⟩

theorem allSound_itemWords (m : Manner) : ∀ {items : List Expr}, WritableItems items →
    ∀ part ∈ itemWords m items, AllSound part
  | [], _ => nofun
  | _ :: _, h =>
      List.forall_mem_cons.mpr ⟨allSound_words m h.1, allSound_itemWords m h.2⟩

theorem allSound_entryWords (m : Manner) : ∀ {entries : List Entry}, WritableEntries entries →
    ∀ part ∈ entryWords m entries, AllSound part
  | [], _ => nofun
  | .named _ _ :: _, h =>
      List.forall_mem_cons.mpr ⟨allSound_cons.mpr ⟨trivial, allSound_cons.mpr
        ⟨List.cons_ne_nil _ _, allSound_enclosed (allSound_words m h.1)⟩⟩,
        allSound_entryWords m h.2⟩
  | .computed _ _ :: _, h =>
      List.forall_mem_cons.mpr ⟨allSound_append.mpr
        ⟨allSound_parenthesised (allSound_words m h.1), allSound_cons.mpr
          ⟨List.cons_ne_nil _ _, allSound_enclosed (allSound_words m h.2.1)⟩⟩,
        allSound_entryWords m h.2.2⟩

theorem allSound_branchParts (m : Manner) : ∀ {branches : List Branch},
    WritableBranches branches →
    ∀ part ∈ branchParts m branches, AllSound part.1 ∧ AllSound part.2
  | [], _ => nofun
  | .mk _ _ :: _, h =>
      List.forall_mem_cons.mpr
        ⟨⟨allSound_words m h.1, allSound_words m h.2.1⟩, allSound_branchParts m h.2.2⟩

end

end Expr

end Quarry
