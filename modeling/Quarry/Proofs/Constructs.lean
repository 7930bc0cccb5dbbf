import Quarry.Proofs.Grammar

/-!
# Constructs — the words of each construct settle

One lemma for each construct of the grammar: if the readers of the level inside take the words of
its parts, the reader of its place takes the words of the whole.  Operators and what comes after a
source are about places, everything else is a primary.  Lists and branches are read one after
another, by induction on the list.
-/

namespace Quarry.Expr

section Constructs

variable {enter : Except Fault Level} {inner : Level} {place : Place} {l : Lexeme}
  {ls lb : List Lexeme} {e e' : Expr}

/-! ### Operators without a loop -/

namespace Settles

/-- One comparison of sums. -/
theorem comparison {r : Relation} (hl : relation? l.kind = some r) (he : Settles enter .sum ls e)
    (he' : Settles enter .sum lb e') :
    Settles enter .comparison (ls ++ l :: lb) (.binary (.relation r) e e') := by
  refine of_reads rfl ((he.opens.mono (by decide)).append _) (he.plain.bind ?_ ?_)
  · exact Nat.lt_of_le_of_lt (Nat.le_of_eq (grip_of_relation? (t := l.token) hl)) (by decide)
  · refine Reads.current (fun t => relation? t.kind = some r) ?_ fun t ht => ?_
    · exact fun t ht => (congrArg relation? ht.1).trans hl
    · rw [ht]
      exact Reads.advance fun _ _ => he'.plain.then_pure (by decide)

/-- The prefix `not` before an operand of the level inside. -/
theorem negation (hopens : Opens .negation ls) (he : Reads 6 inner.negation ls e) :
    Settles (.ok inner) .negation (.word "not" :: ls) (.not e) := by
  refine of_reads rfl ⟨rfl, nofun, nofun⟩ ?_
  cases ls with
  | nil => exact hopens.elim
  | cons l ls =>
      refine Reads.current (fun t => t.isWord "not" = true) (fun t ht => ht.isWord _)
        fun t ht => Reads.peek ?_
      rw [ht, hopens.1, Bool.and_self, if_pos rfl]
      exact Reads.advance fun _ _ => Reads.lift rfl (he.then_pure (Nat.le_refl _))

/-- A minus before an operand of the level inside. -/
theorem negative (he : Reads 10 inner.unary ls e) :
    Settles (.ok inner) .unary (.sign .minus :: ls) (.negate e) :=
  of_reads rfl ⟨rfl, fun _ => rfl, nofun⟩
    (Reads.accept rfl (Reads.lift rfl (he.then_pure (Nat.le_refl _))))

end Settles

/-! ### Primaries -/

/-- Lexemes between parentheses. -/
abbrev parenthesised (ls : List Lexeme) : List Lexeme :=
  .sign .leftParen :: (ls ++ [.sign .rightParen])

/-- A text is read back from its quoted form. -/
theorem quotedText_quoted (s : String) : quotedText (Text.quoted s.toList) = .ok s := by
  have hdecode := Text.decode_quoted s.toList []
  rw [List.append_nil] at hdecode
  rw [quotedText.eq_def]
  simp only [Text.quoted, List.cons_append] at hdecode ⊢
  simp only [hdecode, String.ofList_toList]

namespace Reads

/-- **Primaries** bind most tightly, so any token may follow one but those that go on with it.  A
number is read as the literal that it was written for, -/
theorem number {n : Number} {v : Value} (hn : numberValue (Json.writeNumber n) = .ok v) :
    Reads 12 (readPrimary enter) [.number n] (.literal v) := by
  refine Reads.current (fun t => t.Is (.number n)) (fun t ht => ht) fun t ht => ?_
  rw [ht.1, ht.2]
  exact Reads.advance fun _ _ => Reads.lift hn .pure

/-- and a text as its literal. -/
theorem quoted (s : String) : Reads 12 (readPrimary enter) [.quoted s] (.literal (.string s)) := by
  refine Reads.current (fun t => t.Is (.quoted s)) (fun t ht => ht) fun t ht => ?_
  rw [ht.1, ht.2]
  exact Reads.advance fun _ _ => Reads.lift (quotedText_quoted s) .pure

/-- A dot alone is the identity, if no quoted name follows. -/
theorem identity : Reads 12 (readPrimary enter) [.sign .dot] .identity := by
  refine Reads.current (fun t => t.kind = .dot) (fun t ht => ht.1) fun t ht => ?_
  rw [ht]
  refine Reads.expect rfl fun _ _ => ?_
  refine Reads.current (fun t => t.kind ≠ .string) (fun t ht => ?_) fun t ht => ?_
  · exact Token.kind_ne_of_grip_lt (by decide) ht
  · rw [if_neg ht]
    exact .pure

/-- A dot with a quoted name is a field of the identity, -/
theorem dotQuoted (s : String) :
    Reads 12 (readPrimary enter) [.sign .dot, .quoted s] (.field .identity s) := by
  refine Reads.current (fun t => t.kind = .dot) (fun t ht => ht.1) fun t ht => ?_
  rw [ht]
  refine Reads.expect rfl fun _ _ => ?_
  refine Reads.current (fun t => t.Is (.quoted s)) (fun t ht => ht) fun t ht => ?_
  rw [if_pos (show t.kind = .string from ht.1), ht.2]
  exact Reads.advance fun _ _ => Reads.lift (quotedText_quoted s) .pure

/-- as is a name behind its dot. -/
theorem dotted (s : String) :
    Reads 12 (readPrimary enter) [.dotted s] (.field .identity s) := by
  refine Reads.current (fun t => t.Is (.dotted s)) (fun t ht => ht) fun t ht => ?_
  rw [ht.1, ht.2]
  have hname : String.ofList (((Lexeme.dotted s).text).drop 1) = s := String.ofList_toList
  rw [hname]
  exact Reads.advance fun _ _ => .pure

/-- Between parentheses there is a whole pipe of the level inside. -/
theorem group (he : Reads 1 inner.pipe ls e) :
    Reads 12 (readPrimary (.ok inner)) (parenthesised ls) e := by
  refine Reads.current (fun t => t.kind = .leftParen) (fun t ht => ht.1) fun t ht => ?_
  rw [ht]
  exact Reads.expect rfl fun _ _ => Reads.lift rfl (he.bind (show 0 < 1 by decide)
    (Reads.expect rfl fun _ _ => .pure))

/-- A word alone that is a constant. -/
theorem constant {s : String} {v : Value}
    (h : (s, v) ∈ [("true", .bool true), ("false", .bool false), ("null", Value.null)]) :
    Reads 12 (readPrimary enter) [.word s] (.literal v) := by
  refine Reads.current (fun t => t.kind = .word) (fun t ht => ht.1) fun t ht => ?_
  rw [ht]
  refine Reads.current (fun t => String.ofList t.text = s) (fun t ht => ?_) fun t ht => ?_
  · change String.ofList t.text = s
    rw [ht.2]
    exact String.ofList_toList
  · simp only [List.mem_cons, Prod.mk.injEq, List.not_mem_nil, or_false] at h
    rcases h with ⟨rfl, rfl⟩ | ⟨rfl, rfl⟩ | ⟨rfl, rfl⟩ <;>
      simp only [ht, String.reduceEq, ↓reduceIte]
    · exact Reads.advance fun _ _ => .pure
    · exact Reads.advance fun _ _ => .pure
    · exact Reads.advance fun _ _ => .pure

end Reads

/-! ### Calls -/

/-- The name of a function is no constant and no keyword, and names the function. -/
theorem functionName_facts (f : FunctionName) :
    f.name ∉ ["true", "false", "null", "if"] ∧ keywords.contains f.name = false ∧
      FunctionName.ofName? f.name = some f := by
  cases f with
  | subject f =>
      cases f with
      | builtin b => cases b <;> decide
      | _ => decide
  | argument f => cases f <;> decide

namespace Reads

/-- A function by its name, with the call that is made of it after the name. -/
theorem call (f : FunctionName) (h : ∀ t : Token, t.Is (.word f.name) → Reads 12 (do
      if ← accept? .leftParen then
        let inner ← enter
        makeCall t (← itemsUpTo inner.pipe .rightParen)
      else makeCall t []) ls e) : Reads 12 (readPrimary enter) (.word f.name :: ls) e := by
  obtain ⟨hconstant, hkeyword, -⟩ := functionName_facts f
  simp only [List.mem_cons, List.not_mem_nil, or_false, not_or] at hconstant
  refine Reads.current (fun t => t.kind = .word) (fun t ht => ht.1) fun t ht => ?_
  rw [ht]
  refine Reads.current (fun t => t.Is (.word f.name)) (fun t ht => ht) fun t ht => ?_
  have hname : String.ofList t.text = f.name := by
    rw [ht.2]
    exact String.ofList_toList
  simp only [hname, hconstant, hkeyword, Bool.false_eq_true, ↓reduceIte]
  exact Reads.advance fun _ _ => h t ht

/-- A function without parentheses takes the subject as it is. -/
theorem callAlone (f : SubjectFunction) :
    Reads 12 (readPrimary enter) [.word f.name] (.subject f none) := by
  refine call (.subject f) fun t ht => Reads.decline ?_ ?_
  · exact fun t ht => Token.kind_ne_of_grip_lt (by decide) ht
  · have hname : String.ofList t.text = (FunctionName.subject f).name := by
      rw [ht.2]
      exact String.ofList_toList
    rw [makeCall.eq_def]
    simp only [hname, functionName_facts]
    exact .pure

/-- The function `not` alone, if what follows it begins no operand of the prefix. -/
theorem notAlone : Reads 1 (readPipe enter) [.word "not"] (.subject (.builtin .not) none) := by
  have hpath : Reads 11 (readPath enter) [.word "not"] (.subject (.builtin .not) none) :=
    path (callAlone (.builtin .not))
  have hunary := hpath.unary fun t ht heq => nomatch heq.symm.trans ht.1
  have hproduct : Reads 9 (readProduct enter) [.word "not"] _ :=
    (hunary.mono (by decide)).joined .product rfl (by decide)
  have hsum : Reads 8 (readSum enter) [.word "not"] _ :=
    (hproduct.mono (by decide)).joined .sum rfl (by decide)
  have hnegation : Reads 1 (readNegation enter) [.word "not"] (.subject (.builtin .not) none) := by
    refine Reads.current (fun _ => True) (fun _ _ => trivial) fun t _ =>
      Reads.peek_last fun t' ht' => ?_
    rw [t'.startsPrimary_of_grip_lt ht', Bool.and_false, if_neg Bool.false_ne_true]
    exact hsum.comparison.mono (by decide)
  have hconjunction : Reads 1 (readConjunction enter) [.word "not"] _ :=
    hnegation.joined .conjunction rfl (by decide)
  have hdisjunction : Reads 1 (readDisjunction enter) [.word "not"] _ :=
    hconjunction.joined .disjunction rfl (by decide)
  exact hdisjunction.joined .pipe rfl (by decide)

end Reads

/-! ### Lists -/

/-- Lexemes with commas between them. -/
def separated : List (List Lexeme) → List Lexeme
  | [] => []
  | part :: parts => part ++ parts.flatMap (.sign .comma :: ·)

/-- The reader takes the part, which does not begin like a closing token. -/
structure ReadsPart {α : Type} (r : Reader α) (part : List Lexeme) (a : α) : Prop where
  opens : ∀ closer, startsPrimary closer = false → First 3 (·.kind ≠ closer) part
  reads : Reads 3 r part a

/-- Behind an item there is a comma or what closes the list. -/
theorem guard_parts (parts : List (List Lexeme)) :
    Guard 3 2 (parts.flatMap (.sign .comma :: ·)) := by
  cases parts with
  | nil => exact show 2 ≤ 3 by decide
  | cons part parts => exact show 2 < 3 by decide

/-- What settles as a pipe can be a part of a list: no expression begins like a closing token. -/
theorem Settles.readsPart (h : Settles enter .pipe ls e) : ReadsPart (readPipe enter) ls e := by
  refine ⟨fun closer hcloser => h.opens.first fun hl t ht heq => ?_, h.plain⟩
  rw [← heq, ht.1, hl.1] at hcloser
  cases hcloser

namespace Reads

variable {item : Reader Expr} {parts : List (List Lexeme)} {items : List Expr}

/-- Items behind commas are read one after the other; there is fuel for each since it has words. -/
theorem moreItems (h : List.Forall₂ (ReadsPart item) parts items) (fuel : Nat)
    (hfuel : (parts.flatMap (Lexeme.sign .comma :: ·)).length ≤ fuel) :
    Reads 2 (moreItems item fuel) (parts.flatMap (.sign .comma :: ·)) items := by
  induction h generalizing fuel with
  | nil =>
      cases fuel with
      | zero => exact .pure
      | succ fuel =>
          exact Reads.decline (fun t ht => Token.kind_ne_of_grip_lt (by decide) ht) .pure
  | @cons part e parts items hpart h ih =>
      rw [List.flatMap_cons, List.length_append, List.length_cons] at hfuel
      obtain ⟨fuel, rfl⟩ := Nat.exists_eq_add_one.mpr (show 0 < fuel by omega)
      rw [List.flatMap_cons, List.cons_append]
      refine Reads.accept rfl (hpart.reads.bind (guard_parts _) ?_)
      exact (ih fuel (by omega)).then_pure (Nat.le_refl _)

/-- Expressions between commas, and what closes them. -/
theorem itemsUpTo (closer : TokenKind) (h : List.Forall₂ (ReadsPart item) parts items)
    (hcloser : startsPrimary closer = false) (hgrip : closer.grip = 0) :
    Reads 12 (itemsUpTo item closer) (separated parts ++ [.sign closer]) items := by
  have hword : closer ≠ .word := by
    rintro rfl
    cases hgrip
  have hclose (items : List Expr) : Reads 12 (do let _ ← Expr.expect closer; return items)
      [.sign closer] items :=
    Reads.expect rfl fun _ _ => .pure
  have hguard : Guard 2 12 [.sign closer] := by
    have : (Lexeme.sign closer).token.grip = 0 := (Token.grip_of_kind rfl hword).trans hgrip
    rw [Guard, this]
    decide
  cases h with
  | nil =>
      refine Reads.current (fun t => t.kind = closer) (fun t ht => ht.1) fun t ht => ?_
      rw [if_pos ht]
      exact hclose []
  | @cons part e parts items hpart h =>
      refine Reads.current (fun t => t.kind ≠ closer) ?_ fun t ht => ?_
      · exact ((hpart.opens closer hcloser).append (guard_parts parts)).append hguard
      · rw [if_neg ht, separated, List.append_assoc]
        refine hpart.reads.bind ((guard_parts parts).append hguard)
          (Reads.get fun tokens htokens => ?_)
        rw [List.length_append] at htokens
        exact (moreItems h _ (by omega)).bind hguard (hclose _)

/-- An array is its items between brackets, -/
theorem array (h : List.Forall₂ (ReadsPart inner.pipe) parts items) :
    Reads 12 (readPrimary (.ok inner))
      (.sign .leftBracket :: (separated parts ++ [.sign .rightBracket])) (.array items) := by
  refine Reads.current (fun t => t.kind = .leftBracket) (fun t ht => ht.1) fun t ht => ?_
  rw [ht]
  exact Reads.expect rfl fun _ _ => Reads.lift rfl
    ((itemsUpTo _ h rfl rfl).then_pure (Nat.le_refl _))

/-- A call with one argument. -/
theorem callWith (f : FunctionName) (hls : ReadsPart inner.pipe ls e) {e' : Expr}
    (he' : ∀ t : Token, String.ofList t.text = f.name → makeCall t [e] = Pure.pure e') :
    Reads 12 (readPrimary (.ok inner))
      (.word f.name :: parenthesised ls) e' := by
  refine call f fun t ht => Reads.accept rfl (Reads.lift rfl ?_)
  have hname : String.ofList t.text = f.name := by
    rw [ht.2]
    exact String.ofList_toList
  have hitems := itemsUpTo .rightParen (.cons hls .nil) rfl rfl
  rw [separated, List.flatMap_nil, List.append_nil] at hitems
  rw [← List.append_nil (ls ++ _)]
  refine hitems.bind (Nat.le_refl _) ?_
  rw [he' t hname]
  exact .pure

/-- and a call its argument between parentheses, -/
theorem callSubject (f : SubjectFunction) (hls : ReadsPart inner.pipe ls e) :
    Reads 12 (readPrimary (.ok inner))
      (.word f.name :: parenthesised ls) (.subject f (some e)) :=
  callWith (.subject f) hls fun t ht => by
    rw [makeCall.eq_def]
    simp only [ht, functionName_facts]

/-- which the other functions must have. -/
theorem callArgument (f : ArgumentFunction) (hls : ReadsPart inner.pipe ls e) :
    Reads 12 (readPrimary (.ok inner))
      (.word f.name :: parenthesised ls) (.argument f e) :=
  callWith (.argument f) hls fun t ht => by
    rw [makeCall.eq_def]
    simp only [ht, functionName_facts]

/-! ### Objects -/

/-- A member under a fixed name. -/
theorem namedEntry (name : String) (he : Reads 4 inner.disjunction ls e) :
    ReadsPart (readEntry inner) (.quoted name :: .sign .colon :: ls) (.named name e) := by
  refine ⟨fun closer hcloser t ht heq => ?_, ?_⟩
  · rw [← heq, ht.1] at hcloser
    cases hcloser
  · have hkey : Reads 12 (readKey inner) [.quoted name] (.inl name) := by
      refine Reads.current (fun t => t.Is (.quoted name)) (fun t ht => ht) fun t ht => ?_
      rw [ht.1, ht.2]
      exact Reads.advance fun _ _ => Reads.lift (quotedText_quoted name) .pure
    refine Reads.current (fun _ => True) (fun _ _ => trivial) fun _ _ => ?_
    refine hkey.bind (show Guard 12 3 (.sign .colon :: ls) from show 0 < 12 by decide) ?_
    exact Reads.accept rfl (he.then_pure (by decide))

/-- A member under a computed name. -/
theorem computedEntry {lk : List Lexeme} {key : Expr} (hkey : Reads 3 inner.pipe lk key)
    (he : Reads 4 inner.disjunction ls e) :
    ReadsPart (readEntry inner)
      (parenthesised lk ++ .sign .colon :: ls) (.computed key e) := by
  refine ⟨fun closer hcloser t ht heq => ?_, ?_⟩
  · rw [← heq, ht.1] at hcloser
    cases hcloser
  · have hkey : Reads 12 (readKey inner) (parenthesised lk) (.inr key) := by
      refine Reads.current (fun t => t.kind = .leftParen) (fun t ht => ht.1) fun t ht => ?_
      rw [ht]
      exact Reads.advance fun _ _ => hkey.bind (show 0 < 3 by decide)
        (Reads.expect rfl fun _ _ => .pure)
    refine Reads.current (fun _ => True) (fun _ _ => trivial) fun _ _ => ?_
    refine hkey.bind (show Guard 12 3 (.sign .colon :: ls) from show 0 < 12 by decide) ?_
    exact Reads.accept rfl (he.then_pure (by decide))

/-- Members are read up to the brace.  The induction is on the members, and a member has at least
one word for the fuel. -/
theorem readEntries {parts : List (List Lexeme)} {entries : List Entry}
    (h : List.Forall₂ (ReadsPart (readEntry inner)) parts entries) (hne : parts ≠ []) (fuel : Nat)
    (hfuel : (separated parts).length ≤ fuel) :
    Reads 2 (readEntries inner fuel) (separated parts) entries := by
  induction h generalizing fuel with
  | nil => exact absurd rfl hne
  | @cons part entry parts entries hpart h ih =>
      have hpos : 0 < part.length := by
        refine List.length_pos_iff.mpr fun hnil => ?_
        have := hpart.opens .rightBrace rfl
        rw [hnil] at this
        exact this ⟨.rightBrace, [], 0⟩ (by decide) rfl
      rw [separated, List.length_append] at hfuel
      obtain ⟨fuel, rfl⟩ := Nat.exists_eq_add_one.mpr (show 0 < fuel by omega)
      refine Reads.current _ ((hpart.opens .rightBrace rfl).append (guard_parts parts))
        fun t ht => ?_
      rw [if_neg ht]
      refine hpart.reads.bind (guard_parts parts) ?_
      cases h with
      | nil => exact Reads.decline (fun t ht => Token.kind_ne_of_grip_lt (by decide) ht) .pure
      | @cons part' entry' parts entries hpart' h =>
          rw [List.flatMap_cons, List.length_append, List.length_cons] at hfuel
          refine Reads.accept rfl ((ih (List.cons_ne_nil _ _) fuel ?_).then_pure (Nat.le_refl _))
          rw [separated, List.length_append]
          omega

/-- An object is its members between braces, or the braces alone. -/
theorem object {parts : List (List Lexeme)} {entries : List Entry}
    (h : List.Forall₂ (ReadsPart (readEntry inner)) parts entries) :
    Reads 12 (readPrimary (.ok inner))
      (.sign .leftBrace :: (separated parts ++ [.sign .rightBrace])) (.object entries) := by
  refine Reads.current (fun t => t.kind = .leftBrace) (fun t ht => ht.1) fun t ht => ?_
  rw [ht]
  refine Reads.expect rfl fun _ _ => Reads.lift rfl (Reads.get fun tokens htokens => ?_)
  have hclose (entries : List Entry) : Reads 12
      (do let _ ← Expr.expect .rightBrace; return Expr.object entries) [.sign .rightBrace]
      (.object entries) :=
    Reads.expect rfl fun _ _ => .pure
  -- without members the brace is met where the first one would begin
  by_cases hne : parts = []
  · subst hne
    cases h
    obtain ⟨fuel, hfuel⟩ := Nat.exists_eq_add_one.mpr (Nat.lt_of_lt_of_le Nat.zero_lt_one htokens)
    rw [hfuel, Expr.readEntries, bind_assoc]
    refine Reads.current (fun t => t.kind = .rightBrace) (fun t ht => ht.1) fun t ht => ?_
    rw [if_pos ht]
    exact hclose []
  · rw [List.length_append] at htokens
    exact (readEntries h hne _ (by omega)).bind (show 0 < 2 by decide) (hclose entries)

end Reads

/-! ### Conditionals -/

/-- The reader takes the condition and the result of a branch. -/
def ReadsBranch (inner : Level) (part : List Lexeme × List Lexeme) : Branch → Prop
  | .mk condition result => Reads 3 inner.pipe part.1 condition ∧ Reads 3 inner.pipe part.2 result

/-- A condition and a result, each after its word. -/
def branchWords (lead : String) (part : List Lexeme × List Lexeme) : List Lexeme :=
  .word lead :: (part.1 ++ .word "then" :: part.2)

/-- Behind a branch there is another one or the last part. -/
theorem guard_branches (parts : List (List Lexeme × List Lexeme)) :
    Guard 3 2 (parts.flatMap (branchWords "elif")) := by
  cases parts with
  | nil => exact show 2 ≤ 3 by decide
  | cons part parts => exact show 2 < 3 by decide

namespace Reads

/-- Further branches are read one after the other, like items. -/
theorem readBranches {parts : List (List Lexeme × List Lexeme)} {branches : List Branch}
    (h : List.Forall₂ (ReadsBranch inner) parts branches) (fuel : Nat)
    (hfuel : (parts.flatMap (branchWords "elif")).length ≤ fuel) :
    Reads 2 (readBranches inner fuel) (parts.flatMap (branchWords "elif")) branches := by
  induction h generalizing fuel with
  | nil =>
      cases fuel with
      | zero => exact .pure
      | succ fuel =>
          refine Reads.current (fun t => t.isWord "elif" = false)
            (fun t ht => Token.isWord_of_grip_lt ht) fun t ht => ?_
          rw [ht, if_neg Bool.false_ne_true]
          exact .pure
  | @cons part branch parts branches hbranch h ih =>
      obtain ⟨condition, result⟩ := branch
      rw [List.flatMap_cons, List.length_append, branchWords, List.length_cons] at hfuel
      obtain ⟨fuel, rfl⟩ := Nat.exists_eq_add_one.mpr (show 0 < fuel by omega)
      rw [List.flatMap_cons, branchWords, List.cons_append, List.append_assoc, List.cons_append]
      refine Reads.current (fun t => t.isWord "elif" = true) (fun t ht => ht.isWord _)
        fun t ht => ?_
      rw [ht, if_pos rfl]
      refine Reads.advance fun _ _ => hbranch.1.bind (show 1 < 3 by decide) (Reads.expectWord ?_)
      refine hbranch.2.bind (guard_branches parts) ?_
      exact (ih fuel (by omega)).then_pure (Nat.le_refl _)

end Reads

/-- The words of the branches. -/
def caseWords : List (List Lexeme × List Lexeme) → List Lexeme
  | [] => []
  | part :: parts => branchWords "if" part ++ parts.flatMap (branchWords "elif")

/-- The words of a last branch, and of none. -/
def elseWords : Option (List Lexeme) → List Lexeme
  | some ls => .word "else" :: ls
  | none => []

namespace Reads

/-- **A conditional** is read with its branches and with what is left for the other cases, the
identity if nothing is said. -/
theorem conditional {parts : List (List Lexeme × List Lexeme)} {branches : List Branch}
    (h : List.Forall₂ (ReadsBranch inner) parts branches) (hne : branches ≠ [])
    {otherwise : Option (List Lexeme)}
    (he : match otherwise with
      | some ls => Reads 3 inner.pipe ls e
      | none => e = .identity) :
    Reads 12 (readPrimary (.ok inner))
      (caseWords parts ++ (elseWords otherwise ++ [.word "end"])) (.conditional branches e) := by
  -- the first branch has `if` in front and is read before the others
  obtain ⟨⟩ | @⟨part, ⟨condition, result⟩, parts, branches, hbranch, h⟩ := h
  · exact absurd rfl hne
  have hend (e : Expr) : Reads 12 (do
      Expr.expectWord "end"
      return Expr.conditional (.mk condition result :: branches) e) [.word "end"]
        (.conditional (.mk condition result :: branches) e) :=
    Reads.expectWord .pure
  have hlast : Guard 2 12 (elseWords otherwise ++ [.word "end"]) := by
    cases otherwise <;> exact show 1 < 2 by decide
  rw [caseWords, branchWords, List.append_assoc, List.cons_append]
  refine Reads.current (fun t => t.kind = .word) (fun t ht => ht.1) fun t ht => ?_
  rw [ht]
  refine Reads.current (fun t => String.ofList t.text = "if") ?_ fun t ht => ?_
  · intro t ht
    rw [ht.2]
    exact String.ofList_toList
  · simp only [ht, String.reduceEq, ↓reduceIte]
    rw [List.append_assoc, List.cons_append]
    refine Reads.expectWord (Reads.lift rfl (hbranch.1.bind (show 1 < 3 by decide) ?_))
    refine Reads.expectWord (hbranch.2.bind ((guard_branches parts).append hlast) ?_)
    refine Reads.get fun tokens htokens => ?_
    rw [List.length_append] at htokens
    refine (readBranches h _ (by omega)).bind hlast ?_
    cases otherwise with
    | some ls =>
        refine Reads.current (fun t => t.isWord "else" = true) (fun t ht => ht.isWord _)
          fun t ht => ?_
        rw [ht, if_pos rfl]
        exact Reads.advance fun _ _ => he.bind (show 1 < 3 by decide) (hend e)
    | none =>
        refine Reads.current (fun t => t.isWord "else" = false) (fun t ht => ht.isWord _)
          fun t ht => ?_
        rw [ht, if_neg Bool.false_ne_true, he]
        exact hend _

end Reads

/-! ### Fields and indices -/

namespace Settles

/-- One step after what is in hand. -/
theorem step (he : Settles enter .path ls e) (hl : l.token.grip = 11)
    (hstep : ∀ {q fuel : Nat} {ls' : List Lexeme} {b : Expr}, Guard 12 q ls' →
      (l :: (lb ++ ls')).length ≤ fuel →
      (∀ fuel, ls'.length ≤ fuel → Reads q (postfixFrom enter fuel e') ls' b) →
      Reads q (postfixFrom enter fuel e) (l :: (lb ++ ls')) b) :
    Settles enter .path (ls ++ l :: lb) e' := by
  refine ⟨he.opens.append _, fun hguard hcont => ?_⟩
  rw [List.append_assoc, List.cons_append]
  refine he.reads ?_ fun fuel hfuel => hstep hguard hfuel hcont
  rw [Guard, hl]
  decide

/-- A field settles behind what it is taken from, -/
theorem dotted (he : Settles enter .path ls e) (name : String) :
    Settles enter .path (ls ++ [.dotted name]) (.field e name) := by
  refine he.step rfl fun {q fuel ls' b} _ hfuel hcont => ?_
  obtain ⟨fuel, rfl⟩ := Nat.exists_eq_add_one.mpr (Nat.zero_lt_of_lt hfuel)
  refine Reads.current (fun t => t.Is (.dotted name)) (fun t ht => ht) fun t ht => ?_
  refine Reads.peek_any fun kind => ?_
  have hname : String.ofList ((Lexeme.dotted name).text.drop 1) = name := String.ofList_toList
  rw [ht.1, ht.2, hname]
  exact Reads.advance fun _ _ => hcont fuel (Nat.le_of_succ_le_succ hfuel)

/-- also with a quoted name, -/
theorem dotQuoted (he : Settles enter .path ls e) (name : String) :
    Settles enter .path (ls ++ [.sign .dot, .quoted name]) (.field e name) := by
  refine he.step rfl fun {q fuel ls' b} _ hfuel hcont => ?_
  rw [List.singleton_append, List.length_cons, List.length_cons] at hfuel
  obtain ⟨fuel, rfl⟩ := Nat.exists_eq_add_one.mpr (Nat.zero_lt_of_lt hfuel)
  refine Reads.current (fun t => t.kind = .dot) (fun t ht => ht.1) fun t ht => ?_
  refine Reads.peek ?_
  rw [ht]
  refine Reads.advance fun _ _ => Reads.advance fun t ht => ?_
  rw [ht.2]
  exact Reads.lift (quotedText_quoted name) (hcont fuel (by omega))

/-- One step of an index in brackets. -/
theorem index_step {li ls' : List Lexeme} {i b : Expr} {q fuel : Nat} (hi : Reads 3 inner.pipe li i)
    (hfuel : ls'.length < fuel)
    (hcont : ∀ fuel, ls'.length ≤ fuel →
      Reads q (postfixFrom (.ok inner) fuel (.index e i)) ls' b) :
    Reads q (postfixFrom (.ok inner) fuel e)
      (.sign .leftBracket :: (li ++ .sign .rightBracket :: ls')) b := by
  obtain ⟨fuel, rfl⟩ := Nat.exists_eq_add_one.mpr (Nat.zero_lt_of_lt hfuel)
  refine Reads.current (fun t => t.kind = .leftBracket) (fun t ht => ht.1) fun t ht => ?_
  refine Reads.peek_any fun kind => ?_
  rw [ht]
  exact Reads.advance fun _ _ => Reads.lift rfl (hi.bind (show 0 < 3 by decide)
    (Reads.expect rfl fun _ _ => hcont fuel (Nat.le_of_lt_succ hfuel)))

/-- and so does an index in brackets, -/
theorem index {li : List Lexeme} {i : Expr} (he : Settles (.ok inner) .path ls e)
    (hi : Reads 3 inner.pipe li i) :
    Settles (.ok inner) .path (ls ++ .sign .leftBracket :: (li ++ [.sign .rightBracket]))
      (.index e i) := by
  refine he.step rfl fun {q fuel ls' b} _ hfuel hcont => ?_
  rw [List.append_assoc, List.singleton_append] at hfuel ⊢
  rw [List.length_cons, List.length_append, List.length_cons] at hfuel
  exact index_step hi (by omega) hcont

/-- also behind a dot. -/
theorem dotIndex {li : List Lexeme} {i : Expr} (he : Settles (.ok inner) .path ls e)
    (hi : Reads 3 inner.pipe li i) :
    Settles (.ok inner) .path
      (ls ++ .sign .dot :: .sign .leftBracket :: (li ++ [.sign .rightBracket])) (.index e i) := by
  refine he.step rfl fun {q fuel ls' b} _ hfuel hcont => ?_
  rw [List.cons_append, List.append_assoc, List.singleton_append] at hfuel ⊢
  rw [List.length_cons, List.length_cons, List.length_append, List.length_cons] at hfuel
  obtain ⟨fuel, rfl⟩ := Nat.exists_eq_add_one.mpr (show 0 < fuel by omega)
  refine Reads.current (fun t => t.kind = .dot) (fun t ht => ht.1) fun t ht => ?_
  refine Reads.peek ?_
  rw [ht]
  exact Reads.advance fun _ _ => index_step hi (by omega) hcont

end Settles

end Constructs

end Quarry.Expr
