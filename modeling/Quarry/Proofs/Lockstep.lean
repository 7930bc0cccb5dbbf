import Quarry.Proofs.Precedence

/-!
# Lockstep — lists of tokens that readers do not tell apart

The readers see a token by its class, by its text if it is a word or a field, and by what it stands
for if it is a quoted text or a number.  So they do the same with two lists of tokens that are not
told apart in this way, until one of them ends.  A `Lockstep` is a relation of such lists: what it
says about the first tokens (`Pace`) is all that the readers need.

The first tokens of related lists are of one class, but that one may be the end where the other is
a parenthesis (`Lockstep.exists_cons`).  Behind a token that stands for itself the lists are related
again (`Lockstep.tail`), and behind a bar they are, or no operand follows
(`Lockstep.tail_of_pipe`).
-/

namespace Quarry.Expr

/-- Reading an expression is refused in one of the ways that are meant. -/
inductive IsRefusal (limit : Nat) : Fault → Prop where
  | expression (cause : ExprFault) : IsRefusal limit (.query (.expression cause))
  | tooDeep : IsRefusal limit (.tooDeep limit)

/-- What a quoted text or a number stands for is found; other tokens stand for themselves. -/
def Token.decode (t : Token) : Except Fault Unit :=
  match t.kind with
  | .string => do let _ ← quotedText t.text
  | .number => do let _ ← numberValue t.text
  | _ => .ok ()

/-- The first tokens of two lists.  They may be the same, with related lists after them, but after
a bar it is enough that no operand follows.  They may be of one class, where the first one stands
for nothing and this is excused.  Or the first list ends, and the second one ends too or goes on
with a parenthesis, if everything is excused. -/
inductive Pace (limit : Nat) (Paired : List Token → List Token → Prop) (Excused : Fault → Prop) :
    List Token → List Token → Prop where
  | same {t t' : Token} {r r' : List Token} (hkind : t'.kind = t.kind) (htext : t'.text = t.text)
      (hfinish : t.kind ≠ .finish) (hdecode : t.decode = .ok ())
      (h : Paired r r' ∨ t.kind = .pipe ∧ ∀ levels, ∃ fault,
        readDisjunction (enterAt limit levels) r = .error fault ∧ Excused fault) :
      Pace limit Paired Excused (t :: r) (t' :: r')
  | spoilt {t t' : Token} {r r' : List Token} {fault : Fault} (hkind : t'.kind = t.kind)
      (hdecode : t.decode = .error fault) (h : Excused fault) :
      Pace limit Paired Excused (t :: r) (t' :: r')
  | ends {t t' : Token} {r r' : List Token} (hfinish : t.kind = .finish)
      (h : t'.kind = .finish ∨ t'.kind = .rightParen ∧ ∀ fault, Excused fault) :
      Pace limit Paired Excused (t :: r) (t' :: r')

/-- A relation of lists of tokens that readers do not tell apart, and the faults with which the
first of two runs may end whatever the second one does. -/
structure Lockstep (limit : Nat) where
  Paired : List Token → List Token → Prop
  Excused : Fault → Prop
  pace : ∀ {ts ts' : List Token}, Paired ts ts' → Pace limit Paired Excused ts ts'
  length_le : ∀ {ts ts' : List Token}, Paired ts ts' → ts.length ≤ ts'.length

/-! ### Single tokens -/

/-- A token of the class that is expected is passed, and another one is refused with its place. -/
theorem expect_cons (kind : TokenKind) (t : Token) (r : List Token) :
    expect kind (t :: r) = if t.kind = kind then .ok (t, r)
      else .error (.query (.expression (.expected kind.name t.offset t.shown))) := by
  rw [expect, RunsAlike.bind_of_ok (current_cons t r)]
  split <;> rfl

/-- The same for a keyword, -/
theorem expectWord_cons (s : String) (t : Token) (r : List Token) :
    expectWord s (t :: r) = if t.isWord s then .ok ((), r)
      else .error (.query (.expression
        (.expectedKeyword s t.offset (String.ofList t.text)))) := by
  rw [expectWord, RunsAlike.bind_of_ok (current_cons t r)]
  split <;> rfl

/-- and for a token that may be missing, which is then left. -/
theorem accept?_cons (kind : TokenKind) (t : Token) (r : List Token) :
    accept? kind (t :: r) = if t.kind = kind then .ok (true, r) else .ok (false, t :: r) := by
  rw [accept?, RunsAlike.bind_of_ok (current_cons t r)]
  split <;> rfl

/-! ### Where no operand begins -/

section Operands

variable {enter : Except Fault Level} {t : Token} {r ts : List Token} {fault : Fault}

/-- Where no primary begins, no operand of `not` does, -/
theorem readNegation_of_primary (h : readPrimary enter (t :: r) = .error fault)
    (hminus : t.kind ≠ .minus) (hnot : t.isWord "not" = false) :
    readNegation enter (t :: r) = .error fault := by
  have hpath : readPath enter (t :: r) = .error fault := RunsAlike.bind_of_error h
  have haccept := accept?_cons .minus t r
  rw [if_neg hminus] at haccept
  -- the readers in between only look for a sign or a `not` in front
  have hunary : readUnary enter (t :: r) = .error fault := by
    rw [readUnary, RunsAlike.bind_of_ok haccept]
    exact hpath
  have hsum : readSum enter (t :: r) = .error fault :=
    RunsAlike.bind_of_error (RunsAlike.bind_of_error hunary)
  rw [readNegation, RunsAlike.bind_of_ok (current_cons t r), RunsAlike.bind_of_ok rfl, hnot]
  exact RunsAlike.bind_of_error hsum

/-- and where none of these begins, there is nothing to join. -/
theorem readDisjunction_of_negation (h : readNegation enter ts = .error fault) :
    readDisjunction enter ts = .error fault :=
  RunsAlike.bind_of_error (RunsAlike.bind_of_error h)

/-- No operand begins with the end. -/
theorem readPipe_finish (hfinish : t.kind = .finish) :
    ∃ fault, readPipe enter (t :: r) = .error fault := by
  have hprimary : readPrimary enter (t :: r) =
      .error (.query (.expression (.unexpected t.shown t.offset))) := by
    rw [readPrimary, RunsAlike.bind_of_ok (current_cons t r), hfinish]
    rfl
  have hnot : t.isWord "not" = false := by
    rw [Token.isWord, hfinish]
    rfl
  exact ⟨_, RunsAlike.bind_of_error (readDisjunction_of_negation
    (readNegation_of_primary hprimary (by rw [hfinish]; decide) hnot))⟩

end Operands

/-! ### First tokens -/

/-- Two tokens are not told apart, but that the one may be the end and the other a parenthesis. -/
inductive Token.Resembles (t t' : Token) : Prop where
  | same (hkind : t'.kind = t.kind) (htext : t.kind = .word ∨ t.kind = .field → t'.text = t.text)
  | ends (hfinish : t.kind = .finish) (hcloses : t'.kind = .rightParen)

namespace Token.Resembles

variable {t t' : Token}

/-- Tokens that are not told apart are of the same class, the end and the parenthesis apart, -/
theorem kind_iff (h : t.Resembles t') (kind : TokenKind) (hfinish : kind ≠ .finish)
    (hcloses : kind ≠ .rightParen) : t'.kind = kind ↔ t.kind = kind := by
  cases h with
  | same hkind _ => rw [hkind]
  | ends hend hparen =>
      rw [hend, hparen]
      exact iff_of_false hcloses.symm hfinish.symm

/-- and they are the same keyword, or none. -/
theorem isWord_eq (h : t.Resembles t') (s : String) : t'.isWord s = t.isWord s := by
  by_cases hword : t.kind = .word
  · cases h with
    | same hkind htext =>
        rw [isWord, isWord, hkind, htext (.inl hword)]
    | ends hend _ => cases hend.symm.trans hword
  · have hword' : t'.kind ≠ .word := fun h' =>
      hword ((h.kind_iff _ (by decide) (by decide)).mp h')
    rw [isWord, isWord, decide_eq_false hword, decide_eq_false hword', Bool.false_and,
      Bool.false_and]

/-- What depends on the class alone, and is the same for the end and a parenthesis. -/
theorem map_kind_eq (h : t.Resembles t') {β : Type} (f : TokenKind → β)
    (hends : f .rightParen = f .finish) : f t'.kind = f t.kind := by
  cases h with
  | same hkind _ => rw [hkind]
  | ends hend hparen => rw [hend, hparen, hends]

end Token.Resembles

/-- A token that stands for nothing is a quoted text or a number. -/
theorem Token.kind_of_decode {t : Token} {fault : Fault} (h : t.decode = .error fault) :
    t.kind = .string ∨ t.kind = .number := by
  rw [decode.eq_def] at h
  split at h
  · exact .inl ‹_›
  · exact .inr ‹_›
  · cases h

/-- The classes of tokens that stand for themselves, and are neither a bar nor the end. -/
def TokenKind.isPlain : TokenKind → Bool
  | .number | .string | .pipe | .finish => false
  | _ => true

theorem isPlain_of_isWord {t : Token} {s : String} (h : t.isWord s = true) :
    t.kind.isPlain = true := by
  rw [Token.isWord, Bool.and_eq_true, decide_eq_true_eq] at h
  rw [h.1]
  rfl

namespace Lockstep

variable {limit : Nat} {m : Lockstep limit} {t t' : Token}
  {r r' ts ts' : List Token}

/-- Related lists are never empty, and their first tokens are not told apart. -/
theorem exists_cons (h : m.Paired ts ts') :
    ∃ t r t' r', ts = t :: r ∧ ts' = t' :: r' ∧ t.Resembles t' := by
  cases m.pace h with
  | same hkind htext => exact ⟨_, _, _, _, rfl, rfl, .same hkind fun _ => htext⟩
  | spoilt hkind hdecode _ =>
      refine ⟨_, _, _, _, rfl, rfl, .same hkind fun hword => ?_⟩
      rcases Token.kind_of_decode hdecode with hk | hk <;> rw [hk] at hword <;> simp at hword
  | ends hfinish hcloses =>
      refine ⟨_, _, _, _, rfl, rfl, ?_⟩
      rcases hcloses with hfinish' | ⟨hparen, -⟩
      · refine .same (hfinish'.trans hfinish.symm) fun hword => ?_
        rw [hfinish] at hword
        simp at hword
      · exact .ends hfinish hparen

theorem length_pos (h : m.Paired ts ts') : 0 < ts.length := by
  obtain ⟨t, r, t', r', rfl, -⟩ := exists_cons h
  exact Nat.succ_pos _

/-- Behind a token that stands for itself the lists are related. -/
theorem tail (h : m.Paired (t :: r) (t' :: r')) (hplain : t.kind.isPlain = true) :
    m.Paired r r' ∧ t'.kind = t.kind ∧ t'.text = t.text := by
  cases m.pace h with
  | same hkind htext _ _ htail =>
      refine ⟨htail.resolve_right fun hpipe => ?_, hkind, htext⟩
      rw [hpipe.1] at hplain
      cases hplain
  | spoilt _ hdecode _ =>
      rcases Token.kind_of_decode hdecode with hk | hk <;> rw [hk] at hplain <;> cases hplain
  | ends hfinish _ =>
      rw [hfinish] at hplain
      cases hplain

/-- Behind a bar the lists are related, or no operand follows and this is excused. -/
theorem tail_of_pipe (h : m.Paired (t :: r) (t' :: r')) (hpipe : t.kind = .pipe) :
    m.Paired r r' ∨ ∀ levels, ∃ fault,
      readDisjunction (enterAt limit levels) r = .error fault ∧ m.Excused fault := by
  cases m.pace h with
  | same _ _ _ _ htail => exact htail.imp_right And.right
  | spoilt _ hdecode _ =>
      rcases Token.kind_of_decode hdecode with hk | hk <;> cases hk.symm.trans hpipe
  | ends hfinish _ => cases hfinish.symm.trans hpipe

/-- A class is met by both runs, or by neither, or everything is excused. -/
theorem kind_iff_or (h : m.Paired (t :: r) (t' :: r')) (kind : TokenKind) :
    (t'.kind = kind ↔ t.kind = kind) ∨ t.kind = .finish ∧ ∀ fault, m.Excused fault := by
  cases m.pace h with
  | same hkind => exact .inl (by rw [hkind])
  | spoilt hkind => exact .inl (by rw [hkind])
  | ends hfinish hcloses =>
      rcases hcloses with hfinish' | ⟨-, hexcused⟩
      · exact .inl (by rw [hfinish, hfinish'])
      · exact .inr ⟨hfinish, hexcused⟩

end Lockstep

end Quarry.Expr
