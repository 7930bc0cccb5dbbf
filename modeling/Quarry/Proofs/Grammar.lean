import Quarry.Expr.Reader
import Quarry.Proofs.Lexemes
import Quarry.Proofs.Outcomes
import Quarry.Proofs.QuotedText

/-!
# Grammar — what a reader makes of the words it is meant for

The places of the grammar are its precedence levels.  `grip` says for a token which is the tightest
place that goes on with it, so a reader stops before every token with a weaker grip.  `Reads p r ls
a` says that the reader `r` takes exactly the lexemes `ls` and makes `a` of them, whenever the next
token has a grip below `p`.

An operator that groups to the left makes its reader a loop, and what the loop has read so far is
not what it returns.  So for a place `Settles` speaks about what comes after: having read the
lexemes of `e`, the reader is where its loop is with `e` in hand.  There is one lemma for each
construct, and `Settles.climb` goes from a place to the looser ones.
-/

namespace Quarry.Expr

/-! ### Places -/

/-- The places of the grammar, from the loosest to the tightest. -/
inductive Place where
  | pipe | disjunction | conjunction | negation | comparison | sum | product | unary | path
deriving DecidableEq

namespace Place

/-- The rank of a place among the grips of tokens. -/
def rank : Place → Nat
  | pipe => 3
  | disjunction => 4
  | conjunction => 5
  | negation => 6
  | comparison => 7
  | sum => 8
  | product => 9
  | unary => 10
  | path => 11

/-- The next tighter place. -/
def next : Place → Place
  | pipe => disjunction
  | disjunction => conjunction
  | conjunction => negation
  | negation => comparison
  | comparison => sum
  | sum => product
  | product => unary
  | unary => path
  | path => path

def reader (enter : Except Fault Level) : Place → Reader Expr
  | pipe => readPipe enter
  | disjunction => readDisjunction enter
  | conjunction => readConjunction enter
  | negation => readNegation enter
  | comparison => readComparison enter
  | sum => readSum enter
  | product => readProduct enter
  | unary => readUnary enter
  | path => readPath enter

/-- The operators of a place that groups them to the left. -/
def joins? : Place → Option (Token → Option (Expr → Expr → Expr))
  | pipe => some joinPipe
  | disjunction => some joinOr
  | conjunction => some joinAnd
  | sum => some joinSum
  | product => some joinProduct
  | negation | comparison | unary | path => none

/-- How a place goes on with what it has read. -/
def goOn (enter : Except Fault Level) : Place → Nat → Expr → Reader Expr
  | pipe => joinFrom (readDisjunction enter) joinPipe
  | disjunction => joinFrom (readConjunction enter) joinOr
  | conjunction => joinFrom (readNegation enter) joinAnd
  | sum => joinFrom (readProduct enter) joinSum
  | product => joinFrom (readUnary enter) joinProduct
  | path => postfixFrom enter
  | negation | comparison | unary => fun _ e => pure e

/-- The place goes on with tokens of a grip below this. -/
def bound : Place → Nat
  | negation => 6
  | comparison => 7
  | unary => 10
  | place => place.rank + 1

theorem rank_le_bound (place : Place) : place.rank ≤ place.bound := by
  cases place <;> decide

end Place

/-- The rank of the place that goes on with a word. -/
def wordGrip (s : String) : Nat :=
  if s = "or" then 4
  else if s = "and" then 5
  else if s = "elif" then 2
  else if s = "then" || s = "else" || s = "end" then 1
  else 12

/-- The rank of the tightest place that goes on with a token that is no word.  Lists go on with
commas, nothing goes on with what closes; a token that begins an operand goes on with everything. -/
def TokenKind.grip : TokenKind → Nat
  | .rightParen | .rightBracket | .rightBrace | .colon | .finish => 0
  | .comma => 2
  | .pipe => 3
  | .equal | .notEqual | .greaterEqual | .lessEqual | .greater | .less => 7
  | .plus | .minus => 8
  | .star | .slash | .percent => 9
  | .field | .dot | .leftBracket => 11
  | .number | .string | .leftParen | .leftBrace | .word => 12

/-- The rank of the tightest place that goes on with a token. -/
def Token.grip (t : Token) : Nat :=
  if t.kind = .word then wordGrip (String.ofList t.text) else t.kind.grip

theorem Token.grip_of_kind {t : Token} {kind : TokenKind} (h : t.kind = kind)
    (hkind : kind ≠ .word) : t.grip = kind.grip := by
  rw [grip, h, if_neg hkind]

theorem Token.grip_of_isWord {t : Token} {s : String} (h : t.isWord s = true) :
    t.grip = wordGrip s := by
  rw [isWord, Bool.and_eq_true, decide_eq_true_eq, decide_eq_true_eq] at h
  rw [grip, if_pos h.1, h.2]

/-- A token with a grip below that of a class is not of the class. -/
theorem Token.kind_ne_of_grip_lt {t : Token} {kind : TokenKind} (hkind : kind ≠ .word)
    (h : t.grip < kind.grip) : t.kind ≠ kind :=
  fun heq => absurd h (by rw [grip_of_kind heq hkind]; exact Nat.lt_irrefl _)

theorem Token.isWord_of_grip_lt {t : Token} {s : String} (h : t.grip < wordGrip s) :
    t.isWord s = false :=
  Bool.eq_false_iff.mpr fun hword => absurd h (by rw [grip_of_isWord hword]; exact Nat.lt_irrefl _)

/-- No operand begins with a token that only closes. -/
theorem Token.startsPrimary_of_grip_lt {t : Token} (h : t.grip < 1) :
    startsPrimary t.kind = false := by
  rw [grip] at h
  split at h
  · have hword : 1 ≤ wordGrip (String.ofList t.text) := by
      rw [wordGrip]
      split_ifs <;> decide
    omega
  · revert h
    cases t.kind <;> decide

/-- A token of a lexeme. -/
def Lexeme.token (l : Lexeme) : Token :=
  ⟨l.kind, l.text, 0⟩

theorem Token.Is.isWord {t : Token} {l : Lexeme} (h : t.Is l) (s : String) :
    t.isWord s = l.token.isWord s := by
  rw [Token.isWord, Token.isWord, h.1, h.2]
  rfl

theorem current_cons (t : Token) (ts : List Token) : current (t :: ts) = .ok (t, t :: ts) := rfl

/-! ### Readers on the words they are meant for -/

section Reads

variable {α β : Type} {p q : Nat} {l : Lexeme} {ls ls' : List Lexeme} {a : α} {b : β}

/-- The reader takes exactly the lexemes and makes `a` of them, if the token after them has a grip
below `p`. -/
def Reads (p : Nat) (r : Reader α) (ls : List Lexeme) (a : α) : Prop :=
  ∀ ts t rest, List.Forall₂ Token.Is ts ls → t.grip < p → r (ts ++ t :: rest) = .ok (a, t :: rest)

/-- The lexemes, followed by a token of a grip below `q`, begin with a grip below `p`. -/
def Guard (p q : Nat) : List Lexeme → Prop
  | [] => q ≤ p
  | l :: _ => l.token.grip < p

theorem Guard.append {p p' : Nat} (h : Guard p q ls) (h' : Guard q p' ls') :
    Guard p p' (ls ++ ls') := by
  cases ls with
  | cons l ls => exact h
  | nil =>
      cases ls' with
      | nil => exact Nat.le_trans h' h
      | cons l ls' => exact Nat.lt_of_lt_of_le h' h

/-- What may be the first token of the lexemes followed by one of a grip below `p`. -/
def First (p : Nat) (ok : Token → Prop) : List Lexeme → Prop
  | [] => ∀ t : Token, t.grip < p → ok t
  | l :: _ => ∀ t : Token, t.Is l → ok t

theorem First.append {ok : Token → Prop} (h : First p ok ls)
    (hguard : Guard p q ls') : First q ok (ls ++ ls') := by
  cases ls with
  | cons l ls => exact h
  | nil =>
      cases ls' with
      | nil => exact fun t ht => h t (Nat.lt_of_lt_of_le ht hguard)
      | cons l ls' =>
          exact fun t ht => h t (by rw [Token.grip, ht.1, ht.2]; exact hguard)

namespace Reads

theorem bind {r : Reader α} {f : α → Reader β} (hr : Reads p r ls a) (h : Guard p q ls')
    (hf : Reads q (f a) ls' b) : Reads q (r >>= f) (ls ++ ls') b := by
  intro ts t rest hts ht
  have hfront := List.forall₂_take_append ts ls ls' hts
  have hback := List.forall₂_drop_append ts ls ls' hts
  rw [← List.take_append_drop ls.length ts, List.append_assoc]
  generalize ts.take ls.length = front at hfront
  generalize ts.drop ls.length = back at hback
  cases hback with
  | nil =>
      rw [List.nil_append, RunsAlike.bind_of_ok (hr front t rest hfront (Nat.lt_of_lt_of_le ht h))]
      exact hf [] t rest .nil ht
  | @cons u l back ls' hu hback =>
      have hgrip : u.grip < p := by
        rw [Token.grip, hu.1, hu.2]
        exact h
      rw [List.cons_append, RunsAlike.bind_of_ok (hr front u _ hfront hgrip)]
      exact hf (u :: back) t rest (.cons hu hback) ht

theorem pure : Reads p (Pure.pure a : Reader α) [] a := by
  rintro _ t rest ⟨⟩ -
  rfl

theorem then_pure {r : Reader α} {f : α → β} (h : Reads p r ls a) (hq : q ≤ p) :
    Reads q (do return f (← r)) ls (f a) := by
  rw [← List.append_nil ls]
  exact h.bind hq .pure

theorem mono {r : Reader α} (h : Reads p r ls a) (hq : q ≤ p) : Reads q r ls a :=
  fun ts t rest hts ht => h ts t rest hts (Nat.lt_of_lt_of_le ht hq)

/-- Looking at the next token. -/
theorem current {f : Token → Reader β} (ok : Token → Prop) (h : First p ok ls)
    (hf : ∀ t, ok t → Reads p (f t) ls b) : Reads p (Expr.current >>= f) ls b := by
  intro ts t rest hts ht
  cases hts with
  | nil => exact hf t (h t ht) [] t rest .nil ht
  | @cons u l ts ls hu hts => exact hf u (h u hu) (u :: ts) t rest (.cons hu hts) ht

theorem advance {f : Token → Reader β} (hf : ∀ t : Token, t.Is l → Reads p (f t) ls b) :
    Reads p (Expr.advance >>= f) (l :: ls) b := by
  rintro _ t rest (_ | ⟨hu, hts⟩) ht
  exact hf _ hu _ t rest hts ht

theorem expect {f : Token → Reader β} {kind : TokenKind} (hkind : l.kind = kind)
    (hf : ∀ t : Token, t.Is l → Reads p (f t) ls b) :
    Reads p (Expr.expect kind >>= f) (l :: ls) b := by
  rintro _ t rest (_ | @⟨u, _, ts, _, hu, hts⟩) ht
  have hexpect : Expr.expect kind (u :: (ts ++ t :: rest)) = .ok (u, ts ++ t :: rest) := by
    rw [Expr.expect, RunsAlike.bind_of_ok (current_cons u _), if_pos (hu.1.trans hkind)]
    rfl
  rw [List.cons_append, RunsAlike.bind_of_ok hexpect]
  exact hf u hu ts t rest hts ht

theorem expectWord {f : Unit → Reader β} {s : String} (hf : Reads p (f ()) ls b) :
    Reads p (Expr.expectWord s >>= f) (.word s :: ls) b := by
  rintro _ t rest (_ | @⟨u, _, ts, _, hu, hts⟩) ht
  have hword : u.isWord s = true := by
    rw [hu.isWord]
    simp [Token.isWord, Lexeme.token, Lexeme.kind, Lexeme.text]
  have hexpect : Expr.expectWord s (u :: (ts ++ t :: rest)) = .ok ((), ts ++ t :: rest) := by
    rw [Expr.expectWord, RunsAlike.bind_of_ok (current_cons u _), if_pos hword]
    rfl
  rw [List.cons_append, RunsAlike.bind_of_ok hexpect]
  exact hf ts t rest hts ht

/-- Passing a token that is there. -/
theorem accept {f : Bool → Reader β} {kind : TokenKind} (hkind : l.kind = kind)
    (hf : Reads p (f true) ls b) : Reads p (accept? kind >>= f) (l :: ls) b := by
  rintro _ t rest (_ | @⟨u, _, ts, _, hu, hts⟩) ht
  have haccept : accept? kind (u :: (ts ++ t :: rest)) = .ok (true, ts ++ t :: rest) := by
    rw [accept?, RunsAlike.bind_of_ok (current_cons u _), if_pos (hu.1.trans hkind)]
    rfl
  rw [List.cons_append, RunsAlike.bind_of_ok haccept]
  exact hf ts t rest hts ht

/-- Not passing a token that is not there. -/
theorem decline {f : Bool → Reader β} {kind : TokenKind} (h : First p (·.kind ≠ kind) ls)
    (hf : Reads p (f false) ls b) : Reads p (accept? kind >>= f) ls b := by
  have haccept (t : Token) (rest : List Token) (hne : t.kind ≠ kind) :
      accept? kind (t :: rest) = .ok (false, t :: rest) := by
    rw [accept?, RunsAlike.bind_of_ok (current_cons t _), if_neg hne]
    rfl
  intro ts t rest hts ht
  cases hts with
  | nil =>
      rw [List.nil_append, RunsAlike.bind_of_ok (haccept t rest (h t ht))]
      exact hf [] t rest .nil ht
  | @cons u l ts ls hu hts =>
      rw [List.cons_append, RunsAlike.bind_of_ok (haccept u _ (h u hu))]
      exact hf (u :: ts) t rest (.cons hu hts) ht

/-- Looking at the token after the next one: the second lexeme, -/
theorem peek {f : TokenKind → Reader β} {l' : Lexeme} (hf : Reads p (f l'.kind) (l :: l' :: ls) b) :
    Reads p (peekKind >>= f) (l :: l' :: ls) b := by
  rintro _ t rest (_ | @⟨u, _, _, _, hu, _ | @⟨u', _, ts, _, hu', hts⟩⟩) ht
  rw [List.cons_append, List.cons_append, RunsAlike.bind_of_ok rfl]
  change f u'.kind _ = _
  rw [hu'.1]
  exact hf (u :: u' :: ts) t rest (.cons hu (.cons hu' hts)) ht

/-- the token that follows the only lexeme, -/
theorem peek_last {f : TokenKind → Reader β} (hf : ∀ t : Token, t.grip < p →
    Reads p (f t.kind) [l] b) : Reads p (peekKind >>= f) [l] b := by
  rintro _ t rest (_ | @⟨u, _, _, _, hu, _ | _⟩) ht
  rw [List.singleton_append, RunsAlike.bind_of_ok rfl]
  exact hf t ht [u] t rest (.cons hu .nil) ht

/-- or any token whatever. -/
theorem peek_any {f : TokenKind → Reader β} (hf : ∀ kind, Reads p (f kind) ls b) :
    Reads p (peekKind >>= f) ls b := by
  intro ts t rest hts ht
  rw [RunsAlike.bind_of_ok rfl]
  exact hf _ ts t rest hts ht

/-- Counting the tokens that are left. -/
theorem get {f : List Token → Reader β} (hf : ∀ tokens, ls.length ≤ tokens.length →
    Reads p (f tokens) ls b) : Reads p (MonadState.get >>= f) ls b := by
  intro ts t rest hts ht
  rw [RunsAlike.bind_of_ok (x := MonadState.get) rfl]
  refine hf _ ?_ ts t rest hts ht
  rw [← hts.length_eq, List.length_append]
  exact Nat.le_add_right _ _

theorem lift {f : α → Reader β} {x : Except Fault α} (hx : x = .ok a) (hf : Reads p (f a) ls b) :
    Reads p (liftM x >>= f) ls b := by
  subst hx
  exact hf

end Reads

end Reads

theorem grip_of_relation? {t : Token} {r : Relation} (h : relation? t.kind = some r) :
    t.grip = 7 := by
  rw [relation?.eq_def] at h
  split at h <;> cases h <;> rename_i hkind <;> exact Token.grip_of_kind hkind (by decide)

/-! ### First words -/

/-- The lexemes begin with what may start an operand; at a tight place they begin neither with the
prefix `not` nor, at the tightest, with a minus. -/
def Opens (place : Place) : List Lexeme → Prop
  | [] => False
  | l :: _ => startsPrimary l.kind = true ∧ (7 ≤ place.rank → l.token.isWord "not" = false) ∧
      (11 ≤ place.rank → l.token.kind ≠ .minus)

/-- What starts an operand, and is neither a minus nor `not`, opens every place. -/
theorem opens_of_kind {place : Place} {l : Lexeme} {ls : List Lexeme}
    (hkind : (startsPrimary l.kind && l.kind != .minus) = true)
    (hword : l.token.isWord "not" = false) : Opens place (l :: ls) := by
  obtain ⟨hstarts, hminus⟩ := Bool.and_eq_true_iff.mp hkind
  exact ⟨hstarts, fun _ => hword, fun _ => bne_iff_ne.mp hminus⟩

theorem Opens.append {place : Place} {ls : List Lexeme} (h : Opens place ls)
    (ls' : List Lexeme) : Opens place (ls ++ ls') := by
  cases ls with
  | nil => exact h.elim
  | cons l ls => exact h

theorem Opens.mono {place place' : Place} {ls : List Lexeme} (h : Opens place ls)
    (hle : place'.rank ≤ place.rank) : Opens place' ls := by
  cases ls with
  | nil => exact h
  | cons l ls =>
      exact ⟨h.1, fun hrank => h.2.1 (Nat.le_trans hrank hle),
        fun hrank => h.2.2 (Nat.le_trans hrank hle)⟩

/-- What holds of the lexeme at the front holds of its token. -/
theorem Opens.first {place : Place} {ls : List Lexeme} {p : Nat} {ok : Token → Prop}
    (h : Opens place ls) (hok : ∀ {l : Lexeme} {ls' : List Lexeme}, Opens place (l :: ls') →
      ∀ t : Token, t.Is l → ok t) : First p ok ls := by
  cases ls with
  | nil => exact h.elim
  | cons l ls => exact hok h

section Places

variable {enter : Except Fault Level} {place : Place} {l : Lexeme} {ls lb : List Lexeme}
  {e e' : Expr} {join? : Token → Option (Expr → Expr → Expr)}

namespace Place

theorem reader_of_joins? (enter : Except Fault Level) (h : place.joins? = some join?) :
    place.reader enter = joined (place.next.reader enter) join? ∧
      place.goOn enter = joinFrom (place.next.reader enter) join? ∧
      place.bound = place.rank + 1 ∧ place.next.rank = place.rank + 1 := by
  cases place <;> cases h <;> exact ⟨rfl, rfl, rfl, rfl⟩

/-- The operators of a place have its grip. -/
theorem grip_of_joins? (h : place.joins? = some join?) {t : Token} {join : Expr → Expr → Expr}
    (ht : join? t = some join) : t.grip = place.rank := by
  cases place <;> cases h
  · rw [joinPipe, Option.ite_none_right_eq_some] at ht
    exact Token.grip_of_kind ht.1 (by decide)
  · rw [joinOr, Option.ite_none_right_eq_some] at ht
    exact Token.grip_of_isWord ht.1
  · rw [joinAnd, Option.ite_none_right_eq_some] at ht
    exact Token.grip_of_isWord ht.1
  · rw [joinSum] at ht
    split at ht <;> cases ht <;> rename_i hkind <;> exact Token.grip_of_kind hkind (by decide)
  · rw [joinProduct] at ht
    split at ht <;> cases ht <;> rename_i hkind <;> exact Token.grip_of_kind hkind (by decide)

theorem joinFrom_stops (h : place.joins? = some join?) (operand : Reader Expr) (fuel : Nat) :
    Reads place.rank (joinFrom operand join? fuel e) [] e := by
  cases fuel with
  | zero => exact .pure
  | succ fuel =>
      refine Reads.current (fun t => join? t = none) (fun t ht => ?_) fun t ht => ?_
      · cases hjoin : join? t with
        | none => exact hjoin
        | some join => exact absurd ht (by rw [grip_of_joins? h hjoin]; exact Nat.lt_irrefl _)
      · rw [ht]
        exact .pure

theorem postfixFrom_stops (fuel : Nat) : Reads 11 (postfixFrom enter fuel e) [] e := by
  cases fuel with
  | zero => exact .pure
  | succ fuel =>
      refine Reads.current (fun t => t.kind ≠ .field ∧ t.kind ≠ .dot ∧ t.kind ≠ .leftBracket)
        (fun t ht => ?_) fun t ht => Reads.peek_any fun kind => ?_
      · exact ⟨Token.kind_ne_of_grip_lt (by decide) ht, Token.kind_ne_of_grip_lt (by decide) ht,
          Token.kind_ne_of_grip_lt (by decide) ht⟩
      · split
        · exact absurd ‹_› ht.1
        · exact absurd ‹_› ht.2.1
        · exact absurd ‹_› ht.2.1
        · exact absurd ‹_› ht.2.2
        · exact .pure

theorem goOn_stops (fuel : Nat) : Reads place.rank (place.goOn enter fuel e) [] e := by
  cases hj : place.joins? with
  | some join? =>
      rw [(reader_of_joins? enter hj).2.1]
      exact joinFrom_stops hj _ fuel
  | none =>
      cases place <;> cases hj
      · exact .pure
      · exact .pure
      · exact .pure
      · exact postfixFrom_stops fuel

end Place

/-! ### One operand alone -/

namespace Reads

variable {p : Nat}

/-- Operands joined by operators, of which there is none. -/
theorem joined (place : Place) (hplace : place.joins? = some join?) {operand : Reader Expr}
    (h : Reads p operand ls e) (hp : p ≤ place.rank) : Reads p (joined operand join?) ls e := by
  rw [← List.append_nil ls]
  exact h.bind (Nat.le_refl _)
    (Reads.get fun tokens _ => (Place.joinFrom_stops hplace operand tokens.length).mono hp)

/-- A primary with nothing after it. -/
theorem path (h : Reads 12 (readPrimary enter) ls e) : Reads 11 (readPath enter) ls e := by
  rw [← List.append_nil ls]
  exact h.bind (show 11 ≤ 12 by decide) (Reads.get fun _ _ => Place.postfixFrom_stops _)

/-- A path, if it does not begin with a minus. -/
theorem unary (h : Reads 11 (readPath enter) ls e) (hfirst : First 10 (·.kind ≠ .minus) ls) :
    Reads 10 (readUnary enter) ls e :=
  Reads.decline hfirst (h.mono (by decide))

/-- A sum, with no comparison after it. -/
theorem comparison (h : Reads 8 (readSum enter) ls e) : Reads 7 (readComparison enter) ls e := by
  rw [← List.append_nil ls]
  refine h.bind (show 7 ≤ 8 by decide) ?_
  refine Reads.current (fun t => relation? t.kind = none) (fun t ht => ?_) fun t ht => ?_
  · change relation? t.kind = none
    cases hr : relation? t.kind with
    | none => rfl
    | some r => exact absurd ht (by rw [grip_of_relation? hr]; decide)
  · rw [ht]
    exact .pure

/-- A comparison, if it does not begin with the prefix `not`. -/
theorem negation (h : Reads 7 (readComparison enter) ls e)
    (hfirst : First 6 (·.isWord "not" = false) ls) : Reads 6 (readNegation enter) ls e := by
  refine Reads.current _ hfirst fun t ht => Reads.peek_any fun kind => ?_
  rw [ht, Bool.false_and, if_neg Bool.false_ne_true]
  exact h.mono (by decide)

end Reads

/-! ### Words that settle at a place -/

/-- Having read the lexemes, the reader of the place goes on with `e` in hand: it reads further
lexemes as its loop does. -/
structure Settles (enter : Except Fault Level) (place : Place) (ls : List Lexeme) (e : Expr) :
    Prop where
  opens : Opens place ls
  reads : ∀ {q : Nat} {ls' : List Lexeme} {b : Expr}, Guard place.bound q ls' →
    (∀ fuel, ls'.length ≤ fuel → Reads q (place.goOn enter fuel e) ls' b) →
    Reads q (place.reader enter) (ls ++ ls') b

namespace Settles

/-- What is in hand is returned, if nothing goes on with it. -/
theorem plain (h : Settles enter place ls e) : Reads place.rank (place.reader enter) ls e := by
  have hstop : Guard place.bound place.rank [] := place.rank_le_bound
  have := h.reads hstop fun fuel _ => Place.goOn_stops fuel
  rwa [List.append_nil] at this

/-- At a place without a loop. -/
theorem of_reads (hbound : place.bound = place.rank) (hopens : Opens place ls)
    (h : Reads place.rank (place.reader enter) ls e) : Settles enter place ls e := by
  have hgoOn (fuel : Nat) : place.goOn enter fuel e = pure e := by
    cases place <;> first | rfl | cases hbound
  refine ⟨hopens, fun hguard hcont => ?_⟩
  rw [hbound] at hguard
  have hread := h.bind hguard (hgoOn _ ▸ hcont _ (Nat.le_refl _))
  rwa [bind_pure] at hread

/-- A primary. -/
theorem of_primary (hopens : Opens .path ls) (h : Reads 12 (readPrimary enter) ls e) :
    Settles enter .path ls e :=
  ⟨hopens, fun hguard hcont => h.bind hguard (Reads.get fun _ hlength => hcont _ hlength)⟩

/-- **An operator that groups to the left** joins what is in hand with an operand of the next
tighter place. -/
theorem join (hplace : place.joins? = some join?) {mk : Expr → Expr → Expr}
    (hl : ∀ t : Token, t.Is l → join? t = some mk) (he : Settles enter place ls e)
    (he' : Settles enter place.next lb e') : Settles enter place (ls ++ l :: lb) (mk e e') := by
  obtain ⟨hreader, hgoOn, hbound, hnext⟩ := Place.reader_of_joins? enter hplace
  have hgrip : l.token.grip = place.rank :=
    Place.grip_of_joins? hplace (hl l.token ⟨rfl, rfl⟩)
  refine ⟨he.opens.append _, fun {q ls' b} hguard hcont => ?_⟩
  rw [List.append_assoc, List.cons_append]
  have hloop : Guard place.bound q (l :: (lb ++ ls')) := by
    rw [Guard, hgrip, hbound]
    exact Nat.lt_succ_self _
  refine he.reads hloop fun fuel hfuel => ?_
  obtain ⟨fuel, rfl⟩ := Nat.exists_eq_add_one.mpr (Nat.zero_lt_of_lt hfuel)
  have hlength : ls'.length ≤ fuel := by
    rw [List.length_cons, List.length_append] at hfuel
    omega
  rw [hgoOn]
  refine Reads.current (fun t => join? t = some mk) hl fun t ht => ?_
  rw [ht]
  refine Reads.advance fun _ _ => he'.plain.bind ?_ (hgoOn ▸ hcont fuel hlength)
  rwa [hnext, ← hbound]

/-- What settles at the next tighter place settles at this one. -/
theorem loosen (h : Settles enter place.next ls e) : Settles enter place ls e := by
  have hnext : place.rank ≤ place.next.rank := by
    cases place <;> decide
  have hopens := h.opens.mono hnext
  cases hj : place.joins? with
  | some join? =>
      obtain ⟨hreader, hgoOn, hbound, hrank⟩ := Place.reader_of_joins? enter hj
      refine ⟨hopens, fun hguard hcont => ?_⟩
      rw [hreader]
      rw [hbound, ← hrank] at hguard
      exact h.plain.bind hguard (Reads.get fun _ hlength => hgoOn ▸ hcont _ hlength)
  | none =>
      cases place <;> cases hj
      · exact of_reads rfl hopens (h.plain.negation
          (h.opens.first fun hl t ht => (ht.isWord _).trans (hl.2.1 (by decide))))
      · exact of_reads rfl hopens h.plain.comparison
      · exact of_reads rfl hopens (h.plain.unary
          (h.opens.first fun hl t ht heq => hl.2.2 (by decide) (ht.1.symm.trans heq)))
      · exact h

/-- What settles at a place settles at the looser ones. -/
theorem climb (h : Settles enter place ls e) (place' : Place) (hle : place'.rank ≤ place.rank) :
    Settles enter place' ls e := by
  by_cases heq : place' = place
  · exact heq ▸ h
  · have hnext : place'.next.rank ≤ place.rank := by
      revert heq hle
      cases place' <;> cases place <;> decide
    have hlt : place'.rank < place'.next.rank := by
      revert heq hle
      cases place' <;> cases place <;> decide
    have hpath : place.rank ≤ 11 := by cases place <;> decide
    exact (h.climb place'.next hnext).loosen
termination_by 11 - place'.rank

end Settles

end Places

end Quarry.Expr
