import Quarry.Proofs.Contracts
import Quarry.Proofs.Lexing
import Quarry.Proofs.InStep

/-!
# Progress — the routines do what the readers do, and pass tokens

The routine that began at a cursor does what the reader does with the tokens from there on, in the
level that has as many levels inside it as are left (`enterFrom`); and on the way it goes forward.
`Reached` says how far a routine has come since it began.  `Mirrors` compares a program with a
reader at a cursor; it goes through both at once, and there is one lemma for each operation.  Every
token that a program passes has been looked at and is not the one for the end, so there is a token
behind it.
-/

namespace Quarry.Expr

variable {α β : Type} {tokens : List Token} {limit : Nat}

/-! ### Tokens that end -/

/-- Of tokens that end the one for the end is the last. -/
theorem Ended.kind_eq_finish : ∀ {tokens : List Token}, Ended tokens → ∀ {i : Nat} {t : Token},
    tokens[i]? = some t → (t.kind = .finish ↔ i + 1 = tokens.length)
  | t :: ts, h, i, u, hu => by
      rw [Ended] at h
      split at h
      case isTrue ht =>
        subst h
        obtain ⟨hi, rfl⟩ := List.getElem?_eq_some_iff.mp hu
        obtain rfl : i = 0 := Nat.lt_one_iff.mp hi
        exact iff_of_true ht rfl
      case isFalse ht =>
        cases i with
        | zero =>
            obtain rfl : t = u := Option.some.inj hu
            have hlength : ts.length ≠ 0 := fun hnil => by
              rw [List.eq_nil_of_length_eq_zero hnil] at h
              exact h
            rw [List.length_cons]
            exact iff_of_false ht (by omega)
        | succ i =>
            rw [Ended.kind_eq_finish h (List.getElem?_cons_succ ▸ hu), List.length_cons]
            omega

/-- There is a token behind every token that is not the one for the end. -/
theorem Ended.lt_length (h : Ended tokens) {i : Nat} {t : Token} (ht : tokens[i]? = some t)
    (hne : t.kind ≠ .finish) : i + 1 < tokens.length := by
  obtain ⟨hi, -⟩ := List.getElem?_eq_some_iff.mp ht
  have hlast : i + 1 ≠ tokens.length := fun hlast => hne ((h.kind_eq_finish ht).mpr hlast)
  omega

theorem Ended.ne_nil (h : Ended tokens) : tokens ≠ [] := by
  rintro rfl
  exact h

theorem Token.kind_ne_finish_of_isWord {t : Token} {word : String} (h : t.isWord word = true) :
    t.kind ≠ .finish := by
  rw [isWord, Bool.and_eq_true, decide_eq_true_eq] at h
  rw [h.1]
  decide

theorem drop_of_getElem? {i : Nat} {t : Token} (h : tokens[i]? = some t) :
    tokens.drop i = t :: tokens.drop (i + 1) := by
  obtain ⟨hi, rfl⟩ := List.getElem?_eq_some_iff.mp h
  exact List.drop_eq_getElem_cons hi

/-- The class of the token after the next one, or of the last. -/
theorem peekKind_drop {i : Nat} {u : Token} (hi : i < tokens.length)
    (hu : tokens[min (i + 1) (tokens.length - 1)]? = some u) :
    peekKind (tokens.drop i) = .ok (u.kind, tokens.drop i) := by
  rw [drop_of_getElem? (List.getElem?_eq_getElem hi)]
  rcases Nat.lt_or_ge (i + 1) tokens.length with hnext | hlast
  · rw [Nat.min_eq_left (by omega)] at hu
    rw [drop_of_getElem? hu]
    rfl
  · rw [Nat.min_eq_right (by omega), show tokens.length - 1 = i by omega,
      List.getElem?_eq_getElem hi] at hu
    rw [List.drop_eq_nil_of_le hlast]
    obtain rfl := Option.some.inj hu
    rfl

/-! ### Levels -/

/-- What the readers enter when `nesting` levels have been entered. -/
def enterFrom (limit nesting : Nat) : Except Fault Level :=
  enterAt limit (limit - nesting)

theorem enterFrom_of_lt {nesting : Nat} (h : limit < nesting + 1) :
    enterFrom limit nesting = .error (.tooDeep limit) := by
  rw [enterFrom, Nat.sub_eq_zero_of_le (Nat.lt_succ_iff.mp h), enterAt]

theorem enterFrom_of_le {nesting : Nat} (h : nesting + 1 ≤ limit) :
    enterFrom limit nesting = .ok (.around (enterFrom limit (nesting + 1))) := by
  rw [enterFrom, enterFrom, show limit - nesting = limit - (nesting + 1) + 1 by omega, enterAt,
    at_eq_around]

/-! ### The contract -/

namespace Routine

/-- The reader of a routine; `fuel` bounds the repetitions. -/
def reader (enter : Except Fault Level) (fuel : Nat) : (r : Routine) → r.Argument → Reader r.Result
  | whole, _ => do
      let e ← readPipe enter
      let _ ← Expr.expect .finish
      return e
  | place p, _ => p.reader enter
  | goOn p, e => p.goOn enter fuel e
  | primary, _ => readPrimary enter
  | array, _ => readArray enter
  | object, _ => readObject enter
  | conditional, _ => readConditional enter
  | named, _ => readNamed enter
  | moreItems, _ => Expr.moreItems (readPipe enter) fuel
  | entries, _ => readEntries (.around enter) fuel
  | branches, _ => readBranches (.around enter) fuel

/-- How many tokens a routine passes at least; repetitions may have nothing to go on with. -/
def stride : Routine → Nat
  | goOn _ | moreItems | entries | branches => 0
  | _ => 1

end Routine

/-- Since `start`, `levels` levels have been entered and at least `passed` tokens passed. -/
structure Reached (tokens : List Token) (limit : Nat) (start : Cursor) (levels passed : Nat)
    (c : Cursor) : Prop extends c.Ready tokens limit where
  levels : c.nesting = start.nesting + levels
  passed : start.index + passed ≤ c.index

namespace Reached

variable {start c : Cursor} {levels passed : Nat}

theorem refl (h : c.Ready tokens limit) : Reached tokens limit c 0 0 c :=
  ⟨h, rfl, Nat.le_refl _⟩

theorem next (h : Reached tokens limit start levels passed c)
    (hinside : c.index + 1 < tokens.length) :
    Reached tokens limit start levels (passed + 1) ⟨c.index + 1, c.nesting⟩ :=
  ⟨⟨hinside, h.nesting⟩, h.levels, Nat.succ_le_succ h.passed⟩

theorem trans (h : Reached tokens limit start levels passed c) {c' : Cursor} {more : Nat}
    (h' : Reached tokens limit c 0 more c') :
    Reached tokens limit start levels (passed + more) c' :=
  ⟨h'.toReady, h'.levels.trans h.levels, by have := h.passed; have := h'.passed; omega⟩

/-- A routine may be called once a token has been passed, or if it has a lower rank. -/
theorem below (h : Reached tokens limit start levels passed c) {r callee : Routine}
    (hbelow : 0 < passed ∨ callee.rank < r.rank) : Call.Below ⟨callee, c⟩ ⟨r, start⟩ := by
  have hpassed := h.passed
  rcases hbelow with hpositive | hrank
  · exact .inl (show start.index < c.index by omega)
  · rcases Nat.lt_or_eq_of_le (show start.index ≤ c.index by omega) with hlt | heq
    · exact .inl hlt
    · exact .inr ⟨heq, hrank⟩

theorem weaken (h : Reached tokens limit start levels passed c) {fewer : Nat}
    (hle : fewer ≤ passed) : Reached tokens limit start levels fewer c :=
  ⟨h.toReady, h.levels, Nat.le_trans (Nat.add_le_add_left hle _) h.passed⟩

end Reached

/-- The fuel of a repetition is enough for another one when a token has been passed. -/
theorem Cursor.Ready.exists_fuel {start : Cursor} {fuel : Nat} (h : start.Ready tokens limit)
    (hfuel : tokens.length - start.index ≤ fuel) :
    ∃ less, fuel = less + 1 ∧ ∀ {levels passed : Nat} {c : Cursor},
      Reached tokens limit start levels (passed + 1) c → tokens.length - c.index ≤ less := by
  have hinside := h.inside
  refine ⟨fuel - 1, by omega, fun hreached => ?_⟩
  have hpassed := hreached.passed
  omega

/-- Where routines call each other.  The one of names passes the next token without asking, and so
that has to be a word; the one of whole texts is not called. -/
def Routine.Callable (tokens : List Token) : Routine → Cursor → Prop
  | .whole, _ => False
  | .named, start => ∃ t, tokens[start.index]? = some t ∧ t.kind = .word
  | _, _ => True

/-- Where a routine stands when it returns: it has left the levels that it entered and passed its
tokens, and there is a next one; but the routine of whole texts has passed them all. -/
def Routine.Lands (tokens : List Token) (limit : Nat) (start : Cursor) :
    Routine → Cursor → Prop
  | .whole, c => c = ⟨tokens.length, start.nesting⟩
  | r, c => Reached tokens limit start 0 r.stride c

theorem Routine.Callable.lands_eq {r : Routine} {start c : Cursor} (h : r.Callable tokens start) :
    r.Lands tokens limit start c = Reached tokens limit start 0 r.stride c := by
  cases r with
  | whole => exact h.elim
  | _ => rfl

/-- Every routine does what its reader does with the tokens from there on, whatever fuel beyond
the number of tokens the reader has. -/
def reading (tokens : List Token) (limit : Nat) : Contract where
  Admits r start := r = .whole ∨ r.Callable tokens start
  Returns r x start b c := ∀ extra,
    r.reader (enterFrom limit start.nesting) (tokens.length - start.index + extra) x
      (tokens.drop start.index) = .ok (b, tokens.drop c.index) ∧ r.Lands tokens limit start c
  Fails r x start fault := ∀ extra,
    r.reader (enterFrom limit start.nesting) (tokens.length - start.index + extra) x
      (tokens.drop start.index) = .error fault

/-- From `c` the program `p` does what the reader `x` does with the tokens from there on, and ends
with a result and a cursor that have `Q`. -/
def Mirrors (tokens : List Token) (limit : Nat) (caller : Call) (Q : α → Cursor → Prop)
    (p : Program α) (x : Reader α) (c : Cursor) : Prop :=
  Meets tokens limit (reading tokens limit) caller
    (fun a c' => x (tokens.drop c.index) = .ok (a, tokens.drop c'.index) ∧ Q a c')
    (fun fault => x (tokens.drop c.index) = .error fault) p c

namespace Mirrors

variable {r : Routine} {start c : Cursor} {levels passed : Nat} {Q : α → Cursor → Prop}
  {R : β → Cursor → Prop} {p : Program α} {x y : Reader α} {f : α → Program β} {g : α → Reader β}

/-- Readers that do the same with the tokens are mirrored alike. -/
theorem congr {caller : Call} (h : Mirrors tokens limit caller Q p y c)
    (hxy : x (tokens.drop c.index) = y (tokens.drop c.index)) :
    Mirrors tokens limit caller Q p x c := by
  unfold Mirrors
  rw [hxy]
  exact h

theorem pure {caller : Call} {a : α} (h : Q a c) :
    Mirrors tokens limit caller Q (Pure.pure a) (Pure.pure a) c :=
  ⟨rfl, h⟩

theorem refuse {caller : Call} (cause : ExprFault) :
    Mirrors tokens limit caller Q (Program.refuse cause) (Expr.refuse cause) c :=
  rfl

theorem bind {caller : Call} (h : Mirrors tokens limit caller Q p x c)
    (hf : ∀ a c', Q a c' → Mirrors tokens limit caller R (f a) (g a) c') :
    Mirrors tokens limit caller R (p >>= f) (x >>= g) c := by
  refine Meets.bind h (fun a c' ha => ?_) fun fault hfault => RunsAlike.bind_of_error hfault
  rw [RunsAlike.bind_of_ok ha.1]
  exact hf a c' ha.2

/-! ### Operations -/

/-- Looking at the next token. -/
theorem current_bind {f : Token → Program β} {g : Token → Reader β}
    (hreached : Reached tokens limit start levels passed c)
    (hf : ∀ t, tokens[c.index]? = some t → Mirrors tokens limit ⟨r, start⟩ R (f t) (g t) c) :
    Mirrors tokens limit ⟨r, start⟩ R (Program.current >>= f) (Expr.current >>= g) c := by
  refine ⟨hreached.inside, fun t ht => (hf t ht).congr ?_⟩
  rw [drop_of_getElem? ht, RunsAlike.bind_of_ok (current_cons t _)]

/-- Looking at the token after the next one, which the program does later than the reader. -/
theorem peekKind_bind {g : TokenKind → Reader α}
    (hreached : Reached tokens limit start levels passed c)
    (hg : ∀ u, tokens[min (c.index + 1) (tokens.length - 1)]? = some u →
      Mirrors tokens limit ⟨r, start⟩ Q p (g u.kind) c) :
    Mirrors tokens limit ⟨r, start⟩ Q p (peekKind >>= g) c := by
  have hinside := hreached.inside
  have hlt : min (c.index + 1) (tokens.length - 1) < tokens.length := by omega
  have htoken := List.getElem?_eq_getElem hlt
  exact (hg _ htoken).congr (RunsAlike.bind_of_ok (peekKind_drop hinside htoken))

theorem peek_bind {f : Token → Program α} {u : Token}
    (hu : tokens[min (c.index + 1) (tokens.length - 1)]? = some u)
    (hf : Mirrors tokens limit ⟨r, start⟩ Q (f u) x c) :
    Mirrors tokens limit ⟨r, start⟩ Q (Program.peek >>= f) x c := by
  refine ⟨(List.getElem?_eq_some_iff.mp hu).1, fun t ht => ?_⟩
  obtain rfl : u = t := Option.some.inj (hu.symm.trans ht)
  exact hf

/-- Passing a token that has been looked at. -/
theorem advance {Q : Token → Cursor → Prop} (hreached : Reached tokens limit start levels passed c)
    {t : Token} (ht : tokens[c.index]? = some t) (hQ : Q t ⟨c.index + 1, c.nesting⟩) :
    Mirrors tokens limit ⟨r, start⟩ Q Program.advance Expr.advance c := by
  refine ⟨hreached.inside, fun u hu => ?_⟩
  obtain rfl : t = u := Option.some.inj (ht.symm.trans hu)
  refine ⟨?_, hQ⟩
  rw [drop_of_getElem? ht]
  rfl

theorem advance_bind {f : Token → Program β} {g : Token → Reader β} (hended : Ended tokens)
    (hreached : Reached tokens limit start levels passed c) {t : Token}
    (ht : tokens[c.index]? = some t) (hne : t.kind ≠ .finish)
    (hf : Reached tokens limit start levels (passed + 1) ⟨c.index + 1, c.nesting⟩ →
      Mirrors tokens limit ⟨r, start⟩ R (f t) (g t) ⟨c.index + 1, c.nesting⟩) :
    Mirrors tokens limit ⟨r, start⟩ R (Program.advance >>= f) (Expr.advance >>= g) c := by
  refine Mirrors.bind (Q := fun u c' => u = t ∧ c' = ⟨c.index + 1, c.nesting⟩)
    (advance hreached ht ⟨rfl, rfl⟩) ?_
  rintro _ _ ⟨rfl, rfl⟩
  exact hf (hreached.next (hended.lt_length ht hne))

/-- Passing a token of whose class the reader asks once more. -/
theorem advance_expect_bind {f : Token → Program β} {g : Token → Reader β} (hended : Ended tokens)
    (hreached : Reached tokens limit start levels passed c) {t : Token} {kind : TokenKind}
    (ht : tokens[c.index]? = some t) (hkind : t.kind = kind) (hne : kind ≠ .finish)
    (hf : ∀ c, Reached tokens limit start levels (passed + 1) c →
      Mirrors tokens limit ⟨r, start⟩ R (f t) (g t) c) :
    Mirrors tokens limit ⟨r, start⟩ R (Program.advance >>= f) (Expr.expect kind >>= g) c := by
  refine (advance_bind hended hreached ht (hkind ▸ hne) (hf _)).congr ?_
  have hexpect := expect_cons kind t (tokens.drop (c.index + 1))
  rw [if_pos hkind] at hexpect
  rw [drop_of_getElem? ht, RunsAlike.bind_of_ok hexpect]
  rfl

/-- Passing a token of a class. -/
theorem expect_bind {f : Token → Program β} {g : Token → Reader β} {kind : TokenKind}
    (hended : Ended tokens) (hne : kind ≠ .finish)
    (hreached : Reached tokens limit start levels passed c)
    (hf : ∀ t c, Reached tokens limit start levels (passed + 1) c →
      Mirrors tokens limit ⟨r, start⟩ R (f t) (g t) c) :
    Mirrors tokens limit ⟨r, start⟩ R (Program.expect kind >>= f) (Expr.expect kind >>= g) c := by
  refine Mirrors.bind (current_bind hreached fun t ht => ?_) hf
  split
  case isTrue hkind =>
    exact advance hreached ht (hreached.next (hended.lt_length ht (hkind ▸ hne)))
  case isFalse => exact refuse _

/-- Passing the token for the end, behind which there is nothing. -/
theorem expect_finish_bind {f : Token → Program β} {g : Token → Reader β} (hended : Ended tokens)
    (hreached : Reached tokens limit start levels passed c)
    (hf : ∀ t, Mirrors tokens limit ⟨r, start⟩ R (f t) (g t) ⟨tokens.length, c.nesting⟩) :
    Mirrors tokens limit ⟨r, start⟩ R (Program.expect .finish >>= f)
      (Expr.expect .finish >>= g) c := by
  refine Mirrors.bind (Q := fun _ c' => c' = ⟨tokens.length, c.nesting⟩)
    (current_bind hreached fun t ht => ?_) fun t _ h => h ▸ hf t
  split
  case isTrue hfinish =>
    refine advance hreached ht ?_
    rw [(hended.kind_eq_finish ht).mp hfinish]
  case isFalse => exact refuse _

/-- Passing a token if it is of a class. -/
theorem accept?_bind {f : Bool → Program β} {g : Bool → Reader β} {kind : TokenKind}
    (hended : Ended tokens) (hne : kind ≠ .finish)
    (hreached : Reached tokens limit start levels passed c)
    (htrue : ∀ c, Reached tokens limit start levels (passed + 1) c →
      Mirrors tokens limit ⟨r, start⟩ R (f true) (g true) c)
    (hfalse : Mirrors tokens limit ⟨r, start⟩ R (f false) (g false) c) :
    Mirrors tokens limit ⟨r, start⟩ R (Program.accept? kind >>= f) (Expr.accept? kind >>= g) c := by
  refine Mirrors.bind (Q := fun b c' => if b then
    Reached tokens limit start levels (passed + 1) c' else c' = c)
    (current_bind hreached fun t ht => ?_) fun b c' h => ?_
  · split
    case isTrue hkind => exact advance_bind hended hreached ht (hkind ▸ hne) fun h => pure h
    case isFalse => exact pure rfl
  · cases b with
    | true => exact htrue c' h
    | false =>
        obtain rfl : c' = c := h
        exact hfalse

/-- Passing a word. -/
theorem expectWord_bind {f : Unit → Program β} {g : Unit → Reader β} {word : String}
    (hended : Ended tokens) (hreached : Reached tokens limit start levels passed c)
    (hf : ∀ c, Reached tokens limit start levels (passed + 1) c →
      Mirrors tokens limit ⟨r, start⟩ R (f ()) (g ()) c) :
    Mirrors tokens limit ⟨r, start⟩ R (Program.expectWord word >>= f)
      (Expr.expectWord word >>= g) c := by
  refine Mirrors.bind (current_bind hreached fun t ht => ?_) fun _ => hf
  split
  case isTrue hword =>
    exact advance_bind hended hreached ht (Token.kind_ne_finish_of_isWord hword)
      fun h => pure h
  case isFalse => exact refuse _

/-- A result that may be a fault. -/
theorem attempt_bind {y : Except Fault α} {f : α → Program β} {g : α → Reader β}
    (hf : ∀ a, Mirrors tokens limit ⟨r, start⟩ R (f a) (g a) c) :
    Mirrors tokens limit ⟨r, start⟩ R (Program.attempt y >>= f) (liftM y >>= g) c := by
  cases y with
  | ok a => exact hf a
  | error fault => exact RunsAlike.bind_of_error rfl

/-- Entering a level. -/
theorem enter_bind {f : Unit → Program β} {g : Level → Reader β}
    (hreached : Reached tokens limit start 0 passed c)
    (hf : ∀ c, Reached tokens limit start 1 passed c →
      Mirrors tokens limit ⟨r, start⟩ R (f ())
        (g (.around (enterFrom limit (start.nesting + 1)))) c) :
    Mirrors tokens limit ⟨r, start⟩ R (Program.enter >>= f)
      (liftM (enterFrom limit start.nesting) >>= g) c := by
  have hnesting : c.nesting = start.nesting := hreached.levels
  refine ⟨fun hlimit => ?_, fun hlimit => ?_⟩
  · rw [enterFrom_of_lt (hnesting ▸ hlimit)]
    exact RunsAlike.bind_of_error rfl
  · rw [enterFrom_of_le (hnesting ▸ hlimit)]
    exact hf ⟨c.index, c.nesting + 1⟩
      ⟨⟨hreached.inside, hlimit⟩, congrArg (· + 1) hnesting, hreached.passed⟩

/-- Leaving a level. -/
theorem leave_bind {f : Unit → Program α} (hreached : Reached tokens limit start 1 passed c)
    (hf : ∀ c, Reached tokens limit start 0 passed c →
      Mirrors tokens limit ⟨r, start⟩ Q (f ()) x c) :
    Mirrors tokens limit ⟨r, start⟩ Q (Program.leave >>= f) x c := by
  have hnesting : start.nesting ≤ limit := by
    have := hreached.nesting
    have := hreached.levels
    omega
  exact ⟨start.nesting, hreached.levels, hf ⟨c.index, start.nesting⟩
    ⟨⟨hreached.inside, hnesting⟩, rfl, hreached.passed⟩⟩

/-- How many tokens are left is only asked by readers. -/
theorem get_bind {g : List Token → Reader α}
    (h : Mirrors tokens limit ⟨r, start⟩ Q p (g (tokens.drop c.index)) c) :
    Mirrors tokens limit ⟨r, start⟩ Q p (get >>= g) c :=
  h.congr (RunsAlike.bind_of_ok rfl)

/-! ### Calls -/

/-- Calling a routine, in the level of the caller or in the one inside. -/
theorem call {callee : Routine} {x : callee.Argument} {Q : callee.Result → Cursor → Prop}
    {fuel nesting : Nat} (hreached : Reached tokens limit start levels passed c)
    (hnesting : start.nesting + levels = nesting) (hcallee : callee.Callable tokens c)
    (hbelow : 0 < passed ∨ callee.rank < r.rank) (hfuel : tokens.length - c.index ≤ fuel)
    (hQ : ∀ b c', Reached tokens limit start levels (passed + callee.stride) c' → Q b c') :
    Mirrors tokens limit ⟨r, start⟩ Q (Program.call callee x)
      (callee.reader (enterFrom limit nesting) fuel x) c := by
  obtain ⟨extra, rfl⟩ := Nat.exists_eq_add_of_le hfuel
  obtain rfl : c.nesting = nesting := hreached.levels.trans hnesting
  refine ⟨⟨hreached.toReady, .inr hcallee⟩, hreached.below hbelow, fun b c' h => ?_,
    fun fault h => h extra⟩
  obtain ⟨hreader, hlands⟩ := h extra
  exact ⟨hreader, hQ b c' (hreached.trans (hcallee.lands_eq ▸ hlands))⟩

theorem call_bind {callee : Routine} {x : callee.Argument} {f : callee.Result → Program β}
    {g : callee.Result → Reader β} {fuel nesting : Nat}
    (hreached : Reached tokens limit start levels passed c)
    (hnesting : start.nesting + levels = nesting) (hcallee : callee.Callable tokens c)
    (hbelow : 0 < passed ∨ callee.rank < r.rank) (hfuel : tokens.length - c.index ≤ fuel)
    (hf : ∀ b c, Reached tokens limit start levels (passed + callee.stride) c →
      Mirrors tokens limit ⟨r, start⟩ R (f b) (g b) c) :
    Mirrors tokens limit ⟨r, start⟩ R (Program.call callee x >>= f)
      (callee.reader (enterFrom limit nesting) fuel x >>= g) c :=
  (call hreached hnesting hcallee hbelow hfuel fun _ _ => id).bind hf

/-- Calling the routine of a place. -/
theorem callPlace {place : Place} {Q : Expr → Cursor → Prop} {nesting : Nat}
    (hreached : Reached tokens limit start levels passed c)
    (hnesting : start.nesting + levels = nesting)
    (hbelow : 0 < passed ∨ (Routine.place place).rank < r.rank)
    (hQ : ∀ e c, Reached tokens limit start levels (passed + 1) c → Q e c) :
    Mirrors tokens limit ⟨r, start⟩ Q (Program.callPlace place)
      (place.reader (enterFrom limit nesting)) c := by
  have hcallee : (Routine.place place).Callable tokens c := trivial
  exact call hreached hnesting hcallee hbelow (Nat.le_refl _) hQ

theorem callPlace_bind {place : Place} {f : Expr → Program β} {g : Expr → Reader β} {nesting : Nat}
    (hreached : Reached tokens limit start levels passed c)
    (hnesting : start.nesting + levels = nesting)
    (hbelow : 0 < passed ∨ (Routine.place place).rank < r.rank)
    (hf : ∀ e c, Reached tokens limit start levels (passed + 1) c →
      Mirrors tokens limit ⟨r, start⟩ R (f e) (g e) c) :
    Mirrors tokens limit ⟨r, start⟩ R (Program.callPlace place >>= f)
      (place.reader (enterFrom limit nesting) >>= g) c :=
  (callPlace hreached hnesting hbelow fun _ _ => id).bind hf

end Mirrors

end Quarry.Expr
