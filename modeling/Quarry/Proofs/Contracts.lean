import Quarry.Proofs.Routines

/-!
# Contracts — routines that keep their promises end inside the tokens

A contract says where every routine may be called, what it returns then, and with which faults it
fails.  `Meets` is the weakest precondition of a program under a contract: calls are answered by the
contract, every token that is read is there, and every routine that is called is `Below` its caller.
That is, a token has been passed since the caller began, or the routine has a lower rank.

Let every body meet its contract (`Contract.Upheld`).  Then what holds of a moment in a run holds of
the next one (`Config.kept_step`), so no run goes astray (`kept_configAfter`).  And a run ends
(`halts`): a program is smaller after every step that is no call, and calls go down.
-/

namespace Quarry.Expr

variable {α β : Type} {tokens : List Token} {limit : Nat}

/-- There is a next token, and no more levels have been entered than there are. -/
structure Cursor.Ready (tokens : List Token) (limit : Nat) (c : Cursor) : Prop where
  inside : c.index < tokens.length
  nesting : c.nesting ≤ limit

/-! ### Calls go down -/

/-- The call `inner` began behind `outer`, or where `outer` began and with a lower rank. -/
def Call.Below (inner outer : Call) : Prop :=
  outer.start.index < inner.start.index ∨
    outer.start.index = inner.start.index ∧ inner.routine.rank < outer.routine.rank

/-- What bounds the calls below a call. -/
def Call.measure (tokens : List Token) (call : Call) : Nat :=
  (tokens.length - call.start.index) * 14 + call.routine.rank

theorem Routine.rank_lt (r : Routine) : r.rank < 14 := by
  cases r with
  | place p => cases p <;> decide
  | _ => exact of_decide_eq_true rfl

namespace Call.Below

variable {inner middle outer : Call}

theorem trans (h : inner.Below middle) (h' : middle.Below outer) : inner.Below outer := by
  unfold Below at *
  omega

/-- A routine that is active twice has passed a token in between. -/
theorem passed (h : inner.Below outer) (heq : inner.routine = outer.routine) :
    outer.start.index < inner.start.index := by
  rcases h with h | ⟨_, h⟩
  · exact h
  · rw [heq] at h
    exact absurd h (Nat.lt_irrefl _)

theorem measure_lt (h : inner.Below outer) (hinside : inner.start.index < tokens.length) :
    inner.measure tokens < outer.measure tokens := by
  have hrank := inner.routine.rank_lt
  unfold Below at h
  unfold measure
  omega

end Call.Below

/-! ### Contracts -/

/-- Where the routines may be called, what they return, where they stand then, and what they fail
with. -/
structure Contract where
  Admits (r : Routine) (start : Cursor) : Prop
  Returns (r : Routine) (x : r.Argument) (start : Cursor) : r.Result → Cursor → Prop
  Fails (r : Routine) (x : r.Argument) (start : Cursor) : Fault → Prop

/-- Under the contract `K` a program in the call `caller` ends with a result and a cursor that have
`Q`, or with a fault that has `E`. -/
def Meets (tokens : List Token) (limit : Nat) (K : Contract) (caller : Call)
    (Q : α → Cursor → Prop) (E : Fault → Prop) : Program α → Cursor → Prop
  | .done a, c => Q a c
  | .fail fault, _ => E fault
  | .onCurrent next, c =>
      c.index < tokens.length ∧
        ∀ t, tokens[c.index]? = some t → Meets tokens limit K caller Q E (next t) c
  | .onPeek next, c =>
      min (c.index + 1) (tokens.length - 1) < tokens.length ∧
        ∀ t, tokens[min (c.index + 1) (tokens.length - 1)]? = some t →
          Meets tokens limit K caller Q E (next t) c
  | .onPass next, c => Meets tokens limit K caller Q E next ⟨c.index + 1, c.nesting⟩
  | .onEnter next, c =>
      (limit < c.nesting + 1 → E (.tooDeep limit)) ∧
        (c.nesting + 1 ≤ limit → Meets tokens limit K caller Q E next ⟨c.index, c.nesting + 1⟩)
  | .onLeave next, c =>
      ∃ nesting, c.nesting = nesting + 1 ∧ Meets tokens limit K caller Q E next ⟨c.index, nesting⟩
  | .onCall r x next, c =>
      (c.Ready tokens limit ∧ K.Admits r c) ∧ Call.Below ⟨r, c⟩ caller ∧
        (∀ b c', K.Returns r x c b c' → Meets tokens limit K caller Q E (next b) c') ∧
          ∀ fault, K.Fails r x c fault → E fault

namespace Meets

variable {K : Contract} {caller : Call} {Q : α → Cursor → Prop} {R : β → Cursor → Prop}
  {E E' : Fault → Prop} {c : Cursor}

/-- A program and what follows with its result. -/
theorem bind {p : Program α} {f : α → Program β} (h : Meets tokens limit K caller Q E p c)
    (hf : ∀ a c, Q a c → Meets tokens limit K caller R E' (f a) c)
    (hE : ∀ fault, E fault → E' fault) : Meets tokens limit K caller R E' (p >>= f) c := by
  induction p generalizing c with
  | done a => exact hf a c h
  | fail fault => exact hE fault h
  | onCurrent next ih => exact ⟨h.1, fun t ht => ih t (h.2 t ht)⟩
  | onPeek next ih => exact ⟨h.1, fun t ht => ih t (h.2 t ht)⟩
  | onPass next ih => exact ih h
  | onEnter next ih => exact ⟨fun hn => hE _ (h.1 hn), fun hn => ih (h.2 hn)⟩
  | onLeave next ih =>
      obtain ⟨nesting, hn, h⟩ := h
      exact ⟨nesting, hn, ih h⟩
  | onCall r x next ih =>
      obtain ⟨hready, hbelow, hreturns, hfails⟩ := h
      exact ⟨hready, hbelow, fun b c' hb => ih b (hreturns b c' hb),
        fun fault hfault => hE fault (hfails fault hfault)⟩

/-- What a program ends with for every `i` it ends with for all of them. -/
theorem all {ι : Type} [Nonempty ι] {Q : ι → α → Cursor → Prop} {E : ι → Fault → Prop}
    {p : Program α} (h : ∀ i, Meets tokens limit K caller (Q i) (E i) p c) :
    Meets tokens limit K caller (fun a c => ∀ i, Q i a c) (fun fault => ∀ i, E i fault) p c := by
  obtain ⟨i⟩ := ‹Nonempty ι›
  induction p generalizing c with
  | done a => exact h
  | fail fault => exact h
  | onCurrent next ih => exact ⟨(h i).1, fun t ht => ih t fun i => (h i).2 t ht⟩
  | onPeek next ih => exact ⟨(h i).1, fun t ht => ih t fun i => (h i).2 t ht⟩
  | onPass next ih => exact ih h
  | onEnter next ih => exact ⟨fun hn i => (h i).1 hn, fun hn => ih fun i => (h i).2 hn⟩
  | onLeave next ih =>
      obtain ⟨nesting, hn, -⟩ := h i
      refine ⟨nesting, hn, ih fun j => ?_⟩
      obtain ⟨nesting', hn', h⟩ := h j
      obtain rfl : nesting' = nesting := by omega
      exact h
  | onCall r x next ih =>
      exact ⟨(h i).1, (h i).2.1, fun b c' hb => ih b fun i => (h i).2.2.1 b c' hb,
        fun fault hfault i => (h i).2.2.2 fault hfault⟩

end Meets

/-- Every routine does what the contract says. -/
def Contract.Upheld (tokens : List Token) (limit : Nat) (K : Contract) : Prop :=
  ∀ (r : Routine) (x : r.Argument) (c : Cursor), c.Ready tokens limit → K.Admits r c →
    Meets tokens limit K ⟨r, c⟩ (K.Returns r x c) (K.Fails r x c) (r.body x) c

/-! ### What holds throughout a run -/

/-- The callers of the routine `r`, which was given `x` at `start`, go on as they have to whatever
the contract lets it return. -/
def Stack.Awaits (tokens : List Token) (limit : Nat) (K : Contract) :
    {r : Routine} → Stack r → r.Argument → Cursor → Prop
  | _, .bottom, _, start => start = ⟨0, 0⟩
  | r, @Stack.frame caller _ start' next rest, x, start =>
      Call.Below ⟨r, start⟩ ⟨caller, start'⟩ ∧ ∃ x' : caller.Argument,
        (∀ b c, K.Returns r x start b c → Meets tokens limit K ⟨caller, start'⟩
          (K.Returns caller x' start') (K.Fails caller x' start') (next b) c) ∧
        (∀ fault, K.Fails r x start fault → K.Fails caller x' start' fault) ∧
        rest.Awaits tokens limit K x' start'

namespace Stack.Awaits

variable {K : Contract} {r : Routine} {stack : Stack r} {x : r.Argument} {start : Cursor}

/-- The active calls go down. -/
theorem pairwise (h : stack.Awaits tokens limit K x start) :
    (stack.calls start).Pairwise Call.Below := by
  induction stack generalizing start with
  | bottom => exact List.pairwise_singleton _ _
  | @frame caller callee start' next rest ih =>
      obtain ⟨hbelow, x', -, -, hrest⟩ := h
      obtain ⟨outer, houter⟩ : ∃ outer, rest.calls start' = ⟨caller, start'⟩ :: outer := by
        cases rest <;> exact ⟨_, rfl⟩
      have hpairwise := ih hrest
      rw [houter] at hpairwise
      rw [calls, houter]
      refine List.pairwise_cons.mpr ⟨List.forall_mem_cons.mpr ⟨hbelow, fun call hcall => ?_⟩,
        hpairwise⟩
      exact hbelow.trans ((List.pairwise_cons.mp hpairwise).1 call hcall)

/-- A fault of an inner call is one that the whole may fail with. -/
theorem fails {fault : Fault} (h : stack.Awaits tokens limit K x start)
    (hfault : K.Fails r x start fault) : K.Fails .whole () ⟨0, 0⟩ fault := by
  induction stack generalizing start with
  | bottom =>
      obtain rfl : start = ⟨0, 0⟩ := h
      exact hfault
  | frame start' next rest ih =>
      obtain ⟨-, x', -, hfails, hrest⟩ := h
      exact ih hrest (hfails fault hfault)

end Stack.Awaits

/-- What holds of every moment in a run. -/
def Config.Kept (tokens : List Token) (limit : Nat) (K : Contract) : Config → Prop
  | .running (r := r) start program stack c => c.nesting ≤ limit ∧ ∃ x : r.Argument,
      Meets tokens limit K ⟨r, start⟩ (K.Returns r x start) (K.Fails r x start) program c ∧
        stack.Awaits tokens limit K x start
  | .finished e c => K.Returns .whole () ⟨0, 0⟩ e c
  | .failed fault c => K.Fails .whole () ⟨0, 0⟩ fault ∧
      (c.nesting ≤ limit ∨ fault = .tooDeep limit ∧ c.nesting = limit + 1)
  | .astray => False

variable {K : Contract}

/-- A step keeps what holds. -/
theorem Config.kept_step (hbodies : K.Upheld tokens limit) {config : Config}
    (h : config.Kept tokens limit K) : (step tokens limit config).Kept tokens limit K := by
  cases config with
  | finished e c => exact h
  | failed fault c => exact h
  | astray => exact h.elim
  | running start program stack c =>
      obtain ⟨hnesting, x, hmeets, hstack⟩ := h
      cases program with
      | done result =>
          cases stack with
          | bottom =>
              obtain rfl : start = ⟨0, 0⟩ := hstack
              exact hmeets
          | frame start' next rest =>
              -- the caller goes on with what the contract lets the callee return
              obtain ⟨_, x', hreturns, _, hrest⟩ := hstack
              exact ⟨hnesting, x', hreturns _ _ hmeets, hrest⟩
      | fail fault => exact ⟨hstack.fails hmeets, .inl hnesting⟩
      | onCurrent next =>
          have htoken := List.getElem?_eq_getElem hmeets.1
          simp only [step, htoken]
          exact ⟨hnesting, x, hmeets.2 _ htoken, hstack⟩
      | onPeek next =>
          have htoken := List.getElem?_eq_getElem hmeets.1
          simp only [step, htoken]
          exact ⟨hnesting, x, hmeets.2 _ htoken, hstack⟩
      | onPass next => exact ⟨hnesting, x, hmeets, hstack⟩
      | onEnter next =>
          rw [step]
          split
          case isTrue hlimit =>
            exact ⟨hstack.fails (hmeets.1 hlimit), .inr ⟨rfl, by simp only; omega⟩⟩
          case isFalse hlimit =>
            exact ⟨Nat.not_lt.mp hlimit, x, hmeets.2 (Nat.not_lt.mp hlimit), hstack⟩
      | onLeave next =>
          obtain ⟨nesting, hn, hmeets⟩ := hmeets
          simp only [step, hn]
          exact ⟨by simp only; omega, x, hmeets, hstack⟩
      | onCall r x' next =>
          obtain ⟨hready, hbelow, hreturns, hfails⟩ := hmeets
          exact ⟨hnesting, x', hbodies r x' c hready.1 hready.2, hbelow, x, hreturns, hfails,
            hstack⟩

/-- What holds holds after every number of steps. -/
theorem kept_configAfter (hbodies : K.Upheld tokens limit) (htokens : tokens ≠ [])
    (hwhole : K.Admits .whole ⟨0, 0⟩) (n : Nat) :
    (configAfter tokens limit n).Kept tokens limit K := by
  induction n with
  | zero =>
      have hready : Cursor.Ready tokens limit ⟨0, 0⟩ :=
        ⟨List.length_pos_iff.mpr htokens, Nat.zero_le _⟩
      exact ⟨Nat.zero_le _, (), hbodies .whole () ⟨0, 0⟩ hready hwhole, rfl⟩
  | succ n ih =>
      rw [configAfter, Function.iterate_succ_apply']
      exact Config.kept_step hbodies ih

/-! ### Runs end -/

/-- The run is over. -/
def Config.Halted : Config → Prop
  | .running _ _ _ _ => False
  | _ => True

/-- A run from here ends. -/
def Halts (tokens : List Token) (limit : Nat) (config : Config) : Prop :=
  ∃ n, ((step tokens limit)^[n] config).Halted

theorem halts_of_halted {config : Config} (h : config.Halted) : Halts tokens limit config :=
  ⟨0, h⟩

theorem halts_of_step {config : Config} (h : Halts tokens limit (step tokens limit config)) :
    Halts tokens limit config :=
  h.imp' (· + 1) fun _ hn => hn

/-- A program ends if the calls below its caller do, and what waits for its result does. -/
theorem halts_of_meets {r : Routine} {start c : Cursor} {stack : Stack r}
    {Q : r.Result → Cursor → Prop} {E : Fault → Prop} {program : Program r.Result}
    (hmeets : Meets tokens limit K ⟨r, start⟩ Q E program c)
    (hcalls : ∀ {r' : Routine} (x' : r'.Argument) (c' : Cursor) (stack' : Stack r'),
      c'.Ready tokens limit → K.Admits r' c' → Call.Below ⟨r', c'⟩ ⟨r, start⟩ →
      (∀ b c'', K.Returns r' x' c' b c'' →
        Halts tokens limit (.running c' (.done b) stack' c'')) →
      Halts tokens limit (.running c' (r'.body x') stack' c'))
    (hstack : ∀ b c, Q b c → Halts tokens limit (.running start (.done b) stack c)) :
    Halts tokens limit (.running start program stack c) := by
  induction program generalizing c with
  | done b => exact hstack b c hmeets
  | fail fault => exact halts_of_step (halts_of_halted trivial)
  | onCurrent next ih =>
      have htoken := List.getElem?_eq_getElem hmeets.1
      refine halts_of_step ?_
      simp only [step, htoken]
      exact ih _ (hmeets.2 _ htoken)
  | onPeek next ih =>
      have htoken := List.getElem?_eq_getElem hmeets.1
      refine halts_of_step ?_
      simp only [step, htoken]
      exact ih _ (hmeets.2 _ htoken)
  | onPass next ih => exact halts_of_step (ih hmeets)
  | onEnter next ih =>
      refine halts_of_step ?_
      rw [step]
      split
      case isTrue => exact halts_of_halted trivial
      case isFalse hlimit => exact ih (hmeets.2 (Nat.not_lt.mp hlimit))
  | onLeave next ih =>
      obtain ⟨nesting, hn, hmeets⟩ := hmeets
      refine halts_of_step ?_
      simp only [step, hn]
      exact ih hmeets
  | onCall r' x' next ih =>
      obtain ⟨hready, hbelow, hreturns, _⟩ := hmeets
      -- when the callee has returned, the rest of the program is left
      refine halts_of_step (hcalls x' c _ hready.1 hready.2 hbelow fun b c' hb => ?_)
      exact halts_of_step (ih b (hreturns b c' hb))

/-- A call ends if what waits for its result does. -/
theorem halts_of_call (hbodies : K.Upheld tokens limit) {r : Routine} (x : r.Argument)
    (c : Cursor) (stack : Stack r) (hready : c.Ready tokens limit) (hadmits : K.Admits r c)
    (hstack : ∀ b c', K.Returns r x c b c' →
      Halts tokens limit (.running c (.done b) stack c')) :
    Halts tokens limit (.running c (r.body x) stack c) := by
  induction hm : Call.measure tokens ⟨r, c⟩ using Nat.strong_induction_on generalizing r c with
  | _ m ih =>
      subst hm
      refine halts_of_meets (hbodies r x c hready hadmits)
        (fun x' c' stack' hready' hadmits' hbelow hstack' => ?_) hstack
      exact ih _ (hbelow.measure_lt hready'.inside) x' c' stack' hready' hadmits' hstack' rfl

/-- The run from the first token ends. -/
theorem halts (hbodies : K.Upheld tokens limit) (htokens : tokens ≠ [])
    (hwhole : K.Admits .whole ⟨0, 0⟩) : ∃ n, (configAfter tokens limit n).Halted := by
  have hready : Cursor.Ready tokens limit ⟨0, 0⟩ :=
    ⟨List.length_pos_iff.mpr htokens, Nat.zero_le _⟩
  exact halts_of_call hbodies (r := .whole) () ⟨0, 0⟩ .bottom hready hwhole
    fun _ _ _ => halts_of_step (halts_of_halted trivial)

end Quarry.Expr
