import Quarry.Proofs.Result
import Quarry.Value.Items

/-!
# Outcomes — how a computation ends, and how it ends within wider limits

`EndsAlike p q x y` compares a computation `x` with the computation `y` that differs from it only
in having wider limits.  Either `x` stopped at one of its limits, or `y` ends like `x`: with the
same value, which has the property `q`, or with the same fault, which has the property `p`.  The
relation goes through sequences of computations (`EndsAlike.bind`), so one lemma about each
function says at once what its values and faults are and that limits do nothing but stop it.

`Ends p q x` is the case `y = x`, for functions without limits.  `RunsAlike` compares computations
with a state: readers of tokens start from the same tokens, and of two computations that spend
from a budget the second has a surplus that it keeps.
-/

namespace Quarry

variable {α β : Type}

/-- A fault that only says that a limit was reached. -/
def Fault.IsLimit : Fault → Prop
  | .tooDeep _ => True
  | .query (.expression (.overBudget _)) => True
  | _ => False

/-- Unless `x` stopped at a limit, `y` ends like `x`, with a value that has `q` or a fault that has
`p`. -/
inductive EndsAlike (p : Fault → Prop) (q : α → Prop) : (x y : Except Fault α) → Prop where
  | ok {a : α} (h : q a) : EndsAlike p q (.ok a) (.ok a)
  | fault {cause : Fault} (h : p cause) : EndsAlike p q (.error cause) (.error cause)
  | limit {cause : Fault} {y : Except Fault α} (h : cause.IsLimit) : EndsAlike p q (.error cause) y

/-- `x` ends with a value that has `q`, with a fault that has `p`, or at a limit. -/
abbrev Ends (p : Fault → Prop) (q : α → Prop) (x : Except Fault α) : Prop :=
  EndsAlike p q x x

/-- `x` did not stop at a limit. -/
def Settled (x : Except Fault α) : Prop :=
  ∀ cause, x = .error cause → ¬ cause.IsLimit

/-- Nothing is asked. -/
abbrev Any {γ : Type} (_ : γ) : Prop := True

/-- What is kept of some items is among them, whether the first item passes or not. -/
theorem Items.mem_of_mem_kept {a b : α} {items kept : List α} {passes : Bool}
    (hkept : ∀ b ∈ kept, b ∈ items) (h : b ∈ if passes then a :: kept else kept) :
    b ∈ a :: items := by
  split at h
  · exact (List.mem_cons.mp h).elim (· ▸ List.mem_cons_self)
      fun h => List.mem_cons_of_mem _ (hkept b h)
  · exact List.mem_cons_of_mem _ (hkept b h)

theorem forall_mem_some {q : α → Prop} {a : α} (h : q a) : ∀ b ∈ some a, q b := by
  rintro _ ⟨⟩
  exact h

namespace EndsAlike

variable {p p' : Fault → Prop} {q q' : α → Prop} {r : β → Prop} {x y : Except Fault α}
  {f g : α → Except Fault β} {b : β}

/-- A limit that is passed is a stop, so nothing is asked of the second computation. -/
theorem tooDeep (limit : Nat) : EndsAlike p q (.error (.tooDeep limit)) y :=
  .limit trivial

/-- Without wider limits everything ends like itself. -/
theorem any (x : Except Fault α) : Ends Any Any x := by
  cases x with
  | ok a => exact .ok trivial
  | error cause => exact .fault trivial

/-- What is said of values and faults may be said more weakly. -/
theorem mono (h : EndsAlike p q x y) (hp : ∀ cause, p cause → p' cause) (hq : ∀ a, q a → q' a) :
    EndsAlike p' q' x y := by
  cases h with
  | ok ha => exact .ok (hq _ ha)
  | fault hc => exact .fault (hp _ hc)
  | limit hc => exact .limit hc

/-- Of the faults nothing is asked any more. -/
theorem anyFault (h : EndsAlike p q x y) : EndsAlike Any q x y :=
  h.mono (fun _ _ => trivial) fun _ => id

/-- **Sequences.**  Where the first parts end with a value, the second parts are compared for it; a
fault or a stop of the first part is one of the whole. -/
theorem bind (h : EndsAlike p q x y) (hf : ∀ a, q a → EndsAlike p r (f a) (g a)) :
    EndsAlike p r (x >>= f) (y >>= g) := by
  cases h with
  | ok ha => exact hf _ ha
  | fault hc => exact .fault hc
  | limit hc => exact .limit hc

theorem ok_some (h : r b) : EndsAlike p (fun a => ∀ b ∈ a, r b) (.ok (some b)) (.ok (some b)) :=
  .ok (forall_mem_some h)

theorem ok_none : EndsAlike p (fun a => ∀ b ∈ a, r b) (.ok none) (.ok none) :=
  .ok (by rintro _ ⟨⟩)

/-- A computation followed by a function of its value. -/
theorem map {f : α → β} (h : EndsAlike p q x y) (hf : ∀ a, q a → r (f a)) :
    EndsAlike p r (do return f (← x)) (do return f (← y)) :=
  h.bind fun a ha => .ok (hf a ha)

/-- The same for a computation on each item of a list. -/
theorem mapM {f g : α → Except Fault β} : ∀ {as : List α},
    (∀ a ∈ as, EndsAlike p r (f a) (g a)) →
      EndsAlike p (fun bs => ∀ b ∈ bs, r b) (as.mapM f) (as.mapM g)
  | [], _ => .ok (by simp)
  | a :: as, h => by
      rw [List.mapM_cons, List.mapM_cons]
      refine (h a List.mem_cons_self).bind fun b hb => ?_
      refine (mapM fun a ha => h a (List.mem_cons_of_mem _ ha)).bind fun bs hbs => ?_
      exact .ok (List.forall_mem_cons.mpr ⟨hb, hbs⟩)

/-- A computation repeated with each item in turn. -/
theorem foldlM {f : β → α → Except Fault β} : ∀ {as : List α} {b : β},
    (∀ b, ∀ a ∈ as, Ends p Any (f b a)) → Ends p Any (as.foldlM f b)
  | [], _, _ => .ok trivial
  | a :: as, b, h => by
      rw [List.foldlM_cons]
      exact (h b a List.mem_cons_self).bind fun _ _ =>
        foldlM fun b a ha => h b a (List.mem_cons_of_mem _ ha)

/-- The items that pass a test are among the items. -/
theorem keep {test : α → Except Fault Bool} : ∀ {items : List α},
    (∀ a ∈ items, Ends p Any (test a)) →
      Ends p (fun kept => ∀ a ∈ kept, a ∈ items) (Items.keep test items)
  | [], _ => .ok (by simp)
  | a :: items, h => by
      rw [Items.keep]
      refine (h a List.mem_cons_self).bind fun passes _ => ?_
      refine (keep fun a ha => h a (List.mem_cons_of_mem _ ha)).bind fun kept hkept => ?_
      exact .ok fun b hb => Items.mem_of_mem_kept hkept hb

/-! ### What follows -/

/-- A value is the same within wider limits. -/
theorem of_ok {a : α} (h : EndsAlike p q x y) (hx : x = .ok a) : y = .ok a ∧ q a := by
  cases h with
  | ok ha =>
      cases hx
      exact ⟨rfl, ha⟩
  | fault _ => cases hx
  | limit _ => cases hx

/-- A fault is that of a limit, or the same within wider limits. -/
theorem of_error {cause : Fault} (h : EndsAlike p q x y) (hx : x = .error cause) :
    cause.IsLimit ∨ y = .error cause ∧ p cause := by
  cases h with
  | ok _ => cases hx
  | fault hc =>
      cases hx
      exact .inr ⟨rfl, hc⟩
  | limit hc =>
      cases hx
      exact .inl hc

/-- In particular, a value that comes out has the property. -/
theorem gives (h : EndsAlike p q x y) : Result.Gives q x :=
  fun _ hx => (h.of_ok hx).2

/-- **Limits only stop.**  A computation that did not stop at a limit ends in the same way within
wider limits. -/
theorem eq_of_settled (h : EndsAlike p q x y) (hx : Settled x) : y = x := by
  cases h with
  | ok _ => rfl
  | fault _ => rfl
  | limit hc => exact absurd hc (hx _ rfl)

end EndsAlike

/-! ### Computations with a state -/

/-- From a state, and from the shifted state with wider limits, two computations end alike, and in
states that differ by the same shift. -/
def RunsAlike {σ : Type} (shift : σ → σ) (q : α → Prop) (x y : StateT σ (Except Fault) α) : Prop :=
  ∀ s, match x s with
    | .ok (a, s') => y (shift s) = .ok (a, shift s') ∧ q a
    | .error fault => fault.IsLimit ∨ y (shift s) = .error fault

namespace RunsAlike

variable {σ : Type} {shift : σ → σ} {q q' : α → Prop} {r : β → Prop}
  {x y : StateT σ (Except Fault) α} {f g : α → StateT σ (Except Fault) β}

/-- A sequence from a state goes on where its first part has ended, -/
theorem bind_of_ok {s s' : σ} {a : α} (h : x s = .ok (a, s')) : (x >>= f) s = f a s' := by
  change (x s >>= fun result => f result.1 result.2) = f a s'
  rw [h, Result.bind_ok]

/-- or fails with it. -/
theorem bind_of_error {s : σ} {cause : Fault} (h : x s = .error cause) :
    (x >>= f) s = .error cause := by
  change (x s >>= fun result => f result.1 result.2) = .error cause
  rw [h, Result.bind_error]

/-- From a given state there are three ways to end: both with one value, the first at a limit, or
both with one fault. -/
theorem cases_on (h : RunsAlike shift q x y) (s : σ) :
    (∃ a s', x s = .ok (a, s') ∧ y (shift s) = .ok (a, shift s') ∧ q a) ∨
    (∃ cause, x s = .error cause ∧ cause.IsLimit) ∨
    (∃ cause, x s = .error cause ∧ y (shift s) = .error cause) := by
  have hs := h s
  cases hx : x s with
  | ok result =>
      rw [hx] at hs
      exact .inl ⟨result.1, result.2, rfl, hs⟩
  | error cause =>
      rw [hx] at hs
      rcases hs with hs | hs
      · exact .inr (.inl ⟨cause, rfl, hs⟩)
      · exact .inr (.inr ⟨cause, rfl, hs⟩)

/-- Reading nothing and refusing end alike from every state, -/
theorem pure {a : α} (h : q a) : RunsAlike shift q (Pure.pure a) (Pure.pure a) :=
  fun _ => ⟨rfl, h⟩

theorem fault (cause : Fault) : RunsAlike shift q (throw cause) (throw cause) :=
  fun _ => .inr rfl

theorem tooDeep (limit : Nat) : RunsAlike shift q (throw (.tooDeep limit)) y :=
  fun _ => .inl trivial

/-- A computation that goes without limits, from the same state. -/
theorem any (x : StateT σ (Except Fault) α) : RunsAlike id Any x x := by
  intro s
  cases hx : x s with
  | ok result => exact ⟨hx, trivial⟩
  | error cause => exact .inr hx

/-- and what is said of values may be said more weakly. -/
theorem mono (h : RunsAlike shift q x y) (hq : ∀ a, q a → q' a) : RunsAlike shift q' x y := by
  intro s
  rcases h.cases_on s with ⟨a, s', hx, hy, ha⟩ | ⟨cause, hx, hc⟩ | ⟨cause, hx, hy⟩
  · rw [hx]
    exact ⟨hy, hq a ha⟩
  · rw [hx]
    exact .inl hc
  · rw [hx]
    exact .inr hy

/-- **Sequences with a state.**  The second run stays shifted against the first, so its next part
starts where it has to. -/
theorem bind (h : RunsAlike shift q x y) (hf : ∀ a, q a → RunsAlike shift r (f a) (g a)) :
    RunsAlike shift r (x >>= f) (y >>= g) := by
  intro s
  rcases h.cases_on s with ⟨a, s', hx, hy, ha⟩ | ⟨cause, hx, hc⟩ | ⟨cause, hx, hy⟩
  · rw [bind_of_ok hx, bind_of_ok hy]
    exact hf a ha s'
  · rw [bind_of_error hx]
    exact .inl hc
  · rw [bind_of_error hx, bind_of_error hy]
    exact .inr rfl

/-- A part without limits, of whose result nothing is asked. -/
theorem skip {x : StateT σ (Except Fault) α} (hf : ∀ a, RunsAlike id r (f a) (g a)) :
    RunsAlike id r (x >>= f) (x >>= g) :=
  (any x).bind fun a _ => hf a

/-- A computation that leaves the state alone. -/
theorem lift {x y : Except Fault α} (h : EndsAlike Any q x y) :
    RunsAlike shift q (liftM x) (liftM y) := by
  intro s
  cases h with
  | ok ha => exact ⟨rfl, ha⟩
  | fault _ => exact .inr rfl
  | limit hc => exact .inl hc

theorem mapM {f g : α → StateT σ (Except Fault) β} : ∀ {as : List α},
    (∀ a ∈ as, RunsAlike shift r (f a) (g a)) →
      RunsAlike shift (fun bs => ∀ b ∈ bs, r b) (as.mapM f) (as.mapM g)
  | [], _ => .pure (by simp)
  | a :: as, h => by
      rw [List.mapM_cons, List.mapM_cons]
      refine (h a List.mem_cons_self).bind fun b hb => ?_
      refine (mapM fun a ha => h a (List.mem_cons_of_mem _ ha)).bind fun bs hbs => ?_
      exact .pure (List.forall_mem_cons.mpr ⟨hb, hbs⟩)

/-- What the results are when the states are forgotten. -/
theorem run (h : RunsAlike shift q x y) (s : σ) :
    EndsAlike Any q (do return (← x.run s).1) (do return (← y.run (shift s)).1) := by
  rcases h.cases_on s with ⟨a, s', hx, hy, ha⟩ | ⟨cause, hx, hc⟩ | ⟨cause, hx, hy⟩
  · rw [StateT.run, StateT.run, hx, hy]
    exact .ok ha
  · rw [StateT.run, hx]
    exact .limit hc
  · rw [StateT.run, StateT.run, hx, hy]
    exact .fault trivial

end RunsAlike

end Quarry
