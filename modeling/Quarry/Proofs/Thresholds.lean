import Quarry.Proofs.Costs
import Quarry.Proofs.Parts

/-!
# Thresholds — how much of a budget an evaluation needs

The budget of an evaluation is spent one step at a time, and nothing else looks at it.  So there
is a number of steps that an evaluation takes: with fewer it stops because the budget is spent,
and with more it ends in the same way whatever is left over.  `Takes` says this of a computation
that is given for every budget.  It goes through sequences (`HasThreshold.bind`), where what comes
after a part may depend on the value of the part but not on what is left, and so through every
construct, by induction on the levels (`eval_hasThreshold`).
-/

namespace Quarry.Expr

variable {α β : Type} {n k limit levels : Nat}

/-! ### Numbers of steps -/

/-- Within every budget the computation takes exactly `n` steps and then ends as `y` does, which
is not because the budget is spent; with fewer steps left it ends because of that. -/
structure Takes (n : Nat) (x : Nat → Eval α) (y : Except Fault α) : Prop where
  stops : ∀ budget remaining, remaining < n → x budget remaining = failWith (.overBudget budget)
  costs : ∀ budget, Costs n (x budget) y
  ends : ∀ budget, y ≠ failWith (.overBudget budget)

/-- The computation takes the same number of steps within every budget, to the same end. -/
def HasThreshold (x : Nat → Eval α) : Prop :=
  ∃ n y, Takes n x y

namespace Takes

variable {x : Nat → Eval α} {y : Except Fault α}

/-- A failure ends a sequence, after the steps of the first part, -/
theorem bind_error {cause : Fault} {f : Nat → α → Eval β} (hx : Takes n x (.error cause)) :
    Takes n (fun budget => x budget >>= f budget) (.error cause : Except Fault β) where
  stops budget remaining h := RunsAlike.bind_of_error (hx.stops budget remaining h)
  costs budget := (hx.costs budget).bind (k := 0) (g := fun _ => .error cause) fun _ h => nomatch h
  ends budget h := hx.ends budget (congrArg Except.error (Except.error.inj h))

/-- and otherwise the steps of both parts are taken. -/
theorem bind_ok {a : α} {f : Nat → α → Eval β} {z : Except Fault β} (hx : Takes n x (.ok a))
    (hf : Takes k (fun budget => f budget a) z) :
    Takes (n + k) (fun budget => x budget >>= f budget) z where
  stops budget remaining h := by
    by_cases hn : remaining < n
    · exact RunsAlike.bind_of_error (hx.stops budget remaining hn)
    · -- the part leaves too little for what comes after it
      obtain ⟨left, rfl⟩ := Nat.exists_eq_add_of_le (Nat.not_lt.mp hn)
      have hleft : x budget (n + left) = .ok (a, left) := hx.costs budget left
      change (x budget >>= f budget) (n + left) = _
      rw [RunsAlike.bind_of_ok hleft]
      exact hf.stops budget left (Nat.lt_of_add_lt_add_left h)
  costs budget := (hx.costs budget).bind_of_ok (hf.costs budget)
  ends := hf.ends

/-- One step. -/
theorem spend : Takes 1 Expr.spend (.ok ()) where
  stops budget remaining h := by
    obtain rfl := Nat.lt_one_iff.mp h
    rfl
  costs budget remaining := by
    rw [Nat.add_comm]
    rfl
  ends _ := nofun

end Takes

namespace HasThreshold

/-- An operation that cannot spend anything. -/
theorem lift {y : Except Fault α} (h : Settled y) : HasThreshold fun _ => (liftM y : Eval α) :=
  ⟨0, y, ⟨nofun, fun _ => .lift, fun _ hy => h _ hy trivial⟩⟩

/-- A computation that is too deep at once takes no step. -/
theorem tooDeep (limit : Nat) : HasThreshold fun _ => (throw (.tooDeep limit) : Eval α) :=
  ⟨0, .error (.tooDeep limit), ⟨nofun, fun _ => .lift (y := .error (.tooDeep limit)), nofun⟩⟩

theorem bind {x : Nat → Eval α} {f : Nat → α → Eval β} (hx : HasThreshold x)
    (hf : ∀ a, HasThreshold fun budget => f budget a) :
    HasThreshold fun budget => x budget >>= f budget := by
  obtain ⟨n, y, hx⟩ := hx
  cases y with
  | error cause => exact ⟨n, _, hx.bind_error⟩
  | ok a =>
      obtain ⟨k, z, hz⟩ := hf a
      exact ⟨n + k, z, hx.bind_ok hz⟩

/-- **Having a threshold goes through sequences**, since what comes after a part does not look at
what is left. -/
theorem sequential : Sequential HasThreshold where
  lift := lift
  spend := ⟨1, _, .spend⟩
  bind := bind

end HasThreshold

/-! ### Expressions -/

/-- So it holds of every expression, by induction on the levels. -/
theorem eval_hasThreshold (e : Expr) (v : Value) :
    HasThreshold fun budget => eval limit budget levels e v := by
  induction levels generalizing e v with
  | zero =>
      simp only [eval.eq_def limit _ 0]
      exact HasThreshold.sequential.bind HasThreshold.sequential.spend fun _ => .tooDeep limit
  | succ levels ih => exact HasThreshold.sequential.eval v fun e' _ v => ih e' v

/-- **Every expression takes a number of steps of its own**, at least one, within every budget. -/
theorem eval_takes (e : Expr) (v : Value) :
    ∃ n y, Takes (n + 1) (fun budget => eval limit budget levels e v) y := by
  have hthreshold : HasThreshold fun budget => eval limit budget levels e v :=
    eval_hasThreshold e v
  obtain ⟨n, y, htakes⟩ := hthreshold
  cases n with
  | succ n => exact ⟨n, y, htakes⟩
  | zero =>
      -- without a step left it stops at once, and not in the way in which it ends
      have hspent : eval limit 0 levels e v 0 = failWith (.overBudget 0) := by
        rw [eval.eq_def]
        exact RunsAlike.bind_of_error rfl
      have hends := (htakes.costs 0 0).symm.trans hspent
      cases y with
      | ok w => cases hends
      | error cause =>
          cases hends
          exact absurd rfl (htakes.ends 0)

/-- **The budget acts through one threshold.**  For every expression, value and limit on nesting
there is a number of steps, at least one.  Every budget below it is exceeded; within every other
one evaluation ends in one and the same way, with a value or with a fault that is not about the
budget. -/
theorem value_threshold (e : Expr) (v : Value) (limit : Nat) :
    ∃ k outcome, 1 ≤ k ∧
      (∀ budget < k, e.value limit budget v = failWith (.overBudget budget)) ∧
      (∀ budget, k ≤ budget → e.value limit budget v = outcome) ∧
      ∀ budget, outcome ≠ failWith (.overBudget budget) := by
  obtain ⟨n, outcome, htakes⟩ : ∃ n outcome,
      Takes (n + 1) (fun budget => eval limit budget (limit + 1) e v) outcome := eval_takes e v
  refine ⟨n + 1, outcome, Nat.le_add_left 1 n, fun budget hlt => ?_, fun budget hle => ?_,
    htakes.ends⟩
  · rw [value, StateT.run, htakes.stops budget budget hlt]
    rfl
  · exact value_of_costs (htakes.costs budget) hle

end Quarry.Expr
