import Quarry.Expr.Eval
import Quarry.Proofs.Outcomes

/-!
# Costs — what an evaluation spends

`Costs n x y` says that the computation `x` spends exactly `n` steps and ends as `y` does, whatever
is left over; if it fails, it does so before it has spent more.  Every expression costs one step and
what its parts cost, so within every budget that covers the cost its value is found, or its failure
(`value_of_costs`).
-/

namespace Quarry.Expr

variable {α β : Type} {n k limit budget levels : Nat}

/-- The computation spends exactly `n` steps and ends as `y` does. -/
def Costs (n : Nat) (x : Eval α) (y : Except Fault α) : Prop :=
  ∀ remaining, x (n + remaining) = y.map (·, remaining)

namespace Costs

variable {x : Eval α} {y : Except Fault α} {f : α → Eval β} {g : α → Except Fault β} {a : α}

theorem pure : Costs 0 (Pure.pure a : Eval α) (.ok a) := by
  intro remaining
  rw [Nat.zero_add]
  rfl

/-- A sequence costs what its parts cost. -/
theorem bind (hx : Costs n x y) (hf : ∀ a, y = .ok a → Costs k (f a) (g a)) :
    Costs (n + k) (x >>= f) (y >>= g) := by
  intro remaining
  rw [Nat.add_assoc]
  have hrun := hx (k + remaining)
  cases y with
  | error e => exact RunsAlike.bind_of_error hrun
  | ok a =>
      rw [RunsAlike.bind_of_ok hrun]
      exact hf a rfl remaining

/-- A part whose value is known, and what is made of it. -/
theorem bind_of_ok {z : Except Fault β} (hx : Costs n x (.ok a)) (hf : Costs k (f a) z) :
    Costs (n + k) (x >>= f) z :=
  hx.bind (g := fun _ => z) fun _ h => Except.ok.inj h ▸ hf

/-- A part that cannot spend anything. -/
theorem lift : Costs 0 (liftM y : Eval α) y := by
  intro remaining
  rw [Nat.zero_add]
  cases y <;> rfl

/-- A step, and what comes after it. -/
theorem step {f : Unit → Eval α} (h : Costs n (f ()) y) : Costs (n + 1) (spend budget >>= f) y := by
  intro remaining
  have hspend : spend budget (n + 1 + remaining) = .ok ((), n + remaining) := by
    rw [Nat.add_right_comm, spend]
  rw [RunsAlike.bind_of_ok hspend]
  exact h remaining

/-- A result that is only put into another form. -/
theorem map {f : α → β} (hx : Costs n x y) : Costs n (do return f (← x)) (do return f (← y)) :=
  hx.bind (k := 0) fun _ _ => .pure

end Costs

/-! ### Expressions -/

section Expressions

variable {v w u : Value}

/-- Every expression costs one step for itself, -/
theorem costs_identity : Costs 1 (eval limit budget (levels + 1) .identity v) (.ok v) :=
  .step .pure

theorem costs_literal : Costs 1 (eval limit budget (levels + 1) (.literal w) v) (.ok w) :=
  .step .pure

/-- and what its source, -/
theorem costs_field {source : Expr} (name : String)
    (h : Costs n (eval limit budget levels source v) (.ok w)) :
    Costs (n + 1) (eval limit budget (levels + 1) (.field source name) v)
      (.ok (((Segment.field name).follow true w).getD .null)) :=
  .step h.map

/-- its operand, -/
theorem costs_negate {operand : Expr} {m : Number}
    (h : Costs n (eval limit budget levels operand v) (.ok (.number m))) :
    Costs (n + 1) (eval limit budget (levels + 1) (.negate operand) v)
      (.ok (.number m.neg.normalize)) :=
  .step (h.bind_of_ok (k := 0) .pure)

/-- or its two operands cost. -/
theorem costs_relation (r : Relation) {left right : Expr}
    (hleft : Costs n (eval limit budget levels left v) (.ok w))
    (hright : Costs k (eval limit budget levels right v) (.ok u)) :
    Costs (n + k + 1) (eval limit budget (levels + 1) (.binary (.relation r) left right) v)
      (do return .bool (← r.compare (some w) (some u))) :=
  .step (hleft.bind_of_ok (hright.bind_of_ok (k := 0) Costs.lift.map))

/-- Keeping the items that pass costs the same for every item. -/
theorem costs_keepHolding {test : Value → Eval Value} {passes : Value → Except Fault Bool}
    {items : List Value}
    (h : ∀ item ∈ items, Costs n (test item) (do return .bool (← passes item))) :
    Costs (items.length * n) (keepHolding test items) (Items.keep passes items) := by
  induction items with
  | nil =>
      rw [List.length_nil, Nat.zero_mul]
      exact .pure
  | cons item items ih =>
      obtain ⟨hitem, hitems⟩ := List.forall_mem_cons.mp h
      have hkeep : Costs (n + items.length * n) (keepHolding test (item :: items)) _ :=
        hitem.bind fun _ _ => (ih hitems).map
      rw [List.length_cons, Nat.succ_mul, Nat.add_comm, Items.keep]
      rw [bind_assoc] at hkeep
      exact hkeep

/-- A test that costs the same for every item is paid for once per item. -/
theorem costs_select {inner : Expr} {passes : Value → Except Fault Bool} {items : List Value}
    (h : ∀ item ∈ items,
      Costs n (eval limit budget levels inner item) (do return .bool (← passes item))) :
    Costs (items.length * n + 1)
      (eval limit budget (levels + 1) (.argument .select inner) (.array items))
      (do return .array (← Items.keep passes items)) :=
  .step (costs_keepHolding h).map

/-- **A value is found within a budget** that covers its cost, or the failure to find it. -/
theorem value_of_costs {e : Expr} {y : Except Fault Value}
    (h : Costs n (eval limit budget (limit + 1) e v) y) (hbudget : n ≤ budget) :
    e.value limit budget v = y := by
  obtain ⟨remaining, hremaining⟩ := Nat.exists_eq_add_of_le hbudget
  have hrun := h remaining
  rw [← hremaining] at hrun
  rw [value, StateT.run, hrun]
  cases y <;> rfl

end Expressions

end Quarry.Expr
