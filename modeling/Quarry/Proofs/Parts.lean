import Quarry.Proofs.Unlimited

/-!
# Parts — evaluation goes by the parts of an expression

What evaluation does with an expression is a sequence: it evaluates parts of the expression, one
level further in, and does operations that look at neither the budget nor the levels between them.
So a property of computations that goes through sequences and holds for these operations
(`Sequential`) holds for an expression at a level if it holds for all parts of it at the level
inside (`Sequential.eval`).  Which parts are evaluated, how often and for which values depends on
the values; the parts are those of the expression.
-/

namespace Quarry.Expr

/-! ### Parts -/

def Entry.parts : Entry → List Expr
  | .named _ e => [e]
  | .computed key e => [key, e]

def Branch.parts : Branch → List Expr
  | .mk condition result => [condition, result]

/-- The expressions that an expression is built from. -/
def parts : Expr → List Expr
  | .literal _ | .identity | .subject _ none => []
  | .field source _ => [source]
  | .index source position => [source, position]
  | .pipe left right | .binary _ left right => [left, right]
  | .array items => items
  | .object entries => entries.flatMap Entry.parts
  | .not operand | .negate operand => [operand]
  | .conditional branches otherwise => otherwise :: branches.flatMap Branch.parts
  | .subject _ (some inner) | .argument _ inner => [inner]

theorem forall_mem_pair {p : Expr → Prop} {e e' : Expr} : (∀ x ∈ [e, e'], p x) ↔ p e ∧ p e' := by
  rw [List.forall_mem_cons, List.forall_mem_singleton]

/-! ### Sequences -/

/-- The property holds for operations that never stop at a limit and for single steps of the
budget, and it goes through sequences.  The computations are given for every budget. -/
structure Sequential (P : {α : Type} → (Nat → Eval α) → Prop) : Prop where
  lift : ∀ {α : Type} {y : Except Fault α}, Settled y → P fun _ => (liftM y : Eval α)
  spend : P Expr.spend
  bind : ∀ {α β : Type} {x : Nat → Eval α} {f : Nat → α → Eval β}, P x →
    (∀ a, P fun budget => f budget a) → P fun budget => x budget >>= f budget

namespace Sequential

variable {P : {α : Type} → (Nat → Eval α) → Prop} {α β : Type} {limit levels : Nat}

/-- A value without a computation is an operation that never stops. -/
theorem pure (hP : Sequential P) (a : α) : P fun _ => (Pure.pure a : Eval α) :=
  hP.lift (.ok a)

/-- A result that is only put into another form. -/
theorem map (hP : Sequential P) {x : Nat → Eval α} (hx : P x) (f : α → β) :
    P fun budget => do return f (← x budget) :=
  hP.bind hx fun a => hP.pure (f a)

/-- One computation after the other, for each item of a list. -/
theorem mapM (hP : Sequential P) {f : Nat → α → Eval β} (h : ∀ a, P fun budget => f budget a)
    (as : List α) : P fun budget => as.mapM (f budget) := by
  induction as with
  | nil => exact hP.pure []
  | cons a as ih =>
      simp only [List.mapM_cons]
      exact hP.bind (h a) fun b => hP.map ih (b :: ·)

/-- Items are tested one after the other and kept or left out. -/
theorem keepHolding (hP : Sequential P) {test : Nat → Value → Eval Value}
    (h : ∀ v, P fun budget => test budget v) (items : List Value) :
    P fun budget => keepHolding (test budget) items := by
  induction items with
  | nil => exact hP.pure []
  | cons v items ih =>
      simp only [Expr.keepHolding]
      exact hP.bind (h v) fun passes =>
        hP.map ih fun rest => if passes.holds then v :: rest else rest

/-! ### Constructs -/

/-- A function evaluates its argument for the whole value, or for one item after the other. -/
theorem applyArgument (hP : Sequential P) (f : ArgumentFunction) {body : Nat → Value → Eval Value}
    (h : ∀ v, P fun budget => body budget v) (v : Value) :
    P fun budget => applyArgument f (body budget) v := by
  cases f with
  | map =>
      cases v with
      | array items => exact hP.map (hP.mapM h items) Value.array
      | _ => exact hP.pure _
  | select =>
      cases v with
      | array items => exact hP.map (hP.keepHolding h items) Value.array
      | _ => exact hP.map (h _) _
  | has => exact hP.bind (h v) fun key => hP.map (hP.lift (hasKey_settled v key)) Value.bool
  | join => exact hP.bind (h v) fun separator => hP.lift (joinTexts_settled v separator)

/-- The items of an array constructor are evaluated in order, -/
theorem evalItems (hP : Sequential P) {items : List Expr} (v : Value)
    (h : ∀ e ∈ items, ∀ v, P fun budget => eval limit budget levels e v) :
    P fun budget => evalItems limit budget levels items v := by
  induction items with
  | nil =>
      simp only [Expr.evalItems]
      exact hP.pure []
  | cons e items ih =>
      obtain ⟨he, hitems⟩ := List.forall_mem_cons.mp h
      simp only [Expr.evalItems]
      exact hP.bind (he v) fun w => hP.map (ih hitems) (w :: ·)

/-- and so are keys and values of an object constructor; a key that is no text ends it. -/
theorem evalEntries (hP : Sequential P) {entries : List Entry} (v : Value)
    (h : ∀ e ∈ entries.flatMap Entry.parts, ∀ v, P fun budget => eval limit budget levels e v) :
    P fun budget => evalEntries limit budget levels entries v := by
  induction entries with
  | nil =>
      simp only [Expr.evalEntries]
      exact hP.pure []
  | cons entry entries ih =>
      rw [List.flatMap_cons, List.forall_mem_append] at h
      obtain ⟨hentry, hentries⟩ := h
      cases entry with
      | named name e =>
          have he := List.forall_mem_singleton.mp hentry
          simp only [Expr.evalEntries]
          exact hP.bind (he v) fun w => hP.map (ih hentries) ((name, w) :: ·)
      | computed key e =>
          obtain ⟨hkey, he⟩ := forall_mem_pair.mp hentry
          simp only [Expr.evalEntries]
          refine hP.bind (hkey v) fun k => ?_
          cases k with
          | string name => exact hP.bind (he v) fun w => hP.map (ih hentries) ((name, w) :: ·)
          | _ => exact hP.lift (.fault id)

/-- Conditions are evaluated up to the first that holds, and then its result, so only parts of the
branches are. -/
theorem evalBranches (hP : Sequential P) {branches : List Branch} (v : Value)
    (h : ∀ e ∈ branches.flatMap Branch.parts, ∀ v, P fun budget => eval limit budget levels e v) :
    P fun budget => evalBranches limit budget levels branches v := by
  induction branches with
  | nil =>
      simp only [Expr.evalBranches]
      exact hP.pure none
  | cons branch branches ih =>
      rw [List.flatMap_cons, List.forall_mem_append] at h
      obtain ⟨hbranch, hbranches⟩ := h
      obtain ⟨condition, result⟩ := branch
      obtain ⟨hcondition, hresult⟩ := forall_mem_pair.mp hbranch
      simp only [Expr.evalBranches]
      refine hP.bind (hcondition v) fun c => ?_
      split
      · exact hP.map (hresult v) some
      · exact ih hbranches

/-- **From the parts to the whole.** -/
theorem eval (hP : Sequential P) {e : Expr} (v : Value)
    (h : ∀ e' ∈ e.parts, ∀ v, P fun budget => eval limit budget levels e' v) :
    P fun budget => eval limit budget (levels + 1) e v := by
  simp only [eval.eq_def limit _ (levels + 1)]
  refine hP.bind hP.spend fun _ => ?_
  -- each construct is a sequence of parts and settled operations
  cases e with
  | literal w => exact hP.pure w
  | identity => exact hP.pure v
  | field source name =>
      have hsource := List.forall_mem_singleton.mp h
      exact hP.map (hsource v) fun w => ((Segment.field name).follow true w).getD .null
  | index source position =>
      obtain ⟨hsource, hposition⟩ := forall_mem_pair.mp h
      refine hP.bind (hsource v) fun w => hP.bind (hposition v) fun i => ?_
      exact hP.lift (indexed_settled w i)
  | pipe left right =>
      obtain ⟨hleft, hright⟩ := forall_mem_pair.mp h
      exact hP.bind (hleft v) fun w => hright w
  | array items => exact hP.map (hP.evalItems v h) Value.array
  | object entries => exact hP.map (hP.evalEntries v h) Value.ofPairs
  | not operand =>
      have hoperand := List.forall_mem_singleton.mp h
      exact hP.map (hoperand v) fun w => Value.bool !w.holds
  | negate operand =>
      have hoperand := List.forall_mem_singleton.mp h
      refine hP.bind (hoperand v) fun w => ?_
      cases w with
      | number n => exact hP.pure _
      | _ => exact hP.lift (.fault id)
  | binary operator left right =>
      obtain ⟨hleft, hright⟩ := forall_mem_pair.mp h
      cases operator with
      | and =>
          refine hP.bind (hleft v) fun w => ?_
          by_cases hw : w.holds = true
          · simp only [hw, ↓reduceIte]
            exact hP.map (hright v) fun u => Value.bool u.holds
          · simp only [hw]
            exact hP.pure _
      | or =>
          refine hP.bind (hleft v) fun w => ?_
          by_cases hw : w.holds = true
          · simp only [hw, ↓reduceIte]
            exact hP.pure _
          · simp only [hw]
            exact hP.map (hright v) fun u => Value.bool u.holds
      | relation r =>
          refine hP.bind (hleft v) fun w => hP.bind (hright v) fun u => ?_
          exact hP.map (hP.lift (r.compare_settled _ _)) Value.bool
      | arithmetic a =>
          refine hP.bind (hleft v) fun w => hP.bind (hright v) fun u => ?_
          exact hP.lift (arithmetic_settled a w u)
  | conditional branches otherwise =>
      obtain ⟨hotherwise, hbranches⟩ := List.forall_mem_cons.mp h
      refine hP.bind (hP.evalBranches v hbranches) fun found => ?_
      cases found with
      | some w => exact hP.pure w
      | none => exact hotherwise v
  | subject f argument =>
      cases argument with
      | none => exact hP.lift (applySubject_settled f v)
      | some inner =>
          have hinner := List.forall_mem_singleton.mp h
          exact hP.bind (hinner v) fun w => hP.lift (applySubject_settled f w)
  | argument f inner => exact hP.applyArgument f (List.forall_mem_singleton.mp h) v

end Sequential

end Quarry.Expr
