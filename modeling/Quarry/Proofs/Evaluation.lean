import Quarry.Expr.Eval
import Quarry.Proofs.Expressions
import Quarry.Proofs.Filters

/-!
# Evaluation — what it keeps, and what its limits do

Evaluation makes values from the current value and from the literals of the expression, and so it
keeps every invariant that the literals have (`eval_alike`).  It is compared with an evaluation
that may nest deeper and has a surplus in its budget: as long as neither limit stops the first one,
both visit the same expressions and spend the same, so the surplus is left over at the end.
-/

namespace Quarry

variable {p : Value → Prop}

namespace Expr

/-! ### Operators -/

/-- A number that was checked is finite and in normal form. -/
theorem checked_ends (hp : Value.Invariant p) (n : Number) : Ends Any p (checked n) := by
  rw [checked]
  split
  · rename_i hfinite
    exact .ok (hp.number hfinite)
  · exact .fault trivial

/-- A number that is computed and then checked. -/
theorem bind_checked_ends (hp : Value.Invariant p) (x : Except Fault Number) :
    Ends Any p (do checked (← x)) :=
  (EndsAlike.any x).bind fun n _ => checked_ends hp n

/-- What arithmetic makes is checked, or consists of parts of its operands. -/
theorem arithmetic_ends (hp : Value.Invariant p) (a : Arithmetic) {v w : Value} (hv : p v)
    (hw : p w) : Ends Any p (arithmetic a v w) := by
  rw [arithmetic.eq_def]
  split
  · exact .ok hw
  · exact .ok hv
  · exact bind_checked_ends hp _
  · exact .ok (hp.string _)
  · refine .ok (hp.array.mpr fun u hu => ?_)
    exact (List.mem_append.mp hu).elim (hp.array.mp hv u) (hp.array.mp hw u)
  · refine .ok (hp.ofPairs fun pair hpair => ?_)
    exact (List.mem_append.mp hpair).elim (hp.member hv pair) (hp.member hw pair)
  · exact bind_checked_ends hp _
  · exact .ok (hp.array.mpr fun u hu => hp.array.mp hv u (List.mem_of_mem_filter hu))
  · exact bind_checked_ends hp _
  · split
    · exact .fault trivial
    · exact bind_checked_ends hp _
  · split
    · exact .fault trivial
    · exact bind_checked_ends hp _
  · exact .fault trivial

/-- An index leads to a part of the value, or to null. -/
theorem indexed_ends (hp : Value.Invariant p) {v : Value} (w : Value) (hv : p v) :
    Ends Any p (indexed v w) := by
  have hitem {items : List Value} (h : p (.array items)) (i : Int) :
      p ((Items.at? items i).getD .null) :=
    hp.getD fun u hu => hp.array.mp h u (Items.mem_of_at? hu)
  rw [indexed.eq_def]
  split
  · refine (EndsAlike.any _).bind fun x _ => ?_
    split
    · exact .ok (hitem hv _)
    · split
      · exact .ok (hitem hv _)
      · exact .fault trivial
    · exact .fault trivial
  · exact .ok (hp.getD (hp.find? hv _))
  · exact .ok hp.null
  · exact .fault trivial

/-- What is joined is a text. -/
theorem joinTexts_ends (hp : Value.Invariant p) (v w : Value) : Ends Any p (joinTexts v w) := by
  rw [joinTexts.eq_def]
  split
  · exact (EndsAlike.any _).map fun _ _ => hp.string _
  · exact .fault trivial

/-! ### Functions -/

/-- **Functions** count, check what they compute, or take parts of their subject. -/
theorem applySubject_ends (hp : Value.Invariant p) (f : SubjectFunction) {v : Value} (hv : p v) :
    Ends Any p (applySubject f v) := by
  rw [applySubject.eq_def]
  split
  · exact (Builtin.apply_ends hp.toHereditary _ hv fun n _ => hp.ofNat n).anyFault
  · refine (EndsAlike.any _).bind fun total _ => ?_
    split
    · exact .fault trivial
    · exact checked_ends hp _
  · split
    · exact .ok hp.null
    · exact .ok (hp.array.mp hv _ (Value.least_mem _ _))
  · split
    · exact .ok hp.null
    · exact .ok (hp.array.mp hv _ (Value.greatest_mem _ _))
  · exact .ok hv
  · exact .ok hv
  · exact .ok hv
  · refine (EndsAlike.any _).bind fun x _ => ?_
    split
    · exact .fault trivial
    · exact checked_ends hp _
  · exact .fault trivial
  · exact (EndsAlike.any _).map fun _ _ => hp.string _
  · exact (EndsAlike.any _).map fun _ _ => hp.int _
  · exact .fault trivial

section Budgets

variable {limit limit' budget budget' levels levels' surplus : Nat}

/-- The second of two evaluations has a surplus. -/
abbrev EvalAlike {α : Type} (surplus : Nat) (q : α → Prop) (x y : Eval α) : Prop :=
  RunsAlike (· + surplus) q x y

/-- The surplus stays what it was when a step is spent from both budgets. -/
theorem spend_alike : EvalAlike surplus Any (spend budget) (spend budget') := by
  intro remaining
  cases remaining with
  | zero => exact .inl trivial
  | succ n =>
      have hsurplus : n + 1 + surplus = n + surplus + 1 := Nat.add_right_comm n 1 surplus
      refine ⟨?_, trivial⟩
      dsimp only
      rw [hsurplus]
      rfl

/-- Both evaluations keep the same items. -/
theorem keepHolding_alike {test test' : Value → Eval Value} : ∀ {items : List Value},
    (∀ v ∈ items, EvalAlike surplus Any (test v) (test' v)) →
      EvalAlike surplus (fun kept => ∀ v ∈ kept, v ∈ items) (keepHolding test items)
        (keepHolding test' items)
  | [], _ => .pure (by simp)
  | v :: items, h => by
      rw [keepHolding, keepHolding]
      refine (h v List.mem_cons_self).bind fun passes _ => ?_
      refine (keepHolding_alike fun w hw => h w (List.mem_cons_of_mem _ hw)).bind
        fun kept hkept => .pure fun w hw => Items.mem_of_mem_kept hkept hw

/-- A function with an argument evaluates it for the same values in both. -/
theorem applyArgument_alike (hp : Value.Invariant p) (f : ArgumentFunction)
    {body body' : Value → Eval Value}
    (h : ∀ v, p v → EvalAlike surplus p (body v) (body' v)) {v : Value} (hv : p v) :
    EvalAlike surplus p (applyArgument f body v) (applyArgument f body' v) := by
  have hany (v : Value) (hv : p v) : EvalAlike surplus Any (body v) (body' v) :=
    (h v hv).mono fun _ _ => trivial
  cases f with
  | map =>
      cases v with
      | array items =>
          refine (RunsAlike.mapM fun v hmem => h v (hp.array.mp hv v hmem)).bind fun results => ?_
          exact fun hresults => .pure (hp.array.mpr hresults)
      | _ => exact .pure hv
  | select =>
      cases v with
      | array items =>
          refine (keepHolding_alike fun v hmem => hany v (hp.array.mp hv v hmem)).bind
            fun kept hkept => .pure ?_
          exact hp.array.mpr fun v hmem => hp.array.mp hv v (hkept v hmem)
      | _ =>
          refine (hany _ hv).bind fun passes _ => .pure ?_
          split
          · exact hv
          · exact hp.null
  | has =>
      refine (h v hv).bind fun key _ => ?_
      exact (RunsAlike.lift (EndsAlike.any _)).bind fun _ _ => .pure (hp.bool _)
  | join => exact (h v hv).bind fun separator _ => .lift (joinTexts_ends hp v separator)

/-! ### Expressions -/

section Parts

variable (h : ∀ e : Expr, e.EveryLiteral p → ∀ v, p v →
  EvalAlike surplus p (eval limit budget levels e v) (eval limit' budget' levels' e v))

include h

/-- The items, the members and the branches of a construct are evaluated one after the other. -/
theorem evalItems_alike : ∀ {items : List Expr}, EveryItemLiteral p items → ∀ {v}, p v →
    EvalAlike surplus (fun ws => ∀ w ∈ ws, p w) (evalItems limit budget levels items v)
      (evalItems limit' budget' levels' items v)
  | [], _, _, _ => by
      rw [evalItems, evalItems]
      exact .pure (by simp)
  | e :: items, hitems, v, hv => by
      rw [evalItems, evalItems]
      refine (h e hitems.1 v hv).bind fun w hw => ?_
      refine (evalItems_alike hitems.2 hv).bind fun ws hws => .pure ?_
      exact List.forall_mem_cons.mpr ⟨hw, hws⟩

theorem evalEntries_alike : ∀ {entries : List Entry}, EveryEntryLiteral p entries → ∀ {v}, p v →
    EvalAlike surplus (fun pairs => ∀ pair ∈ pairs, p pair.2)
      (evalEntries limit budget levels entries v) (evalEntries limit' budget' levels' entries v)
  | [], _, _, _ => by
      rw [evalEntries, evalEntries]
      exact .pure (by simp)
  | .named name e :: entries, hentries, v, hv => by
      rw [evalEntries, evalEntries]
      refine (h e hentries.1 v hv).bind fun w hw => ?_
      refine (evalEntries_alike hentries.2 hv).bind fun pairs hpairs => .pure ?_
      exact List.forall_mem_cons.mpr ⟨hw, hpairs⟩
  | .computed key e :: entries, hentries, v, hv => by
      rw [evalEntries, evalEntries]
      refine (h key hentries.1 v hv).bind fun k _ => ?_
      cases k with
      | string name =>
          refine (h e hentries.2.1 v hv).bind fun w hw => ?_
          refine (evalEntries_alike hentries.2.2 hv).bind fun pairs hpairs => .pure ?_
          exact List.forall_mem_cons.mpr ⟨hw, hpairs⟩
      | _ => exact .lift (.fault trivial)

theorem evalBranches_alike : ∀ {branches : List Branch}, EveryBranchLiteral p branches →
    ∀ {v}, p v → EvalAlike surplus (fun a => ∀ w ∈ a, p w)
      (evalBranches limit budget levels branches v)
      (evalBranches limit' budget' levels' branches v)
  | [], _, _, _ => by
      rw [evalBranches, evalBranches]
      exact .pure (by rintro _ ⟨⟩)
  | .mk condition result :: branches, hbranches, v, hv => by
      rw [evalBranches, evalBranches]
      refine (h condition hbranches.1 v hv).bind fun c _ => ?_
      split
      · exact (h result hbranches.2.1 v hv).bind fun w hw => .pure (forall_mem_some hw)
      · exact evalBranches_alike hbranches.2.2 hv

end Parts

/-- **Evaluation** keeps every invariant that the literals have and, with more levels and a surplus
in the budget, ends in the same way and leaves the surplus. -/
theorem eval_alike (hp : Value.Invariant p) (hlevels : levels ≤ levels') {e : Expr}
    (he : e.EveryLiteral p) {v : Value} (hv : p v) :
    EvalAlike surplus p (eval limit budget levels e v) (eval limit' budget' levels' e v) := by
  induction levels generalizing levels' e v with
  | zero =>
      rw [eval.eq_def limit budget 0, eval.eq_def limit' budget' levels']
      -- the first evaluation has no level left, whatever the second one does
      exact spend_alike.bind fun _ _ => .tooDeep limit
  | succ levels ih =>
      obtain ⟨levels', rfl⟩ := Nat.exists_eq_add_one.mpr (Nat.zero_lt_of_lt hlevels)
      have h : ∀ e : Expr, e.EveryLiteral p → ∀ v, p v →
          EvalAlike surplus p (eval limit budget levels e v) (eval limit' budget' levels' e v) :=
        fun e he v hv => ih (Nat.le_of_succ_le_succ hlevels) he hv
      rw [eval.eq_def limit budget (levels + 1), eval.eq_def limit' budget' (levels' + 1)]
      refine spend_alike.bind fun _ _ => ?_
      cases e with
      | literal w => exact .pure he
      | identity => exact .pure hv
      | field source name =>
          refine (h source he v hv).bind fun w hw => .pure ?_
          exact hp.getD (Segment.follow_invariant hp.toHereditary true (.field name) hw)
      | index source position =>
          refine (h source he.1 v hv).bind fun w hw => (h position he.2 v hv).bind fun i _ => ?_
          exact .lift (indexed_ends hp i hw)
      | pipe left right => exact (h left he.1 v hv).bind fun w hw => h right he.2 w hw
      | array items =>
          exact (evalItems_alike h he hv).bind fun ws hws => .pure (hp.array.mpr hws)
      | object entries =>
          exact (evalEntries_alike h he hv).bind fun pairs hpairs => .pure (hp.ofPairs hpairs)
      | not operand => exact (h operand he v hv).bind fun _ _ => .pure (hp.bool _)
      | negate operand =>
          refine (h operand he v hv).bind fun w hw => ?_
          cases w with
          | number n => exact .pure (hp.negate hw)
          | _ => exact .lift (.fault trivial)
      | binary operator left right =>
          cases operator with
          | and =>
              refine (h left he.1 v hv).bind fun w _ => ?_
              split
              · exact (h right he.2 v hv).bind fun _ _ => .pure (hp.bool _)
              · exact .pure (hp.bool _)
          | or =>
              refine (h left he.1 v hv).bind fun w _ => ?_
              split
              · exact .pure (hp.bool _)
              · exact (h right he.2 v hv).bind fun _ _ => .pure (hp.bool _)
          | relation r =>
              refine (h left he.1 v hv).bind fun w _ => (h right he.2 v hv).bind fun u _ => ?_
              exact (RunsAlike.lift (EndsAlike.any _)).bind fun _ _ => .pure (hp.bool _)
          | arithmetic a =>
              refine (h left he.1 v hv).bind fun w hw => (h right he.2 v hv).bind fun u hu => ?_
              exact .lift (arithmetic_ends hp a hw hu)
      | conditional branches otherwise =>
          refine (evalBranches_alike h he.1 hv).bind fun a ha => ?_
          cases a with
          | some w => exact .pure (ha w rfl)
          | none => exact h otherwise he.2 v hv
      | subject f argument =>
          cases argument with
          | none => exact .lift (applySubject_ends hp f hv)
          | some inner =>
              exact (h inner he v hv).bind fun w hw => .lift (applySubject_ends hp f hw)
      | argument f inner => exact applyArgument_alike hp f (h inner he) hv

/-- The value of an expression within wider limits. -/
theorem value_endsAlike (hp : Value.Invariant p) (hlimit : limit ≤ limit')
    (hbudget : budget ≤ budget') {e : Expr} (he : e.EveryLiteral p) {v : Value} (hv : p v) :
    EndsAlike Any p (e.value limit budget v) (e.value limit' budget' v) := by
  obtain ⟨surplus, rfl⟩ := Nat.exists_eq_add_of_le hbudget
  have heval : EvalAlike surplus p (eval limit budget (limit + 1) e v)
      (eval limit' (budget + surplus) (limit' + 1) e v) :=
    eval_alike hp (Nat.succ_le_succ hlimit) he hv
  exact heval.run budget

/-- **Expressions** keep every invariant that their literals have and, within wider limits, end in
the same way. -/
theorem evaluate_endsAlike (hp : Value.Invariant p) (hlimit : limit ≤ limit')
    (hbudget : budget ≤ budget') {text : String}
    (hliterals : ∀ e, read limit text = .ok e → e.EveryLiteral p) {v : Value} (hv : p v) :
    EndsAlike Any p (evaluate limit budget text v) (evaluate limit' budget' text v) := by
  rw [evaluate, evaluate]
  have hread := read_endsAlike hlimit text
  cases hx : read limit text with
  | ok e =>
      rw [(hread.of_ok hx).1]
      exact value_endsAlike hp hlimit hbudget (hliterals e hx) hv
  | error cause =>
      rcases hread.of_error hx with hc | ⟨hy, -⟩
      · exact .limit hc
      · rw [hy]
        exact .fault trivial

end Budgets

end Expr

end Quarry
