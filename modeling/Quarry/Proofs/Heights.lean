import Quarry.Proofs.Thresholds

/-!
# Heights — how deep an evaluation goes

Evaluation goes one level deeper for every part of an expression in a part, whatever the value is.
So the height of the expression is as many levels as it can ever need: with that many, the limit on
nesting has no part in the evaluation (`eval_height`).  The budget has none either, once it covers
the steps that are taken.  Hence what an expression makes of a value is one and the same for all
limits and budgets that are large enough (`exists_finds`, `Finds.value`).
-/

namespace Quarry.Expr

mutual

/-- How many levels an expression takes. -/
def height : Expr → Nat
  | .literal _ | .identity => 1
  | .field source _ => source.height + 1
  | .index source position => max source.height position.height + 1
  | .pipe left right => max left.height right.height + 1
  | .array items => heightItems items + 1
  | .object entries => heightEntries entries + 1
  | .not operand => operand.height + 1
  | .negate operand => operand.height + 1
  | .binary _ left right => max left.height right.height + 1
  | .conditional branches otherwise => max (heightBranches branches) otherwise.height + 1
  | .subject _ none => 1
  | .subject _ (some inner) => inner.height + 1
  | .argument _ inner => inner.height + 1

def heightItems : List Expr → Nat
  | [] => 0
  | e :: es => max e.height (heightItems es)

def heightEntries : List Entry → Nat
  | [] => 0
  | .named _ e :: es => max e.height (heightEntries es)
  | .computed key e :: es => max (max key.height e.height) (heightEntries es)

def heightBranches : List Branch → Nat
  | [] => 0
  | .mk condition result :: rest =>
      max (max condition.height result.height) (heightBranches rest)

end

variable {limit limit' budget levels levels' n : Nat} {e : Expr} {v : Value}

theorem height_pos (e : Expr) : 0 < e.height := by
  cases e with
  | subject f argument => cases argument <;> exact Nat.succ_pos _
  | _ => exact Nat.succ_pos _

/-! ### Enough levels -/

section Parts

variable (h : ∀ e : Expr, e.height ≤ n → ∀ v,
  eval limit budget levels e v = eval limit' budget levels' e v)

include h

theorem evalItems_height : ∀ {items : List Expr}, heightItems items ≤ n → ∀ v,
    evalItems limit budget levels items v = evalItems limit' budget levels' items v
  | [], _, v => by rw [evalItems, evalItems]
  | e :: items, hle, v => by
      obtain ⟨he, hitems⟩ := Nat.max_le.mp hle
      rw [evalItems, evalItems, h e he v, evalItems_height hitems v]

theorem evalEntries_height : ∀ {entries : List Entry}, heightEntries entries ≤ n → ∀ v,
    evalEntries limit budget levels entries v = evalEntries limit' budget levels' entries v
  | [], _, v => by rw [evalEntries, evalEntries]
  | .named name e :: entries, hle, v => by
      obtain ⟨he, hentries⟩ := Nat.max_le.mp hle
      rw [evalEntries, evalEntries, h e he v, evalEntries_height hentries v]
  | .computed key e :: entries, hle, v => by
      obtain ⟨hfirst, hentries⟩ := Nat.max_le.mp hle
      obtain ⟨hkey, he⟩ := Nat.max_le.mp hfirst
      rw [evalEntries, evalEntries, h key hkey v, h e he v, evalEntries_height hentries v]

theorem evalBranches_height : ∀ {branches : List Branch}, heightBranches branches ≤ n → ∀ v,
    evalBranches limit budget levels branches v = evalBranches limit' budget levels' branches v
  | [], _, v => by rw [evalBranches, evalBranches]
  | .mk condition result :: branches, hle, v => by
      obtain ⟨hfirst, hbranches⟩ := Nat.max_le.mp hle
      obtain ⟨hcondition, hresult⟩ := Nat.max_le.mp hfirst
      rw [evalBranches, evalBranches, h condition hcondition v, h result hresult v,
        evalBranches_height hbranches v]

end Parts

/-- **Levels beyond the height** make no difference, and neither does the limit. -/
theorem eval_height (hle : e.height ≤ levels) (hle' : e.height ≤ levels') :
    eval limit budget levels e v = eval limit' budget levels' e v := by
  induction levels generalizing levels' e v with
  | zero => exact absurd hle (Nat.not_le.mpr (height_pos e))
  | succ levels ih =>
      obtain ⟨levels', rfl⟩ :=
        Nat.exists_eq_add_one.mpr (Nat.lt_of_lt_of_le (height_pos e) hle')
      -- the levels left for the parts are enough on both sides
      have h : ∀ e : Expr, e.height ≤ min levels levels' → ∀ v,
          eval limit budget levels e v = eval limit' budget levels' e v := fun e he v =>
        ih (Nat.le_trans he (Nat.min_le_left _ _)) (Nat.le_trans he (Nat.min_le_right _ _))
      have hparts : e.height ≤ min levels levels' + 1 := by omega
      rw [eval.eq_def limit budget (levels + 1), eval.eq_def limit' budget (levels' + 1)]
      refine congrArg (spend budget >>= ·) (funext fun _ => ?_)
      cases e with
      | literal w => rfl
      | identity => rfl
      | field source name => simp only [h source (Nat.le_of_succ_le_succ hparts)]
      | index source position =>
          obtain ⟨hsource, hposition⟩ := Nat.max_le.mp (Nat.le_of_succ_le_succ hparts)
          simp only [h source hsource, h position hposition]
      | pipe left right =>
          obtain ⟨hleft, hright⟩ := Nat.max_le.mp (Nat.le_of_succ_le_succ hparts)
          simp only [h left hleft, h right hright]
      | array items =>
          simp only [evalItems_height h (Nat.le_of_succ_le_succ hparts)]
      | object entries =>
          simp only [evalEntries_height h (Nat.le_of_succ_le_succ hparts)]
      | not operand => simp only [h operand (Nat.le_of_succ_le_succ hparts)]
      | negate operand => simp only [h operand (Nat.le_of_succ_le_succ hparts)]
      | binary operator left right =>
          obtain ⟨hleft, hright⟩ := Nat.max_le.mp (Nat.le_of_succ_le_succ hparts)
          cases operator <;> simp only [h left hleft, h right hright]
      | conditional branches otherwise =>
          obtain ⟨hbranches, hotherwise⟩ := Nat.max_le.mp (Nat.le_of_succ_le_succ hparts)
          simp only [evalBranches_height h hbranches, h otherwise hotherwise]
      | subject f argument =>
          cases argument with
          | none => rfl
          | some inner => simp only [h inner (Nat.le_of_succ_le_succ hparts)]
      | argument f inner =>
          have hinner : eval limit budget levels inner = eval limit' budget levels' inner :=
            funext (h inner (Nat.le_of_succ_le_succ hparts))
          simp only [hinner]

/-! ### Outcomes -/

/-- With enough levels the expression takes `n` steps for the value and then ends as `y` does. -/
def Finds (e : Expr) (v : Value) (n : Nat) (y : Except Fault Value) : Prop :=
  ∀ limit budget levels : Nat, e.height ≤ levels → Costs n (eval limit budget levels e v) y

/-- Every expression takes a number of steps for a value, and ends in one way. -/
theorem exists_finds (e : Expr) (v : Value) : ∃ n y, e.Finds v n y := by
  obtain ⟨n, y, htakes⟩ : ∃ n y,
      Takes (n + 1) (fun budget => eval 0 budget e.height e v) y := eval_takes e v
  refine ⟨n + 1, y, fun limit budget levels hle => ?_⟩
  have heval : eval limit budget levels e v = eval 0 budget e.height e v :=
    eval_height hle (Nat.le_refl _)
  exact heval ▸ htakes.costs budget

/-- **Large limits.**  What the expression ends in is its value within every limit and every budget
that are large enough. -/
theorem Finds.value {y : Except Fault Value} (h : e.Finds v n y) (hlimit : e.height ≤ limit + 1)
    (hbudget : n ≤ budget) : e.value limit budget v = y :=
  value_of_costs (h limit budget (limit + 1) hlimit) hbudget

/-! ### Constructs -/

namespace Finds

variable {k l : Nat} {w : Value} {y z : Except Fault Value}

theorem subject (f : SubjectFunction) (v : Value) :
    (Expr.subject f none).Finds v 1 (applySubject f v) := by
  intro limit budget levels hle
  obtain ⟨levels, rfl⟩ := Nat.exists_eq_add_one.mpr (Nat.lt_of_lt_of_le Nat.one_pos hle)
  rw [eval.eq_def]
  exact .step .lift

theorem pipe {left right : Expr} {z : Value → Except Fault Value} (hleft : left.Finds v n y)
    (hright : ∀ w, y = .ok w → right.Finds w k (z w)) :
    (Expr.pipe left right).Finds v (n + k + 1) (y >>= z) := by
  intro limit budget levels hle
  obtain ⟨levels, rfl⟩ := Nat.exists_eq_add_one.mpr (Nat.lt_of_lt_of_le (height_pos _) hle)
  obtain ⟨hl, hr⟩ := Nat.max_le.mp (Nat.le_of_succ_le_succ hle)
  rw [eval.eq_def]
  exact .step ((hleft _ _ _ hl).bind fun w hw => hright w hw _ _ _ hr)

/-- A conditional ends in the way of the branch that its condition chooses. -/
theorem conditional {condition result otherwise : Expr} (hcondition : condition.Finds v n y)
    {yes no : Except Fault Value} (hresult : result.Finds v k yes)
    (hotherwise : otherwise.Finds v l no) :
    ∃ m, (Expr.conditional [.mk condition result] otherwise).Finds v m
      (do if (← y).holds then yes else no) := by
  have hheight {levels : Nat}
      (hle : (Expr.conditional [.mk condition result] otherwise).height ≤ levels + 1) :
      condition.height ≤ levels ∧ result.height ≤ levels ∧ otherwise.height ≤ levels := by
    simp only [height, heightBranches] at hle
    omega
  have hsucc {levels : Nat}
      (hle : (Expr.conditional [.mk condition result] otherwise).height ≤ levels) :
      ∃ n, levels = n + 1 :=
    Nat.exists_eq_add_one.mpr (Nat.lt_of_lt_of_le (height_pos _) hle)
  -- the steps are those of the condition and of the branch that is taken
  cases y with
  | error cause =>
      refine ⟨n + 1, fun limit budget levels hle => ?_⟩
      obtain ⟨levels, rfl⟩ := hsucc hle
      obtain ⟨hc, -, -⟩ := hheight hle
      rw [eval.eq_def]
      simp only [evalBranches, bind_assoc]
      exact .step ((hcondition _ _ _ hc).bind (k := 0) fun _ h => by cases h)
  | ok w =>
      by_cases hw : w.holds = true
      · refine ⟨n + k + 1, fun limit budget levels hle => ?_⟩
        obtain ⟨levels, rfl⟩ := hsucc hle
        obtain ⟨hc, hr, -⟩ := hheight hle
        rw [eval.eq_def]
        simp only [evalBranches, bind_assoc]
        refine .step ((hcondition _ _ _ hc).bind_of_ok ?_)
        simp only [Result.bind_ok, hw, ↓reduceIte, bind_assoc, pure_bind, bind_pure]
        exact hresult _ _ _ hr
      · refine ⟨n + l + 1, fun limit budget levels hle => ?_⟩
        obtain ⟨levels, rfl⟩ := hsucc hle
        obtain ⟨hc, -, ho⟩ := hheight hle
        rw [eval.eq_def]
        simp only [evalBranches, bind_assoc]
        refine .step ((hcondition _ _ _ hc).bind_of_ok ?_)
        simp only [Result.bind_ok, hw]
        exact hotherwise _ _ _ ho

/-- **A negated condition** chooses the other branch. -/
theorem negated (condition result otherwise : Expr) (v : Value) : ∃ n m y,
    (Expr.conditional [.mk (.pipe condition (.subject (.builtin .not) none)) result]
      otherwise).Finds v n y ∧
    (Expr.conditional [.mk condition otherwise] result).Finds v m y := by
  obtain ⟨_, y, hcondition⟩ := exists_finds condition v
  obtain ⟨_, yes, hresult⟩ := exists_finds result v
  obtain ⟨_, no, hotherwise⟩ := exists_finds otherwise v
  have hnot := hcondition.pipe fun w _ => Finds.subject (.builtin .not) w
  obtain ⟨n, hn⟩ := hnot.conditional hresult hotherwise
  obtain ⟨m, hm⟩ := hcondition.conditional hotherwise hresult
  refine ⟨n, m, _, hn, ?_⟩
  convert hm using 1
  cases y with
  | error cause => rfl
  | ok w =>
      change (if (!w.holds) then yes else no) = if w.holds then no else yes
      cases w.holds <;> rfl

end Finds

/-- A text that names a function of the subject has the value of that function. -/
theorem evaluate_subject {text : String} {f : SubjectFunction}
    (hread : read limit text = .ok (.subject f none)) (hbudget : 0 < budget) (v : Value) :
    evaluate limit budget text v = applySubject f v := by
  have hvalue : (subject f none).value limit budget v = applySubject f v :=
    (Finds.subject f v).value (Nat.le_add_left _ _) hbudget
  rw [evaluate, hread]
  exact hvalue

end Quarry.Expr
