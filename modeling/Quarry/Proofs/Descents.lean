import Quarry.Proofs.Heights

/-!
# Descents — evaluation goes no deeper than the expression

A descent goes from an expression to a part of it, from there to a part of the part, and so on to
an expression without parts.  The height of an expression is that of its longest descent
(`exists_longest`, `Descent.length_lt`).

Evaluation goes too deep at one of the parts if it does so at the whole (`Sequential.eval`), and
there with one level less.  So where no level is left there is a descent with as many parts as there
were levels (`eval_descends`), whatever the value is and however often a part was evaluated.
-/

namespace Quarry.Expr

variable {e : Expr} {way : List Expr} {limit levels n : Nat}

/-- A way from an expression down to one without parts: the parts that it passes. -/
inductive Descent : Expr → List Expr → Prop where
  | leaf {e : Expr} (h : e.parts = []) : Descent e []
  | part {e e' : Expr} {way : List Expr} (he' : e' ∈ e.parts) (h : Descent e' way) :
      Descent e (e' :: way)

/-! ### The longest descent -/

/-- The height of several expressions is that of the highest, -/
theorem heightItems_append (items items' : List Expr) :
    heightItems (items ++ items') = max (heightItems items) (heightItems items') := by
  induction items with
  | nil => exact (Nat.zero_max _).symm
  | cons e items ih => rw [List.cons_append, heightItems, heightItems, ih, Nat.max_assoc]

/-- and entries and branches count with the expressions in them. -/
theorem heightEntries_eq (entries : List Entry) :
    heightEntries entries = heightItems (entries.flatMap Entry.parts) := by
  induction entries with
  | nil => rfl
  | cons entry entries ih =>
      rw [List.flatMap_cons, heightItems_append, ← ih]
      cases entry <;> simp only [heightEntries, Entry.parts, heightItems, Nat.max_zero]

theorem heightBranches_eq (branches : List Branch) :
    heightBranches branches = heightItems (branches.flatMap Branch.parts) := by
  induction branches with
  | nil => rfl
  | cons branch branches ih =>
      rw [List.flatMap_cons, heightItems_append, ← ih]
      cases branch
      simp only [heightBranches, Branch.parts, heightItems, Nat.max_zero]

/-- An expression is one higher than its parts. -/
theorem height_eq (e : Expr) : e.height = heightItems e.parts + 1 := by
  cases e with
  | conditional branches otherwise =>
      simp only [height, parts, heightItems, heightBranches_eq, Nat.max_comm]
  | subject f argument =>
      cases argument <;> simp only [height, parts, heightItems, Nat.max_zero]
  | _ => simp only [height, parts, heightItems, heightEntries_eq, Nat.max_zero]

/-- No item is higher than all together, -/
theorem height_le_heightItems {items : List Expr} (h : e ∈ items) :
    e.height ≤ heightItems items := by
  obtain ⟨front, back, rfl⟩ := List.append_of_mem h
  rw [heightItems_append, heightItems]
  omega

/-- and one is as high. -/
theorem exists_height_eq : ∀ {items : List Expr}, items ≠ [] →
    ∃ e ∈ items, e.height = heightItems items
  | [e], _ => ⟨e, List.mem_cons_self, (Nat.max_zero _).symm⟩
  | e :: e' :: items, _ => by
      obtain ⟨highest, hmem, hheight⟩ := exists_height_eq (List.cons_ne_nil e' items)
      rw [heightItems, ← hheight]
      rcases Nat.le_total highest.height e.height with hle | hle
      · exact ⟨e, List.mem_cons_self, (Nat.max_eq_left hle).symm⟩
      · exact ⟨highest, List.mem_cons_of_mem _ hmem, (Nat.max_eq_right hle).symm⟩

/-- No descent is longer than the expression is high. -/
theorem Descent.length_lt (h : Descent e way) : way.length < e.height := by
  induction h with
  | leaf _ => exact height_pos _
  | part he' _ ih =>
      rw [height_eq, List.length_cons]
      exact Nat.succ_lt_succ (Nat.lt_of_lt_of_le ih (height_le_heightItems he'))

/-- One descent is as long as the expression is high. -/
theorem exists_longest (e : Expr) : ∃ way, Descent e way ∧ way.length + 1 = e.height := by
  induction hn : e.height generalizing e with
  | zero => exact absurd hn (Nat.ne_of_gt (height_pos e))
  | succ n ih =>
      have hparts := (height_eq e).symm.trans hn
      by_cases hleaf : e.parts = []
      · rw [hleaf] at hparts
        exact ⟨[], .leaf hleaf, hparts⟩
      · obtain ⟨e', he', hheight⟩ := exists_height_eq hleaf
        obtain ⟨way, hway, hlength⟩ := ih e' (hheight.trans (Nat.succ.inj hparts))
        exact ⟨e' :: way, .part he' hway, congrArg Nat.succ hlength⟩

/-- **An expression is as high as its longest descent**, itself included. -/
theorem height_le_iff : e.height ≤ n + 1 ↔ ∀ way, Descent e way → way.length ≤ n := by
  constructor
  · exact fun h way hway => Nat.le_of_lt_succ (Nat.lt_of_lt_of_le hway.length_lt h)
  · intro h
    obtain ⟨way, hway, hlength⟩ := exists_longest e
    exact hlength ▸ Nat.succ_le_succ (h way hway)

/-! ### Evaluation -/

/-- The computation goes too deep only if `q` holds. -/
def DeepOnlyIf (q : Prop) {α : Type} (x : Nat → Eval α) : Prop :=
  ∀ budget remaining limit, x budget remaining = .error (.tooDeep limit) → q

/-- What can be too deep only under a condition goes through sequences. -/
theorem deepOnlyIf_sequential (q : Prop) : Sequential (DeepOnlyIf q) where
  lift {_ y} hy _ remaining limit h := by
    cases y with
    | ok a => cases h
    | error cause =>
        cases h
        exact absurd trivial (hy _ rfl)
  spend budget remaining limit h := by
    cases remaining <;> cases h
  bind {_ _ x f} hx hf budget remaining limit h := by
    dsimp only at h
    cases hrun : x budget remaining with
    | error cause =>
        rw [RunsAlike.bind_of_error hrun] at h
        cases h
        exact hx budget remaining limit hrun
    | ok result =>
        rw [RunsAlike.bind_of_ok hrun] at h
        exact hf _ budget _ limit h

/-- **Levels are used up by descents.**  Where the levels do not suffice, a descent has as many
parts as there are levels. -/
theorem eval_descends (e : Expr) (v : Value) :
    DeepOnlyIf (∃ way, Descent e way ∧ levels ≤ way.length)
      fun budget => eval limit budget levels e v := by
  induction levels generalizing e v with
  | zero =>
      obtain ⟨way, hway, -⟩ := exists_longest e
      exact fun _ _ _ _ => ⟨way, hway, Nat.zero_le _⟩
  | succ levels ih =>
      refine (deepOnlyIf_sequential _).eval v fun e' he' w budget remaining limit' h => ?_
      obtain ⟨way, hway, hlength⟩ := ih e' w budget remaining limit' h
      exact ⟨e' :: way, .part he' hway, Nat.succ_le_succ hlength⟩

/-- **Depth is a matter of the expression.**  Evaluation goes deeper than the limit only if a
descent of the expression is longer than the limit.  Where none is, it never does so, for whatever
value and within whatever budget, and a wider limit makes no difference. -/
theorem value_depth (limit : Nat) (e : Expr) :
    (∀ budget v limit', e.value limit budget v = .error (.tooDeep limit') →
      ∃ way, Descent e way ∧ limit < way.length) ∧
    ((∀ way, Descent e way → way.length ≤ limit) → ∀ budget v,
      (∀ limit', e.value limit budget v ≠ .error (.tooDeep limit')) ∧
      ∀ limit', limit ≤ limit' → e.value limit' budget v = e.value limit budget v) := by
  have hdeep (budget : Nat) (v : Value) (limit' : Nat)
      (h : e.value limit budget v = .error (.tooDeep limit')) :
      ∃ way, Descent e way ∧ limit < way.length := by
    rw [value, StateT.run] at h
    cases hrun : eval limit budget (limit + 1) e v budget with
    | ok result =>
        rw [hrun] at h
        cases h
    | error cause =>
        rw [hrun] at h
        cases h
        exact eval_descends e v budget budget limit' hrun
  refine ⟨hdeep, fun hways budget v => ⟨fun limit' h => ?_, fun limit' hle => ?_⟩⟩
  · obtain ⟨way, hway, hlength⟩ := hdeep budget v limit' h
    exact absurd (hways way hway) (Nat.not_le.mpr hlength)
  · have hheight := height_le_iff.mpr hways
    rw [value, value, eval_height (Nat.le_trans hheight (Nat.succ_le_succ hle)) hheight]

/-- Two functions inside each other: the limit one is too narrow for a value with an item, and the
limit two is wide enough for every value. -/
theorem value_depth_nested :
    let e : Expr := .argument .map (.argument .map .identity)
    (e.value 1 9 (.array [.array [.null]]) = .error (.tooDeep 1) ∧
      ∃ way, Descent e way ∧ 1 < way.length) ∧
    ∀ budget v limit', e.value 2 budget v ≠ .error (.tooDeep limit') := by
  intro e
  have hdeep : e.value 1 9 (.array [.array [.null]]) = .error (.tooDeep 1) := by
    rfl
  have hways : ∀ way, Descent e way → way.length ≤ 2 := height_le_iff.mp (by decide)
  exact ⟨⟨hdeep, (value_depth 1 e).1 9 _ 1 hdeep⟩, fun budget v =>
    ((value_depth 2 e).2 hways budget v).1⟩

end Quarry.Expr
