import Quarry.Proofs.Conditions
import Quarry.Proofs.Filters

/-!
# Totality — filters that were read have a result

A stage passes on what it is not made for, so only three things could make a filter fail: maps
nested beyond the limit, a number without a nearest double in a comparison, and an integer with too
many digits in the name of an entry.  Reading a filter already counts its maps
(`Filter.readChain_within`), and numbers that have nearest doubles are compared and written.  So if
the numbers of the value and of the literals have nearest doubles, every stage yields a value whose
numbers have them too (`Stage.apply_yields`), and so does the filter (`Filter.run_yields`).

The only numbers that a filter makes itself are counts of parts.  `Meets` says which values a run
comes across.  They are asked to have fewer than `2 ^ 1023` parts, so that the counts have nearest
doubles too; nothing that fits into a memory has more.
-/

namespace Quarry

open Result (Yields)

/-- Counts below this one have nearest doubles. -/
def Value.countBound : Nat :=
  2 ^ 1023

/-! ### Builtins -/

namespace Value

/-- A count is far below the range of doubles. -/
theorem representable_ofNat {n : Nat} (h : n < countBound) : (ofNat n).Representable :=
  everyNumber_number.mpr (Number.toFloat_isOk (k := 1023) h (Nat.le_refl _))

/-- A value that can be written has a text, -/
theorem text_of_isWritable {v : Value} (h : v.isWritable = true) : ∃ s, v.text = .ok s := by
  cases v with
  | number n => exact ⟨_, if_pos h⟩
  | array items => exact ⟨_, if_pos h⟩
  | object members => exact ⟨_, if_pos h⟩
  | _ => exact ⟨_, rfl⟩

/-- and one that cannot has none, for the digits of an integer. -/
theorem text_of_not_isWritable {v : Value} (h : v.isWritable = false) :
    v.text = .error (.number .longInteger) := by
  have hwritable : ¬ v.isWritable = true := ne_true_of_eq_false h
  cases v with
  | number n => exact if_neg hwritable
  | array items => exact if_neg hwritable
  | object members => exact if_neg hwritable
  | _ => cases h

theorem text_isOk {v : Value} (h : v.Representable) : ∃ s, v.text = .ok s :=
  text_of_isWritable (isWritable_of_representable h)

end Value

namespace Builtin

/-- The key of an entry has a text if its integers have nearest doubles, so they are short
enough. -/
theorem ofEntry?_isOk {v : Value} (h : v.Representable) : ∃ pair?, ofEntry? v = .ok pair? := by
  unfold ofEntry?
  split
  · rename_i k w hk hw
    obtain ⟨name, hname⟩ := k.text_isOk ((Value.hereditary_everyNumber _).member? h _ k hk)
    exact ⟨some (name, w), by rw [hname]; rfl⟩
  · exact ⟨none, rfl⟩

/-- A builtin that has to look into numbers. -/
theorem apply_isOk (b : Builtin) {v : Value} (h : v.Representable) : ∃ w, b.apply v = .ok w := by
  cases b with
  | toEntries => exact toEntries_isOk v
  | fromEntries =>
      cases v with
      | array items =>
          obtain ⟨pairs, hpairs⟩ : ∃ pairs, items.mapM ofEntry? = .ok pairs :=
            Result.mapM_isOk fun v hv => ofEntry?_isOk (Value.everyNumber_array.mp h v hv)
          exact ⟨_, Result.bind_eq_ok.mpr ⟨pairs, hpairs, rfl⟩⟩
      | _ => exact ⟨_, rfl⟩
  | _ => cases v <;> exact ⟨_, rfl⟩

/-- **Builtins** yield values whose numbers have nearest doubles. -/
theorem apply_yields (b : Builtin) {v : Value} (h : v.Representable)
    (hcount : v.partCount < Value.countBound) : Yields Value.Representable (b.apply v) := by
  obtain ⟨w, hw⟩ := b.apply_isOk h
  have hends := b.apply_ends (Value.hereditary_everyNumber _) h fun n hn =>
    Value.representable_ofNat (hn.trans_lt hcount)
  exact ⟨w, hw, (hends.of_ok hw).2⟩

end Builtin

/-! ### Conditions -/

/-- A comparison has an answer if both sides have nearest doubles. -/
theorem Condition.holds_isOk {c : Condition}
    (hliteral : ∀ relation literal, c.test = some (relation, literal) → literal.Representable)
    {v : Value} (h : v.Representable) : ∃ answer, c.holds v = .ok answer := by
  rw [holds]
  split
  · exact ⟨_, rfl⟩
  · rename_i relation literal htest
    exact relation.compare_isOk (c.path.resolve_invariant (Value.hereditary_everyNumber _) false h)
      (forall_mem_some (hliteral relation literal htest))

/-- Keeping items has a result if every test has one, and the result has only items of the list. -/
theorem Items.keep_yields {α : Type} {test : α → Except Fault Bool} {items : List α}
    (h : ∀ a ∈ items, ∃ answer, test a = .ok answer) :
    Yields (fun kept => ∀ a ∈ kept, a ∈ items) (keep test items) := by
  induction items with
  | nil => exact .ok nofun
  | cons a items ih =>
      obtain ⟨passes, hpasses⟩ := h a List.mem_cons_self
      rw [keep, hpasses, Result.bind_ok]
      exact (ih fun a ha => h a (List.mem_cons_of_mem _ ha)).map fun kept hkept a =>
        mem_of_mem_kept hkept

/-! ### Stages -/

namespace Stage

/-- A stage stands in a chain under `k` maps. -/
inductive Within : (k : Nat) → (stage : Stage) → (chain : List Stage) → Prop where
  | here {stage : Stage} {chain : List Stage} (h : stage ∈ chain) : Within 0 stage chain
  | body {k : Nat} {stage : Stage} {body chain : List Stage} (hbody : map body ∈ chain)
      (h : Within k stage body) : Within (k + 1) stage chain

/-- A chain comes across `u` on its way from `v`. -/
inductive Meets (limit : Nat) : (levels : Nat) → (chain : List Stage) → (v u : Value) → Prop where
  | here (levels : Nat) (chain : List Stage) (v : Value) : Meets limit levels chain v v
  | next {levels : Nat} {stage : Stage} {chain : List Stage} {v w u : Value}
      (hw : apply limit levels stage v = .ok w) (h : Meets limit levels chain w u) :
      Meets limit levels (stage :: chain) v u
  | item {levels : Nat} {body chain : List Stage} {items : List Value} {v u : Value}
      (hv : v ∈ items) (h : Meets limit levels body v u) :
      Meets limit (levels + 1) (map body :: chain) (.array items) u

/-- Maps are nested at most `levels` deep, and literals have nearest doubles. -/
structure Sound (levels : Nat) (chain : List Stage) : Prop where
  nested : ∀ k body, Within k (map body) chain → k < levels
  literals : ∀ k c relation literal, Within k (select c) chain →
    c.test = some (relation, literal) → literal.Representable

variable {limit levels k : Nat} {stage : Stage} {body chain : List Stage}

theorem Within.of_tail (first : Stage) (h : Within k stage chain) :
    Within k stage (first :: chain) := by
  cases h with
  | here h => exact .here (List.mem_cons_of_mem _ h)
  | body hbody h => exact .body (List.mem_cons_of_mem _ hbody) h

namespace Sound

theorem tail (h : Sound levels (stage :: chain)) : Sound levels chain where
  nested k body hbody := h.nested k body (hbody.of_tail stage)
  literals k c relation literal hc := h.literals k c relation literal (hc.of_tail stage)

theorem inside (h : Sound (levels + 1) (map body :: chain)) : Sound levels body where
  nested k inner hinner :=
    Nat.lt_of_succ_lt_succ (h.nested (k + 1) inner (.body List.mem_cons_self hinner))
  literals k c relation literal hc :=
    h.literals (k + 1) c relation literal (.body List.mem_cons_self hc)

end Sound

/-- **A stage**, if the chains inside it yield values. -/
theorem apply_yields (hsound : Sound levels (stage :: chain)) {v : Value} (h : v.Representable)
    (hcount : v.partCount < Value.countBound)
    (hbody : ∀ n body items, levels = n + 1 → stage = map body → v = .array items →
      ∀ item ∈ items, Yields Value.Representable (applyAll limit n body item)) :
    Yields Value.Representable (apply limit levels stage v) := by
  have hp := Value.hereditary_everyNumber fun n => ∃ x, n.toFloat = .ok x
  cases stage with
  | identity => exact .ok h
  | path path iterate => exact .ok (lookUp_invariant hp path iterate h)
  | index n => exact .ok (itemAt_invariant hp n h)
  | slice start stop => exact .ok (cut_invariant hp start stop h)
  | builtin b => exact b.apply_yields h hcount
  | select c =>
      cases v with
      | array items =>
          have hitems := Value.everyNumber_array.mp h
          have hliteral := fun relation literal =>
            hsound.literals 0 c relation literal (.here List.mem_cons_self)
          refine (Items.keep_yields fun v hv => c.holds_isOk hliteral (hitems v hv)).map ?_
          exact fun kept hkept => Value.everyNumber_array.mpr fun v hv => hitems v (hkept v hv)
      | _ => exact .ok h
  | map body =>
      cases v with
      | array items =>
          -- reading left a level for the chain inside
          obtain ⟨n, rfl⟩ := Nat.exists_eq_add_one.mpr
            (hsound.nested 0 body (.here List.mem_cons_self))
          rw [apply_map]
          exact (Yields.mapM (hbody n body items rfl rfl rfl)).map fun results =>
            Value.everyNumber_array.mpr
      | _ => exact .ok h

/-- **A chain of stages**, by induction on the levels and then on the chain. -/
theorem applyAll_yields (hsound : Sound levels chain) {v : Value} (h : v.Representable)
    (hcount : ∀ u, Meets limit levels chain v u → u.partCount < Value.countBound) :
    Yields Value.Representable (applyAll limit levels chain v) := by
  induction levels using Nat.strong_induction_on generalizing chain v with
  | _ levels ih =>
      induction chain generalizing v with
      | nil => exact .ok h
      | cons stage chain ihchain =>
          rw [applyAll]
          refine (apply_yields hsound h (hcount v (.here _ _ _)) ?_).bind fun w hw hrepresentable =>
            ihchain hsound.tail hrepresentable fun u hu => hcount u (.next hw hu)
          rintro n body items rfl rfl rfl item hitem
          exact ih n (Nat.lt_succ_self n) hsound.inside (Value.everyNumber_array.mp h item hitem)
            fun u hu => hcount u (.item hitem hu)

end Stage

/-! ### Filter texts -/

namespace Filter

open Stage (Within Meets Sound)

/-- A map is read from a text whose body is a chain. -/
theorem exists_body_of_readStage {chain : List Char → Except Fault Filter} {s : List Char}
    {body : Filter} (h : readStage chain s = .ok (.map body)) : ∃ t, chain t = .ok body := by
  -- no other branch ends in a map
  have hother {α : Type} {x : Except Fault α} {f : α → Stage} (hf : ∀ a, f a ≠ .map body) :
      (do return f (← x)) ≠ Except.ok (Stage.map body) := by
    intro hx
    obtain ⟨a, -, ha⟩ := Result.bind_eq_ok.mp hx
    exact hf a (Except.ok.inj ha)
  rw [readStage] at h
  split at h
  · cases h
  · split at h
    · cases h
    · split at h
      · exact absurd h (hother (by simp))
      · split at h
        · obtain ⟨start, -, h⟩ := Result.bind_eq_ok.mp h
          exact absurd h (hother (by simp))
        · split at h
          · rename_i t _
            obtain ⟨inner, hinner, h⟩ := Result.bind_eq_ok.mp h
            cases h
            exact ⟨t, hinner⟩
          · split at h
            · exact absurd h (hother (by simp))
            · split at h
              · rw [readPathStage] at h
                split at h <;> exact absurd h (hother (by simp))
              · cases h

variable {limit levels : Nat}

/-- **Reading counts the maps** around a chain: one level is left for each. -/
theorem readChain_nested {text : List Char} {chain : Filter}
    (h : readChain limit levels text = .ok chain) {k : Nat} {body : List Stage}
    (hin : Within k (.map body) chain) : k + 1 < levels := by
  induction levels generalizing text chain k body with
  | zero => cases h
  | succ levels ih =>
      rw [readChain] at h
      obtain ⟨segments, -, hchain⟩ := Result.bind_eq_ok.mp h
      -- the body of a map in the chain was read with one level less
      have hread : ∀ body, .map body ∈ chain → ∃ t, readChain limit levels t = .ok body := by
        intro body hmem
        obtain ⟨segment, -, hsegment⟩ := Result.exists_of_mem_mapM hchain hmem
        split at hsegment
        · cases hsegment
        · exact exists_body_of_readStage hsegment
      cases hin with
      | here hmem =>
          obtain ⟨t, ht⟩ := hread body hmem
          cases levels with
          | zero => cases ht
          | succ levels => omega
      | body hmem hin =>
          obtain ⟨t, ht⟩ := hread _ hmem
          exact Nat.succ_lt_succ (ih ht hin)

/-- Maps are never nested as deep as the limit in a filter that was read. -/
theorem read_nested {text : String} {filter : Filter} (h : read limit text = .ok filter) {k : Nat}
    {body : List Stage} (hin : Within k (.map body) filter) : k < limit := by
  simp only [read] at h
  split at h
  · cases h
    rcases hin with ⟨hmem⟩ | ⟨hmem, -⟩
    · cases List.mem_singleton.mp hmem
    · cases List.mem_singleton.mp hmem
  · exact Nat.lt_of_succ_lt_succ (readChain_nested h hin)

/-- **A filter that was read cannot fail.**  If the numbers of a value and of the literals of a
filter have nearest doubles, the filter makes of the value another such value. -/
theorem run_yields {text : String} {filter : Filter} (hread : read limit text = .ok filter)
    (hliterals : ∀ k c relation literal, Within k (.select c) filter →
      c.test = some (relation, literal) → literal.Representable)
    {v : Value} (hv : v.Representable)
    (hcount : ∀ u, Meets limit limit filter v u → u.partCount < Value.countBound) :
    ∃ w, filter.run limit v = .ok w ∧ w.Representable :=
  have hsound : Sound limit filter := ⟨fun _ _ => read_nested hread, hliterals⟩
  Stage.applyAll_yields hsound hv hcount

/-- The chain that was read takes the first part of every item and selects the texts `"a"`. -/
def isFirstThenSelect : Except Fault Filter → Bool
  | .ok [.map [.builtin .first], .select ⟨[], some (.eq, .string "a")⟩] => true
  | _ => false

/-- A map and a select, on an array with another one in it. -/
theorem run_yields_first :
    let v : Value := .array [.array [.string "a", .null], .string "b"]
    ∃ filter, read 1 "map(first)|select(. == \"a\")" = .ok filter ∧
      ∃ w, filter.run 1 v = .ok w := by
  intro v
  let c : Condition := ⟨[], some (.eq, .string "a")⟩
  let filter : Filter := [.map [.builtin .first], .select c]
  have hread : read 1 "map(first)|select(. == \"a\")" = .ok filter := by
    -- the kernel compares the chains stage by stage
    have hmatch : ∀ x, isFirstThenSelect x = true → x = .ok filter := by
      intro x h
      rw [isFirstThenSelect.eq_def] at h
      split at h
      · rfl
      · cases h
    exact hmatch _ (by decide +kernel)
  have hliterals : ∀ k c' relation literal, Within k (.select c') filter →
      c'.test = some (relation, literal) → literal.Representable := by
    intro k c' relation literal hin htest
    rcases hin with ⟨hmem⟩ | ⟨hmem, hin⟩
    · obtain rfl : c' = c := by simpa [filter] using hmem
      cases htest
      exact Value.everyNumber_string _
    · obtain rfl := by simpa [filter] using hmem
      rcases hin with ⟨hmem⟩ | ⟨hmem, -⟩
      · cases List.mem_singleton.mp hmem
      · cases List.mem_singleton.mp hmem
  have hmap : Stage.apply 1 1 (.map [.builtin .first]) v =
      .ok (.array [.string "a", .string "b"]) := rfl
  have hselect : Stage.apply 1 1 (.select c) (.array [.string "a", .string "b"]) =
      .ok (.array [.string "a"]) := rfl
  have hcount : ∀ u, Meets 1 1 filter v u → u.partCount < Value.countBound := by
    have hsmall : ∀ n ≤ 3, n < Value.countBound := fun n hn =>
      (hn.trans_lt (by decide : 3 < 1023)).trans (Nat.lt_two_pow_self (n := 1023))
    intro u hu
    refine hsmall _ ?_
    simp only [filter, v] at hu
    rcases hu with _ | ⟨hw, hu⟩ | ⟨hitem, hu⟩
    · decide
    · cases hmap.symm.trans hw
      rcases hu with _ | ⟨hw, hu⟩
      · decide
      · cases hselect.symm.trans hw
        rcases hu with _ | _
        decide
    · rcases hu with _ | ⟨hw, hu⟩
      · rcases List.mem_pair.mp hitem with rfl | rfl <;> decide
      · rcases List.mem_pair.mp hitem with rfl | rfl
        · cases hw
          rcases hu with _ | _
          decide
        · cases hw
          rcases hu with _ | _
          decide
  obtain ⟨w, hw, -⟩ := run_yields hread hliterals (by simp [v]) hcount
  exact ⟨filter, hread, w, hw⟩

end Filter

end Quarry
