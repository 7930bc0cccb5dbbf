import Mathlib.Data.List.FinRange
import Quarry.Proofs.Commuting

/-!
# Distinct — the first of each group of equal items

Equality of values is an equivalence (`same_self`, `same_comm`, `same_trans`; only `nan` differs
from itself), and equal values compare equal (`order_of_same`).  It is finer than the order: objects
with their members in other orders, or an array with either of them in it, compare equal and are
not the same.

Of equal items the first is kept, which is what erasing duplicates does (`distinct_eq_eraseDups`).
So an item is kept if and only if it is at a place before which nothing is the same (`firsts`).

A list in order is known by its runs, that is, by the items in it that compare equal to each value
(`eq_of_runs`).  Sorting leaves every run as it came, and equal items are in one run; so each run of
the sorted items loses the same items as in the place where it came from, and it makes no difference
whether duplicates are erased before sorting or after it (`sort_distinct`).
-/

namespace Quarry

/-! ### Equality -/

namespace Number

variable {k m n : Number}

/-- What is the same as a number is not `nan`, -/
theorem ne_nan_of_same (h : m.same n = true) : m ≠ .float .nan ∧ n ≠ .float .nan := by
  constructor
  · rintro rfl
    cases n with
    | int n => cases h
    | float x => cases x <;> cases h
  · rintro rfl
    cases m with
    | int m => cases h
    | float x => cases x <;> cases h

/-- and apart from it, numbers are the same if they tie. -/
theorem same_iff (hm : m ≠ .float .nan) (hn : n ≠ .float .nan) :
    m.same n = true ↔ m.order n = .eq := by
  rw [same, decide_eq_true_iff, order?_eq_order hm hn, Option.some_inj]

theorem same_self (h : n ≠ .float .nan) : n.same n = true := by
  rw [same_iff h h, order_eq h h, compare_eq_iff_eq.mpr rfl, compare_eq_iff_eq.mpr rfl]
  rfl

theorem same_trans (hkm : k.same m = true) (hmn : m.same n = true) : k.same n = true := by
  obtain ⟨hk, hm⟩ := ne_nan_of_same hkm
  obtain ⟨-, hn⟩ := ne_nan_of_same hmn
  rw [same_iff hk hm] at hkm
  rw [same_iff hm hn] at hmn
  rw [same_iff hk hn, (order_follows hk hm hn).eq_left hkm, hmn]

end Number

section Pairwise

variable {α : Type} {R S : α → α → Prop} {xs ys zs : List α}

theorem forall₂_of_mem (h : ∀ x ∈ xs, ∀ y, R x y → S x y) (hxy : List.Forall₂ R xs ys) :
    List.Forall₂ S xs ys :=
  ((List.forall₂_and_left xs ys).mpr ⟨fun _ hx => hx, hxy⟩).imp fun x y hr => h x hr.1 y hr.2

theorem forall₂_trans (h : ∀ x ∈ xs, ∀ y z, R x y → R y z → R x z)
    (hxy : List.Forall₂ R xs ys) (hyz : List.Forall₂ R ys zs) : List.Forall₂ R xs zs := by
  induction hxy generalizing zs with
  | nil => exact hyz
  | cons hx _ ih =>
      obtain ⟨hfirst, hrest⟩ := List.forall_mem_cons.mp h
      cases hyz with
      | cons hy hyz => exact .cons (hfirst _ _ hx hy) (ih hrest hyz)

end Pairwise

namespace Value

variable {u v w : Value} {items : List Value}

/-- Arrays are the same item by item, -/
theorem sameItems_iff {xs ys : List Value} :
    sameItems xs ys = true ↔ List.Forall₂ (fun x y => x.same y = true) xs ys := by
  induction xs generalizing ys with
  | nil => cases ys <;> simp [sameItems]
  | cons x xs ih =>
      cases ys with
      | nil => simp [sameItems]
      | cons y ys => rw [sameItems, Bool.and_eq_true, ih, List.forall₂_cons]

/-- and objects member by member, in order. -/
theorem sameMembers_iff {xs ys : List (String × Value)} : sameMembers xs ys = true ↔
    List.Forall₂ (fun x y => x.1 = y.1 ∧ x.2.same y.2 = true) xs ys := by
  induction xs generalizing ys with
  | nil => cases ys <;> simp [sameMembers]
  | cons x xs ih =>
      cases ys with
      | nil => simp [sameMembers]
      | cons y ys =>
          rw [sameMembers, Bool.and_eq_true, Bool.and_eq_true, beq_iff_eq, ih, List.forall₂_cons]

/-- Values without `nan` are the same as themselves. -/
theorem same_self (h : v.Comparable) : v.same v = true := by
  induction v with
  | null => rfl
  | bool b => exact beq_self_eq_true b
  | number n => exact Number.same_self (comparable_number.mp h)
  | string s => exact beq_self_eq_true s
  | array xs ih =>
      exact sameItems_iff.mpr (List.forall₂_same.mpr fun x hx =>
        ih x hx (everyNumber_array.mp h x hx))
  | object xs ih =>
      exact sameMembers_iff.mpr (List.forall₂_same.mpr fun x hx =>
        ⟨rfl, ih x hx (everyNumber_object.mp h x hx)⟩)

/-- **Being the same is transitive**, by induction on the first value. -/
theorem same_trans (huv : u.same v = true) (hvw : v.same w = true) : u.same w = true := by
  -- values of different kinds are not the same, so one kind is left in each case
  induction u generalizing v w with
  | null =>
      cases v <;> cases huv
      exact hvw
  | bool a =>
      cases v with
      | bool b =>
          rw [same, beq_iff_eq] at huv
          rwa [huv]
      | _ => cases huv
  | number k =>
      cases v with
      | number m =>
          cases w with
          | number n => exact Number.same_trans huv hvw
          | _ => cases hvw
      | _ => cases huv
  | string r =>
      cases v with
      | string s =>
          rw [same, beq_iff_eq] at huv
          rwa [huv]
      | _ => cases huv
  | array xs ih =>
      cases v with
      | array ys =>
          cases w with
          | array zs =>
              refine sameItems_iff.mpr (forall₂_trans (fun x hx y z => ih x hx) ?_
                (sameItems_iff.mp hvw))
              exact sameItems_iff.mp huv
          | _ => cases hvw
      | _ => cases huv
  | object xs ih =>
      cases v with
      | object ys =>
          cases w with
          | object zs =>
              refine sameMembers_iff.mpr (forall₂_trans (fun x hx y z hxy hyz => ?_)
                (sameMembers_iff.mp huv) (sameMembers_iff.mp hvw))
              exact ⟨hxy.1.trans hyz.1, ih x hx hxy.2 hyz.2⟩
          | _ => cases hvw
      | _ => cases huv

/-- Values that are the same are the same as the same values. -/
theorem same_congr (h : v.same w = true) (u : Value) : v.same u = w.same u := by
  rw [Bool.eq_iff_iff]
  exact ⟨same_trans (same_comm v w ▸ h), same_trans h⟩

/-- **Equal values compare equal.** -/
theorem order_of_same (h : v.same w = true) : order v w = .eq := by
  induction v generalizing w with
  | null =>
      cases w <;> cases h
      rfl
  | bool b =>
      cases w with
      | bool c =>
          rw [same, beq_iff_eq] at h
          exact compare_eq_iff_eq.mpr h
      | _ => cases h
  | number m =>
      cases w with
      | number n =>
          obtain ⟨hm, hn⟩ := Number.ne_nan_of_same h
          exact (Number.same_iff hm hn).mp h
      | _ => cases h
  | string s =>
      cases w with
      | string t =>
          rw [same, beq_iff_eq] at h
          exact Std.LawfulEqOrd.compare_eq_iff_eq.mpr h
      | _ => cases h
  | array xs ih =>
      cases w with
      | array ys =>
          rw [order_array, compareLex_eq_iff]
          exact forall₂_of_mem (fun x hx y => ih x hx) (sameItems_iff.mp h)
      | _ => cases h
  | object xs ih =>
      cases w with
      | object ys =>
          have hmembers : List.Forall₂ (fun x y => x.1 = y.1 ∧ order x.2 y.2 = .eq) xs ys :=
            forall₂_of_mem (fun x hx y hxy => ⟨hxy.1, ih x hx hxy.2⟩) (sameMembers_iff.mp h)
          -- the names agree place by place, so both are put in order in the same way
          have hsorted := forall₂_mergeSort hmembers
            (r := fun a b => decide (a.1 ≤ b.1)) (s := fun a b => decide (a.1 ≤ b.1)) (by
              rintro x y x' y' ⟨hname, -⟩ ⟨hname', -⟩
              rw [hname, hname'])
          obtain ⟨hnames, hvalues⟩ :=
            (names_eq_and_forall₂_iff (R := fun x y => order x y = .eq)).mpr hsorted
          rw [order_object, Ordering.then_eq_eq, compareLex_eq_iff, compareLex_eq_iff]
          refine ⟨?_, hvalues⟩
          rw [Members.byName, Members.byName, hnames]
          exact List.forall₂_same.mpr fun _ _ => Std.LawfulEqOrd.compare_eq_iff_eq.mpr rfl
      | _ => cases h

/-! ### What is kept -/

theorem distinct_eq_eraseDups (items : List Value) : distinct items = items.eraseDups := by
  have hloop (items seen : List Value) :
      List.eraseDupsBy.loop (· == ·) items seen = seen.reverse ++ distinctFrom seen items := by
    induction items generalizing seen with
    | nil => simp [List.eraseDupsBy.loop, distinctFrom]
    | cons v items ih =>
        have hseen : seen.any (v == ·) = seen.any v.same := rfl
        rw [List.eraseDupsBy.loop, distinctFrom, hseen]
        cases seen.any v.same with
        | true => exact ih seen
        | false =>
            simp only [ih, List.reverse_cons, List.append_assoc, Bool.false_eq_true, if_false]
            rfl
  exact (hloop items []).symm

/-- The first item is kept, and from the rest what is not the same. -/
theorem distinct_cons (v : Value) (items : List Value) :
    distinct (v :: items) = v :: distinct (items.filter fun w => !w.same v) := by
  rw [distinct_eq_eraseDups, distinct_eq_eraseDups, List.eraseDups_cons]
  rfl

/-- Induction on a list from what is left of it without the first item and those that are the
same. -/
@[elab_as_elim]
theorem distinct_induct {motive : List Value → Prop} (nil : motive [])
    (cons : ∀ v items, motive (items.filter fun w => !w.same v) → motive (v :: items))
    (items : List Value) : motive items := by
  induction hn : items.length using Nat.strong_induction_on generalizing items with
  | _ n ih =>
      subst hn
      cases items with
      | nil => exact nil
      | cons v items =>
          exact cons v items (ih _ (Nat.lt_succ_of_le (List.length_filter_le _ _)) _ rfl)

/-- Items are left out, and the others stay in order. -/
theorem distinct_sublist (items : List Value) : (distinct items).Sublist items := by
  induction items using distinct_induct with
  | nil => exact .slnil
  | cons v items ih =>
      rw [distinct_cons]
      exact .cons_cons v (ih.trans List.filter_sublist)

/-- **Erasing commutes with filtering** by what equal items agree on. -/
theorem distinct_filter {p : Value → Bool}
    (hp : ∀ v ∈ items, ∀ w ∈ items, v.same w = true → p v = p w) :
    (distinct items).filter p = distinct (items.filter p) := by
  induction items using distinct_induct with
  | nil => rfl
  | cons v items ih =>
      obtain ⟨hfirst, hrest⟩ := List.forall_mem_cons.mp hp
      have hih := ih fun u hu w hw => (List.forall_mem_cons.mp
        (hrest u (List.mem_of_mem_filter hu))).2 w (List.mem_of_mem_filter hw)
      rw [List.filter_comm] at hih
      rw [distinct_cons]
      by_cases hv : p v = true
      · rw [List.filter_cons_of_pos hv, List.filter_cons_of_pos hv, distinct_cons, hih]
      · -- with the item go all that are the same
        have hothers : (items.filter p).filter (fun w => !w.same v) = items.filter p := by
          refine List.filter_eq_self.mpr fun w hw => ?_
          obtain ⟨hmem, hpw⟩ := List.mem_filter.mp hw
          rw [Bool.not_eq_true', Bool.eq_false_iff, same_comm]
          exact fun hsame => hv (hfirst w (List.mem_cons_of_mem v hmem) hsame ▸ hpw)
        rw [List.filter_cons_of_neg hv, List.filter_cons_of_neg hv, hih, hothers]

/-- The items at the places before which no item is the same. -/
def firsts (items : List Value) : List Value :=
  ((List.finRange items.length).filter fun i => ∀ j < i, items[j].same items[i] = false).map
    fun i => items[i]

theorem firsts_cons (v : Value) (items : List Value) :
    firsts (v :: items) = v :: (firsts items).filter fun w => !v.same w := by
  let later (i : Fin items.length) : Bool := ∀ j < i, items[j].same items[i] = false
  have hplaces : firsts (v :: items) =
      (((0 : Fin (items.length + 1)) :: (List.finRange items.length).map Fin.succ).filter
        fun i => ∀ j < i, (v :: items)[j].same (v :: items)[i] = false).map
          fun i => (v :: items)[i] := by
    rw [← List.finRange_succ]
    rfl
  have hlater (i : Fin items.length) :
      decide (∀ j < i.succ, (v :: items)[j].same (v :: items)[i.succ] = false) =
        (!v.same items[i] && later i) := by
    simp [later, Fin.forall_fin_succ]
  rw [hplaces, List.filter_cons_of_pos (by simp), List.map_cons, List.filter_map, List.map_map,
    firsts, List.filter_map, List.filter_filter]
  exact congrArg (v :: List.map _ ·) (List.filter_congr fun i _ => hlater i)

/-- **An item is kept** if and only if it is at a place before which nothing is the same. -/
theorem distinct_eq_firsts (items : List Value) : distinct items = firsts items := by
  induction items with
  | nil => rfl
  | cons v items ih =>
      rw [distinct_cons, firsts_cons, ← ih, distinct_filter fun u _ w _ h => ?_]
      · simp only [same_comm v]
      · rw [same_comm u, same_comm w, same_congr h]

/-- No two that are kept are the same. -/
theorem distinct_pairwise (items : List Value) :
    (distinct items).Pairwise fun v w => v.same w = false := by
  induction items using distinct_induct with
  | nil => exact .nil
  | cons v items ih =>
      rw [distinct_cons]
      refine .cons (fun w hw => ?_) ih
      have hne := (List.mem_filter.mp ((distinct_sublist _).subset hw)).2
      rwa [Bool.not_eq_true', same_comm] at hne

/-- Every item is the same as one that is kept. -/
theorem exists_mem_distinct (h : ∀ v ∈ items, v.Comparable) :
    ∀ v ∈ items, ∃ w ∈ distinct items, v.same w = true := by
  induction items using distinct_induct with
  | nil => exact nofun
  | cons u items ih =>
      rw [distinct_cons]
      intro v hv
      by_cases hsame : v.same u = true
      · exact ⟨u, List.mem_cons_self, hsame⟩
      · rcases List.mem_cons.mp hv with rfl | hv
        · exact absurd (same_self (h v List.mem_cons_self)) hsame
        · have hmem : v ∈ items.filter fun w => !w.same u :=
            List.mem_filter.mpr ⟨hv, by simpa using hsame⟩
          obtain ⟨w, hw, hvw⟩ :=
            ih (fun w hw => h w (List.mem_cons_of_mem u (List.mem_of_mem_filter hw))) v hmem
          exact ⟨w, List.mem_cons_of_mem u hw, hvw⟩

/-- Nothing is erased where no two items are the same. -/
theorem distinct_eq_self (h : items.Pairwise fun v w => v.same w = false) :
    distinct items = items := by
  induction items with
  | nil => rfl
  | cons v items ih =>
      obtain ⟨hfirst, hrest⟩ := List.pairwise_cons.mp h
      have hall : items.filter (fun w => !w.same v) = items :=
        List.filter_eq_self.mpr fun w hw => by rw [same_comm, hfirst w hw, Bool.not_false]
      rw [distinct_cons, hall, ih hrest]

/-! ### Sorting -/

/-- Every value ties with itself. -/
theorem order_self (v : Value) : order v v = .eq := by
  have hswap := order_swap v v
  cases horder : order v v with
  | eq => rfl
  | _ =>
      rw [horder] at hswap
      cases hswap

/-- Neither of two values is greater. -/
theorem order_eq_of_ne_gt (hvw : order v w ≠ .gt) (hwv : order w v ≠ .gt) : order v w = .eq := by
  rw [order_swap v w] at hwv
  cases horder : order v w with
  | eq => rfl
  | gt => exact absurd horder hvw
  | lt =>
      rw [horder] at hwv
      exact absurd rfl hwv

/-- In a list in order the first item is nowhere above another, -/
theorem ne_gt_of_mem (h : (v :: items).Pairwise fun v w => order v w ≠ .gt) (hw : w ∈ v :: items) :
    order v w ≠ .gt := by
  rcases List.mem_cons.mp hw with rfl | hw
  · rw [order_self]
    exact nofun
  · exact (List.pairwise_cons.mp h).1 w hw

/-- and of two lists with the same run of a value both have it, or neither does. -/
theorem mem_iff_of_run {xs ys : List Value}
    (hrun : xs.filter (order v · = .eq) = ys.filter (order v · = .eq)) : v ∈ xs ↔ v ∈ ys := by
  have hmem : v ∈ xs.filter (order v · = .eq) ↔ v ∈ ys.filter (order v · = .eq) := by rw [hrun]
  simpa only [List.mem_filter, order_self, decide_true, and_true] using hmem

/-- **A list in order is known by its runs** of items that compare equal to a value. -/
theorem eq_of_runs {xs ys : List Value} (hxs : xs.Pairwise fun v w => order v w ≠ .gt)
    (hys : ys.Pairwise fun v w => order v w ≠ .gt)
    (hruns : ∀ v ∈ xs ++ ys, xs.filter (order v · = .eq) = ys.filter (order v · = .eq)) :
    xs = ys := by
  induction xs generalizing ys with
  | nil =>
      refine (List.eq_nil_iff_forall_not_mem.mpr fun y hy => ?_).symm
      exact List.not_mem_nil ((mem_iff_of_run (hruns y hy)).mpr hy)
  | cons x xs ih =>
      have hx : x ∈ ys := (mem_iff_of_run (hruns x List.mem_cons_self)).mp List.mem_cons_self
      obtain ⟨y, ys, rfl⟩ := List.exists_cons_of_ne_nil (List.ne_nil_of_mem hx)
      have hy : y ∈ x :: xs := by
        refine (mem_iff_of_run (hruns y ?_)).mpr List.mem_cons_self
        exact List.mem_append_right _ List.mem_cons_self
      -- each is the first of a list that the other is in, so both begin one run
      have heq : order x y = .eq := order_eq_of_ne_gt (ne_gt_of_mem hxs hy) (ne_gt_of_mem hys hx)
      have hrun := hruns x List.mem_cons_self
      simp only [List.filter_cons, order_self, heq, decide_true, if_true] at hrun
      obtain ⟨rfl, -⟩ := List.cons.inj hrun
      refine congrArg (x :: ·) (ih hxs.of_cons hys.of_cons fun v hv => ?_)
      have hv : v ∈ x :: xs ++ x :: ys := by
        rcases List.mem_append.mp hv with hv | hv
        · exact List.mem_append_left _ (List.mem_cons_of_mem x hv)
        · exact List.mem_append_right _ (List.mem_cons_of_mem x hv)
      have hrun := hruns v hv
      by_cases hvx : order v x = .eq
      · simp only [List.filter_cons, hvx, decide_true, if_true] at hrun
        exact (List.cons.inj hrun).2
      · simpa only [List.filter_cons, hvx, decide_false, Bool.false_eq_true, if_false] using hrun

/-- **It makes no difference** whether duplicates are erased before sorting or after it. -/
theorem sort_distinct (h : ∀ v ∈ items, v.Comparable) :
    sort (distinct items) = distinct (sort items) := by
  have hsub := distinct_sublist items
  have hdistinct : ∀ v ∈ distinct items, v.Comparable := fun v hv => h v (hsub.subset hv)
  have hsorted : ∀ v ∈ sort items, v.Comparable := fun v hv => h v ((sort_perm items).mem_iff.mp hv)
  refine eq_of_runs (sort_spec hdistinct).1
    ((sort_spec h).1.sublist (distinct_sublist (sort items))) fun v hv => ?_
  have hv : v.Comparable := by
    rcases List.mem_append.mp hv with hv | hv
    · exact hdistinct v ((sort_perm _).mem_iff.mp hv)
    · exact hsorted v ((distinct_sublist _).subset hv)
  -- equal items are in one run
  have hrun {items : List Value} (h : ∀ v ∈ items, v.Comparable) : ∀ u ∈ items, ∀ w ∈ items,
      u.same w = true → decide (order v u = .eq) = decide (order v w = .eq) := by
    intro u hu w hw hsame
    rw [(order_follows hv (h u hu) (h w hw)).eq_right (order_of_same hsame)]
  rw [sort_filter hdistinct hv, distinct_filter (hrun h), distinct_filter (hrun hsorted),
    sort_filter h hv]

/-- **Unique items.**  Of an array without `nan` the query `unique` keeps the items at the places
before which no item is the same.  No two of them are the same, every item is the same as one of
them, and of them the query keeps all.  Whether it is asked before `sort` or after it makes no
difference. -/
theorem unique_firsts (limit : Nat) (h : (array items).Comparable) :
    Filter.evaluate limit "unique" (.array items) = .ok (.array (firsts items)) ∧
      (firsts items).Sublist items ∧
      ((firsts items).Pairwise fun v w => v.same w = false) ∧
      (∀ v ∈ items, ∃ w ∈ firsts items, v.same w = true) ∧
      Filter.evaluate limit "unique" (.array (firsts items)) = .ok (.array (firsts items)) ∧
      ∃ sorted : List Value,
        Filter.evaluate limit "sort | unique" (.array items) = .ok (.array sorted) ∧
        Filter.evaluate limit "unique | sort" (.array items) = .ok (.array sorted) := by
  have hitems : ∀ v ∈ items, v.Comparable := everyNumber_array.mp h
  have hunique (items : List Value) :
      Filter.evaluate limit "unique" (.array items) = .ok (.array (distinct items)) := rfl
  have hafter : Filter.evaluate limit "sort | unique" (.array items) =
      .ok (.array (distinct (sort items))) := rfl
  have hbefore : Filter.evaluate limit "unique | sort" (.array items) =
      .ok (.array (sort (distinct items))) := rfl
  rw [hunique, hunique, hafter, hbefore, ← distinct_eq_firsts,
    distinct_eq_self (distinct_pairwise items), sort_distinct hitems]
  exact ⟨rfl, distinct_sublist items, distinct_pairwise items, exists_mem_distinct hitems, rfl,
    _, rfl, rfl⟩

/-- Two objects that compare equal and are not the same, and the first of them again. -/
theorem unique_firsts_members :
    let v := object [("a", ofNat 1), ("b", array [])]
    let w := object [("b", array []), ("a", ofNat 1)]
    (array [w, v, w]).Comparable ∧
      Filter.evaluate 8 "unique" (.array [w, v, w]) = .ok (.array [w, v]) ∧
      ∃ sorted : List Value,
        Filter.evaluate 8 "sort | unique" (.array [w, v, w]) = .ok (.array sorted) ∧
        Filter.evaluate 8 "unique | sort" (.array [w, v, w]) = .ok (.array sorted) := by
  intro v w
  have hcomparable : (array [w, v, w]).Comparable := by simp [Comparable, v, w, ofNat]
  have hfirsts : firsts [w, v, w] = [w, v] := rfl
  obtain ⟨hunique, -, -, -, -, hsorted⟩ := unique_firsts 8 hcomparable
  exact ⟨hcomparable, hfirsts ▸ hunique, hsorted⟩

end Value

end Quarry
