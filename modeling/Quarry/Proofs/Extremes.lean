import Quarry.Proofs.Distinct
import Quarry.Proofs.Heights

/-!
# Extremes — the least and the greatest item, and where sorting puts them

The functions `min` and `max` go through the items once and change to another item only if that is
less, or greater, than the best so far.  So of several best items they find the first
(`firstBest_best`).  A stable sort puts the least items to the front as they came, and the first of
them first (`head?_sort`).  It puts the greatest to the end, the last of them last; so it is the
reversed items whose sorting ends in the first of the greatest (`getLast?_sort_reverse`).
-/

namespace Quarry

section Sides

variable {o x y z : Ordering}

theorem ne_swap_self (ho : o ≠ .eq) : o ≠ o.swap := by
  cases o <;> simp_all [Ordering.swap]

theorem eq_or_eq_of_ne_swap (ho : o ≠ .eq) (h : x ≠ o.swap) : x = .eq ∨ x = o := by
  cases o <;> cases x <;> simp_all [Ordering.swap]

/-- Nothing that lies on the one side is followed to the other. -/
theorem Follows.ne_swap (h : Follows x y z) (ho : o ≠ .eq) (hx : x ≠ o.swap) (hy : y ≠ o.swap) :
    z ≠ o.swap := by
  rcases eq_or_eq_of_ne_swap ho hx with hx' | hx'
  · rwa [h.eq_left hx']
  · rcases eq_or_eq_of_ne_swap ho hy with hy' | hy'
    · rwa [h.eq_right hy']
    · rwa [h.same (hx'.trans hy'.symm)]

theorem Follows.eq_of_right (h : Follows x y z) (ho : o ≠ .eq) (hx : x ≠ o.swap) (hy : y = o) :
    z = o := by
  rcases eq_or_eq_of_ne_swap ho hx with hx | hx
  · rw [h.eq_left hx, hy]
  · rw [h.same (hx.trans hy.symm), hx]

theorem Follows.eq_of_left (h : Follows x y z) (ho : o ≠ .eq) (hx : x = o) (hy : y ≠ o.swap) :
    z = o := by
  rcases eq_or_eq_of_ne_swap ho hy with hy | hy
  · rw [h.eq_right hy, hx]
  · rw [h.same (hx.trans hy.symm), hx]

end Sides

namespace Value

variable {o : Ordering} {v w m : Value} {items : List Value}

/-! ### The first of the best -/

/-- The item that is found by changing to whatever compares to the best so far as `o`. -/
def best (o : Ordering) : Value → List Value → Value
  | v, [] => v
  | v, w :: ws => if order w v = o then best o w ws else best o v ws

theorem least_eq_best (v : Value) (items : List Value) : least v items = best .lt v items := by
  induction items generalizing v with
  | nil => rfl
  | cons w items ih => rw [least, best, ih, ih]

theorem greatest_eq_best (v : Value) (items : List Value) :
    greatest v items = best .gt v items := by
  induction items generalizing v with
  | nil => rfl
  | cons w items ih => rw [greatest, best, ih, ih]

/-- No item lies on the other side of `m` than `o`, and `m` is the first of those that compare equal
to it. -/
structure FirstBest (o : Ordering) (m : Value) (items : List Value) : Prop where
  side : o ≠ .eq
  bound : ∀ w ∈ items, order m w ≠ o.swap
  first : (items.filter (order m · = .eq)).head? = some m

theorem FirstBest.mem (h : FirstBest o m items) : m ∈ items :=
  List.mem_of_mem_filter (List.mem_of_head? h.first)

/-- A step to a better item: what is best of the rest beats the item that is left. -/
theorem FirstBest.step (h : FirstBest o m (w :: items))
    (hcomparable : ∀ u ∈ v :: w :: items, u.Comparable) (hbetter : order w v = o) :
    FirstBest o m (v :: w :: items) := by
  obtain ⟨hv, hrest⟩ := List.forall_mem_cons.mp hcomparable
  have hfollows := order_follows (hrest m h.mem) (hrest w List.mem_cons_self) hv
  have hbeats : order m v = o := hfollows.eq_of_right h.side (h.bound w List.mem_cons_self) hbetter
  have hbound : order m v ≠ o.swap := by
    rw [hbeats]
    exact ne_swap_self h.side
  refine ⟨h.side, List.forall_mem_cons.mpr ⟨hbound, h.bound⟩, ?_⟩
  rw [List.filter_cons_of_neg (by simpa [hbeats] using h.side)]
  exact h.first

/-- A step over an item that is not better. -/
theorem FirstBest.pass (h : FirstBest o m (v :: items))
    (hcomparable : ∀ u ∈ v :: w :: items, u.Comparable) (hworse : order w v ≠ o) :
    FirstBest o m (v :: w :: items) := by
  obtain ⟨hv, hw, hitems⟩ :=
    (List.forall_mem_cons.mp hcomparable).imp_right List.forall_mem_cons.mp
  obtain ⟨hbound, hbounds⟩ := List.forall_mem_cons.mp h.bound
  have hvw : order v w ≠ o.swap := by
    rw [order_swap w v]
    exact fun heq => hworse (Ordering.swap_inj.mp heq)
  have hfollows := order_follows (List.forall_mem_cons.mpr ⟨hv, hitems⟩ m h.mem) hv hw
  refine ⟨h.side, List.forall_mem_cons.mpr ⟨hbound, List.forall_mem_cons.mpr
    ⟨hfollows.ne_swap h.side hbound hvw, hbounds⟩⟩, ?_⟩
  have hfirst := h.first
  rcases eq_or_eq_of_ne_swap h.side hbound with heq | hbeats
  · -- the first item is in the run, and so it is `m`
    rw [List.filter_cons_of_pos (by simp [heq])] at hfirst ⊢
    exact hfirst
  · have hbeats' : order m w = o := hfollows.eq_of_left h.side hbeats hvw
    rw [List.filter_cons_of_neg (by simpa [hbeats] using h.side)] at hfirst ⊢
    rwa [List.filter_cons_of_neg (by simpa [hbeats'] using h.side)]

/-- **The first of the best items** is found. -/
theorem firstBest_best (ho : o ≠ .eq) (h : ∀ w ∈ v :: items, w.Comparable) :
    FirstBest o (best o v items) (v :: items) := by
  induction items generalizing v with
  | nil =>
      refine ⟨ho, List.forall_mem_singleton.mpr ?_, ?_⟩
      · rw [best, order_self]
        exact fun heq => ho (Ordering.swap_inj.mp heq.symm)
      · simp [best, order_self]
  | cons w items ih =>
      obtain ⟨hv, hrest⟩ := List.forall_mem_cons.mp h
      rw [best]
      split
      · rename_i hbetter
        exact (ih hrest).step h hbetter
      · rename_i hworse
        have hfront := List.forall_mem_cons.mpr ⟨hv, (List.forall_mem_cons.mp hrest).2⟩
        exact (ih hfront).pass h hworse

/-! ### Sorting -/

/-- What holds the run of `m` as it came, and nothing worse before anything better, begins with
`m`. -/
theorem FirstBest.head? {sorted : List Value} (hm : FirstBest o m items) (hperm : sorted.Perm items)
    (hrun : sorted.filter (order m · = .eq) = items.filter (order m · = .eq))
    (hpairs : sorted.Pairwise fun v w => order v w ≠ o.swap) : sorted.head? = some m := by
  have hfirst : (sorted.filter (order m · = .eq)).head? = some m := hrun ▸ hm.first
  have hmem : m ∈ sorted := hperm.mem_iff.mpr hm.mem
  cases sorted with
  | nil => cases hmem
  | cons v sorted =>
      rcases List.mem_cons.mp hmem with rfl | hmem
      · rfl
      · have hvm : order v m ≠ o.swap := (List.pairwise_cons.mp hpairs).1 m hmem
        have hmv : order m v ≠ o.swap := hm.bound v (hperm.mem_iff.mp List.mem_cons_self)
        have heq : order m v = .eq := by
          rw [order_swap m v] at hvm
          exact (eq_or_eq_of_ne_swap hm.side hmv).resolve_right fun heq => hvm (congrArg _ heq)
        rwa [List.filter_cons_of_pos (by simp [heq])] at hfirst

/-- **The first of the least** comes first when the items are sorted. -/
theorem head?_sort (h : ∀ v ∈ items, v.Comparable) (hm : FirstBest .lt m items) :
    (sort items).head? = some m :=
  hm.head? (sort_perm items) (sort_filter h (h m hm.mem)) (sort_spec h).1

/-- **The first of the greatest** comes last when the items are turned around and sorted. -/
theorem getLast?_sort_reverse (h : ∀ v ∈ items, v.Comparable) (hm : FirstBest .gt m items) :
    (sort items.reverse).getLast? = some m := by
  have hreverse : ∀ v ∈ items.reverse, v.Comparable := fun v hv => h v (List.mem_reverse.mp hv)
  rw [← List.head?_reverse]
  refine hm.head? ?_ ?_ ?_
  · exact (List.reverse_perm _).trans ((sort_perm _).trans (List.reverse_perm _))
  · rw [List.filter_reverse, sort_filter hreverse (h m hm.mem), List.filter_reverse,
      List.reverse_reverse]
  · refine List.pairwise_reverse.mpr ((sort_spec hreverse).1.imp fun {v w} hvw => ?_)
    rw [order_swap v w]
    exact fun heq => hvw (Ordering.swap_inj.mp heq)

end Value

variable {limit budget : Nat} {v : Value}

/-- **Extremes and sorting.**  Of a value without `nan` the expression `min` finds what the query
`sort | first` finds, and `max` what `reverse | sort | last` finds: of an array the same one of the
best items, of an empty array null, and of everything else the value itself. -/
theorem extremes_sorted (limit limit' : Nat) (hbudget : 0 < budget) (h : v.Comparable) :
    (∃ w, Expr.evaluate limit budget "min" v = .ok w ∧
      Filter.evaluate limit' "sort | first" v = .ok w) ∧
    ∃ w, Expr.evaluate limit budget "max" v = .ok w ∧
      Filter.evaluate limit' "reverse | sort | last" v = .ok w := by
  have hmin : Expr.evaluate limit budget "min" v = Expr.applySubject .min v :=
    Expr.evaluate_subject (by cases limit <;> rfl) hbudget v
  have hmax : Expr.evaluate limit budget "max" v = Expr.applySubject .max v :=
    Expr.evaluate_subject (by cases limit <;> rfl) hbudget v
  rw [hmin, hmax]
  cases v with
  | array items =>
      have hfirst : Filter.evaluate limit' "sort | first" (.array items) =
          .ok ((Value.sort items).head?.getD .null) := rfl
      have hlast : Filter.evaluate limit' "reverse | sort | last" (.array items) =
          .ok ((Value.sort items.reverse).getLast?.getD .null) := rfl
      rw [hfirst, hlast]
      cases items with
      | nil =>
          rw [List.reverse_nil, Value.sort_eq_self .nil]
          exact ⟨⟨.null, rfl, rfl⟩, .null, rfl, rfl⟩
      | cons v items =>
          have hitems : ∀ w ∈ v :: items, w.Comparable := Value.everyNumber_array.mp h
          have hleast := Value.firstBest_best (o := .lt) nofun hitems
          have hgreatest := Value.firstBest_best (o := .gt) nofun hitems
          rw [Value.head?_sort hitems hleast, Value.getLast?_sort_reverse hitems hgreatest,
            ← Value.least_eq_best, ← Value.greatest_eq_best]
          exact ⟨⟨_, rfl, rfl⟩, _, rfl, rfl⟩
  | _ => exact ⟨⟨_, rfl, rfl⟩, _, rfl, rfl⟩

/-- Two objects that compare equal: both ways find the first of them, as the least and as the
greatest. -/
theorem extremes_sorted_members :
    let v := Value.object [("a", .ofNat 1), ("b", .array [])]
    let w := Value.object [("b", .array []), ("a", .ofNat 1)]
    0 < 1 ∧ (Value.array [w, v]).Comparable ∧
      (Expr.evaluate 8 1 "min" (.array [w, v]) = .ok w ∧
        Filter.evaluate 8 "sort | first" (.array [w, v]) = .ok w) ∧
      Expr.evaluate 8 1 "max" (.array [w, v]) = .ok w ∧
        Filter.evaluate 8 "reverse | sort | last" (.array [w, v]) = .ok w := by
  intro v w
  have hone : (Value.ofNat 1).Sortable := Value.Sortable.number_iff.mpr nofun
  have hempty : (Value.array []).Sortable := Value.Sortable.array_iff.mpr nofun
  have hv : v.Sortable := Value.Sortable.object_iff.mpr ⟨by decide, by simp [hone, hempty]⟩
  have hw : w.Sortable := Value.Sortable.object_iff.mpr ⟨by decide, by simp [hone, hempty]⟩
  have hcomparable : (Value.array [w, v]).Comparable := by
    simp [Value.Comparable, v, w, Value.ofNat]
  have horder : Value.order v w = .eq :=
    (Value.order_eq_iff hv hw).mpr (.object (.swap _ _ _) .rfl rfl
      (.cons (.array .nil) (.cons (.number rfl) .nil)))
  have hleast : Expr.evaluate 8 1 "min" (.array [w, v]) = .ok w := by
    rw [Expr.evaluate_subject rfl Nat.one_pos, Expr.applySubject, Value.least, horder]
    rfl
  have hgreatest : Expr.evaluate 8 1 "max" (.array [w, v]) = .ok w := by
    rw [Expr.evaluate_subject rfl Nat.one_pos, Expr.applySubject, Value.greatest, horder]
    rfl
  obtain ⟨⟨x, hmin, hfirst⟩, y, hmax, hlast⟩ :=
    extremes_sorted 8 8 Nat.one_pos hcomparable
  cases Except.ok.inj (hmin.symm.trans hleast)
  cases Except.ok.inj (hmax.symm.trans hgreatest)
  exact ⟨Nat.one_pos, hcomparable, ⟨hmin, hfirst⟩, hmax, hlast⟩

end Quarry
