import Mathlib.Data.List.Forall2
import Quarry.Proofs.Comparisons
import Quarry.Value.Order

/-!
# Orders — the order of values, level by level

Values of different kinds compare by their ranks (`order_eq_then`), and values of one kind by what
they are made of: arrays by their items (`order_array`), objects by their names in alphabetical
order and then by what is under them (`order_object`).  Both go through lists from the front, so
what holds of the comparisons of items carries over to the lists.

The order turns round when the sides do (`order_swap`).  `Follows x y z` says which outcome `z` two
outcomes `x` and `y` in a row leave open; it goes through lists as it does through numbers, so the
order is transitive wherever no number is `nan` (`order_follows`).
-/

namespace Quarry

/-! ### Two comparisons in a row -/

/-- The first compares to the second as `x`, the second to the third as `y`, and the first to the
third as `z`: an equality changes nothing, and two equal outcomes go on. -/
structure Follows (x y z : Ordering) : Prop where
  eq_left : x = .eq → z = y
  eq_right : y = .eq → z = x
  same : x = y → z = x

/-- Two comparisons, the second for where the first ties, are one comparison of this kind. -/
theorem Follows.then {x y z x' y' z' : Ordering} (h : Follows x y z)
    (h' : x = .eq → y = .eq → Follows x' y' z') :
    Follows (x.then x') (y.then y') (z.then z') := by
  -- an outcome that is no equality is not touched by what comes after it
  have hkeep {u v : Ordering} (hu : u ≠ .eq) : u.then v = u := by
    cases u with
    | eq => exact (hu rfl).elim
    | _ => rfl
  by_cases hx : x = .eq
  · obtain rfl := h.eq_left hx
    subst hx
    by_cases hz : z = .eq
    · subst hz
      exact h' rfl rfl
    · rw [hkeep hz, hkeep hz]
      exact ⟨fun _ => rfl, fun heq => (hz heq).elim, fun heq => heq.symm⟩
  · rw [hkeep hx]
    by_cases hy : y = .eq
    · obtain rfl := h.eq_right hy
      rw [hkeep hx]
      exact ⟨fun heq => (hx heq).elim, fun _ => rfl, fun _ => rfl⟩
    · rw [hkeep hy]
      refine ⟨fun heq => (hx heq).elim, fun heq => (hy heq).elim, fun heq => ?_⟩
      obtain rfl := h.same heq
      exact hkeep hx

/-- Nothing that is not greater is followed by something greater. -/
theorem Follows.ne_gt {x y z : Ordering} (h : Follows x y z) (hx : x ≠ .gt) (hy : y ≠ .gt) :
    z ≠ .gt := by
  cases x with
  | gt => exact (hx rfl).elim
  | eq => rwa [h.eq_left rfl]
  | lt =>
      cases y with
      | gt => exact (hy rfl).elim
      | eq => rw [h.eq_right rfl]; exact nofun
      | lt => rw [h.same rfl]; exact nofun

/-- A transitive order leaves open what its two outcomes say. -/
theorem follows_compare {α : Type} [Ord α] [Std.TransOrd α] (a b c : α) :
    Follows (compare a b) (compare b c) (compare a c) where
  eq_left h := Std.TransCmp.congr_left h
  eq_right h := (Std.TransCmp.congr_right h).symm
  same h := by
    cases hab : compare a b with
    | eq => exact Std.TransCmp.eq_trans hab (h ▸ hab)
    | lt => exact Std.TransCmp.lt_trans hab (h ▸ hab)
    | gt => exact Std.TransCmp.gt_trans hab (h ▸ hab)

/-! ### Lists, compared from the front -/

section Lists

variable {α : Type} {cmp : α → α → Ordering} {xs ys zs : List α}

/-- Lists compare the other way round when their items do, -/
theorem compareLex_swap (h : ∀ x ∈ xs, ∀ y ∈ ys, cmp y x = (cmp x y).swap) :
    ys.compareLex cmp xs = (xs.compareLex cmp ys).swap := by
  induction xs generalizing ys with
  | nil => cases ys <;> rfl
  | cons x xs ih =>
      cases ys with
      | nil => rfl
      | cons y ys =>
          rw [List.compareLex_cons_cons, List.compareLex_cons_cons, Ordering.swap_then,
            h x List.mem_cons_self y List.mem_cons_self,
            ih fun x hx y hy => h x (List.mem_cons_of_mem _ hx) y (List.mem_cons_of_mem _ hy)]

/-- and they are compared transitively when their items are. -/
theorem compareLex_follows
    (h : ∀ x ∈ xs, ∀ y ∈ ys, ∀ z ∈ zs, Follows (cmp x y) (cmp y z) (cmp x z)) :
    Follows (xs.compareLex cmp ys) (ys.compareLex cmp zs) (xs.compareLex cmp zs) := by
  -- where a list ends, the others may go on; `Follows.then` is for the items in front
  induction xs generalizing ys zs with
  | nil =>
      cases ys with
      | nil => exact ⟨fun _ => rfl, fun h => h, fun h => h.symm⟩
      | cons y ys =>
          cases zs with
          | nil => exact ⟨nofun, nofun, nofun⟩
          | cons z zs => exact ⟨nofun, fun _ => rfl, fun _ => rfl⟩
  | cons x xs ih =>
      cases ys with
      | nil =>
          cases zs with
          | nil => exact ⟨nofun, fun _ => rfl, nofun⟩
          | cons z zs => exact ⟨nofun, nofun, nofun⟩
      | cons y ys =>
          cases zs with
          | nil => exact ⟨fun _ => rfl, nofun, fun h => h.symm⟩
          | cons z zs =>
              rw [List.compareLex_cons_cons, List.compareLex_cons_cons, List.compareLex_cons_cons]
              refine (h x List.mem_cons_self y List.mem_cons_self z List.mem_cons_self).then
                fun _ _ => ih fun x hx y hy z hz => ?_
              exact h x (List.mem_cons_of_mem _ hx) y (List.mem_cons_of_mem _ hy) z
                (List.mem_cons_of_mem _ hz)

/-- Lists tie if they are of one length and tie item by item. -/
theorem compareLex_eq_iff :
    xs.compareLex cmp ys = .eq ↔ List.Forall₂ (fun x y => cmp x y = .eq) xs ys := by
  induction xs generalizing ys with
  | nil => cases ys <;> simp [List.compareLex_nil_nil, List.compareLex_nil_cons]
  | cons x xs ih =>
      cases ys with
      | nil => simp [List.compareLex_cons_nil]
      | cons y ys => simp [List.compareLex_cons_cons, Ordering.then_eq_eq, ih]

/-- Comparing lists of images is comparing by images. -/
theorem compareLex_map {β : Type} (f : β → α) (xs ys : List β) :
    (xs.map f).compareLex cmp (ys.map f) = xs.compareLex (fun x y => cmp (f x) (f y)) ys := by
  induction xs generalizing ys with
  | nil => cases ys <;> rfl
  | cons x xs ih =>
      cases ys with
      | nil => rfl
      | cons y ys =>
          rw [List.map_cons, List.map_cons, List.compareLex_cons_cons, List.compareLex_cons_cons,
            ih]

end Lists

/-! ### Numbers -/

namespace Number

/-- Where a number lies: below the finite ones, among them or above. -/
def side : Number → Int
  | .float (.infinite negative) => if negative then -1 else 1
  | _ => 0

/-- The exact value of a finite number in units. -/
def units : Number → Int
  | .int n => n * Binary64.unitsPerOne
  | .float (.finite x) => x.units
  | _ => 0

/-- Numbers compare by exact value. -/
theorem order?_eq {m n : Number} (hm : m ≠ .float .nan) (hn : n ≠ .float .nan) :
    order? m n = some ((compare m.side n.side).then (compare m.units n.units)) := by
  have hpos : (0 : Int) < Binary64.unitsPerOne := Int.natCast_pos.mpr Binary64.unitsPerOne_pos
  cases m with
  | int m =>
      cases n with
      | int n => rw [order?, units, units, compare_mul_pos hpos]; rfl
      | float y =>
          cases y with
          | finite y => rfl
          | infinite t => cases t <;> rfl
          | nan => exact (hn rfl).elim
  | float x =>
      cases x with
      | nan => exact (hm rfl).elim
      | infinite s =>
          cases n with
          | int n => cases s <;> rfl
          | float y =>
              cases y with
              | finite y => cases s <;> rfl
              | infinite t => cases s <;> cases t <;> rfl
              | nan => exact (hn rfl).elim
      | finite x =>
          cases n with
          | int n => exact congrArg some Std.OrientedCmp.eq_swap.symm
          | float y =>
              cases y with
              | finite y => rfl
              | infinite t => cases t <;> rfl
              | nan => exact (hn rfl).elim

/-- Numbers compare by their side of the finite ones and then by their exact value, -/
theorem order_eq {m n : Number} (hm : m ≠ .float .nan) (hn : n ≠ .float .nan) :
    order m n = (compare m.side n.side).then (compare m.units n.units) := by
  rw [order, order?_eq hm hn, Option.getD_some]

/-- and they always compare, unless one is `nan`. -/
theorem order?_eq_order {m n : Number} (hm : m ≠ .float .nan) (hn : n ≠ .float .nan) :
    order? m n = some (order m n) := by
  rw [order, order?_eq hm hn, Option.getD_some]

/-- So their order is transitive. -/
theorem order_follows {k m n : Number} (hk : k ≠ .float .nan) (hm : m ≠ .float .nan)
    (hn : n ≠ .float .nan) : Follows (order k m) (order m n) (order k n) := by
  rw [order_eq hk hm, order_eq hm hn, order_eq hk hn]
  exact (follows_compare _ _ _).then fun _ _ => follows_compare _ _ _

/-- With `nan` every number ties, -/
theorem order_nan (n : Number) : order (.float .nan) n = .eq ∧ order n (.float .nan) = .eq := by
  cases n with
  | int n => exact ⟨rfl, rfl⟩
  | float x => cases x <;> exact ⟨rfl, rfl⟩

/-- so the order of numbers turns round in any case. -/
theorem order_swap (m n : Number) : order n m = (order m n).swap := by
  by_cases hm : m = .float .nan
  · rw [hm, (order_nan n).1, (order_nan n).2]
    rfl
  by_cases hn : n = .float .nan
  · rw [hn, (order_nan m).1, (order_nan m).2]
    rfl
  -- both are proper, so sides and exact values decide
  rw [order_eq hn hm, order_eq hm hn, Ordering.swap_then, ← Std.OrientedCmp.eq_swap,
    ← Std.OrientedCmp.eq_swap]

end Number

/-! ### Values -/

namespace Members

variable {α : Type}

/-- The members in alphabetical order of their names. -/
def byName (members : List (String × α)) : List (String × α) :=
  members.mergeSort fun a b => a.1 ≤ b.1

/-- Putting members in order keeps them. -/
theorem byName_perm (members : List (String × α)) : (byName members).Perm members :=
  List.mergeSort_perm _ _

/-- Only names decide the order, so it may be found before or after the values are changed. -/
theorem byName_map {β : Type} (f : α → β) (members : List (String × α)) :
    byName (members.map fun member => (member.1, f member.2)) =
      (byName members).map fun member => (member.1, f member.2) :=
  (List.map_mergeSort (f := fun member : String × α => (member.1, f member.2))
    fun _ _ _ _ => rfl).symm

end Members

namespace Value

/-- What is said of items and members one after the other, for all of them at once: -/
theorem arrangeItems_eq_map (items : List Value) : arrangeItems items = items.map arrange := by
  induction items with
  | nil => rfl
  | cons v vs ih => rw [arrangeItems, ih, List.map_cons]

/-- members are arranged without regard to each other. -/
theorem arrangeMembers_eq_map (members : List (String × Value)) :
    arrangeMembers members = members.map fun member => (member.1, member.2.arrange) := by
  induction members with
  | nil => rfl
  | cons v vs ih => rw [arrangeMembers, ih, List.map_cons]

/-- Names, items and values of members are compared from the front. -/
theorem orderNames_eq (ss ts : List String) : orderNames ss ts = ss.compareLex compare ts := by
  induction ss generalizing ts with
  | nil => cases ts <;> rfl
  | cons s ss ih =>
      cases ts with
      | nil => rfl
      | cons t ts => rw [orderNames, ih, List.compareLex_cons_cons]

theorem orderItems_eq (xs ys : List Value) : orderItems xs ys = xs.compareLex orderArranged ys := by
  induction xs generalizing ys with
  | nil => cases ys <;> rw [orderItems] <;> rfl
  | cons x xs ih =>
      cases ys with
      | nil => rw [orderItems]; rfl
      | cons y ys => rw [orderItems, ih, List.compareLex_cons_cons]

theorem orderMembers_eq (xs ys : List (String × Value)) :
    orderMembers xs ys = xs.compareLex (fun x y => orderArranged x.2 y.2) ys := by
  induction xs generalizing ys with
  | nil => cases ys <;> rw [orderMembers] <;> rfl
  | cons x xs ih =>
      cases ys with
      | nil => rw [orderMembers]; rfl
      | cons y ys => rw [orderMembers, ih, List.compareLex_cons_cons]

/-- Ranks are compared first. -/
theorem order_eq_then (v w : Value) : order v w = (compare v.rank w.rank).then (order v w) := by
  cases v <;> cases w <;> rfl

theorem order_bool (b c : Bool) : order (bool b) (bool c) = compare b c := rfl

theorem order_number (m n : Number) : order (number m) (number n) = m.order n := rfl

theorem order_string (s t : String) : order (string s) (string t) = compare s t := rfl

/-- Arrays compare by their items. -/
theorem order_array (xs ys : List Value) :
    order (array xs) (array ys) = xs.compareLex order ys := by
  rw [order, arrange, arrange, orderArranged, arrangeItems_eq_map, arrangeItems_eq_map,
    orderItems_eq, compareLex_map]
  rfl

/-- Objects compare by their names in alphabetical order, and then by what is under them. -/
theorem order_object (xs ys : List (String × Value)) :
    order (object xs) (object ys) =
      ((Members.names (Members.byName xs)).compareLex compare
        (Members.names (Members.byName ys))).then
      (((Members.byName xs).map Prod.snd).compareLex order ((Members.byName ys).map Prod.snd)) := by
  have harrange (members : List (String × Value)) : arrange (object members) =
      object ((Members.byName members).map fun member => (member.1, member.2.arrange)) := by
    rw [← Members.byName_map, ← arrangeMembers_eq_map, arrange, Members.byName]
  have hnames (members : List (String × Value)) :
      Members.names (members.map fun member => (member.1, member.2.arrange)) =
        Members.names members := by
    rw [Members.names, List.map_map]
    rfl
  rw [order, harrange, harrange, orderArranged, orderNames_eq, hnames, hnames, orderMembers_eq,
    compareLex_map, compareLex_map]
  rfl

/-! ### A total preorder -/

/-- **The order turns round** when the sides do. -/
theorem order_swap (v w : Value) : order w v = (order v w).swap := by
  induction v generalizing w with
  | null => cases w <;> rfl
  | bool b =>
      cases w with
      | bool c => exact Std.OrientedOrd.eq_swap
      | _ => rfl
  | number m =>
      cases w with
      | number n => exact Number.order_swap m n
      | _ => rfl
  | string s =>
      cases w with
      | string t => exact Std.OrientedOrd.eq_swap
      | _ => rfl
  -- containers compare part by part, so the parts have to follow
  | array xs ih =>
      cases w with
      | array ys =>
          rw [order_array, order_array]
          exact compareLex_swap fun x hx y _ => ih x hx y
      | _ => rfl
  | object xs ih =>
      cases w with
      | object ys =>
          rw [order_object, order_object, Ordering.swap_then]
          congr 1
          · exact compareLex_swap fun _ _ _ _ => Std.OrientedCmp.eq_swap
          · refine compareLex_swap fun x hx y _ => ?_
            obtain ⟨member, hmem, rfl⟩ := List.mem_map.mp hx
            exact ih member ((Members.byName_perm xs).mem_iff.mp hmem) y
      | _ => rfl

/-- No number in the value is `nan`. -/
abbrev Comparable : Value → Prop :=
  EveryNumber (· ≠ .float .nan)

/-- A number is comparable if it is not `nan`. -/
theorem comparable_number {n : Number} : (number n).Comparable ↔ n ≠ .float .nan :=
  everyNumber_number

/-- The values of an object in order are those of its members. -/
theorem Comparable.mem_byName {members : List (String × Value)}
    (h : (object members).Comparable) {v : Value}
    (hv : v ∈ (Members.byName members).map Prod.snd) :
    v.Comparable ∧ ∃ member ∈ members, member.2 = v := by
  obtain ⟨member, hmem, rfl⟩ := List.mem_map.mp hv
  have hmem := (Members.byName_perm members).mem_iff.mp hmem
  exact ⟨everyNumber_object.mp h member hmem, member, hmem, rfl⟩

/-- Only values of one kind are compared beyond their ranks. -/
theorem follows_of_rank {u v w : Value} (h : u.rank = v.rank → v.rank = w.rank →
    Follows (order u v) (order v w) (order u w)) :
    Follows (order u v) (order v w) (order u w) := by
  rw [order_eq_then u v, order_eq_then v w, order_eq_then u w]
  exact (follows_compare _ _ _).then fun huv hvw =>
    h (compare_eq_iff_eq.mp huv) (compare_eq_iff_eq.mp hvw)

/-- **Transitivity**: the outcomes of two comparisons in a row settle the third as far as the ones
of numbers do. -/
theorem order_follows {u v w : Value} (hu : u.Comparable) (hv : v.Comparable)
    (hw : w.Comparable) : Follows (order u v) (order v w) (order u w) := by
  induction u generalizing v w with
  | null =>
      refine follows_of_rank fun huv hvw => ?_
      cases v <;> cases huv
      cases w <;> cases hvw
      exact follows_compare 0 0 0
  | bool a =>
      refine follows_of_rank fun huv hvw => ?_
      cases v <;> cases huv
      cases w <;> cases hvw
      exact follows_compare _ _ _
  | number k =>
      refine follows_of_rank fun huv hvw => ?_
      cases v <;> cases huv
      cases w <;> cases hvw
      exact Number.order_follows (comparable_number.mp hu) (comparable_number.mp hv)
        (comparable_number.mp hw)
  | string r =>
      refine follows_of_rank fun huv hvw => ?_
      cases v <;> cases huv
      cases w <;> cases hvw
      exact follows_compare _ _ _
  | array xs ih =>
      refine follows_of_rank fun huv hvw => ?_
      cases v <;> cases huv
      cases w <;> cases hvw
      rw [order_array, order_array, order_array]
      exact compareLex_follows fun x hx y hy z hz => ih x hx (everyNumber_array.mp hu x hx)
        (everyNumber_array.mp hv y hy) (everyNumber_array.mp hw z hz)
  | object xs ih =>
      refine follows_of_rank fun huv hvw => ?_
      cases v <;> cases huv
      cases w <;> cases hvw
      rw [order_object, order_object, order_object]
      refine (compareLex_follows fun r _ s _ t _ => follows_compare r s t).then fun _ _ => ?_
      refine compareLex_follows fun x hx y hy z hz => ?_
      obtain ⟨hx, member, hmem, rfl⟩ := hu.mem_byName hx
      exact ih member hmem hx (hv.mem_byName hy).1 (hw.mem_byName hz).1

end Value

end Quarry
