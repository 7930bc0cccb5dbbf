import Mathlib.Data.List.Nodup
import Mathlib.Data.Set.List
import Quarry.Filter.Reader
import Quarry.Proofs.Orders

/-!
# Sort keys — the order of values as a comparison of nested keys

A sort key is made of numbers, texts and lists of keys.  Only keys of one shape can be compared, and
lists are compared at the first place where they differ (`Key.less?`).  The key of a value starts
with its rank, so places that differ in shape are never reached: keys of values compare without
failing, and come out as the order of the values (`Value.sortKey_compares`).  Equal keys belong to
values that are alike up to the order of members (`Value.order_eq_iff`).

Sorting is a stable sort by keys: it puts a rearrangement of the items in order, and leaves those
with equal keys as they came.
-/

namespace Quarry

/-! ### Keys -/

/-- A sort key. -/
inductive Key where
  | number (n : Number)
  | text (s : String)
  | list (keys : List Key)

namespace Key

/-- A natural number as a key. -/
def ofNat (n : Nat) : Key :=
  number (.int n)

mutual

/-- Equality of keys.  Keys of different shapes are not equal. -/
def same : Key → Key → Bool
  | number m, number n => m.same n
  | text s, text t => s == t
  | list ks, list ls => sameKeys ks ls
  | _, _ => false

/-- Equality key by key. -/
def sameKeys : List Key → List Key → Bool
  | [], [] => true
  | k :: ks, l :: ls => same k l && sameKeys ks ls
  | _, _ => false

end

mutual

/-- Whether the first key is less; `none` for keys of different shapes. -/
def less? : Key → Key → Option Bool
  | number m, number n => some (m.order? n = some .lt)
  | text s, text t => some (s < t)
  | list ks, list ls => lessKeys? ks ls
  | _, _ => none

/-- Lists are compared at the first place where they differ, and by length if there is none. -/
def lessKeys? : List Key → List Key → Option Bool
  | [], [] => some false
  | [], _ :: _ => some true
  | _ :: _, [] => some false
  | k :: ks, l :: ls => if same k l then lessKeys? ks ls else less? k l

end

/-- The first key is less or equal. -/
def AtMost (k l : Key) : Prop :=
  k.less? l = some true ∨ k.same l = true

end Key

mutual

/-- The key of a value: its rank, and what values of its kind are compared by. -/
def Value.sortKey : Value → Key
  | .null => .list [.ofNat 0]
  | .bool b => .list [.ofNat 1, .ofNat b.toNat]
  | .number n => .list [.ofNat 2, .number n]
  | .string s => .list [.ofNat 3, .text s]
  | .array items => .list [.ofNat 4, .list (itemKeys items)]
  | .object members =>
      let names := (Members.names members).mergeSort (· ≤ ·)
      .list [.ofNat 5, .list (names.map .text),
        .list (names.filterMap (Members.find? (memberKeys members)))]

/-- The keys of items. -/
def Value.itemKeys : List Value → List Key
  | [] => []
  | v :: vs => sortKey v :: itemKeys vs

/-- The keys of what is under the names. -/
def Value.memberKeys : List (String × Value) → List (String × Key)
  | [] => []
  | (name, v) :: vs => (name, sortKey v) :: memberKeys vs

end

namespace Key

/-! ### Comparing keys -/

/-- Comparing the keys does not fail, and comes out as `o`. -/
structure Compares (k l : Key) (o : Ordering) : Prop where
  same : k.same l = decide (o = .eq)
  less : k.less? l = some (decide (o = .lt))

variable {k l : Key} {ks ls : List Key} {o o' : Ordering}

theorem Compares.atMost_iff (h : Compares k l o) : AtMost k l ↔ o ≠ .gt := by
  rw [AtMost, h.same, h.less]
  cases o <;> decide

/-- Keys of numbers compare as numbers, -/
theorem compares_number {m n : Number} (hm : m ≠ .float .nan) (hn : n ≠ .float .nan) :
    Compares (number m) (number n) (m.order n) where
  same := decide_eq_decide.mpr (by rw [Number.order?_eq_order hm hn, Option.some_inj])
  less := congrArg some
    (decide_eq_decide.mpr (by rw [Number.order?_eq_order hm hn, Option.some_inj]))

theorem compares_ofNat (m n : Nat) : Compares (ofNat m) (ofNat n) (compare m n) := by
  have horder : (Number.int m).order (.int n) = compare m n := by
    change compareOfLessAndEq (m : Int) n = compareOfLessAndEq m n
    rw [compareOfLessAndEq, compareOfLessAndEq]
    simp only [Int.ofNat_lt, Int.ofNat_inj]
  rw [← horder]
  exact compares_number nofun nofun

/-- and keys of texts as texts. -/
theorem compares_text (s t : String) : Compares (text s) (text t) (compare s t) where
  same := by
    rw [same, beq_eq_decide]
    exact decide_eq_decide.mpr Std.LawfulEqOrd.compare_eq_iff_eq.symm
  less := congrArg some (decide_eq_decide.mpr compareOfLessAndEq_eq_lt.symm)

/-- Later places count only after equal ones. -/
theorem Compares.cons (h : Compares k l o) (h' : o = .eq → Compares (list ks) (list ls) o') :
    Compares (list (k :: ks)) (list (l :: ls)) (o.then o') := by
  have hsame : (list (k :: ks)).same (list (l :: ls)) =
      (k.same l && (list ks).same (list ls)) := rfl
  have hless : (list (k :: ks)).less? (list (l :: ls)) =
      if k.same l then (list ks).less? (list ls) else k.less? l := rfl
  constructor
  · rw [hsame, h.same]
    cases o with
    | eq => exact (h' rfl).same
    | _ => rfl
  · rw [hless, h.same, h.less]
    cases o with
    | eq => exact (h' rfl).less
    | _ => rfl

theorem compares_nil : Compares (list []) (list []) .eq := ⟨rfl, rfl⟩

/-- Lists of one key go by that key. -/
theorem Compares.single (h : Compares k l o) : Compares (list [k]) (list [l]) o := by
  rw [← Ordering.then_eq (o := o)]
  exact h.cons fun _ => compares_nil

/-- Lists of keys compare as what the keys are of. -/
theorem compares_map {α : Type} {cmp : α → α → Ordering} {f : α → Key} {xs ys : List α}
    (h : ∀ x ∈ xs, ∀ y ∈ ys, Compares (f x) (f y) (cmp x y)) :
    Compares (list (xs.map f)) (list (ys.map f)) (xs.compareLex cmp ys) := by
  induction xs generalizing ys with
  | nil => cases ys <;> exact ⟨rfl, rfl⟩
  | cons x xs ih =>
      cases ys with
      | nil => exact ⟨rfl, rfl⟩
      | cons y ys =>
          rw [List.compareLex_cons_cons]
          refine (h x List.mem_cons_self y List.mem_cons_self).cons fun _ => ?_
          exact ih fun x hx y hy => h x (List.mem_cons_of_mem _ hx) y (List.mem_cons_of_mem _ hy)

end Key

namespace Value

/-- No number in the value is `nan`, and no object in it repeats a name. -/
structure Sortable (v : Value) : Prop where
  comparable : v.Comparable
  distinct : ∀ k members, Inside k (.object members) v → Members.Distinct members

namespace Sortable

theorem number_iff {n : Number} : Sortable (.number n) ↔ n ≠ .float .nan :=
  ⟨fun h => comparable_number.mp h.comparable, fun h => ⟨comparable_number.mpr h, nofun⟩⟩

theorem array_iff {items : List Value} : Sortable (.array items) ↔ ∀ v ∈ items, v.Sortable := by
  constructor
  · exact fun h v hv => ⟨everyNumber_array.mp h.comparable v hv,
      fun k members hin => h.distinct (k + 1) members (.item hv hin)⟩
  · refine fun h => ⟨everyNumber_array.mpr fun v hv => (h v hv).comparable, ?_⟩
    rintro _ members (_ | ⟨hv, hin⟩)
    exact (h _ hv).distinct _ members hin

theorem object_iff {members : List (String × Value)} : Sortable (.object members) ↔
    Members.Distinct members ∧ ∀ member ∈ members, member.2.Sortable := by
  constructor
  · exact fun h => ⟨h.distinct 0 members (.here _), fun member hmem =>
      ⟨everyNumber_object.mp h.comparable member hmem,
        fun k members' hin => h.distinct (k + 1) members' (.member hmem hin)⟩⟩
  · rintro ⟨hdistinct, hmembers⟩
    refine ⟨everyNumber_object.mpr fun member hmem => (hmembers member hmem).comparable, ?_⟩
    rintro _ members' (_ | _ | ⟨hmem, hin⟩)
    · exact hdistinct
    · exact (hmembers _ hmem).distinct _ members' hin

/-- What is sortable has sortable parts, -/
theorem item {items : List Value} (h : Sortable (.array items)) {v : Value} (hv : v ∈ items) :
    v.Sortable :=
  array_iff.mp h v hv

theorem names {members : List (String × Value)} (h : Sortable (.object members)) :
    Members.Distinct members :=
  (object_iff.mp h).1

/-- also in alphabetical order. -/
theorem byName {members : List (String × Value)} (h : Sortable (.object members)) {v : Value}
    (hv : v ∈ (Members.byName members).map Prod.snd) :
    v.Sortable ∧ ∃ member ∈ members, member.2 = v := by
  obtain ⟨-, member, hmem, rfl⟩ := h.comparable.mem_byName hv
  exact ⟨(object_iff.mp h).2 member hmem, member, hmem, rfl⟩

end Sortable

/-- Keys of items and members, for all of them at once. -/
theorem itemKeys_eq_map (items : List Value) : itemKeys items = items.map sortKey := by
  induction items with
  | nil => rfl
  | cons v vs ih => rw [itemKeys, ih, List.map_cons]

theorem memberKeys_eq_map (members : List (String × Value)) :
    memberKeys members = members.map fun member => (member.1, member.2.sortKey) := by
  induction members with
  | nil => rfl
  | cons v vs ih => rw [memberKeys, ih, List.map_cons]

theorem sortKey_array (items : List Value) :
    (array items).sortKey = .list [.ofNat 4, .list (items.map sortKey)] := by
  rw [sortKey, itemKeys_eq_map]

/-- The key of an object: its names in alphabetical order, and the keys under them. -/
theorem sortKey_object {members : List (String × Value)} (h : Members.Distinct members) :
    (object members).sortKey =
      .list [.ofNat 5, .list ((Members.names (Members.byName members)).map .text),
        .list (((Members.byName members).map Prod.snd).map sortKey)] := by
  have hnames : (Members.names members).mergeSort (· ≤ ·) =
      Members.names (Members.byName members) :=
    (List.map_mergeSort (f := Prod.fst) fun _ _ _ _ => rfl).symm
  have hfind : ∀ member ∈ Members.byName members,
      Members.find? (memberKeys members) member.1 = some member.2.sortKey := fun member hmem => by
    have hdistinct : Members.Distinct (memberKeys members) := by
      rw [memberKeys_eq_map, Members.Distinct, Members.names, List.map_map]
      exact h
    refine Members.find?_of_mem hdistinct ?_
    rw [memberKeys_eq_map]
    exact List.mem_map.mpr ⟨member, (Members.byName_perm members).mem_iff.mp hmem, rfl⟩
  have hkeys : (Members.names (Members.byName members)).filterMap
      (Members.find? (memberKeys members)) =
        ((Members.byName members).map Prod.snd).map sortKey := by
    rw [Members.names, List.filterMap_map, List.map_map, ← List.filterMap_eq_map]
    exact List.filterMap_congr hfind
  rw [sortKey, hnames, hkeys]

/-- Every key begins with the rank of its value. -/
theorem sortKey_eq_cons (v : Value) : ∃ ks, v.sortKey = .list (.ofNat v.rank :: ks) := by
  cases v <;> rw [sortKey] <;> exact ⟨_, rfl⟩

/-- Only the keys of values of one kind are compared beyond the ranks. -/
theorem compares_of_rank {v w : Value}
    (h : v.rank = w.rank → v.sortKey.Compares w.sortKey (order v w)) :
    v.sortKey.Compares w.sortKey (order v w) := by
  by_cases hrank : v.rank = w.rank
  · exact h hrank
  · obtain ⟨ks, hks⟩ := sortKey_eq_cons v
    obtain ⟨ls, hls⟩ := sortKey_eq_cons w
    rw [hks, hls, order_eq_then]
    exact (Key.compares_ofNat _ _).cons fun heq => (hrank (compare_eq_iff_eq.mp heq)).elim

/-- **Keys compare** without failing, and as the order of the values. -/
theorem sortKey_compares {v w : Value} (hv : v.Sortable) (hw : w.Sortable) :
    v.sortKey.Compares w.sortKey (order v w) := by
  induction v generalizing w with
  | null =>
      refine compares_of_rank fun hrank => ?_
      cases w <;> cases hrank
      exact (Key.compares_ofNat 0 0).single
  | bool b =>
      refine compares_of_rank fun hrank => ?_
      cases w <;> cases hrank
      rename_i c
      have hcompare : compare b c = compare b.toNat c.toNat := by
        cases b <;> cases c <;> rfl
      rw [order_bool, hcompare]
      exact (Key.compares_ofNat 1 1).cons fun _ => (Key.compares_ofNat _ _).single
  | number m =>
      refine compares_of_rank fun hrank => ?_
      cases w <;> cases hrank
      exact (Key.compares_ofNat 2 2).cons fun _ => (Key.compares_number
        (comparable_number.mp hv.comparable) (comparable_number.mp hw.comparable)).single
  | string s =>
      refine compares_of_rank fun hrank => ?_
      cases w <;> cases hrank
      exact (Key.compares_ofNat 3 3).cons fun _ => (Key.compares_text _ _).single
  | array xs ih =>
      refine compares_of_rank fun hrank => ?_
      cases w <;> cases hrank
      rw [sortKey_array, sortKey_array, order_array]
      exact (Key.compares_ofNat 4 4).cons fun _ =>
        (Key.compares_map fun x hx y hy => ih x hx (hv.item hx) (hw.item hy)).single
  | object xs ih =>
      refine compares_of_rank fun hrank => ?_
      cases w <;> cases hrank
      rw [sortKey_object hv.names, sortKey_object hw.names, order_object]
      refine (Key.compares_ofNat 5 5).cons fun _ =>
        (Key.compares_map fun s _ t _ => Key.compares_text s t).cons fun _ => ?_
      refine (Key.compares_map fun x hx y hy => ?_).single
      obtain ⟨hx, member, hmem, rfl⟩ := hv.byName hx
      exact ih member hmem hx (hw.byName hy).1

/-! ### Equal keys -/

/-- Equal values, the order of members aside: numbers of one exact value, arrays item by item, and
objects whose members can be put in such an order that the names agree and the values are alike. -/
inductive Alike : Value → Value → Prop where
  | null : Alike null null
  | bool (b : Bool) : Alike (bool b) (bool b)
  | number {m n : Number} (h : m.same n = true) : Alike (number m) (number n)
  | string (s : String) : Alike (string s) (string s)
  | array {xs ys : List Value} (h : List.Forall₂ Alike xs ys) : Alike (array xs) (array ys)
  | object {xs xs' ys ys' : List (String × Value)} (hxs : xs.Perm xs') (hys : ys.Perm ys')
      (hnames : Members.names xs' = Members.names ys')
      (h : List.Forall₂ Alike (xs'.map Prod.snd) (ys'.map Prod.snd)) :
      Alike (object xs) (object ys)

theorem forall₂_iff {α β : Type} {R S : α → β → Prop} {xs : List α} {ys : List β}
    (h : ∀ x ∈ xs, ∀ y ∈ ys, R x y ↔ S x y) : List.Forall₂ R xs ys ↔ List.Forall₂ S xs ys := by
  simp only [List.forall₂_iff_zip]
  refine and_congr_right fun _ => ⟨fun hr x y hxy => ?_, fun hs x y hxy => ?_⟩
  · exact (h x (List.of_mem_zip hxy).1 y (List.of_mem_zip hxy).2).mp (hr hxy)
  · exact (h x (List.of_mem_zip hxy).1 y (List.of_mem_zip hxy).2).mpr (hs hxy)

/-- Lists that agree pairwise still do when both are sorted by something they agree on. -/
theorem forall₂_mergeSort {α β : Type} {R : α → β → Prop} {r : α → α → Bool} {s : β → β → Bool}
    {xs : List α} {ys : List β} (h : List.Forall₂ R xs ys)
    (hrs : ∀ x y x' y', R x y → R x' y' → r x x' = s y y') :
    List.Forall₂ R (xs.mergeSort r) (ys.mergeSort s) := by
  have hpair : ∀ p ∈ xs.zip ys, R p.1 p.2 := fun p hp => (List.forall₂_iff_zip.mp h).2 hp
  -- the pairs, sorted once, are both sorted lists side by side
  have hxs : ((xs.zip ys).mergeSort fun p q => r p.1 q.1).map Prod.fst = xs.mergeSort r := by
    rw [List.map_mergeSort (s := r) fun _ _ _ _ => rfl, List.map_fst_zip h.length_eq.le]
  have hys : ((xs.zip ys).mergeSort fun p q => r p.1 q.1).map Prod.snd = ys.mergeSort s := by
    rw [List.map_mergeSort fun p hp q hq => hrs _ _ _ _ (hpair p hp) (hpair q hq),
      List.map_snd_zip h.length_eq.ge]
  rw [← hxs, ← hys, List.forall₂_map_left_iff, List.forall₂_map_right_iff, List.forall₂_same]
  exact fun p hp => hpair p (List.mem_mergeSort.mp hp)

theorem names_eq_and_forall₂_iff {xs ys : List (String × Value)} {R : Value → Value → Prop} :
    (Members.names xs = Members.names ys ∧
        List.Forall₂ R (xs.map Prod.snd) (ys.map Prod.snd)) ↔
      List.Forall₂ (fun x y => x.1 = y.1 ∧ R x.2 y.2) xs ys := by
  induction xs generalizing ys with
  | nil => cases ys <;> simp [Members.names]
  | cons x xs ih =>
      cases ys with
      | nil => simp
      | cons y ys =>
          rw [List.forall₂_cons, ← ih, Members.names, Members.names, List.map_cons, List.map_cons,
            List.map_cons, List.map_cons, List.cons.injEq, List.forall₂_cons]
          exact and_and_and_comm

/-- Members with distinct names have one alphabetical order. -/
theorem byName_eq_of_perm {members members' : List (String × Value)}
    (hdistinct : Members.Distinct members) (h : members.Perm members') :
    Members.byName members = Members.byName members' := by
  have hsorted (members : List (String × Value)) :
      (Members.byName members).Pairwise fun a b => a.1 ≤ b.1 := by
    have htrans (a b c : String × Value) : decide (a.1 ≤ b.1) = true →
        decide (b.1 ≤ c.1) = true → decide (a.1 ≤ c.1) = true := by
      simpa using String.le_trans
    have htotal (a b : String × Value) :
        (decide (a.1 ≤ b.1) || decide (b.1 ≤ a.1)) = true := by
      simpa using String.le_total a.1 b.1
    simpa [Members.byName] using List.pairwise_mergeSort htrans htotal members
  have hperm := (Members.byName_perm members).trans (h.trans (Members.byName_perm members').symm)
  refine List.Perm.eq_of_pairwise (fun a b ha hb hab hba => ?_) (hsorted _) (hsorted _) hperm
  have ha := (Members.byName_perm members).mem_iff.mp ha
  have hb := h.mem_iff.mpr ((Members.byName_perm members').mem_iff.mp hb)
  exact List.inj_on_of_nodup_map hdistinct ha hb (String.le_antisymm hab hba)

/-- Values that are alike are of one kind. -/
theorem Alike.rank_eq {v w : Value} (h : Alike v w) : v.rank = w.rank := by
  cases h <;> rfl

/-- Only values of one kind can be alike or compare equal. -/
theorem order_eq_iff_of_rank {v w : Value}
    (h : v.rank = w.rank → (order v w = .eq ↔ Alike v w)) : order v w = .eq ↔ Alike v w := by
  by_cases hrank : v.rank = w.rank
  · exact h hrank
  · refine ⟨fun heq => ?_, fun halike => (hrank halike.rank_eq).elim⟩
    rw [order_eq_then, Ordering.then_eq_eq] at heq
    exact (hrank (compare_eq_iff_eq.mp heq.1)).elim

/-- **Equal keys**: values compare equal if and only if they are alike. -/
theorem order_eq_iff {v w : Value} (hv : v.Sortable) (hw : w.Sortable) :
    order v w = .eq ↔ Alike v w := by
  induction v generalizing w with
  | null =>
      refine order_eq_iff_of_rank fun hrank => ?_
      cases w <;> cases hrank
      exact ⟨fun _ => .null, fun _ => rfl⟩
  | bool b =>
      refine order_eq_iff_of_rank fun hrank => ?_
      cases w <;> cases hrank
      rw [order_bool, compare_eq_iff_eq]
      constructor
      · rintro rfl
        exact .bool b
      · rintro ⟨⟩
        rfl
  | number m =>
      refine order_eq_iff_of_rank fun hrank => ?_
      cases w <;> cases hrank
      rename_i n
      have hsame : m.order n = .eq ↔ m.same n = true := by
        rw [Number.same, decide_eq_true_iff, Number.order?_eq_order
          (comparable_number.mp hv.comparable) (comparable_number.mp hw.comparable),
          Option.some_inj]
      rw [order_number, hsame]
      constructor
      · exact .number
      · rintro ⟨⟩
        assumption
  | string s =>
      refine order_eq_iff_of_rank fun hrank => ?_
      cases w <;> cases hrank
      rw [order_string, Std.LawfulEqOrd.compare_eq_iff_eq]
      constructor
      · rintro rfl
        exact .string s
      · rintro ⟨⟩
        rfl
  | array xs ih =>
      refine order_eq_iff_of_rank fun hrank => ?_
      cases w <;> cases hrank
      rw [order_array, compareLex_eq_iff,
        forall₂_iff fun x hx y hy => ih x hx (hv.item hx) (hw.item hy)]
      constructor
      · exact .array
      · rintro ⟨⟩
        assumption
  | object xs ih =>
      refine order_eq_iff_of_rank fun hrank => ?_
      cases w <;> cases hrank
      rename_i ys
      -- members are compared in alphabetical order, and `Alike` allows them in any
      have hitems : List.Forall₂ (fun x y => order x y = .eq)
          ((Members.byName xs).map Prod.snd) ((Members.byName ys).map Prod.snd) ↔
          List.Forall₂ Alike ((Members.byName xs).map Prod.snd)
            ((Members.byName ys).map Prod.snd) := by
        refine forall₂_iff fun x hx y hy => ?_
        obtain ⟨hx, member, hmem, rfl⟩ := hv.byName hx
        exact ih member hmem hx (hw.byName hy).1
      have hnames (ss ts : List String) : ss.compareLex compare ts = .eq ↔ ss = ts := by
        simp
      rw [order_object, Ordering.then_eq_eq, hnames, compareLex_eq_iff, hitems]
      constructor
      · exact fun h => .object (Members.byName_perm xs).symm (Members.byName_perm ys).symm
          h.1 h.2
      · rintro ⟨⟩
        rename_i xs' ys' hnames h hxs hys
        rw [byName_eq_of_perm hv.names hxs, byName_eq_of_perm hw.names hys,
          names_eq_and_forall₂_iff]
        refine forall₂_mergeSort (names_eq_and_forall₂_iff.mp ⟨hnames, h⟩) ?_
        rintro x y x' y' ⟨hname, -⟩ ⟨hname', -⟩
        rw [hname, hname']

/-! ### Sorting -/

/-- Sorting rearranges. -/
theorem sort_perm (items : List Value) : (sort items).Perm items :=
  List.mergeSort_perm _ _

/-- On values that can be compared the order is a total preorder. -/
def precedes (v w : {v : Value // v.Comparable}) : Bool :=
  order v.1 w.1 ≠ .gt

/-- Among comparable values, coming first is transitive and total, -/
theorem precedes_trans (u v w : {v : Value // v.Comparable}) (huv : precedes u v = true)
    (hvw : precedes v w = true) : precedes u w = true := by
  simp only [precedes, decide_eq_true_eq] at *
  exact (order_follows u.2 v.2 w.2).ne_gt huv hvw

theorem precedes_total (v w : {v : Value // v.Comparable}) :
    (precedes v w || precedes w v) = true := by
  simp only [precedes, order_swap v.1 w.1]
  cases order v.1 w.1 <;> rfl

/-- so sorting is the stable sort of the library. -/
theorem sort_val (items : List {v : Value // v.Comparable}) :
    sort (items.map Subtype.val) = (items.mergeSort precedes).map Subtype.val :=
  (List.map_mergeSort (f := Subtype.val) fun _ _ _ _ => rfl).symm

/-- The sorted list is in order, and runs that were in order already are left in it as they
were. -/
theorem sort_spec {items : List Value} (h : ∀ v ∈ items, v.Comparable) :
    ((sort items).Pairwise fun v w => order v w ≠ .gt) ∧
      ∀ run : List Value, (run.Pairwise fun v w => order v w ≠ .gt) → run.Sublist items →
        run.Sublist (sort items) := by
  lift items to List {v : Value // v.Comparable} using h
  rw [sort_val]
  constructor
  · rw [List.pairwise_map]
    simpa [precedes] using List.pairwise_mergeSort precedes_trans precedes_total items
  · intro run hrun hsub
    obtain ⟨run, hlifted, rfl⟩ := List.sublist_map_iff.mp hsub
    rw [List.pairwise_map] at hrun
    exact (List.sublist_mergeSort precedes_trans precedes_total (hrun.imp decide_eq_true)
      hlifted).map _

/-- **Stability**: the items that are equal to one value stay as they came. -/
theorem sort_filter {items : List Value} (h : ∀ v ∈ items, v.Comparable) {v : Value}
    (hv : v.Comparable) :
    (sort items).filter (order v · = .eq) = items.filter (order v · = .eq) := by
  have hrun : (items.filter (order v · = .eq)).Pairwise fun u w => order u w ≠ .gt := by
    refine List.pairwise_of_forall_mem_list fun u hu w hw => ?_
    obtain ⟨hu, hvu⟩ := List.mem_filter.mp hu
    obtain ⟨hw, hvw⟩ := List.mem_filter.mp hw
    rw [← (order_follows hv (h u hu) (h w hw)).eq_left (of_decide_eq_true hvu),
      of_decide_eq_true hvw]
    exact nofun
  have hsub := ((sort_spec h).2 _ hrun List.filter_sublist).filter (order v · = .eq)
  rw [List.filter_filter] at hsub
  simp only [Bool.and_self] at hsub
  exact (hsub.eq_of_length ((sort_perm items).filter _).length_eq.symm).symm

/-- What is in order is not changed by sorting. -/
theorem sort_eq_self {items : List Value}
    (h : items.Pairwise fun v w => order v w ≠ .gt) : sort items = items :=
  List.mergeSort_of_pairwise (h.imp decide_eq_true)

/-- **Sorting by keys.**  On values without `nan`, comparing keys never fails.  It is a total
preorder: of two keys one is at most the other, the less of two keys is the one that the other is
not at most, and what is at most something is at most whatever that is at most.  Kinds go by rank
and false before true, and keys are equal if and only if the values are alike up to the order of
members.  The query `sort` makes of an array a rearrangement of its items in the order of their
keys, with the items of equal keys as they came, and of that the same again. -/
theorem sort_by_sortKey (limit : Nat) :
    (∀ v w : Value, v.Sortable → w.Sortable →
      (∃ less, v.sortKey.less? w.sortKey = some less) ∧
      (v.sortKey.AtMost w.sortKey ∨ w.sortKey.AtMost v.sortKey) ∧
      (v.sortKey.less? w.sortKey = some true ↔ ¬ w.sortKey.AtMost v.sortKey) ∧
      (v.rank < w.rank → v.sortKey.less? w.sortKey = some true) ∧
      (v.sortKey.same w.sortKey = true ↔ Alike v w)) ∧
    (bool false).sortKey.less? (bool true).sortKey = some true ∧
    (∀ u v w : Value, u.Sortable → v.Sortable → w.Sortable → u.sortKey.AtMost v.sortKey →
      v.sortKey.AtMost w.sortKey → u.sortKey.AtMost w.sortKey) ∧
    ∀ items : List Value, (∀ v ∈ items, v.Sortable) → ∃ sorted : List Value,
      Filter.evaluate limit "sort" (.array items) = .ok (.array sorted) ∧
      sorted.Perm items ∧
      (sorted.Pairwise fun v w => v.sortKey.AtMost w.sortKey) ∧
      (∀ v : Value, v.Sortable → sorted.filter (fun w => v.sortKey.same w.sortKey) =
        items.filter fun w => v.sortKey.same w.sortKey) ∧
      Filter.evaluate limit "sort" (.array sorted) = .ok (.array sorted) := by
  refine ⟨fun v w hv hw => ?_, rfl, fun u v w hu hv hw huv hvw => ?_, fun items h => ?_⟩
  · have hkey := sortKey_compares hv hw
    have hswap := order_swap v w
    -- what keys say is what the order says, for each question in turn
    refine ⟨⟨_, hkey.less⟩, ?_, ?_, ?_, ?_⟩
    · rw [hkey.atMost_iff, (sortKey_compares hw hv).atMost_iff, hswap]
      cases order v w <;> decide
    · rw [hkey.less, (sortKey_compares hw hv).atMost_iff, hswap]
      cases order v w <;> decide
    · intro hrank
      rw [hkey.less, order_eq_then, compare_lt_iff_lt.mpr hrank]
      rfl
    · rw [hkey.same, decide_eq_true_iff, order_eq_iff hv hw]
  · rw [(sortKey_compares hu hv).atMost_iff] at huv
    rw [(sortKey_compares hv hw).atMost_iff] at hvw
    rw [(sortKey_compares hu hw).atMost_iff]
    exact (order_follows hu.comparable hv.comparable hw.comparable).ne_gt huv hvw
  · have hcomparable : ∀ v ∈ items, v.Comparable := fun v hv => (h v hv).comparable
    have hperm := sort_perm items
    have hsortable : ∀ v ∈ sort items, v.Sortable := fun v hv => h v (hperm.mem_iff.mp hv)
    have hsorted := (sort_spec hcomparable).1
    refine ⟨sort items, rfl, hperm, ?_, fun v hv => ?_, ?_⟩
    · exact hsorted.imp_of_mem fun hv hw hle =>
        (sortKey_compares (hsortable _ hv) (hsortable _ hw)).atMost_iff.mpr hle
    · have hsame {items' : List Value} (h' : ∀ w ∈ items', w.Sortable) :
          items'.filter (fun w => v.sortKey.same w.sortKey) =
            items'.filter (order v · = .eq) :=
        List.filter_congr fun w hw => (sortKey_compares hv (h' w hw)).same
      rw [hsame hsortable, hsame h, sort_filter hcomparable hv.comparable]
    · change Except.ok (array (sort (sort items))) = Except.ok (array (sort items))
      rw [sort_eq_self hsorted]

/-- Two objects that differ in the order of their members have equal keys, and stay as they came. -/
theorem sort_by_sortKey_objects :
    let v := object [("a", ofNat 1), ("b", array [])]
    let w := object [("b", array []), ("a", ofNat 1)]
    (null.Sortable ∧ v.Sortable ∧ w.Sortable) ∧ v.sortKey.same w.sortKey = true ∧
      null.sortKey.AtMost w.sortKey ∧ ∃ sorted : List Value,
        Filter.evaluate 8 "sort" (.array [w, v]) = .ok (.array sorted) ∧
        sorted.filter (fun u => v.sortKey.same u.sortKey) = [w, v] := by
  intro v w
  have hnull : null.Sortable := ⟨everyNumber_null, nofun⟩
  have hone : (ofNat 1).Sortable := Sortable.number_iff.mpr nofun
  have hempty : (array []).Sortable := Sortable.array_iff.mpr nofun
  have hv : v.Sortable := Sortable.object_iff.mpr ⟨by decide, by simp [hone, hempty]⟩
  have hw : w.Sortable := Sortable.object_iff.mpr ⟨by decide, by simp [hone, hempty]⟩
  obtain ⟨hkeys, -, htrans, hsort⟩ := sort_by_sortKey 8
  have hself : v.sortKey.same v.sortKey = true :=
    (hkeys v v hv hv).2.2.2.2.mpr (.object .rfl .rfl rfl
      (.cons (.number rfl) (.cons (.array .nil) .nil)))
  have hsame : v.sortKey.same w.sortKey = true :=
    (hkeys v w hv hw).2.2.2.2.mpr (.object (.swap _ _ _) .rfl rfl
      (.cons (.array .nil) (.cons (.number rfl) .nil)))
  obtain ⟨sorted, hrun, -, -, hstable, -⟩ := hsort [w, v] (by simp [hv, hw])
  refine ⟨⟨hnull, hv, hw⟩, hsame, ?_, sorted, hrun, ?_⟩
  · exact htrans null v w hnull hv hw (.inl ((hkeys null v hnull hv).2.2.2.1 (by decide)))
      (.inr hsame)
  · rw [hstable v hv]
    simp [hsame, hself]

end Value

end Quarry
