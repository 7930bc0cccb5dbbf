import Quarry.Value.Basic

/-!
# Values — induction, and what sits inside a value

A value is built from the values inside it, so a property holds of every value if arrays get it
from their items and objects from their members (`Value.induct`).  What the definitions say of
items one after another is restated here for all of them at once.

`Inside k w v` says that `w` sits in `v` under `k` containers.  The depth of a value is the
greatest such number (`depth_le_iff`), and `EveryNumber` asks something of every number inside.
-/

namespace Quarry

/-- Induction on values: arrays from their items, objects from their members. -/
@[elab_as_elim, induction_eliminator]
theorem Value.induct {motive : Value → Prop} (null : motive .null)
    (bool : ∀ b, motive (.bool b)) (number : ∀ n, motive (.number n))
    (string : ∀ s, motive (.string s))
    (array : ∀ items, (∀ v ∈ items, motive v) → motive (.array items))
    (object : ∀ members, (∀ member ∈ members, motive member.2) → motive (.object members)) :
    ∀ v, motive v
  | .null => null
  | .bool b => bool b
  | .number n => number n
  | .string s => string s
  | .array items => array items fun v hv =>
      have := List.sizeOf_lt_of_mem hv
      induct null bool number string array object v
  | .object members => object members fun (name, v) hv =>
      have := List.sizeOf_lt_of_mem hv
      induct null bool number string array object v
termination_by v => sizeOf v
decreasing_by
  · simp only [Value.array.sizeOf_spec]
    omega
  · simp only [Value.object.sizeOf_spec, Prod.mk.sizeOf_spec] at this ⊢
    omega

namespace Members

variable {α : Type}

/-- A new name is added behind the others. -/
theorem put_of_not_mem {members : List (String × α)} {name : String} (a : α)
    (h : name ∉ names members) : put members name a = members ++ [(name, a)] := by
  induction members with
  | nil => rfl
  | cons member members ih =>
      rw [names, List.map_cons, List.mem_cons, not_or] at h
      rw [put, if_neg (Ne.symm h.1), ih h.2, List.cons_append]

/-- Pairs with distinct names are the members that they leave. -/
theorem merge_of_distinct {pairs : List (String × α)} (h : Distinct pairs) :
    merge pairs = pairs := by
  -- the members so far, followed by the pairs that are left
  suffices ∀ members, Distinct (members ++ pairs) →
      pairs.foldl (fun members pair => put members pair.1 pair.2) members = members ++ pairs from
    this [] h
  clear h
  induction pairs with
  | nil => exact fun members _ => (List.append_nil _).symm
  | cons pair pairs ih =>
      intro members h
      have hnew : pair.1 ∉ names members := by
        rw [Distinct, names, List.map_append, List.nodup_append] at h
        exact fun hmem => h.2.2 _ hmem _ List.mem_cons_self rfl
      rw [List.foldl_cons, put_of_not_mem _ hnew, ih _ (by simpa using h), List.append_assoc,
        List.singleton_append]

/-- What is found under a name is a member with this name, -/
theorem mem_of_find? {members : List (String × α)} {name : String} {a : α}
    (h : find? members name = some a) : (name, a) ∈ members := by
  induction members with
  | nil => cases h
  | cons member members ih =>
      rw [find?] at h
      split at h
      · rename_i heq
        cases h
        exact heq ▸ List.mem_cons_self
      · exact List.mem_cons_of_mem _ (ih h)

/-- and a member is found under its name if the names are distinct. -/
theorem find?_of_mem {members : List (String × α)} (h : Distinct members)
    {name : String} {a : α} (hmem : (name, a) ∈ members) : find? members name = some a := by
  induction members with
  | nil => cases hmem
  | cons member members ih =>
      obtain ⟨other, b⟩ := member
      rw [Distinct, names, List.map_cons, List.nodup_cons] at h
      rw [find?]
      rcases List.mem_cons.mp hmem with heq | hmem
      · cases heq
        rw [if_pos rfl]
      · have hname : name ∈ members.map Prod.fst := List.mem_map.mpr ⟨(name, a), hmem, rfl⟩
        have hne : other ≠ name := fun heq => h.1 (heq ▸ hname)
        rw [if_neg hne, ih h.2 hmem]

end Members

namespace Value

/-! ### Items and members -/

/-- The definitions that go from item to item, and from member to member, for all of them at
once. -/
theorem wellFormedItems_iff {items : List Value} :
    WellFormedItems items ↔ ∀ v ∈ items, v.WellFormed := by
  induction items with
  | nil => simp [WellFormedItems]
  | cons v vs ih => simp [WellFormedItems, ih]

theorem wellFormedMembers_iff {members : List (String × Value)} :
    WellFormedMembers members ↔ ∀ member ∈ members, member.2.WellFormed := by
  induction members with
  | nil => simp [WellFormedMembers]
  | cons v vs ih => simp [WellFormedMembers, ih]

theorem areWritable_iff {items : List Value} :
    areWritable items = true ↔ ∀ v ∈ items, v.isWritable = true := by
  induction items with
  | nil => simp [areWritable]
  | cons v vs ih => simp [areWritable, ih]

theorem membersWritable_iff {members : List (String × Value)} :
    membersWritable members = true ↔ ∀ member ∈ members, member.2.isWritable = true := by
  induction members with
  | nil => simp [membersWritable]
  | cons v vs ih => simp [membersWritable, ih]

theorem normalizeItems_eq_map (items : List Value) :
    normalizeItems items = items.map normalize := by
  induction items with
  | nil => rfl
  | cons v vs ih => rw [normalizeItems, ih, List.map_cons]

theorem normalizeMembers_eq_map (members : List (String × Value)) :
    normalizeMembers members = members.map fun member => (member.1, member.2.normalize) := by
  induction members with
  | nil => rfl
  | cons v vs ih => rw [normalizeMembers, ih, List.map_cons]

/-- Items nest one deeper in their array, -/
theorem depthItems_le_iff {items : List Value} {m : Nat} :
    depthItems items ≤ m ↔ ∀ v ∈ items, v.depth + 1 ≤ m := by
  induction items with
  | nil => simp [depthItems]
  | cons v vs ih => simp only [depthItems, Nat.max_le, List.forall_mem_cons, ih]

/-- and members in their object. -/
theorem depthMembers_le_iff {members : List (String × Value)} {m : Nat} :
    depthMembers members ≤ m ↔ ∀ member ∈ members, member.2.depth + 1 ≤ m := by
  induction members with
  | nil => simp [depthMembers]
  | cons v vs ih => simp only [depthMembers, Nat.max_le, List.forall_mem_cons, ih]

/-- Neither an array nor an object. -/
def IsScalar : Value → Prop
  | array _ | object _ => False
  | _ => True

theorem IsScalar.depth_eq_zero {v : Value} (h : v.IsScalar) : v.depth = 0 := by
  cases v with
  | array _ => exact h.elim
  | object _ => exact h.elim
  | _ => rfl

/-- How many parts a value has: items, members or characters. -/
def partCount : Value → Nat
  | array items => items.length
  | object members => members.length
  | string s => s.toList.length
  | _ => 0

/-! ### What sits inside -/

/-- `w` sits in `v` under `k` containers. -/
inductive Inside : (k : Nat) → (w v : Value) → Prop where
  | here (v : Value) : Inside 0 v v
  | item {k : Nat} {w v : Value} {items : List Value} (hv : v ∈ items) (h : Inside k w v) :
      Inside (k + 1) w (.array items)
  | member {k : Nat} {w v : Value} {name : String} {members : List (String × Value)}
      (hv : (name, v) ∈ members) (h : Inside k w v) : Inside (k + 1) w (.object members)

/-- What is inside a part is inside the whole, under the containers of both. -/
theorem Inside.trans {j k : Nat} {u v w : Value} (hu : Inside j u w) (hw : Inside k w v) :
    Inside (k + j) u v := by
  induction hw with
  | here => rwa [Nat.zero_add]
  | item hv _ ih =>
      rw [Nat.add_right_comm]
      exact .item hv (ih hu)
  | member hv _ ih =>
      rw [Nat.add_right_comm]
      exact .member hv (ih hu)

/-- **Depth.**  A value nests at most `m` deep if and only if everything in it sits under at most
`m` containers. -/
theorem depth_le_iff {v : Value} {m : Nat} : v.depth ≤ m ↔ ∀ k w, Inside k w v → k ≤ m := by
  constructor
  -- along the way inward the depth goes down with each container
  · intro hdepth k w h
    induction h generalizing m with
    | here => exact Nat.zero_le _
    | item hv h ih =>
        have := depthItems_le_iff.mp hdepth _ hv
        have := ih (m := m - 1) (by omega)
        omega
    | member hv h ih =>
        have := depthMembers_le_iff.mp hdepth _ hv
        have := ih (m := m - 1) (by simp only at this; omega)
        omega
  · intro h
    induction v generalizing m with
    | array items ih =>
        refine depthItems_le_iff.mpr fun v hv => ?_
        have hpos : 1 ≤ m := h 1 v (.item hv (.here v))
        have : v.depth ≤ m - 1 := ih v hv fun k w hw => by
          have := h (k + 1) w (.item hv hw)
          omega
        omega
    | object members ih =>
        refine depthMembers_le_iff.mpr fun (name, v) hv => ?_
        have hpos : 1 ≤ m := h 1 v (.member hv (.here v))
        have : v.depth ≤ m - 1 := ih (name, v) hv fun k w hw => by
          have := h (k + 1) w (.member hv hw)
          omega
        simp only
        omega
    | _ => exact Nat.zero_le _

/-! ### Numbers -/

section EveryNumber

variable {p : Number → Prop}

/-- Every number in the value has a property. -/
def EveryNumber (p : Number → Prop) (v : Value) : Prop :=
  ∀ k n, Inside k (.number n) v → p n

@[simp] theorem everyNumber_null : null.EveryNumber p := by
  rintro _ _ ⟨⟩

@[simp] theorem everyNumber_bool (b : Bool) : (bool b).EveryNumber p := by
  rintro _ _ ⟨⟩

@[simp] theorem everyNumber_string (s : String) : (string s).EveryNumber p := by
  rintro _ _ ⟨⟩

@[simp] theorem everyNumber_number {n : Number} : (number n).EveryNumber p ↔ p n := by
  refine ⟨fun h => h 0 n (.here _), fun h => ?_⟩
  rintro _ _ ⟨⟩
  exact h

/-- Every number of an array is one of an item, -/
@[simp] theorem everyNumber_array {items : List Value} :
    (array items).EveryNumber p ↔ ∀ v ∈ items, v.EveryNumber p := by
  refine ⟨fun h v hv k n hn => h (k + 1) n (.item hv hn), fun h => ?_⟩
  rintro _ n (_ | ⟨hv, hn⟩)
  exact h _ hv _ n hn

/-- and every number of an object is one of a member. -/
@[simp] theorem everyNumber_object {members : List (String × Value)} :
    (object members).EveryNumber p ↔ ∀ member ∈ members, member.2.EveryNumber p := by
  refine ⟨fun h (_, _) hv k n hn => h (k + 1) n (.member hv hn), fun h => ?_⟩
  rintro _ n (_ | _ | ⟨hv, hn⟩)
  exact h _ hv _ n hn

/-- What every number of a value has, every number of a part has. -/
theorem EveryNumber.inside {k : Nat} {v w : Value} (h : v.EveryNumber p) (hw : Inside k w v) :
    w.EveryNumber p := fun j n hn => h (k + j) n (hn.trans hw)

end EveryNumber

/-- No number in the value is infinite or `nan`. -/
abbrev IsFinite : Value → Prop :=
  EveryNumber (·.isFinite = true)

/-- Every number in the value has a nearest double. -/
abbrev Representable : Value → Prop :=
  EveryNumber fun n => ∃ x, n.toFloat = .ok x

/-- Well-formed values without infinite numbers are in normal form. -/
theorem normalize_of_wellFormed {v : Value} (hv : v.WellFormed) (hfinite : v.IsFinite) :
    v.normalize = v := by
  induction v with
  | number n => rw [normalize, if_pos (everyNumber_number.mp hfinite), hv.1]
  | array items ih =>
      have hitems : items.map normalize = items.map id := List.map_congr_left fun v hmem =>
        ih v hmem (wellFormedItems_iff.mp hv v hmem) (everyNumber_array.mp hfinite v hmem)
      rw [normalize, normalizeItems_eq_map, hitems, List.map_id]
  | object members ih =>
      have hmembers : members.map (fun member => (member.1, member.2.normalize)) =
          members.map id := List.map_congr_left fun member hmem => by
        rw [ih member hmem (wellFormedMembers_iff.mp hv.2 member hmem)
          (everyNumber_object.mp hfinite member hmem)]
        rfl
      rw [normalize, normalizeMembers_eq_map, hmembers, List.map_id]
  | _ => rfl

end Value

end Quarry
