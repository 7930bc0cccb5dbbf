import Mathlib.Data.List.Nodup
import Quarry.Proofs.Outcomes
import Quarry.Proofs.Values
import Quarry.Value.Order

/-!
# Invariants — what values are made of keeps

An invariant holds of the scalars, passes from the items to their array and back, and from members
with distinct names to their object and back (`Value.Invariant`).  Whatever builds values from
values by these means keeps every invariant, so each builder has one lemma for all of them.  What
only takes values apart and puts their parts together asks nothing of numbers
(`Value.Hereditary`).

There are three.  Nothing at all is one; being well formed is one, and so is having no infinite
number.  Any two together are one again.
-/

namespace Quarry

/-! ### Numbers -/

namespace Number

/-- Of a double the normal form is a small integer or the double itself. -/
theorem ofFloat_cases (x : Binary64) :
    (∃ y n, x = .finite y ∧ y.toInt? = some n ∧ n.natAbs < safeBound ∧ ofFloat x = .int n) ∨
    (ofFloat x = .float x ∧
      ∀ y n, x = .finite y → y.toInt? = some n → safeBound ≤ n.natAbs) := by
  cases x with
  | finite y =>
      cases hn : y.toInt? with
      | none =>
          refine .inr ⟨by rw [ofFloat, hn], ?_⟩
          rintro _ n ⟨⟩ hsome
          rw [hn] at hsome
          cases hsome
      | some n =>
          by_cases hsmall : n.natAbs < safeBound
          · exact .inl ⟨y, n, rfl, hn, hsmall, by rw [ofFloat, hn]; exact if_pos hsmall⟩
          · refine .inr ⟨by rw [ofFloat, hn]; exact if_neg hsmall, ?_⟩
            rintro _ m ⟨⟩ hsome
            rw [hn] at hsome
            cases hsome
            exact Nat.not_lt.mp hsmall
  | _ => exact .inr ⟨rfl, by rintro _ _ ⟨⟩⟩

/-- The number of a double is in normal form, -/
theorem normalize_ofFloat (x : Binary64) : (ofFloat x).normalize = ofFloat x := by
  rcases ofFloat_cases x with ⟨-, n, -, -, -, h⟩ | ⟨h, -⟩
  · rw [h]
    rfl
  · rw [h]
    exact h

/-- and bringing it there twice changes nothing more. -/
@[simp] theorem normalize_normalize (n : Number) : n.normalize.normalize = n.normalize := by
  cases n with
  | int n => rfl
  | float x => exact normalize_ofFloat x

theorem ofFloat_ne_nan {x : Binary64} (h : x ≠ .nan) : ofFloat x ≠ .float .nan := by
  rcases ofFloat_cases x with ⟨-, n, -, -, -, hint⟩ | ⟨hfloat, -⟩
  · rw [hint]
    rintro ⟨⟩
  · rw [hfloat]
    rintro ⟨⟩
    exact h rfl

/-- A double that is a number makes a normal one, -/
theorem isNormal_ofFloat {x : Binary64} (h : x ≠ .nan) : (ofFloat x).IsNormal :=
  ⟨normalize_ofFloat x, ofFloat_ne_nan h⟩

theorem isNormal_int (n : Int) : (int n).IsNormal :=
  ⟨rfl, by rintro ⟨⟩⟩

/-- and so does every number that is not `nan`. -/
theorem isNormal_normalize {n : Number} (h : n ≠ .float .nan) : n.normalize.IsNormal := by
  cases n with
  | int n => exact isNormal_int n
  | float x => exact isNormal_ofFloat fun hx => h (by rw [hx])

/-- A double is in normal form if it is neither `nan` nor a small integer. -/
theorem isNormal_float_iff {x : Binary64} :
    (float x).IsNormal ↔
      x ≠ .nan ∧ ∀ y n, x = .finite y → y.toInt? = some n → safeBound ≤ n.natAbs := by
  constructor
  · rintro ⟨hnormal, hnan⟩
    refine ⟨fun hx => hnan (by rw [hx]), ?_⟩
    rcases ofFloat_cases x with ⟨-, n, -, -, -, hint⟩ | ⟨-, hlarge⟩
    · rw [normalize, hint] at hnormal
      cases hnormal
    · exact hlarge
  · rintro ⟨hnan, hlarge⟩
    rcases ofFloat_cases x with ⟨y, n, hy, hn, hsmall, -⟩ | ⟨hfloat, -⟩
    · exact absurd (hlarge y n hy hn) (Nat.not_le.mpr hsmall)
    · exact ⟨hfloat, fun h => hnan (by cases h; rfl)⟩

theorem ne_nan_of_isFinite {n : Number} (h : n.isFinite = true) : n ≠ .float .nan := by
  rintro rfl
  cases h

theorem neg_ne_nan {n : Number} (h : n ≠ .float .nan) : n.neg ≠ .float .nan := by
  cases n with
  | int n => rintro ⟨⟩
  | float x =>
      cases x with
      | nan => exact absurd rfl h
      | _ => rintro ⟨⟩

theorem isFinite_neg {n : Number} (h : n.isFinite = true) : n.neg.isFinite = true := by
  cases n with
  | int n => rfl
  | float x =>
      cases x with
      | finite x => rfl
      | _ => cases h

/-- The normal form of a finite number is finite. -/
theorem isFinite_normalize {n : Number} (h : n.isFinite = true) : n.normalize.isFinite = true := by
  cases n with
  | int n => rfl
  | float x =>
      rcases ofFloat_cases x with ⟨-, n, -, -, -, hint⟩ | ⟨hfloat, -⟩
      · rw [normalize, hint]
        rfl
      · rw [normalize, hfloat]
        exact h

end Number

/-! ### Members -/

namespace Members

variable {α : Type} {members pairs : List (String × α)} {name : String} {a : α}

/-- What is put under a name takes the place of what was there, and all else stays. -/
theorem mem_put {member : String × α} (h : member ∈ put members name a) :
    member = (name, a) ∨ member ∈ members := by
  induction members with
  | nil => exact .inl (List.mem_singleton.mp h)
  | cons first members ih =>
      obtain ⟨other, b⟩ := first
      rw [put] at h
      split at h
      · exact (List.mem_cons.mp h).imp id fun h => List.mem_cons_of_mem _ h
      · rcases List.mem_cons.mp h with rfl | h
        · exact .inr List.mem_cons_self
        · exact (ih h).imp id fun h => List.mem_cons_of_mem _ h

/-- So names stay distinct. -/
theorem distinct_put (h : Distinct members) : Distinct (put members name a) := by
  induction members with
  | nil => exact List.nodup_singleton _
  | cons first members ih =>
      obtain ⟨other, b⟩ := first
      rw [Distinct, names, List.map_cons, List.nodup_cons] at h
      rw [put]
      split
      · rename_i heq
        exact List.nodup_cons.mpr ⟨heq ▸ h.1, h.2⟩
      · rename_i hne
        refine List.nodup_cons.mpr ⟨fun hmem => ?_, ih h.2⟩
        obtain ⟨member, hm, hname⟩ := List.mem_map.mp hmem
        rcases mem_put hm with rfl | hm
        · exact hne hname.symm
        · exact h.1 (List.mem_map.mpr ⟨member, hm, hname⟩)

/-- Merging leaves every name once, with things that were there. -/
theorem merge_spec (pairs : List (String × α)) :
    Distinct (merge pairs) ∧ ∀ member ∈ merge pairs, member ∈ pairs := by
  -- the members so far are distinct and come from the pairs that were merged
  suffices ∀ (rest members : List (String × α)), Distinct members →
      let merged := rest.foldl (fun members pair => put members pair.1 pair.2) members
      Distinct merged ∧ ∀ member ∈ merged, member ∈ members ∨ member ∈ rest by
    obtain ⟨hdistinct, hmem⟩ := this pairs [] List.nodup_nil
    exact ⟨hdistinct, fun member h => (hmem member h).resolve_left List.not_mem_nil⟩
  intro rest
  induction rest with
  | nil => exact fun members h => ⟨h, fun _ => .inl⟩
  | cons pair rest ih =>
      intro members h
      obtain ⟨hdistinct, hmem⟩ := ih (put members pair.1 pair.2) (distinct_put h)
      refine ⟨hdistinct, fun member hmember => ?_⟩
      rcases hmem member hmember with hput | hrest
      · rcases mem_put hput with rfl | hold
        · exact .inr List.mem_cons_self
        · exact .inl hold
      · exact .inr (List.mem_cons_of_mem _ hrest)

/-- Names stay distinct when members are left out. -/
theorem Distinct.filter (h : Distinct members) (keep : String × α → Bool) :
    Distinct (members.filter keep) :=
  h.sublist (List.filter_sublist.map _)

end Members

/-! ### Invariants -/

namespace Value

/-- What scalars other than numbers have, and containers share with their parts. -/
structure Hereditary (p : Value → Prop) : Prop where
  null : p .null
  bool (b : Bool) : p (.bool b)
  string (s : String) : p (.string s)
  array {items : List Value} : p (.array items) ↔ ∀ v ∈ items, p v
  object {members : List (String × Value)} (hdistinct : Members.Distinct members)
    (h : ∀ member ∈ members, p member.2) : p (.object members)
  member {members : List (String × Value)} (h : p (.object members)) :
    ∀ member ∈ members, p member.2

/-- What scalars have and containers share with their parts. -/
structure Invariant (p : Value → Prop) : Prop extends Hereditary p where
  number {n : Number} (h : n.isFinite = true) : p (.number n.normalize)
  negate {n : Number} (h : p (.number n)) : p (.number n.neg.normalize)

/-- Nothing at all is an invariant. -/
theorem invariant_any : Invariant Any where
  null := trivial
  bool _ := trivial
  string _ := trivial
  number _ := trivial
  negate _ := trivial
  array := ⟨fun _ _ _ => trivial, fun _ => trivial⟩
  object _ _ := trivial
  member _ _ _ := trivial

/-- **Being well formed is an invariant**: containers ask it of their parts, and what arithmetic
makes is brought into normal form. -/
theorem invariant_wellFormed : Invariant WellFormed where
  null := trivial
  bool _ := trivial
  string _ := trivial
  number h := Number.isNormal_normalize (Number.ne_nan_of_isFinite h)
  negate h := Number.isNormal_normalize (Number.neg_ne_nan h.2)
  array := wellFormedItems_iff
  object hdistinct h := ⟨hdistinct, wellFormedMembers_iff.mpr h⟩
  member h := wellFormedMembers_iff.mp h.2

/-- What every number has goes with the values, since containers add no numbers. -/
theorem hereditary_everyNumber (p : Number → Prop) : Hereditary (EveryNumber p) where
  null := everyNumber_null
  bool := everyNumber_bool
  string := everyNumber_string
  array := everyNumber_array
  object _ h := everyNumber_object.mpr h
  member h := everyNumber_object.mp h

/-- So is having no infinite number. -/
theorem invariant_isFinite : Invariant IsFinite where
  toHereditary := hereditary_everyNumber _
  number h := everyNumber_number.mpr (Number.isFinite_normalize h)
  negate h := everyNumber_number.mpr
    (Number.isFinite_normalize (Number.isFinite_neg (everyNumber_number.mp h)))

variable {p q : Value → Prop}

/-- Two invariants together are one. -/
theorem Invariant.and (hp : Invariant p) (hq : Invariant q) : Invariant fun v => p v ∧ q v where
  null := ⟨hp.null, hq.null⟩
  bool b := ⟨hp.bool b, hq.bool b⟩
  string s := ⟨hp.string s, hq.string s⟩
  number h := ⟨hp.number h, hq.number h⟩
  negate h := ⟨hp.negate h.1, hq.negate h.2⟩
  array := (and_congr hp.array hq.array).trans forall₂_and.symm
  object hdistinct h :=
    ⟨hp.object hdistinct fun member hm => (h member hm).1,
      hq.object hdistinct fun member hm => (h member hm).2⟩
  member h member hm := ⟨hp.member h.1 member hm, hq.member h.2 member hm⟩

/-- What well-formedness asks of a value itself: distinct names of an object, and of a double that
it is neither `nan` nor a small integer. -/
def IsRegular : Value → Prop
  | object members => Members.Distinct members
  | number (.float x) =>
      x ≠ .nan ∧ ∀ y n, x = .finite y → y.toInt? = some n → Number.safeBound ≤ n.natAbs
  | _ => True

/-- For a number, what well-formedness asks of it is that it is normal. -/
theorem isRegular_number {n : Number} : (number n).IsRegular ↔ n.IsNormal := by
  cases n with
  | int n => exact ⟨fun _ => Number.isNormal_int n, fun _ => trivial⟩
  | float x => exact Number.isNormal_float_iff.symm

/-- **Well-formedness** asks the same of everything inside a value. -/
theorem wellFormed_iff {v : Value} : v.WellFormed ↔ ∀ k w, Inside k w v → w.IsRegular := by
  constructor
  -- inward, by induction on the way; outward, by induction on the value
  · intro hv k w h
    induction h with
    | here v =>
        cases v with
        | number n => exact isRegular_number.mpr hv
        | object members => exact hv.1
        | _ => trivial
    | item hmem _ ih => exact ih (wellFormedItems_iff.mp hv _ hmem)
    | member hmem _ ih => exact ih (wellFormedMembers_iff.mp hv.2 _ hmem)
  · intro h
    induction v with
    | number n => exact isRegular_number.mp (h 0 _ (.here _))
    | array items ih =>
        exact wellFormedItems_iff.mpr fun v hmem =>
          ih v hmem fun k w hw => h (k + 1) w (.item hmem hw)
    | object members ih =>
        exact ⟨h 0 _ (.here _), wellFormedMembers_iff.mpr fun member hmem =>
          ih member hmem fun k w hw => h (k + 1) w (.member hmem hw)⟩
    | _ => trivial

namespace Invariant

/-- An integer is a finite number in normal form. -/
theorem int (hp : Invariant p) (n : Int) : p (.number (.int n)) :=
  hp.number (n := .int n) rfl

theorem ofNat (hp : Invariant p) (n : Nat) : p (.ofNat n) :=
  hp.int n

end Invariant

namespace Hereditary

variable {members : List (String × Value)}

/-- Of pairs with repeated names. -/
theorem ofPairs (hp : Hereditary p) {pairs : List (String × Value)}
    (h : ∀ pair ∈ pairs, p pair.2) : p (.ofPairs pairs) :=
  hp.object (Members.merge_spec pairs).1 fun member hm =>
    h member ((Members.merge_spec pairs).2 member hm)

/-- Of members whose names may turn out not to be distinct. -/
theorem ofMembers (hp : Hereditary p) (h : ∀ member ∈ members, p member.2) :
    Ends Any p (Value.ofMembers members) := by
  rw [Value.ofMembers]
  split
  · rename_i hdistinct
    exact .ok (hp.object hdistinct h)
  · exact .fault trivial

/-- Null may stand in for a missing value. -/
theorem getD (hp : Hereditary p) {a : Option Value} (h : ∀ v ∈ a, p v) : p (a.getD .null) := by
  cases a with
  | none => exact hp.null
  | some v => exact h v rfl

/-- The values of an object make an array. -/
theorem values (hp : Hereditary p) (h : p (.object members)) :
    p (.array (members.map Prod.snd)) :=
  hp.array.mpr fun v hv => by
    obtain ⟨member, hm, rfl⟩ := List.mem_map.mp hv
    exact hp.member h member hm

end Hereditary

/-! ### Items in other orders -/

/-- Leaving out repeated items adds none. -/
theorem mem_of_mem_distinctFrom {items : List Value} :
    ∀ {seen : List Value} {v : Value}, v ∈ distinctFrom seen items → v ∈ items := by
  induction items with
  | nil => exact fun h => h
  | cons w items ih =>
      intro seen v h
      rw [distinctFrom] at h
      split at h
      · exact List.mem_cons_of_mem _ (ih h)
      · rcases List.mem_cons.mp h with rfl | h
        · exact List.mem_cons_self
        · exact List.mem_cons_of_mem _ (ih h)

/-- The least item is one of the items, -/
theorem least_mem (v : Value) (items : List Value) : least v items ∈ v :: items := by
  induction items generalizing v with
  | nil => exact List.mem_cons_self
  | cons w items ih =>
      rw [least]
      split
      · exact List.mem_cons_of_mem _ (ih w)
      · rcases List.mem_cons.mp (ih v) with h | h
        · rw [h]
          exact List.mem_cons_self
        · exact List.mem_cons_of_mem _ (List.mem_cons_of_mem _ h)

/-- and the greatest is. -/
theorem greatest_mem (v : Value) (items : List Value) : greatest v items ∈ v :: items := by
  induction items generalizing v with
  | nil => exact List.mem_cons_self
  | cons w items ih =>
      rw [greatest]
      split
      · exact List.mem_cons_of_mem _ (ih w)
      · rcases List.mem_cons.mp (ih v) with h | h
        · rw [h]
          exact List.mem_cons_self
        · exact List.mem_cons_of_mem _ (List.mem_cons_of_mem _ h)

end Value

namespace Items

variable {α : Type} {items : List α} {a : α}

theorem mem_of_at? {i : Int} (h : at? items i = some a) : a ∈ items := by
  simp only [at?] at h
  generalize (if i < 0 then i + (items.length : Int) else i) = j at h
  split at h
  · cases h
  · exact List.mem_of_getElem? h

/-- A slice has only items of the array. -/
theorem mem_of_mem_slice {start stop : Option Int} (h : a ∈ slice items start stop) : a ∈ items :=
  List.mem_of_mem_take (List.mem_of_mem_drop h)

end Items

end Quarry
