import Mathlib.Algebra.Order.Ring.Int
import Mathlib.Order.Compare
import Quarry.Operand.Relation
import Quarry.Proofs.Numerals
import Quarry.Proofs.Result
import Quarry.Proofs.Values
import Quarry.Value.Items

/-!
# Comparisons — what they depend on

A comparison goes by the values of numbers.  So it makes no difference whether a literal is in
normal form (`Relation.compare_normalize`): a double that is a small integer has the same value
as the double nearest to that integer, and they differ at most in the sign of a zero.

A comparison fails only where a number has no nearest double; otherwise it has an answer
(`Relation.compare_isOk`).
-/

namespace Quarry

/-! ### Integers as doubles -/

namespace Binary64

/-- A double covers its own value. -/
theorem Finite.covers_magnitude (x : Finite) : x.Covers x.magnitude 1 := by
  have hpos : 0 < 2 ^ x.shift := Nat.two_pow_pos _
  have hvalue : 4 * x.magnitude = 4 * x.significand * 2 ^ x.shift := by
    rw [magnitude, Nat.mul_assoc]
  rw [Covers, Nat.mul_one, Nat.mul_one, hvalue]
  by_cases heven : x.significand % 2 = 0
  · rw [if_pos (by simpa [interval] using heven)]
    exact ⟨Nat.mul_le_mul_right _ (Nat.sub_le _ _), Nat.mul_le_mul_right _ (Nat.le_add_right _ _)⟩
  · rw [if_neg (by simpa [interval] using heven)]
    refine ⟨Nat.mul_lt_mul_of_pos_right ?_ hpos, Nat.mul_lt_mul_of_pos_right ?_ hpos⟩
    · -- an odd significand is not zero
      split <;> omega
    · omega

/-- Two doubles of the same value. -/
def Finite.Alike (x y : Finite) : Prop :=
  x.units = y.units

theorem order?_congr {x y : Finite} (h : x.Alike y) (z : Binary64) :
    order? z (.finite x) = order? z (.finite y) := by
  cases z with
  | finite z => rw [order?, order?, h]
  | _ => rfl

/-- The sign has no part in divisibility. -/
theorem Finite.dvd_units_iff {x : Finite} {n : Int} : n ∣ x.units ↔ n ∣ x.magnitude := by
  rw [Finite.units]
  split
  · exact Int.dvd_neg
  · exact Iff.rfl

/-- The integer that a double is equal to has that double as the nearest, up to the sign of a
zero. -/
theorem ofInt_of_toInt? {x : Finite} {n : Int} (h : x.toInt? = some n) :
    ∃ y, ofInt n = .finite y ∧ x.Alike y ∧ n * unitsPerOne = x.units := by
  rw [Finite.toInt?] at h
  split at h
  · rename_i hmod
    cases h
    obtain ⟨q, hq⟩ := Nat.dvd_of_mod_eq_zero hmod
    have hne : (unitsPerOne : Int) ≠ 0 := Int.natCast_ne_zero.mpr unitsPerOne_pos.ne'
    have hunits : x.units = (if x.negative then -(q : Int) else q) * unitsPerOne := by
      rw [Finite.units, hq, Nat.mul_comm, Nat.cast_mul]
      split
      · exact (Int.neg_mul _ _).symm
      · rfl
    have hdiv : x.units / unitsPerOne = if x.negative then -(q : Int) else q := by
      rw [hunits, Int.mul_ediv_cancel _ hne]
    have hnum : (x.units / unitsPerOne).natAbs * unitsPerOne = x.magnitude := by
      rw [hdiv, hq, Nat.mul_comm]
      split
      · rw [Int.natAbs_neg, Int.natAbs_natCast]
      · rw [Int.natAbs_natCast]
    refine ⟨{ x with negative := decide (x.units / unitsPerOne < 0) }, ?_, ?_, ?_⟩
    · rw [ofInt, hnum, ofQuotient_of_covers x.covers_magnitude (by decide)]
    · change x.units = if decide (x.units / unitsPerOne < 0) then -(x.magnitude : Int)
        else x.magnitude
      rw [hdiv, Finite.units, hq]
      rcases Nat.eq_zero_or_pos q with rfl | hpos
      · simp
      · have hsign : decide ((if x.negative then -(q : Int) else q) < 0) = x.negative := by
          cases x.negative <;> simp [hpos]
        rw [hsign]
    · rw [hdiv, hunits]
  · cases h

end Binary64

theorem compare_mul_pos {m n u : Int} (hu : 0 < u) : compare (m * u) (n * u) = compare m n := by
  rcases lt_trichotomy m n with h | rfl | h
  · rw [compare_lt_iff_lt.mpr h, compare_lt_iff_lt.mpr (Int.mul_lt_mul_of_pos_right h hu)]
  · rw [compare_eq_iff_eq.mpr rfl, compare_eq_iff_eq.mpr rfl]
  · rw [compare_gt_iff_gt.mpr h, compare_gt_iff_gt.mpr (Int.mul_lt_mul_of_pos_right h hu)]

namespace Number

theorem toFloat_int {n : Int} {x : Binary64.Finite} (h : Binary64.ofInt n = .finite x) :
    (int n).toFloat = .ok (.finite x) := by
  rw [toFloat, h]
  rfl

/-- A number in the place of its normal form compares the same. -/
theorem order?_ofFloat (m : Number) (x : Binary64) :
    order? m (ofFloat x) = order? m (.float x) := by
  cases x with
  | finite x =>
      rw [ofFloat]
      split
      · rename_i n hn
        split
        · -- integer and double are the same number of units
          obtain ⟨y, -, -, hunits⟩ := Binary64.ofInt_of_toInt? hn
          cases m with
          | int m =>
              have hpos : (0 : Int) < Binary64.unitsPerOne :=
                Int.natCast_pos.mpr Binary64.unitsPerOne_pos
              rw [order?, order?, Binary64.orderInt?, ← hunits, compare_mul_pos hpos]
          | float z =>
              cases z with
              | finite z =>
                  rw [order?, order?, Binary64.orderInt?, Binary64.order?, hunits, Option.map_some,
                    ← Std.OrientedCmp.eq_swap]
              | infinite negative => cases negative <;> rfl
              | nan => rfl
        · rfl
      · rfl
  | _ => rfl

/-- A number and its normal form have doubles of the same value. -/
theorem toFloat_normalize {n : Number} (hfinite : n.isFinite = true) :
    n.normalize.toFloat = n.toFloat ∨
      ∃ x y, n.toFloat = .ok (.finite x) ∧ n.normalize.toFloat = .ok (.finite y) ∧ x.Alike y := by
  cases n with
  | int n => exact .inl rfl
  | float x =>
      cases x with
      | finite x =>
          rw [normalize, ofFloat]
          split
          · rename_i n hn
            split
            · obtain ⟨y, hy, halike, -⟩ := Binary64.ofInt_of_toInt? hn
              exact .inr ⟨x, y, rfl, toFloat_int hy, halike⟩
            · exact .inl rfl
          · exact .inl rfl
      | _ => cases hfinite

theorem same_normalize (m : Number) (n : Number) : m.same n.normalize = m.same n := by
  cases n with
  | int n => rfl
  | float x => rw [same, normalize, order?_ofFloat, same]

/-- A computation on the double of a number that goes by its value. -/
theorem bind_toFloat_normalize {α : Type} {n : Number} (hfinite : n.isFinite = true)
    {f : Binary64 → Except Fault α}
    (hf : ∀ x y : Binary64.Finite, x.Alike y → f (.finite x) = f (.finite y)) :
    n.normalize.toFloat >>= f = n.toFloat >>= f := by
  rcases toFloat_normalize hfinite with h | ⟨x, y, hx, hy, halike⟩
  · rw [h]
  · rw [hx, hy, Result.bind_ok, Result.bind_ok, hf x y halike]

end Number

/-- An integer that is not too large has a nearest double. -/
theorem Number.toFloat_isOk {n : Int} {k : Nat} (h : n.natAbs < 2 ^ k) (hk : k ≤ 1023) :
    ∃ x, (int n).toFloat = .ok x := by
  have hunits : n.natAbs * Binary64.unitsPerOne / 1 < 2 ^ (k + 1074) :=
    calc n.natAbs * Binary64.unitsPerOne / 1
        = n.natAbs * Binary64.unitsPerOne := Nat.div_one _
      _ < 2 ^ k * Binary64.unitsPerOne :=
        Nat.mul_lt_mul_of_pos_right h Binary64.unitsPerOne_pos
      _ = 2 ^ (k + 1074) := by rw [Binary64.unitsPerOne, Nat.pow_add]
  obtain ⟨x, hx⟩ := Binary64.ofQuotient_of_lt hunits (Nat.add_le_add_right hk _) (n < 0)
  exact ⟨_, toFloat_int hx⟩

/-! ### Literals in normal form -/

namespace Operand

theorem looselySame_normalize (a : Operand) {n : Number} (hfinite : n.isFinite = true) :
    looselySame a (some (.number n.normalize)) = looselySame a (some (.number n)) := by
  cases a with
  | none => rfl
  | some v =>
      cases v with
      | number m =>
          have hsame : (Value.number m).same (.number n.normalize) =
              (Value.number m).same (.number n) := Number.same_normalize m n
          rw [looselySame.eq_def, looselySame.eq_def]
          simp only [hsame]
      | string s =>
          simp only [looselySame, Value.same, Bool.false_eq_true, ↓reduceIte,
            looselySame.numericallySame]
          cases hs : (Value.string s).toFloat with
          | error e => rfl
          | ok a =>
              exact Number.bind_toFloat_normalize hfinite fun x y h => by
                rw [Binary64.same, Binary64.order?_congr h, Binary64.same]
      | _ => rfl

/-- With a number the comparison goes by the numeric views alone. -/
theorem order?_number (a : Operand) (n : Number) :
    order? a (some (.number n)) = (do
      let x ← toFloat a
      let y ← n.toFloat
      return x.order? y) := by
  rw [order?]
  congr 1
  funext x
  change n.toFloat >>= _ = n.toFloat >>= _
  congr 1
  funext y
  cases x.order? y with
  | some o => rfl
  | none =>
      cases a with
      | none => rfl
      | some v => cases v <;> rfl

theorem order?_normalize (a : Operand) {n : Number} (hfinite : n.isFinite = true) :
    order? a (some (.number n.normalize)) = order? a (some (.number n)) := by
  rw [order?_number, order?_number]
  congr 1
  funext x
  exact Number.bind_toFloat_normalize hfinite fun y z h => by rw [Binary64.order?_congr h]

end Operand

namespace Relation

/-- **A literal counts by its value**: its normal form compares the same. -/
theorem compare_normalize (r : Relation) (a : Operand) {v : Value} (hscalar : v.IsScalar)
    (hfinite : v.IsFinite) : r.compare a (some v.normalize) = r.compare a (some v) := by
  cases v with
  | number n =>
      have hn := Value.everyNumber_number.mp hfinite
      rw [Value.normalize, if_pos hn]
      cases r <;> simp only [compare, Operand.looselySame_normalize a hn,
        Operand.order?_normalize a hn]
  | array _ => exact hscalar.elim
  | object _ => exact hscalar.elim
  | _ => rfl

end Relation

/-! ### Answers -/

/-- The numeric view of a value fails only with a number. -/
theorem Value.toFloat_isOk {v : Value} (h : v.Representable) : ∃ x, v.toFloat = .ok x := by
  cases v with
  | number n => exact h 0 n (.here _)
  | string s =>
      rw [toFloat]
      split
      · exact ⟨_, rfl⟩
      · split <;> exact ⟨_, rfl⟩
  | _ => exact ⟨_, rfl⟩

namespace Operand

variable {a b : Operand}

theorem toFloat_isOk (ha : ∀ v ∈ a, v.Representable) : ∃ x, toFloat a = .ok x := by
  cases a with
  | none => exact ⟨_, rfl⟩
  | some v => exact Value.toFloat_isOk (ha v rfl)

theorem looselySame_isOk (ha : ∃ x, toFloat a = .ok x) (hb : ∃ y, toFloat b = .ok y) :
    ∃ answer, looselySame a b = .ok answer := by
  cases a with
  | none => cases b <;> exact ⟨_, rfl⟩
  | some v =>
      cases b with
      | none => exact ⟨_, rfl⟩
      | some w =>
          obtain ⟨x, hx⟩ := ha
          obtain ⟨y, hy⟩ := hb
          have hnumeric : looselySame.numericallySame v w = .ok (x.same y) := by
            rw [looselySame.numericallySame]
            change (toFloat (some v) >>= _) = _
            rw [hx, Result.bind_ok]
            change (toFloat (some w) >>= _) = _
            rw [hy]
            rfl
          rw [looselySame.eq_def]
          simp only
          split
          · exact ⟨_, rfl⟩
          · split
            · exact ⟨_, hnumeric⟩
            · exact ⟨_, hnumeric⟩
            · exact ⟨_, rfl⟩

theorem order?_isOk (ha : ∃ x, toFloat a = .ok x) (hb : ∃ y, toFloat b = .ok y) :
    ∃ answer, order? a b = .ok answer := by
  obtain ⟨x, hx⟩ := ha
  obtain ⟨y, hy⟩ := hb
  rw [order?, hx, hy, Result.bind_ok, Result.bind_ok]
  split <;> exact ⟨_, rfl⟩

end Operand

/-- **A comparison has an answer** if the numbers on both sides have nearest doubles. -/
theorem Relation.compare_isOk (r : Relation) {a b : Operand} (ha : ∀ v ∈ a, v.Representable)
    (hb : ∀ v ∈ b, v.Representable) : ∃ answer, r.compare a b = .ok answer := by
  have hfloat := Operand.toFloat_isOk ha
  have hother := Operand.toFloat_isOk hb
  obtain ⟨same, hsame⟩ := Operand.looselySame_isOk hfloat hother
  obtain ⟨o, ho⟩ := Operand.order?_isOk hfloat hother
  cases r <;> simp only [compare, hsame, ho, Result.bind_ok] <;> exact ⟨_, rfl⟩

/-- Nothing stands in no relation to a value but that of not being equal. -/
theorem Relation.compare_nothing (r : Relation) {v : Value} (h : v.Representable) :
    r.compare none (some v) = .ok (decide (r = .ne)) := by
  obtain ⟨x, hx⟩ := Value.toFloat_isOk h
  have horder : Operand.order? none (some v) = .ok none := by
    rw [Operand.order?, Operand.toFloat, Operand.toFloat, hx]
    rfl
  cases r <;> simp only [compare, horder] <;> rfl

end Quarry
