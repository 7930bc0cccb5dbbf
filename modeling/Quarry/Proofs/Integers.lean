import Quarry.Proofs.Comparisons
import Quarry.Value.Order

/-!
# Integers — compared exactly and by their nearest doubles

Equality and the order of values go by the exact value of integers, while the four orders of
operands go by the nearest doubles.  `rounded n` is the number of units that `n` units are rounded
to; rounding keeps the order (`rounded_mono`), is exact up to `2 ^ 53` (`rounded_of_dvd`), and from
`Number.floatBound` on there is no double (`ofInt_cases`).

So the orders never contradict the exact ones, but they can fail to tell integers apart, and fail
beyond the doubles: `Relation.trichotomy_iff` says exactly when they agree.
-/

namespace Quarry

-- powers are those of the core library, as in the definitions
attribute [local instance (high)] instPowNat

namespace Binary64

/-! ### Rounding keeps the order -/

theorem roundDiv_le_succ (num den : Nat) : roundDiv num den ≤ num / den + 1 := by
  rw [roundDiv]
  split_ifs <;> omega

theorem roundDiv_mono {m n : Nat} (h : m ≤ n) (den : Nat) : roundDiv m den ≤ roundDiv n den := by
  have hdiv : m / den ≤ n / den := Nat.div_le_div_right h
  rcases Nat.lt_or_eq_of_le hdiv with hlt | heq
  · calc roundDiv m den ≤ m / den + 1 := roundDiv_le_succ m den
      _ ≤ n / den := hlt
      _ ≤ roundDiv n den := div_le_roundDiv n den
  · have hmod : m % den ≤ n % den := by
      have hm := Nat.div_add_mod m den
      have hn := Nat.div_add_mod n den
      rw [heq] at hm
      omega
    rw [roundDiv, roundDiv, heq]
    split_ifs <;> omega

theorem roundDiv_mul (n : Nat) {den : Nat} (hden : 0 < den) : roundDiv (n * den) den = n := by
  rw [roundDiv, Nat.mul_div_cancel _ hden, Nat.mul_mod_left]
  exact if_pos hden

theorem roundDiv_mul_mul (n den : Nat) {c : Nat} (hc : 0 < c) :
    roundDiv (n * c) (den * c) = roundDiv n den := by
  have hdouble (r : Nat) : 2 * (r * c) = 2 * r * c := (Nat.mul_assoc 2 r c).symm
  simp only [roundDiv, Nat.mul_div_mul_right n den hc, Nat.mul_mod_mul_right, hdouble,
    Nat.mul_lt_mul_right hc]

/-- The shift of the double that is nearest to a number of units, unless rounding carries over. -/
def shiftOf (n : Nat) : Nat :=
  n.log2 - 52

/-- The number of units that a number of units is rounded to. -/
def rounded (n : Nat) : Nat :=
  roundDiv n (2 ^ shiftOf n) * 2 ^ shiftOf n

theorem shiftOf_mono {m n : Nat} (h : m ≤ n) : shiftOf m ≤ shiftOf n := by
  refine Nat.sub_le_sub_right ?_ 52
  rcases Nat.eq_zero_or_pos m with rfl | hpos
  · exact Nat.zero_le _
  · exact (Nat.le_log2 (by omega)).mpr ((Nat.log2_self_le hpos.ne').trans h)

theorem lt_two_pow_shiftOf (n : Nat) : n < 2 ^ (53 + shiftOf n) :=
  Nat.lt_log2_self.trans_le (Nat.pow_le_pow_right (by decide) (by rw [shiftOf]; omega))

theorem two_pow_shiftOf_le {n : Nat} (h : shiftOf n ≠ 0) : 2 ^ (52 + shiftOf n) ≤ n := by
  have hne : n ≠ 0 := by
    rintro rfl
    exact h (by decide)
  have hlog : 52 + shiftOf n = n.log2 := by
    rw [shiftOf] at h ⊢
    omega
  rw [hlog]
  exact Nat.log2_self_le hne

/-- The significand has at most 53 bits, or is the next power of two. -/
theorem roundDiv_shiftOf_le (n : Nat) : roundDiv n (2 ^ shiftOf n) ≤ 2 ^ 53 := by
  have hlt : n / 2 ^ shiftOf n < 2 ^ 53 := by
    rw [Nat.div_lt_iff_lt_mul (Nat.two_pow_pos _), ← Nat.pow_add]
    exact lt_two_pow_shiftOf n
  exact (roundDiv_le_succ _ _).trans hlt

/-- All bits of the significand are in use as soon as there is a shift. -/
theorem le_roundDiv_shiftOf {n : Nat} (h : shiftOf n ≠ 0) :
    2 ^ 52 ≤ roundDiv n (2 ^ shiftOf n) := by
  refine le_trans ?_ (div_le_roundDiv _ _)
  rw [Nat.le_div_iff_mul_le (Nat.two_pow_pos _), ← Nat.pow_add]
  exact two_pow_shiftOf_le h

theorem rounded_le (n : Nat) : rounded n ≤ 2 ^ (53 + shiftOf n) := by
  rw [rounded, Nat.pow_add]
  exact Nat.mul_le_mul_right _ (roundDiv_shiftOf_le n)

theorem le_rounded {n : Nat} (h : shiftOf n ≠ 0) : 2 ^ (52 + shiftOf n) ≤ rounded n := by
  rw [rounded, Nat.pow_add]
  exact Nat.mul_le_mul_right _ (le_roundDiv_shiftOf h)

/-- **Rounding keeps the order**: with one shift because whole numbers do, and with two because
there is a power of two between. -/
theorem rounded_mono {m n : Nat} (h : m ≤ n) : rounded m ≤ rounded n := by
  have hshift : shiftOf m ≤ shiftOf n := shiftOf_mono h
  rcases Nat.lt_or_eq_of_le hshift with hlt | heq
  · calc rounded m ≤ 2 ^ (53 + shiftOf m) := rounded_le m
      _ ≤ 2 ^ (52 + shiftOf n) := Nat.pow_le_pow_right (by decide) (by omega)
      _ ≤ rounded n := le_rounded (by omega)
  · rw [rounded, rounded, heq]
    exact Nat.mul_le_mul_right _ (roundDiv_mono h _)

/-- Nothing is rounded away from a number whose last bits are not in use. -/
theorem rounded_of_dvd {n : Nat} (h : 2 ^ shiftOf n ∣ n) : rounded n = n := by
  obtain ⟨q, hq⟩ := h
  have hround : roundDiv n (2 ^ shiftOf n) = q := by
    rw [Nat.mul_comm] at hq
    conv_lhs => arg 1; rw [hq]
    exact roundDiv_mul q (Nat.two_pow_pos _)
  rw [rounded, hround, Nat.mul_comm, ← hq]

/-- With all bits of the significand in use, rounding goes along with powers of two. -/
theorem rounded_mul_two_pow {n : Nat} (h : 2 ^ 52 ≤ n) (e : Nat) :
    rounded (n * 2 ^ e) = rounded n * 2 ^ e := by
  have hne : n ≠ 0 := by
    rintro rfl
    exact absurd h (by decide)
  have hlog : (n * 2 ^ e).log2 = n.log2 + e := by
    rw [Nat.log2_eq_iff (Nat.mul_pos (Nat.pos_of_ne_zero hne) (Nat.two_pow_pos e)).ne',
      Nat.add_right_comm, Nat.pow_add, Nat.pow_add]
    exact ⟨Nat.mul_le_mul_right _ (Nat.log2_self_le hne),
      Nat.mul_lt_mul_of_pos_right Nat.lt_log2_self (Nat.two_pow_pos e)⟩
  have hshift : shiftOf (n * 2 ^ e) = shiftOf n + e := by
    have hbits : 52 ≤ n.log2 := (Nat.le_log2 hne).mpr h
    rw [shiftOf, shiftOf, hlog]
    omega
  rw [rounded, rounded, hshift, Nat.pow_add, roundDiv_mul_mul _ _ (Nat.two_pow_pos e),
    Nat.mul_assoc]

/-! ### Integers and their nearest doubles -/

/-- The magnitudes of doubles, in units, have at most this many bits. -/
def bitBound : Nat := 2098

/-- The least number of units beyond every double. -/
def unitsBound : Nat := 2 ^ bitBound

theorem two_pow_le_unitsBound {k : Nat} (h : k ≤ 2098) : 2 ^ k ≤ unitsBound :=
  Nat.pow_le_pow_right Nat.zero_lt_two h

theorem unitsBound_le_two_pow {k : Nat} (h : 2098 ≤ k) : unitsBound ≤ 2 ^ k :=
  Nat.pow_le_pow_right Nat.zero_lt_two h

/-- What is rounded to a number of units below the bound is the double of that magnitude, and
everything else is infinite. -/
theorem ofQuotient_one_cases (negative : Bool) (n : Nat) :
    (rounded n < unitsBound ∧ ∃ x : Finite, ofQuotient negative n 1 = .finite x ∧
      x.negative = negative ∧ x.magnitude = rounded n) ∨
    (unitsBound ≤ rounded n ∧ ofQuotient negative n 1 = .infinite negative) := by
  have hle := roundDiv_shiftOf_le n
  -- either the significand has all its bits, or nothing was shifted out
  have hbits : 2 ^ 52 ≤ roundDiv n (2 ^ shiftOf n) ∨ shiftOf n = 0 := by
    rcases Nat.eq_zero_or_pos (shiftOf n) with hzero | hpos
    · exact .inr hzero
    · exact .inl (le_roundDiv_shiftOf hpos.ne')
  have heq : ofQuotient negative n 1 =
      if roundDiv n (2 ^ shiftOf n) < 2 ^ 53 then
        ofParts negative (roundDiv n (2 ^ shiftOf n)) (shiftOf n)
      else ofParts negative (2 ^ 52) (shiftOf n + 1) := by
    rw [ofQuotient, Nat.div_one, Nat.one_mul]
    rfl
  have hrounded : rounded n = roundDiv n (2 ^ shiftOf n) * 2 ^ shiftOf n := rfl
  rw [heq]
  generalize roundDiv n (2 ^ shiftOf n) = significand at *
  generalize shiftOf n = shift at *
  split
  · rename_i hlt
    rw [ofParts]
    split
    · rename_i hcanonical
      have hshift := hcanonical.2.2
      refine .inl ⟨?_, _, rfl, rfl, hrounded.symm⟩
      calc rounded n = significand * 2 ^ shift := hrounded
        _ < 2 ^ 53 * 2 ^ shift := Nat.mul_lt_mul_of_pos_right hlt (Nat.two_pow_pos _)
        _ = 2 ^ (53 + shift) := (Nat.pow_add 2 53 shift).symm
        _ ≤ unitsBound := two_pow_le_unitsBound (by omega)
    · rename_i hcanonical
      have hshift : 2046 ≤ shift := by
        by_contra h
        exact hcanonical ⟨hlt, hbits, by omega⟩
      refine .inr ⟨?_, rfl⟩
      calc unitsBound ≤ 2 ^ (52 + shift) := unitsBound_le_two_pow (by omega)
        _ = 2 ^ 52 * 2 ^ shift := Nat.pow_add 2 52 shift
        _ ≤ significand * 2 ^ shift := Nat.mul_le_mul_right _ (hbits.resolve_right (by omega))
        _ = rounded n := hrounded.symm
  · -- the significand is the next power of two
    obtain rfl : significand = 2 ^ 53 := Nat.le_antisymm hle (Nat.le_of_not_lt ‹_›)
    rw [← Nat.pow_add] at hrounded
    rw [ofParts]
    split
    · rename_i hcanonical
      have hshift := hcanonical.2.2
      refine .inl ⟨?_, _, rfl, rfl, ?_⟩
      · calc rounded n = 2 ^ (53 + shift) := hrounded
          _ < 2 ^ (54 + shift) := Nat.pow_lt_pow_right (by decide) (by omega)
          _ ≤ unitsBound := two_pow_le_unitsBound (by omega)
      · calc 2 ^ 52 * 2 ^ (shift + 1) = 2 ^ (52 + (shift + 1)) := (Nat.pow_add 2 52 _).symm
          _ = rounded n := by rw [hrounded, Nat.add_comm shift 1, ← Nat.add_assoc]
    · rename_i hcanonical
      have hshift : 2045 ≤ shift := by
        by_contra h
        exact hcanonical ⟨by decide, .inl (Nat.le_refl _), by omega⟩
      refine .inr ⟨?_, rfl⟩
      rw [hrounded]
      exact unitsBound_le_two_pow (by omega)

/-- A small number of units, shifted anywhere, is not rounded. -/
theorem rounded_of_le {n : Nat} (h : n ≤ 2 ^ 53) (e : Nat) : rounded (n * 2 ^ e) = n * 2 ^ e := by
  refine rounded_of_dvd ?_
  rcases Nat.lt_or_eq_of_le h with hlt | rfl
  · have hshift : shiftOf (n * 2 ^ e) ≤ e := by
      rcases Nat.eq_zero_or_pos n with rfl | hpos
      · rw [Nat.zero_mul]
        exact Nat.zero_le e
      · have hlog : (n * 2 ^ e).log2 < 53 + e := by
          rw [Nat.log2_lt (Nat.mul_pos hpos (Nat.two_pow_pos e)).ne', Nat.pow_add]
          exact Nat.mul_lt_mul_of_pos_right hlt (Nat.two_pow_pos e)
        rw [shiftOf]
        omega
    exact (Nat.pow_dvd_pow 2 hshift).trans (Nat.dvd_mul_left _ n)
  · rw [← Nat.pow_add]
    refine Nat.pow_dvd_pow 2 ?_
    rw [shiftOf, Nat.log2_two_pow]
    omega

end Binary64

/-- The least natural number that is rounded beyond every double. -/
def Number.floatBound : Nat := 2 ^ (1024 : Nat) - 2 ^ (970 : Nat)

theorem two_pow_lt_sub {i j k : Nat} (hij : i < j) (hjk : j < k) : 2 ^ i < 2 ^ k - 2 ^ j := by
  have hdouble : 2 ^ j + 2 ^ j ≤ 2 ^ k := by
    rw [← Nat.two_mul, ← Nat.pow_succ']
    exact Nat.pow_le_pow_right Nat.zero_lt_two hjk
  exact (Nat.pow_lt_pow_right Nat.one_lt_two hij).trans_le (Nat.le_sub_of_add_le hdouble)

theorem Number.two_pow_lt_floatBound {k : Nat} (h : k < 970) : 2 ^ k < floatBound := by
  have hlt := two_pow_lt_sub h (k := 1024) (by decide)
  rw [floatBound]
  exact hlt

theorem Number.safeBound_lt_floatBound : safeBound < floatBound := by
  rw [safeBound]
  exact two_pow_lt_floatBound (by decide)

theorem Number.floatBound_le {k : Nat} (h : 1024 ≤ k) : floatBound ≤ (2 ^ k : Int).natAbs := by
  have hpow : (2 ^ k : Int).natAbs = 2 ^ k := Int.natAbs_pow 2 k
  have hle : floatBound ≤ 2 ^ (1024 : Nat) := by
    rw [floatBound]
    apply Nat.sub_le
  have hmono := Nat.pow_le_pow_right Nat.zero_lt_two h
  rw [hpow]
  exact hle.trans hmono

namespace Binary64

/-- The bound lies half a step beyond the greatest double. -/
theorem rounded_lt_iff {n : Nat} :
    rounded (n * unitsPerOne) < unitsBound ↔ n < Number.floatBound := by
  have hbound : unitsBound ≤ rounded (Number.floatBound * unitsPerOne) := by decide +kernel
  have hbelow : rounded ((Number.floatBound - 1) * unitsPerOne) < unitsBound := by decide +kernel
  constructor
  · intro h
    by_contra hle
    have hmono := rounded_mono (Nat.mul_le_mul_right unitsPerOne (Nat.le_of_not_lt hle))
    exact absurd (hbound.trans hmono) (Nat.not_le_of_lt h)
  · intro h
    exact (rounded_mono (Nat.mul_le_mul_right unitsPerOne (Nat.le_sub_one_of_lt h))).trans_lt hbelow

/-- The signed number of units that an integer is rounded to. -/
def nearestUnits (n : Int) : Int :=
  if n < 0 then -(rounded (n.natAbs * unitsPerOne) : Int) else rounded (n.natAbs * unitsPerOne)

theorem nearestUnits_mono {m n : Int} (h : m ≤ n) : nearestUnits m ≤ nearestUnits n := by
  have hrounded {k l : Nat} (h : k ≤ l) :
      (rounded (k * unitsPerOne) : Int) ≤ rounded (l * unitsPerOne) :=
    Int.ofNat_le.mpr (rounded_mono (Nat.mul_le_mul_right _ h))
  rw [nearestUnits, nearestUnits]
  split
  · split
    · exact Int.neg_le_neg (hrounded (by omega))
    · omega
  · rw [if_neg (by omega)]
    exact hrounded (by omega)

/-- A product with an integer, from the magnitude and the sign of the integer. -/
theorem signed_mul {n c : Int} {p : Prop} [Decidable p] (h : p ↔ n < 0) :
    (if p then -(n.natAbs * c) else n.natAbs * c) = n * c := by
  split
  · rename_i hp
    rw [Int.ofNat_natAbs_of_nonpos (Int.le_of_lt (h.mp hp)), Int.neg_mul, Int.neg_neg]
  · rename_i hp
    rw [Int.natAbs_of_nonneg (Int.not_lt.mp (mt h.mpr hp))]

/-- A small integer is a double itself. -/
theorem nearestUnits_of_le {n : Int} (h : n.natAbs ≤ Number.safeBound) :
    nearestUnits n = n * unitsPerOne := by
  have hexact : rounded (n.natAbs * unitsPerOne) = n.natAbs * unitsPerOne := by
    obtain ⟨e, he⟩ : ∃ e, unitsPerOne = 2 ^ e := ⟨_, unitsPerOne.eq_1⟩
    rw [he]
    exact rounded_of_le h e
  rw [nearestUnits, hexact, Int.natCast_mul]
  exact signed_mul Iff.rfl

/-- An integer with all bits of a significand in use is rounded like its number of units. -/
theorem nearestUnits_natCast {n : Nat} (h : 2 ^ 52 ≤ n) :
    nearestUnits n = (rounded n * unitsPerOne : Nat) := by
  obtain ⟨e, he⟩ : ∃ e, unitsPerOne = 2 ^ e := ⟨_, unitsPerOne.eq_1⟩
  rw [nearestUnits, if_neg (by omega), Int.natAbs_natCast, he, rounded_mul_two_pow h]

/-- **The nearest double** of an integer is the one of the rounded number of units, up to the
bound. -/
theorem ofInt_cases (n : Int) :
    (n.natAbs < Number.floatBound ∧ ∃ x, ofInt n = .finite x ∧ x.units = nearestUnits n) ∨
      Number.floatBound ≤ n.natAbs ∧ ofInt n = .infinite (n < 0) := by
  rw [ofInt]
  rcases ofQuotient_one_cases (n < 0) (n.natAbs * unitsPerOne) with
    ⟨hlt, x, hx, hnegative, hmagnitude⟩ | ⟨hle, hx⟩
  · refine .inl ⟨rounded_lt_iff.mp hlt, x, hx, ?_⟩
    rw [Finite.units, nearestUnits, hnegative, hmagnitude]
    simp only [decide_eq_true_eq]
  · exact .inr ⟨Nat.le_of_not_lt fun h => absurd (rounded_lt_iff.mpr h) (Nat.not_lt_of_le hle), hx⟩

end Binary64

/-! ### Comparisons -/

namespace Relation

/-- An integer as an operand. -/
def integer (n : Int) : Operand :=
  some (.number (.int n))

/-- Of two integers exactly one is less, equal or greater, none of the comparisons fails, and the
less one is sorted before the other. -/
def Trichotomy (a b : Int) : Prop :=
  ∃ less same greater, lt.compare (integer a) (integer b) = .ok less ∧
    eq.compare (integer a) (integer b) = .ok same ∧
    gt.compare (integer a) (integer b) = .ok greater ∧ [less, same, greater].count true = 1 ∧
    (less = true ↔ Value.order (.number (.int a)) (.number (.int b)) = .lt)

variable {a b : Int}

/-- Values are ordered by the exact value of integers. -/
theorem order_integers (a b : Int) :
    Value.order (.number (.int a)) (.number (.int b)) = Ord.compare a b := rfl

/-- Equality of integers is exact. -/
theorem eq_compare_integers (a b : Int) :
    eq.compare (integer a) (integer b) = .ok (decide (a = b)) := by
  have hsame : (Value.number (.int a)).same (.number (.int b)) = decide (a = b) := by
    rw [Value.same, Number.same, Number.order?]
    simp
  rw [compare, integer, integer, Operand.looselySame.eq_def]
  simp only [hsame]
  cases decide (a = b) <;> rfl

/-- The numeric view of an integer, up to the bound. -/
theorem toFloat_integer (h : a.natAbs < Number.floatBound) :
    ∃ x, Binary64.ofInt a = .finite x ∧ (integer a).toFloat = .ok (.finite x) ∧
      x.units = Binary64.nearestUnits a := by
  rcases Binary64.ofInt_cases a with ⟨-, x, hx, hunits⟩ | ⟨hle, -⟩
  · exact ⟨x, hx, Number.toFloat_int hx, hunits⟩
  · exact absurd h (Nat.not_lt_of_le hle)

/-- From the bound on there is none. -/
theorem toFloat_integer_error (h : Number.floatBound ≤ a.natAbs) :
    (integer a).toFloat = .error (.number .integerTooLarge) := by
  rcases Binary64.ofInt_cases a with ⟨hlt, -⟩ | ⟨-, hinfinite⟩
  · exact absurd hlt (Nat.not_lt_of_le h)
  · rw [integer, Operand.toFloat, Value.toFloat, Number.toFloat, hinfinite]
    rfl

/-- Two integers with nearest doubles stand to each other as those do. -/
theorem order?_integers (ha : a.natAbs < Number.floatBound) (hb : b.natAbs < Number.floatBound) :
    Operand.order? (integer a) (integer b) =
      .ok (some (Ord.compare (Binary64.nearestUnits a) (Binary64.nearestUnits b))) := by
  obtain ⟨x, -, hx, hxunits⟩ := toFloat_integer ha
  obtain ⟨y, -, hy, hyunits⟩ := toFloat_integer hb
  rw [Operand.order?, hx, hy, ← hxunits, ← hyunits]
  rfl

/-- Integers beyond the doubles are not ordered. -/
theorem order?_integers_error
    (h : Number.floatBound ≤ a.natAbs ∨ Number.floatBound ≤ b.natAbs) :
    Operand.order? (integer a) (integer b) = .error (.number .integerTooLarge) := by
  rcases Nat.lt_or_ge a.natAbs Number.floatBound with ha | ha
  · obtain ⟨x, -, hx, -⟩ := toFloat_integer ha
    rw [Operand.order?, hx, toFloat_integer_error (h.resolve_left (Nat.not_le_of_lt ha))]
    rfl
  · rw [Operand.order?, toFloat_integer_error ha]
    rfl

theorem same_ofInt (ha : a.natAbs < Number.floatBound) (hb : b.natAbs < Number.floatBound) :
    (Binary64.ofInt a).same (Binary64.ofInt b) = true ↔
      Binary64.nearestUnits a = Binary64.nearestUnits b := by
  obtain ⟨x, hx, -, hxunits⟩ := toFloat_integer ha
  obtain ⟨y, hy, -, hyunits⟩ := toFloat_integer hb
  rw [hx, hy, Binary64.same, Binary64.order?, ← hxunits, ← hyunits]
  simp

/-- "Less" and "greater" of operands that stand to each other in some way. -/
theorem compare_of_order? {x y : Operand} {o : Ordering} (h : Operand.order? x y = .ok (some o)) :
    lt.compare x y = .ok o.isLT ∧ gt.compare x y = .ok o.isGT := by
  simp only [compare, h]
  exact ⟨rfl, rfl⟩

/-- Beyond the doubles both comparisons fail. -/
theorem compare_integers_error (h : Number.floatBound ≤ a.natAbs ∨ Number.floatBound ≤ b.natAbs) :
    lt.compare (integer a) (integer b) = .error (.number .integerTooLarge) ∧
      gt.compare (integer a) (integer b) = .error (.number .integerTooLarge) := by
  simp only [compare, order?_integers_error h]
  exact ⟨rfl, rfl⟩

/-- Where one of them does not fail, both integers have nearest doubles. -/
theorem lt_floatBound_of_compare {r : Relation} {answer : Bool} (hr : r = lt ∨ r = gt)
    (h : r.compare (integer a) (integer b) = .ok answer) :
    a.natAbs < Number.floatBound ∧ b.natAbs < Number.floatBound := by
  by_contra hout
  obtain ⟨hless, hgreater⟩ := compare_integers_error (a := a) (b := b) (by omega)
  rcases hr with rfl | rfl
  · cases hless.symm.trans h
  · cases hgreater.symm.trans h

theorem lt_of_compare (h : lt.compare (integer a) (integer b) = .ok true) : a < b := by
  obtain ⟨ha, hb⟩ := lt_floatBound_of_compare (.inl rfl) h
  have hless := h.symm.trans (compare_of_order? (order?_integers ha hb)).1
  rw [Except.ok.injEq, eq_comm, Ordering.isLT_iff_eq_lt, compare_lt_iff_lt] at hless
  by_contra hle
  exact absurd hless (Int.not_lt.mpr (Binary64.nearestUnits_mono (Int.not_lt.mp hle)))

theorem gt_of_compare (h : gt.compare (integer a) (integer b) = .ok true) : b < a := by
  obtain ⟨ha, hb⟩ := lt_floatBound_of_compare (.inr rfl) h
  have hgreater := h.symm.trans (compare_of_order? (order?_integers ha hb)).2
  rw [Except.ok.injEq, eq_comm, Ordering.isGT_iff_eq_gt, compare_gt_iff_gt] at hgreater
  by_contra hle
  exact absurd hgreater (Int.not_lt.mpr (Binary64.nearestUnits_mono (Int.not_lt.mp hle)))

/-- Of two integers whose nearest doubles tell them apart, exactly one is less or greater. -/
theorem trichotomy_of_ne (ha : a.natAbs < Number.floatBound) (hb : b.natAbs < Number.floatBound)
    (hne : (Binary64.ofInt a).same (Binary64.ofInt b) = true → a = b) : Trichotomy a b := by
  obtain ⟨hless, hgreater⟩ := compare_of_order? (order?_integers ha hb)
  refine ⟨_, _, _, hless, eq_compare_integers a b, hgreater, ?_⟩
  rw [order_integers]
  rw [same_ofInt ha hb] at hne
  rcases lt_trichotomy a b with hlt | rfl | hlt
  · have hunits : Binary64.nearestUnits a < Binary64.nearestUnits b :=
      lt_of_le_of_ne (Binary64.nearestUnits_mono hlt.le) fun h => hlt.ne (hne h)
    simp [compare_lt_iff_lt.mpr hunits, compare_lt_iff_lt.mpr hlt, hlt.ne]
  · simp
  · have hunits : Binary64.nearestUnits b < Binary64.nearestUnits a :=
      lt_of_le_of_ne (Binary64.nearestUnits_mono hlt.le) fun h => hlt.ne (hne h.symm).symm
    simp [compare_gt_iff_gt.mpr hunits, compare_gt_iff_gt.mpr hlt, hlt.ne']

/-- Conversely, of two integers with one nearest double none of the three would hold. -/
theorem Trichotomy.apart (h : Trichotomy a b) :
    a.natAbs < Number.floatBound ∧ b.natAbs < Number.floatBound ∧
      ((Binary64.ofInt a).same (Binary64.ofInt b) = true → a = b) := by
  obtain ⟨less, same, greater, hless, hsame, hgreater, hcount, -⟩ := h
  obtain ⟨ha, hb⟩ := lt_floatBound_of_compare (.inl rfl) hless
  refine ⟨ha, hb, fun hunits => ?_⟩
  by_contra hne
  have horder := order?_integers ha hb
  rw [(same_ofInt ha hb).mp hunits, compare_eq_iff_eq.mpr rfl] at horder
  obtain ⟨hless', hgreater'⟩ := compare_of_order? horder
  cases hless.symm.trans hless'
  cases hgreater.symm.trans hgreater'
  rw [eq_compare_integers, decide_eq_false hne] at hsame
  cases hsame
  cases hcount

/-- Small integers are doubles themselves. -/
theorem eq_of_same_ofInt (ha : a.natAbs ≤ Number.safeBound) (hb : b.natAbs ≤ Number.safeBound)
    (h : (Binary64.ofInt a).same (Binary64.ofInt b) = true) : a = b := by
  have hbound := Number.safeBound_lt_floatBound
  rw [same_ofInt (ha.trans_lt hbound) (hb.trans_lt hbound), Binary64.nearestUnits_of_le ha,
    Binary64.nearestUnits_of_le hb] at h
  exact Int.eq_of_mul_eq_mul_right (Int.natCast_ne_zero.mpr Binary64.unitsPerOne_pos.ne') h

/-- **When the orders of integers agree.**  Equality and sorting go by the exact value of integers
of any size.  The other comparisons go by the nearest doubles: they fail if there are none, never
hold against the exact order, and tell integers apart exactly if their nearest doubles differ.  This
they do for all integers up to `2 ^ 53`. -/
theorem trichotomy_iff (a b : Int) :
    eq.compare (integer a) (integer b) = .ok (decide (a = b)) ∧
      Value.order (.number (.int a)) (.number (.int b)) = Ord.compare a b ∧
      (Trichotomy a b ↔ a.natAbs < Number.floatBound ∧ b.natAbs < Number.floatBound ∧
        ((Binary64.ofInt a).same (Binary64.ofInt b) = true → a = b)) ∧
      (Number.floatBound ≤ a.natAbs ∨ Number.floatBound ≤ b.natAbs →
        lt.compare (integer a) (integer b) = .error (.number .integerTooLarge) ∧
          gt.compare (integer a) (integer b) = .error (.number .integerTooLarge)) ∧
      (lt.compare (integer a) (integer b) = .ok true → a < b) ∧
      (gt.compare (integer a) (integer b) = .ok true → b < a) ∧
      (a.natAbs ≤ Number.safeBound → b.natAbs ≤ Number.safeBound → Trichotomy a b) := by
  have hbound := Number.safeBound_lt_floatBound
  refine ⟨eq_compare_integers a b, order_integers a b, ⟨Trichotomy.apart, ?_⟩,
    compare_integers_error, lt_of_compare, gt_of_compare, fun ha hb => ?_⟩
  · rintro ⟨ha, hb, hne⟩
    exact trichotomy_of_ne ha hb hne
  · exact trichotomy_of_ne (ha.trans_lt hbound) (hb.trans_lt hbound) (eq_of_same_ofInt ha hb)

/-- The greatest integers of which every one is a double, and an integer beyond all doubles. -/
theorem trichotomy_iff_safe :
    let m : Int := 2 ^ 53 - 1
    let n : Int := 2 ^ 53
    (m.natAbs ≤ Number.safeBound ∧ n.natAbs ≤ Number.safeBound ∧ Trichotomy m n) ∧
      (lt.compare (integer m) (integer n) = .ok true ∧ m < n) ∧
      (gt.compare (integer n) (integer m) = .ok true ∧ m < n) ∧
      Number.floatBound ≤ (2 ^ 1024 : Int).natAbs ∧
      lt.compare (integer 1) (integer (2 ^ 1024)) = .error (.number .integerTooLarge) := by
  intro m n
  have hm : m.natAbs ≤ Number.safeBound := by decide
  have hn : n.natAbs ≤ Number.safeBound := by decide
  have hbound := Number.safeBound_lt_floatBound
  have hunits : Binary64.nearestUnits m < Binary64.nearestUnits n := by
    rw [Binary64.nearestUnits_of_le hm, Binary64.nearestUnits_of_le hn]
    exact Int.mul_lt_mul_of_pos_right (by decide) (Int.natCast_pos.mpr Binary64.unitsPerOne_pos)
  have hless : lt.compare (integer m) (integer n) = .ok true := by
    rw [(compare_of_order? (order?_integers (hm.trans_lt hbound) (hn.trans_lt hbound))).1,
      compare_lt_iff_lt.mpr hunits]
    rfl
  have hgreater : gt.compare (integer n) (integer m) = .ok true := by
    rw [(compare_of_order? (order?_integers (hn.trans_lt hbound) (hm.trans_lt hbound))).2,
      compare_gt_iff_gt.mpr hunits]
    rfl
  have hbeyond := Number.floatBound_le (k := 1024) (Nat.le_refl _)
  obtain ⟨-, -, -, -, hlt, -, htrichotomy⟩ := trichotomy_iff m n
  obtain ⟨-, -, -, -, -, hgt, -⟩ := trichotomy_iff n m
  obtain ⟨-, -, -, hfails, -⟩ := trichotomy_iff 1 (2 ^ 1024)
  exact ⟨⟨hm, hn, htrichotomy hm hn⟩, ⟨hless, hlt hless⟩, ⟨hgreater, hgt hgreater⟩, hbeyond,
    (hfails (.inr hbeyond)).1⟩

/-- An integer that is rounded to the one before it: none of the three comparisons holds. -/
theorem not_trichotomy_rounded : ¬ Trichotomy (2 ^ 53) (2 ^ 53 + 1) := by
  intro h
  obtain ⟨ha, hb, hne⟩ := h.apart
  have hround : Binary64.rounded (2 ^ 53) = Binary64.rounded (2 ^ 53 + 1) := by decide
  have hunits : Binary64.nearestUnits (2 ^ 53) = Binary64.nearestUnits (2 ^ 53 + 1) := by
    have hleft := Binary64.nearestUnits_natCast (n := 2 ^ 53) (by decide)
    have hright := Binary64.nearestUnits_natCast (n := 2 ^ 53 + 1) (by decide)
    rw [← hround, ← hleft] at hright
    exact hright.symm
  have hsame : (2 ^ 53 : Int) = 2 ^ 53 + 1 := hne ((same_ofInt ha hb).mpr hunits)
  exact absurd hsame (by decide)

end Relation

end Quarry
