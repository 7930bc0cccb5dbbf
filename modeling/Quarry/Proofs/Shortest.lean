import Quarry.Proofs.Rounding

/-!
# Shortest decimals — seventeen digits are enough

The points of the grid of seventeen digits lie closer together than the interval of a double is
wide, so one of the two points around the double lies inside (`contains_around`).  The search for
the shortest decimal therefore always finds one (`shortest_covers`), and what it finds is covered
by the double.
-/

namespace Quarry.Binary64

/-! ### The number of digits -/

theorem lt_pow_decimalLength (n : Nat) : n < 10 ^ decimalLength n :=
  (Nat.length_toDigits_le_iff (by decide) Nat.length_toDigits_pos).mp (Nat.le_refl _)

theorem pow_decimalLength_le {n : Nat} (hn : 0 < n) : 10 ^ (decimalLength n - 1) ≤ n := by
  by_contra h
  rcases Nat.eq_zero_or_pos (decimalLength n - 1) with h0 | hpos
  · rw [h0] at h
    omega
  · have : decimalLength n ≤ decimalLength n - 1 :=
      (Nat.length_toDigits_le_iff (by decide) hpos).mpr (Nat.lt_of_not_le h)
    omega

/-- A fraction is not smaller than the power of ten one below its point. -/
theorem pow_decimalPoint_le {num den : Nat} (hnum : 0 < num) (hden : 0 < den) :
    den * 10 ^ (decimalPoint num den - 1).toNat ≤ num * 10 ^ (1 - decimalPoint num den).toNat := by
  have hlength : ∀ n, 1 ≤ decimalLength n := fun n => Nat.length_toDigits_pos
  rw [decimalPoint]
  split
  · rename_i hle
    have := hlength (num / den)
    have hp : ((decimalLength (num / den) : Int) - 1).toNat = decimalLength (num / den) - 1 := by
      omega
    have hn : (1 - (decimalLength (num / den) : Int)).toNat = 0 := by omega
    rw [hp, hn, Nat.pow_zero, Nat.mul_one]
    calc den * 10 ^ (decimalLength (num / den) - 1) ≤ den * (num / den) :=
          Nat.mul_le_mul_left _ (pow_decimalLength_le (Nat.div_pos hle hden))
      _ ≤ num := Nat.mul_div_le num den
  · have hp : (1 - (decimalLength (den / num) : Int) - 1).toNat = 0 := by omega
    have hn : (1 - (1 - (decimalLength (den / num) : Int))).toNat = decimalLength (den / num) := by
      omega
    rw [hp, hn, Nat.pow_zero, Nat.mul_one]
    exact ((Nat.div_lt_iff_lt_mul hnum).mp (lt_pow_decimalLength (den / num))).le.trans
      (Nat.mul_comm _ _).le

theorem unitsPerOne_pos : 0 < unitsPerOne := Nat.two_pow_pos _

theorem unitsPerOne_le {k : Nat} (hk : 1074 ≤ 3 * k) : unitsPerOne ≤ 10 ^ k :=
  (Nat.pow_le_pow_right (by decide) hk).trans (two_pow_le_ten_pow k)

/-- The point of a double is not far below the first digit. -/
theorem le_decimalPoint {n : Nat} (hn : 4 ≤ n) : -358 ≤ decimalPoint n (4 * unitsPerOne) := by
  -- a variable for the exponent, so that the power is not computed
  obtain ⟨k, hk⟩ : ∃ k, k = 358 := ⟨358, rfl⟩
  rw [decimalPoint]
  split
  · omega
  · have hdiv : 4 * unitsPerOne / n < 10 ^ (k + 1) :=
      calc 4 * unitsPerOne / n ≤ 4 * unitsPerOne / 4 := Nat.div_le_div_left hn (by decide)
        _ = unitsPerOne := Nat.mul_div_cancel_left _ (by decide)
        _ ≤ 10 ^ k := unitsPerOne_le (by omega)
        _ < 10 ^ (k + 1) := Nat.pow_lt_pow_succ (by decide)
    have : decimalLength (4 * unitsPerOne / n) ≤ k + 1 :=
      (Nat.length_toDigits_le_iff (by decide) (Nat.succ_pos k)).mpr hdiv
    omega

/-! ### Points of a grid -/

theorem contains_rescale {x : Finite} {d : Nat} {e : Int} :
    (x.interval.rescale (-e)).contains d = true ↔ x.CoversDecimal d e := by
  have hden : d * (x.interval.rescale (-e)).den = 4 * (d * 10 ^ e.toNat * unitsPerOne) := by
    simp only [Interval.rescale, Finite.interval, Int.neg_neg]
    ring
  rw [Interval.contains, Finite.CoversDecimal, Finite.Covers]
  simp only [hden]
  cases hc : x.interval.closed with
  | true => simp [Interval.rescale, hc]
  | false => simp [Interval.rescale, hc]

/-- What is found on a grid lies in the interval. -/
theorem contains_of_wholeNumber? {i : Interval} {d : Nat} (h : i.wholeNumber? = some d) :
    i.contains d = true := by
  simp only [Interval.wholeNumber?] at h
  split at h
  · rename_i h₀ h₁
    split at h
    · cases h
      exact h₀
    · split at h
      · cases h
        exact h₁
      · -- half way between two points, one of the two
        rcases Nat.mod_two_eq_zero_or_one (i.value / i.den) with hm | hm <;>
          rw [hm] at h <;> cases h
        · exact h₀
        · exact h₁
  · cases h
    assumption
  · cases h
    assumption
  · cases h

theorem wholeNumber?_isSome {i : Interval}
    (h : i.contains (i.value / i.den) = true ∨ i.contains (i.value / i.den + 1) = true) :
    i.wholeNumber?.isSome = true := by
  simp only [Interval.wholeNumber?]
  split
  · split
    · rfl
    · split <;> rfl
  · rfl
  · rfl
  · rename_i h₀ h₁
    rcases h with h | h
    · rw [h₀] at h
      cases h
    · rw [h₁] at h
      cases h

/-- In an interval that is wider than the grid, one of the points around its value lies inside. -/
theorem contains_around {i : Interval} (hden : 0 < i.den) (hlow : i.low < i.value)
    (hhigh : i.value < i.high) (hwide : i.den + i.low < i.high) :
    i.contains (i.value / i.den) = true ∨ i.contains (i.value / i.den + 1) = true := by
  have inside : ∀ d, i.low < d * i.den → d * i.den < i.high → i.contains d = true := by
    intro d h₁ h₂
    simp only [Interval.contains]
    split <;> simp [h₁, h₂, h₁.le, h₂.le]
  have hfloor : i.value / i.den * i.den ≤ i.value := Nat.div_mul_le_self _ _
  have hnext : i.value < (i.value / i.den + 1) * i.den :=
    (Nat.div_lt_iff_lt_mul hden).mp (Nat.lt_succ_self _)
  by_cases h : i.low < i.value / i.den * i.den
  · exact .inl (inside _ h (by omega))
  · refine .inr (inside _ (by omega) ?_)
    rw [Nat.add_mul] at hnext ⊢
    omega

/-! ### The search -/

/-- The grid of seventeen digits is sixteen digits finer than the value. -/
theorem grid_le_value {i : Interval} {p : Int}
    (hp : i.den * 10 ^ (p - 1).toNat ≤ i.value * 10 ^ (1 - p).toNat) :
    (i.rescale (17 - p)).den * 10 ^ 16 ≤ (i.rescale (17 - p)).value := by
  have hexp : (-(17 - p)).toNat + 16 + (1 - p).toNat = (p - 1).toNat + (17 - p).toNat := by omega
  refine Nat.le_of_mul_le_mul_right ?_ (Nat.pow_pos (by decide) : 0 < 10 ^ (1 - p).toNat)
  calc (i.rescale (17 - p)).den * 10 ^ 16 * 10 ^ (1 - p).toNat
      = i.den * 10 ^ ((-(17 - p)).toNat + 16 + (1 - p).toNat) := by
        simp only [Interval.rescale]
        ring
    _ = i.den * 10 ^ (p - 1).toNat * 10 ^ (17 - p).toNat := by
        rw [hexp]
        ring
    _ ≤ i.value * 10 ^ (1 - p).toNat * 10 ^ (17 - p).toNat := Nat.mul_le_mul_right _ hp
    _ = (i.rescale (17 - p)).value * 10 ^ (1 - p).toNat := by
        simp only [Interval.rescale]
        ring

/-- The interval of a double in quarters of a step: two to each side, one below a power of two. -/
theorem interval_quarters (x : Finite) (e : Int) :
    ∃ below step, (below = 2 ∨ below = 1 ∧ x.significand = 2 ^ 52) ∧ 0 < step ∧
      (x.interval.rescale e).low = (4 * x.significand - below) * step ∧
      (x.interval.rescale e).value = 4 * x.significand * step ∧
      (x.interval.rescale e).high = (4 * x.significand + 2) * step := by
  have hstep : 0 < 2 ^ x.shift * 10 ^ e.toNat :=
    Nat.mul_pos (Nat.two_pow_pos _) (Nat.pow_pos (by decide))
  simp only [Interval.rescale, Finite.interval, Nat.mul_assoc _ (2 ^ x.shift)]
  by_cases h : x.significand = 2 ^ 52 ∧ 0 < x.shift
  · exact ⟨1, _, .inr ⟨rfl, h.1⟩, hstep, by rw [if_pos (by simpa using h)], rfl, rfl⟩
  · exact ⟨2, _, .inl rfl, hstep, by rw [if_neg (by simpa using h)], rfl, rfl⟩

/-- On the grid of seventeen digits the points lie closer together than the interval of a double
is wide. -/
theorem grid_lt_interval {x : Finite} (hs : x.significand ≠ 0) {p : Int}
    (hp : x.interval.den * 10 ^ (p - 1).toNat ≤ x.interval.value * 10 ^ (1 - p).toNat) :
    let i := x.interval.rescale (17 - p)
    i.low < i.value ∧ i.value < i.high ∧ i.den + i.low < i.high := by
  intro i
  have hgrid : i.den * 10 ^ 16 ≤ i.value := grid_le_value hp
  obtain ⟨below, step, hbelow, hstep, hlow, hvalue, hhigh⟩ := interval_quarters x (17 - p)
  have hmax := x.canonical.1
  refine ⟨?_, ?_, ?_⟩
  · rw [hlow, hvalue]
    exact Nat.mul_lt_mul_of_pos_right (by omega) hstep
  · rw [hvalue, hhigh]
    exact Nat.mul_lt_mul_of_pos_right (by omega) hstep
  · -- the value would be too small for a step of the grid that is as long as the interval
    by_contra h
    have hwide : (2 + below) * step ≤ i.den := by
      have : (4 * x.significand + 2) * step =
          (4 * x.significand - below) * step + (2 + below) * step := by
        rw [← Nat.add_mul]
        congr 1
        omega
      rw [hlow, hhigh] at h
      omega
    have hle : (2 + below) * 10 ^ 16 * step ≤ 4 * x.significand * step :=
      calc (2 + below) * 10 ^ 16 * step = (2 + below) * step * 10 ^ 16 := by ring
        _ ≤ i.den * 10 ^ 16 := Nat.mul_le_mul_right (10 ^ 16) hwide
        _ ≤ i.value := hgrid
        _ = 4 * x.significand * step := hvalue
    have := Nat.le_of_mul_le_mul_right hle hstep
    omega

/-- **The shortest decimal.**  The search finds a decimal that the double covers. -/
theorem shortest_covers {x : Finite} (hs : x.significand ≠ 0) :
    ∃ d e, x.shortest = Decimal.ofWhole d e ∧ x.CoversDecimal d e ∧ 0 < d ∧ -400 ≤ e := by
  have hden : 0 < x.interval.den := Nat.mul_pos (by decide) unitsPerOne_pos
  have hvalue : 4 ≤ x.interval.value :=
    calc 4 ≤ 4 * x.significand := by omega
      _ ≤ _ := Nat.le_mul_of_pos_right _ (Nat.two_pow_pos _)
  have hspec := pow_decimalPoint_le (Nat.lt_of_lt_of_le (by decide) hvalue) hden
  have hpoint : -358 ≤ decimalPoint x.interval.value x.interval.den := le_decimalPoint hvalue
  generalize hp : decimalPoint x.interval.value x.interval.den = p at hspec hpoint
  let onGrid (n : Nat) : Option Decimal :=
    (x.interval.rescale (n - p)).wholeNumber?.map fun d => Decimal.ofWhole d (p - n)
  -- the last grid has a point, so some grid is the first with one
  have hseventeen : (onGrid 17).isSome = true := by
    obtain ⟨h₁, h₂, h₃⟩ := grid_lt_interval hs hspec
    rw [Option.isSome_map]
    exact wholeNumber?_isSome
      (contains_around (Nat.mul_pos hden (Nat.pow_pos (by decide))) h₁ h₂ h₃)
  obtain ⟨r, hr⟩ := Option.isSome_iff_exists.mp
    (List.findSome?_isSome_iff.mpr ⟨17, by decide, hseventeen⟩ :
      ((List.range' 1 17).findSome? onGrid).isSome = true)
  obtain ⟨n, hn, hfound⟩ := List.exists_of_findSome?_eq_some hr
  obtain ⟨d, hd, rfl⟩ := Option.map_eq_some_iff.mp hfound
  have hcovers : x.CoversDecimal d (p - n) := by
    rw [← contains_rescale, Int.neg_sub]
    exact contains_of_wholeNumber? hd
  refine ⟨d, p - n, ?_, hcovers, ?_, ?_⟩
  · simp only [Finite.shortest, hp]
    rw [hr, Option.getD_some]
  · -- zero is below the interval
    rw [Nat.pos_iff_ne_zero]
    rintro rfl
    have hlow : 0 < x.interval.low := by
      refine Nat.mul_pos ?_ (Nat.two_pow_pos _)
      split <;> omega
    have := Nat.mul_pos hlow (Nat.pow_pos (by decide) : 0 < 10 ^ (-(p - (n : Int))).toNat)
    simp only [Finite.CoversDecimal, Finite.Covers, Nat.zero_mul, Nat.mul_zero] at hcovers
    split at hcovers <;> omega
  · have : n < 1 + 17 := (List.mem_range'_1.mp hn).2
    omega

end Quarry.Binary64
