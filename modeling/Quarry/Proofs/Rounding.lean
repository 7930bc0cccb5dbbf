import Mathlib.Tactic.Ring
import Mathlib.Tactic.Linarith
import Quarry.Number.Shortest

/-!
# Rounding — the numbers that are nearest to a double

`Finite.interval` says which numbers a double stands for.  Here the interval is tied to rounding:
every fraction inside it rounds to the double (`ofQuotient_of_covers`).

`roundDiv` gives the whole number that is at most a half away, a half only from an even one.  With
the right shift this is the significand of the double.  Only just below a power of two the shift is
one less, because there the doubles lie twice as close; the significand is then rounded up to
`2 ^ 53`, which is carried over into the shift.

A decimal `digits · 10 ^ exponent` is covered by a double if the fraction it stands for is.
Zeros can be moved between the digits and the exponent (`coversDecimal_shift`), and a covered
decimal is read as the double (`ofDecimal_of_covers`).
-/

namespace Quarry.Binary64

/-! ### The nearest whole number -/

theorem roundDiv_eq {num den n : Nat} (hlow : 2 * (n * den) ≤ 2 * num + den)
    (hhigh : 2 * num ≤ 2 * (n * den) + den)
    (hodd : n % 2 = 1 → 2 * (n * den) ≠ 2 * num + den ∧ 2 * num ≠ 2 * (n * den) + den)
    (hden : 0 < den) : roundDiv num den = n := by
  have hnum : num = num / den * den + num % den := by rw [Nat.mul_comm, Nat.div_add_mod]
  have hr : num % den < den := Nat.mod_lt _ hden
  rw [roundDiv]
  generalize num / den = q at *
  generalize num % den = r at *
  subst hnum
  -- the nearest number is one of the two around the fraction
  have hq : q ≤ n := by
    by_contra h
    have : (n + 1) * den ≤ q * den := Nat.mul_le_mul_right _ (by omega)
    rw [Nat.add_mul, Nat.one_mul] at this
    omega
  have hq' : n ≤ q + 1 := by
    by_contra h
    have : (q + 2) * den ≤ n * den := Nat.mul_le_mul_right _ (by omega)
    rw [Nat.add_mul] at this
    omega
  obtain rfl | rfl : n = q ∨ n = q + 1 := by omega
  · split
    · rfl
    · split
      · omega
      · have : n % 2 ≠ 1 := fun h => (hodd h).2 (by omega)
        omega
  · rw [Nat.add_mul, Nat.one_mul] at hlow hhigh hodd
    split
    · omega
    · split
      · rfl
      · have : (q + 1) % 2 ≠ 1 := fun h => (hodd h).1 (by omega)
        omega

/-! ### The interval of a double -/

/-- The fraction `num / den`, counted in units, lies in the interval of a double. -/
def Finite.Covers (x : Finite) (num den : Nat) : Prop :=
  if x.interval.closed then
    x.interval.low * den ≤ 4 * num ∧ 4 * num ≤ x.interval.high * den
  else x.interval.low * den < 4 * num ∧ 4 * num < x.interval.high * den

/-- Only the value of a fraction counts. -/
theorem Finite.Covers.congr {x : Finite} {num den num' den' : Nat} (h : x.Covers num den)
    (he : num * den' = num' * den) (hden : 0 < den) (hden' : 0 < den') : x.Covers num' den' := by
  have scale : ∀ a, a * den' * den = a * den * den' := fun a => Nat.mul_right_comm a den' den
  have he' : 4 * num' * den = 4 * num * den' := by rw [Nat.mul_assoc, ← he, Nat.mul_assoc]
  cases hc : x.interval.closed with
  | true =>
      rw [Covers, if_pos hc] at *
      refine ⟨Nat.le_of_mul_le_mul_right ?_ hden, Nat.le_of_mul_le_mul_right ?_ hden⟩
      · rw [scale, he']
        exact Nat.mul_le_mul_right _ h.1
      · rw [scale, he']
        exact Nat.mul_le_mul_right _ h.2
  | false =>
      rw [Covers, if_neg (by simp [hc])] at *
      refine ⟨Nat.lt_of_mul_lt_mul_right (a := den) ?_,
        Nat.lt_of_mul_lt_mul_right (a := den) ?_⟩
      · rw [scale, he']
        exact Nat.mul_lt_mul_of_pos_right h.1 hden'
      · rw [scale, he']
        exact Nat.mul_lt_mul_of_pos_right h.2 hden'

/-- A covered fraction is at most half a step away from the double, a half only from an even
significand. -/
theorem Finite.Covers.half {x : Finite} {num den : Nat} (h : x.Covers num den) :
    let step := den * 2 ^ x.shift
    2 * (x.significand * step) ≤ 2 * num + step ∧ 2 * num ≤ 2 * (x.significand * step) + step ∧
      (x.significand % 2 = 1 →
        2 * (x.significand * step) ≠ 2 * num + step ∧
          2 * num ≠ 2 * (x.significand * step) + step) := by
  intro step
  have hhigh : x.interval.high * den = 4 * (x.significand * step) + 2 * step := by
    simp only [interval, step]
    ring
  have hlow : 4 * (x.significand * step) ≤ x.interval.low * den + 2 * step := by
    have hbelow : 4 * x.significand ≤
        4 * x.significand - (if x.significand = 2 ^ 52 && 0 < x.shift then 1 else 2) + 2 := by
      split <;> omega
    have := Nat.mul_le_mul_right step hbelow
    calc 4 * (x.significand * step) = 4 * x.significand * step := by ring
      _ ≤ _ := this
      _ = x.interval.low * den + 2 * step := by
        simp only [interval, step]
        ring
  rw [Covers, hhigh] at h
  split at h
  · rename_i hc
    have : x.significand % 2 = 0 := by simpa [interval] using hc
    exact ⟨by omega, by omega, by omega⟩
  · exact ⟨by omega, by omega, by omega⟩

/-- No covered fraction reaches the next power of two. -/
theorem Finite.Covers.lt_pow {x : Finite} {num den : Nat} (h : x.Covers num den)
    (hden : 0 < den) : num < 2 ^ (x.shift + 53) * den := by
  obtain ⟨-, hhigh, -⟩ := h.half
  have hstep : 0 < den * 2 ^ x.shift := Nat.mul_pos hden (Nat.two_pow_pos _)
  have : (x.significand + 1) * (den * 2 ^ x.shift) ≤ 2 ^ 53 * (den * 2 ^ x.shift) :=
    Nat.mul_le_mul_right _ x.canonical.1
  rw [Nat.add_mul] at this
  calc num < 2 ^ 53 * (den * 2 ^ x.shift) := by omega
    _ = 2 ^ (x.shift + 53) * den := by ring

theorem ofParts_eq (x : Finite) (negative : Bool) :
    ofParts negative x.significand x.shift = .finite { x with negative } := by
  rw [ofParts, dif_pos x.canonical]

/-- The place of the first bit of a fraction between two powers of two. -/
theorem log2_div {num den k : Nat} (hden : 0 < den) (hlow : 2 ^ k * den ≤ num)
    (hhigh : num < 2 ^ (k + 1) * den) : (num / den).log2 = k := by
  have hne : num / den ≠ 0 := by
    have : 2 ^ k ≤ num / den := (Nat.le_div_iff_mul_le hden).mpr hlow
    have := Nat.two_pow_pos k
    omega
  refine (Nat.log2_eq_iff hne).mpr ⟨(Nat.le_div_iff_mul_le hden).mpr hlow, ?_⟩
  exact (Nat.div_lt_iff_lt_mul hden).mpr hhigh

/-- A covered fraction whose first bit is that of the double has the right shift. -/
theorem ofQuotient_of_log2 {x : Finite} {num den : Nat} (h : x.Covers num den) (hden : 0 < den)
    (hlog : (num / den).log2 - 52 = x.shift) (negative : Bool) :
    ofQuotient negative num den = .finite { x with negative } := by
  obtain ⟨hlow, hhigh, hodd⟩ := h.half
  have hstep : 0 < den * 2 ^ x.shift := Nat.mul_pos hden (Nat.two_pow_pos _)
  rw [ofQuotient, hlog, roundDiv_eq hlow hhigh hodd hstep]
  simp only [x.canonical.1, ↓reduceIte, ofParts_eq]

/-- The lower end of the interval, for fractions whose first bit is one lower. -/
theorem ofQuotient_below {x : Finite} {num den : Nat} (h : x.Covers num den) (hden : 0 < den)
    (hs : x.significand = 2 ^ 52) {shift : Nat} (hshift : x.shift = shift + 1)
    (hbelow : num < 2 ^ 53 * (den * 2 ^ shift)) (negative : Bool) :
    ofQuotient negative num den = .finite { x with negative } := by
  -- the interval begins a quarter of a step below the double
  have hlow : 2 * (2 ^ 53 * (den * 2 ^ shift)) ≤ 2 * num + den * 2 ^ shift := by
    have hl : x.interval.low * den = (2 ^ 55 - 2) * (den * 2 ^ shift) := by
      simp only [Finite.interval, hs, hshift]
      norm_num
      ring
    rw [Finite.Covers, hl] at h
    split at h <;> omega
  have hstep : 0 < den * 2 ^ shift := Nat.mul_pos hden (Nat.two_pow_pos _)
  have hlog : (num / den).log2 = shift + 52 := by
    refine log2_div hden ?_ ?_
    · calc 2 ^ (shift + 52) * den = 2 ^ 52 * (den * 2 ^ shift) := by ring
        _ ≤ num := by omega
    · calc num < 2 ^ 53 * (den * 2 ^ shift) := hbelow
        _ = 2 ^ (shift + 52 + 1) * den := by ring
  have hround : roundDiv num (den * 2 ^ shift) = 2 ^ 53 :=
    roundDiv_eq hlow (by omega) (by norm_num) hstep
  rw [ofQuotient, hlog, Nat.add_sub_cancel, hround, ← ofParts_eq, hs, hshift]
  rfl

/-- **Rounding.**  Every fraction in the interval of a double rounds to it. -/
theorem ofQuotient_of_covers {x : Finite} {num den : Nat} (h : x.Covers num den)
    (hden : 0 < den) (negative : Bool) :
    ofQuotient negative num den = .finite { x with negative } := by
  obtain ⟨hlow, hhigh, -⟩ := h.half
  have hnormal := x.canonical.2.1
  have hlt := h.lt_pow hden
  -- without a shift the place of the first bit does not matter
  rcases Nat.eq_zero_or_pos x.shift with hshift | hpos
  · refine ofQuotient_of_log2 h hden ?_ negative
    rw [hshift] at hlt ⊢
    have : num / den < 2 ^ 53 := (Nat.div_lt_iff_lt_mul hden).mpr (by simpa using hlt)
    by_cases h0 : num / den = 0
    · simp [h0]
    · have := (Nat.log2_lt h0).mpr this
      omega
  · obtain ⟨shift, hshift⟩ := Nat.exists_eq_add_one.mpr hpos
    by_cases hbelow : num < 2 ^ (x.shift + 52) * den
    · -- a fraction below the power of two at which the double is the first
      have hs : x.significand = 2 ^ 52 := by
        have : 2 ^ 52 ≤ x.significand := hnormal.resolve_right (by omega)
        by_contra hne
        have : (2 ^ 52 + 1) * (den * 2 ^ x.shift) ≤ x.significand * (den * 2 ^ x.shift) :=
          Nat.mul_le_mul_right _ (by omega)
        have hpow : 2 ^ (x.shift + 52) * den = 2 ^ 52 * (den * 2 ^ x.shift) := by ring
        rw [hpow] at hbelow
        omega
      refine ofQuotient_below h hden hs hshift ?_ negative
      calc num < 2 ^ (x.shift + 52) * den := hbelow
        _ = 2 ^ 53 * (den * 2 ^ shift) := by rw [hshift]; ring
    · refine ofQuotient_of_log2 h hden ?_ negative
      rw [log2_div hden (Nat.le_of_not_lt hbelow) hlt]
      omega

theorem div_le_roundDiv (num den : Nat) : num / den ≤ roundDiv num den := by
  rw [roundDiv]
  split
  · exact Nat.le_refl _
  · split
    · exact Nat.le_succ _
    · exact Nat.le_add_right _ _

/-- **A fraction that is not too large** has a nearest double. -/
theorem ofQuotient_of_lt {num den k : Nat} (h : num / den < 2 ^ k) (hk : k ≤ 2097)
    (negative : Bool) : ∃ x, ofQuotient negative num den = .finite x := by
  have hlog : (num / den).log2 ≤ 2096 := by
    by_cases h0 : num / den = 0
    · simp [h0]
    · exact Nat.le_of_lt_succ (((Nat.log2_lt h0).mpr h).trans_le hk)
  simp only [ofQuotient]
  generalize hshift : (num / den).log2 - 52 = shift
  have hround := div_le_roundDiv num (den * 2 ^ shift)
  generalize roundDiv num (den * 2 ^ shift) = significand at hround ⊢
  split
  · rename_i hlt
    have hscaled : 2 ^ 52 ≤ significand ∨ shift = 0 := by
      rcases Nat.eq_zero_or_pos shift with hzero | hpos
      · exact .inr hzero
      · -- all bits of the significand are in use
        refine .inl (le_trans ?_ hround)
        have hne : num / den ≠ 0 := by
          intro h0
          rw [h0] at hshift
          simp at hshift
          omega
        have hself := Nat.log2_self_le hne
        rw [(by omega : (num / den).log2 = 52 + shift), Nat.pow_add] at hself
        rw [← Nat.div_div_eq_div_mul]
        exact (Nat.le_div_iff_mul_le (Nat.two_pow_pos shift)).mpr hself
    have hcanonical : Canonical significand shift := ⟨hlt, hscaled, by omega⟩
    exact ⟨_, dif_pos hcanonical⟩
  · have hcanonical : Canonical (2 ^ 52) (shift + 1) := ⟨by decide, .inl (Nat.le_refl _), by omega⟩
    exact ⟨_, dif_pos hcanonical⟩

/-! ### Decimals -/

/-- The decimal `digits · 10 ^ exponent` lies in the interval of a double. -/
def Finite.CoversDecimal (x : Finite) (digits : Nat) (exponent : Int) : Prop :=
  x.Covers (digits * 10 ^ exponent.toNat * unitsPerOne) (10 ^ (-exponent).toNat)

/-- Zeros at the end of the digits can be counted in the exponent. -/
theorem coversDecimal_shift {x : Finite} {n k : Nat} {e : Int} :
    x.CoversDecimal (n * 10 ^ k) e ↔ x.CoversDecimal n (e + k) := by
  have hpos : ∀ i : Int, 0 < 10 ^ (-i).toNat := fun i => Nat.pow_pos (by decide)
  have hexp : k + e.toNat + (-(e + k)).toNat = (e + k).toNat + (-e).toNat := by omega
  have he : n * 10 ^ k * 10 ^ e.toNat * unitsPerOne * 10 ^ (-(e + k)).toNat =
      n * 10 ^ (e + k).toNat * unitsPerOne * 10 ^ (-e).toNat := by
    calc _ = n * unitsPerOne * 10 ^ (k + e.toNat + (-(e + k)).toNat) := by ring
      _ = _ := by rw [hexp]; ring
  exact ⟨fun h => h.congr he (hpos _) (hpos _), fun h => h.congr he.symm (hpos _) (hpos _)⟩

theorem two_pow_le_ten_pow (k : Nat) : 2 ^ (3 * k) ≤ 10 ^ k := by
  rw [Nat.pow_mul]
  exact Nat.pow_le_pow_left (by decide) _

/-- A covered decimal is not so large that it is settled without computing it. -/
theorem Finite.CoversDecimal.exponent_le {x : Finite} {n : Nat} {e : Int}
    (h : x.CoversDecimal n e) (hn : 0 < n) : e ≤ 400 := by
  by_contra he
  have hden : (-e).toNat = 0 := by omega
  have hlt := Finite.Covers.lt_pow h (Nat.pow_pos (by decide))
  rw [hden, Nat.pow_zero, Nat.mul_one] at hlt
  -- ten is more than eight, so three bits for each place of the exponent
  have hbig : 2 ^ (3 * e.toNat + 1074) ≤ n * 10 ^ e.toNat * unitsPerOne := by
    rw [Nat.pow_add, unitsPerOne]
    exact Nat.mul_le_mul_right _ ((two_pow_le_ten_pow _).trans (Nat.le_mul_of_pos_left _ hn))
  have hmax : x.shift + 53 ≤ 3 * e.toNat + 1074 := by
    have := x.canonical.2.2
    omega
  exact absurd (hlt.trans_le (Nat.pow_le_pow_right (by decide) hmax)) (Nat.not_lt.mpr hbig)

/-- **A covered decimal is read as the double that covers it.** -/
theorem ofDecimal_of_covers {x : Finite} {n : Nat} {e : Int} (h : x.CoversDecimal n e)
    (hn : 0 < n) (he : -400 ≤ e) (negative : Bool) :
    ofDecimal negative n e = .finite { x with negative } := by
  have hle := h.exponent_le hn
  rw [ofDecimal, if_neg (by omega), if_neg (by omega), if_neg (by omega)]
  exact ofQuotient_of_covers h (Nat.pow_pos (by decide)) negative

end Quarry.Binary64
