import Mathlib.Data.List.TakeWhile
import Quarry.Number.Basic
import Quarry.Proofs.Shortest

/-!
# Written numbers — the digits that numbers are written with

A written number has digits before a point, digits after it and an exponent; an integer has only
the first.  Every finite number is written as such a text with a sign before it, and the decimal
that the text stands for is the number itself (`Number.exists_written`).

For doubles this rests on the shortest decimal, which the double covers.  Positional notation
pads its digits with zeros, so the zeros in front and behind have to be counted in the exponent.
-/

namespace Quarry

/-- The number that decimal digits stand for. -/
abbrev digitsValue (s : List Char) : Nat :=
  Nat.ofDigitChars 10 s 0

/-- Every character is a digit. -/
def AllDigits (s : List Char) : Prop :=
  ∀ c ∈ s, c.isDigit = true

theorem AllDigits.append {s t : List Char} (hs : AllDigits s) (ht : AllDigits t) :
    AllDigits (s ++ t) := by
  intro c hc
  rcases List.mem_append.mp hc with h | h
  · exact hs c h
  · exact ht c h

theorem AllDigits.of_subset {s t : List Char} (hs : AllDigits s) (h : t ⊆ s) : AllDigits t :=
  fun c hc => hs c (h hc)

theorem allDigits_toDigits (n : Nat) : AllDigits (Nat.toDigits 10 n) :=
  fun _ hc => Nat.isDigit_of_mem_toDigits (by decide) (by decide) hc

theorem allDigits_zeros (n : Nat) : AllDigits (List.replicate n '0') := by
  intro c hc
  rw [List.eq_of_mem_replicate hc]
  rfl

theorem digitsValue_append (s t : List Char) :
    digitsValue (s ++ t) = digitsValue s * 10 ^ t.length + digitsValue t := by
  rw [digitsValue, Nat.ofDigitChars_append, Nat.ofDigitChars_eq_ofDigitChars_zero, Nat.mul_comm]

theorem digitsValue_zeros (n : Nat) : digitsValue (List.replicate n '0') = 0 := by
  rw [digitsValue, Nat.ofDigitChars_replicate_zero, Nat.mul_zero]

/-- Zeros in front do not count. -/
theorem digitsValue_pad (n : Nat) (s : List Char) :
    digitsValue (List.replicate n '0' ++ s) = digitsValue s := by
  rw [digitsValue_append, digitsValue_zeros, Nat.zero_mul, Nat.zero_add]

/-- Zeros behind are powers of ten. -/
theorem digitsValue_scale (n : Nat) (s : List Char) :
    digitsValue (s ++ List.replicate n '0') = digitsValue s * 10 ^ n := by
  rw [digitsValue_append, digitsValue_zeros, List.length_replicate, Nat.add_zero]

/-- The digits of a positive number do not begin with a zero. -/
theorem toDigits_ne_zero {n : Nat} (hn : 0 < n) :
    ∃ c s, Nat.toDigits 10 n = c :: s ∧ c ≠ '0' := by
  induction n using Nat.strongRecOn with
  | _ n ih =>
      by_cases h : n < 10
      · refine ⟨n.digitChar, [], Nat.toDigits_of_lt_base h, ?_⟩
        rw [Ne, Nat.digitChar_eq_zero]
        omega
      · -- the first digit is that of a tenth of the number
        obtain ⟨c, s, hs, hc⟩ := ih (n / 10) (by omega) (by omega)
        exact ⟨c, s ++ [(n % 10).digitChar],
          by rw [Nat.toDigits_of_base_le (by decide) (by omega), hs, List.cons_append], hc⟩

/-! ### Written numbers -/

/-- A number as it is written: the digits before the point, those after it, and the exponent with
its sign.  Only a zero alone begins with a zero. -/
structure Written where
  whole : List Char
  fraction : List Char
  exponent : Option (Bool × List Char)
  whole_digits : AllDigits whole
  leading : whole = ['0'] ∨ ∃ c s, whole = c :: s ∧ c ≠ '0'
  fraction_digits : AllDigits fraction
  exponent_digits : ∀ negative s, exponent = some (negative, s) → s ≠ [] ∧ AllDigits s

namespace Written

/-- The text of the exponent. -/
def exponentText : Option (Bool × List Char) → List Char
  | none => []
  | some (negative, s) => 'e' :: (if negative then '-' else '+') :: s

/-- The text of a written number. -/
def text (w : Written) : List Char :=
  w.whole ++ (if w.fraction.isEmpty then [] else '.' :: w.fraction) ++ exponentText w.exponent

/-- There are neither a point nor an exponent. -/
def isInteger (w : Written) : Bool :=
  w.fraction.isEmpty && w.exponent.isNone

/-- The exponent, zero if none is written. -/
def power (w : Written) : Int :=
  match w.exponent with
  | none => 0
  | some (negative, s) => if negative then -(digitsValue s : Int) else digitsValue s

/-- The number that is written, with a sign before it. -/
def number (w : Written) (negative : Bool) : Number :=
  if w.isInteger then .int (if negative then -(digitsValue w.whole : Int) else digitsValue w.whole)
  else .float
    (Binary64.ofDecimal negative (digitsValue (w.whole ++ w.fraction))
      (w.power - w.fraction.length))

/-- The text with a sign before it. -/
def signedText (w : Written) (negative : Bool) : List Char :=
  if negative then '-' :: w.text else w.text

theorem exists_cons (w : Written) : ∃ c s, w.whole = c :: s ∧ c.isDigit = true := by
  have hcons : ∃ c s, w.whole = c :: s := by
    rcases w.leading with h | ⟨c, s, h, -⟩
    · exact ⟨_, _, h⟩
    · exact ⟨_, _, h⟩
  obtain ⟨c, s, h⟩ := hcons
  exact ⟨c, s, h, w.whole_digits c (h ▸ List.mem_cons_self)⟩

/-- The text begins with a digit. -/
theorem text_cons (w : Written) : ∃ c s, w.text = c :: s ∧ c.isDigit = true := by
  obtain ⟨c, s, h, hc⟩ := w.exists_cons
  exact ⟨c, _, by rw [text, h, List.append_assoc, List.cons_append], hc⟩

end Written

/-! ### Shortest decimals -/

namespace Binary64

/-- A decimal in the interval of a double, with digits that do not begin with a zero. -/
structure Decimal.Stands (d : Decimal) (x : Finite) : Prop where
  digits : AllDigits d.digits
  leading : ∃ c s, d.digits = c :: s ∧ c ≠ '0'
  positive : 0 < digitsValue d.digits
  covers : x.CoversDecimal (digitsValue d.digits) (d.point - d.digits.length)
  exponent_ge : -400 ≤ d.point - d.digits.length

/-- The zeros at the end of a number move into the exponent. -/
theorem Decimal.ofWhole_stands {x : Finite} {n : Nat} {e : Int} (hn : 0 < n)
    (hcovers : x.CoversDecimal n e) (he : -400 ≤ e) : (Decimal.ofWhole n e).Stands x := by
  obtain ⟨c, s, hcons, hc⟩ := toDigits_ne_zero hn
  -- the digits are those that are kept, followed by zeros
  let kept := ((Nat.toDigits 10 n).reverse.dropWhile (· = '0')).reverse
  let zeros := ((Nat.toDigits 10 n).reverse.takeWhile (· = '0')).length
  have hzeros : ((Nat.toDigits 10 n).reverse.takeWhile (· = '0')).reverse =
      List.replicate zeros '0' := by
    rw [List.eq_replicate_iff, List.length_reverse]
    exact ⟨rfl, fun b hb => by simpa using List.mem_takeWhile_imp (List.mem_reverse.mp hb)⟩
  have hsplit : Nat.toDigits 10 n = kept ++ List.replicate zeros '0' := by
    rw [← hzeros, ← List.reverse_append, List.takeWhile_append_dropWhile, List.reverse_reverse]
  have hlength : (Nat.toDigits 10 n).length = kept.length + zeros := by
    rw [hsplit, List.length_append, List.length_replicate]
  have hvalue : n = digitsValue kept * 10 ^ zeros := by
    rw [← digitsValue_scale, ← hsplit, digitsValue, Nat.ofDigitChars_ten_toDigits]
  have hpoint : (Decimal.ofWhole n e).point - kept.length = e + zeros := by
    simp only [Decimal.ofWhole, hlength]
    omega
  refine ⟨?_, ?_, ?_, ?_, ?_⟩
  · refine (allDigits_toDigits n).of_subset ?_
    rw [hsplit]
    exact List.subset_append_left _ _
  · rw [hcons] at hsplit
    change ∃ c s, kept = c :: s ∧ c ≠ '0'
    cases hk : kept with
    | nil =>
        rw [hk, List.nil_append] at hsplit
        exact absurd (List.eq_of_mem_replicate (hsplit ▸ List.mem_cons_self)) hc
    | cons d t =>
        rw [hk] at hsplit
        exact ⟨d, t, rfl, (List.cons.inj hsplit).1 ▸ hc⟩
  · change 0 < digitsValue kept
    rw [hvalue] at hn
    exact Nat.pos_of_mul_pos_right hn
  · change x.CoversDecimal (digitsValue kept) ((Decimal.ofWhole n e).point - kept.length)
    rw [hpoint, ← coversDecimal_shift, ← hvalue]
    exact hcovers
  · change -400 ≤ (Decimal.ofWhole n e).point - kept.length
    omega

end Binary64

/-- The text writes a number with a point or an exponent, which is read as the double. -/
structure Written.Shows (w : Written) (s : List Char) (x : Binary64.Finite) : Prop where
  text : w.text = s
  isInteger : w.isInteger = false
  reads : ∀ negative, w.number negative = .float (.finite { x with negative })

/-- A written number whose decimal is covered by a double is read as that double. -/
theorem Written.shows_of_covers {w : Written} {s : List Char} {x : Binary64.Finite}
    (htext : w.text = s) (hfloat : w.isInteger = false)
    (hpos : 0 < digitsValue (w.whole ++ w.fraction))
    (hcovers : x.CoversDecimal (digitsValue (w.whole ++ w.fraction)) (w.power - w.fraction.length))
    (hge : -400 ≤ w.power - w.fraction.length) : w.Shows s x := by
  refine ⟨htext, hfloat, fun negative => ?_⟩
  rw [Written.number, hfloat, Binary64.ofDecimal_of_covers hcovers hpos hge negative]
  rfl

namespace Binary64

variable {d : Decimal} {x : Finite}

/-- One digit before the point, and an exponent of two digits or more. -/
theorem Decimal.Stands.written_exponential (h : d.Stands x) :
    ∃ w : Written, w.Shows ((match d.digits with
        | c :: c' :: rest => c :: '.' :: c' :: rest
        | short => short) ++ ['e', if d.point - 1 < 0 then '-' else '+']
      ++ (if (Nat.toDigits 10 (d.point - 1).natAbs).length < 2 then ['0'] else [])
      ++ Nat.toDigits 10 (d.point - 1).natAbs) x := by
  obtain ⟨hdigits, ⟨c, cs, hcons, hc⟩, hpos, hcovers, hge⟩ := h
  -- an exponent of one digit has a zero in front
  obtain ⟨pad, hpad⟩ : ∃ pad, (if (Nat.toDigits 10 (d.point - 1).natAbs).length < 2 then ['0']
      else []) = List.replicate pad '0' := by
    split
    · exact ⟨1, rfl⟩
    · exact ⟨0, rfl⟩
  let w : Written := {
    whole := [c]
    fraction := cs
    exponent := some (d.point - 1 < 0,
      List.replicate pad '0' ++ Nat.toDigits 10 (d.point - 1).natAbs)
    whole_digits := hdigits.of_subset (by simp [hcons])
    leading := .inr ⟨c, [], rfl, hc⟩
    fraction_digits := hdigits.of_subset (by simp [hcons])
    exponent_digits := by
      rintro _ _ ⟨⟩
      exact ⟨by simp [Nat.toDigits_ne_nil], (allDigits_zeros _).append (allDigits_toDigits _)⟩ }
  have hdigits : w.whole ++ w.fraction = d.digits := hcons.symm
  have hpower : w.power - w.fraction.length = d.point - d.digits.length := by
    have : w.power = d.point - 1 := by
      simp only [Written.power, w, digitsValue_pad]
      simp only [digitsValue, Nat.ofDigitChars_ten_toDigits, decide_eq_true_eq]
      split <;> omega
    have hlength : d.digits.length = w.fraction.length + 1 := by rw [hcons, List.length_cons]
    omega
  refine ⟨w, Written.shows_of_covers ?_ ?_ ?_ ?_ ?_⟩
  · simp only [Written.text, Written.exponentText, w, hcons, hpad]
    cases cs <;> simp
  · simp [Written.isInteger, w]
  · rwa [hdigits]
  · rwa [hdigits, hpower]
  · rwa [hpower]

/-- A zero before the point, and zeros after it. -/
theorem Decimal.Stands.written_below (h : d.Stands x) (hpoint : d.point ≤ 0) :
    ∃ w : Written,
      w.Shows (['0', '.'] ++ List.replicate (-d.point).toNat '0' ++ d.digits) x := by
  obtain ⟨hdigits, ⟨c, cs, hcons, hc⟩, hpos, hcovers, hge⟩ := h
  let w : Written := {
    whole := ['0']
    fraction := List.replicate (-d.point).toNat '0' ++ d.digits
    exponent := none
    whole_digits := allDigits_zeros 1
    leading := .inl rfl
    fraction_digits := (allDigits_zeros _).append hdigits
    exponent_digits := nofun }
  have hvalue : digitsValue (w.whole ++ w.fraction) = digitsValue d.digits :=
    (digitsValue_pad 1 _).trans (digitsValue_pad _ _)
  have hpower : w.power - w.fraction.length = d.point - d.digits.length := by
    simp only [Written.power, w, List.length_append, List.length_replicate]
    omega
  refine ⟨w, Written.shows_of_covers ?_ ?_ ?_ ?_ ?_⟩
  · simp [Written.text, Written.exponentText, w, hcons]
  · simp [Written.isInteger, w, hcons]
  · rwa [hvalue]
  · rwa [hvalue, hpower]
  · rwa [hpower]

/-- Zeros up to the point, and one after it. -/
theorem Decimal.Stands.written_whole (h : d.Stands x)
    (hpoint : d.digits.length ≤ d.point.toNat) :
    ∃ w : Written, w.Shows (d.digits ++ List.replicate (d.point.toNat - d.digits.length) '0'
      ++ ['.', '0']) x := by
  obtain ⟨hdigits, ⟨c, cs, hcons, hc⟩, hpos, hcovers, hge⟩ := h
  let w : Written := {
    whole := d.digits ++ List.replicate (d.point.toNat - d.digits.length) '0'
    fraction := ['0']
    exponent := none
    whole_digits := hdigits.append (allDigits_zeros _)
    leading := .inr ⟨c, cs ++ List.replicate _ '0', by rw [hcons, List.cons_append], hc⟩
    fraction_digits := allDigits_zeros 1
    exponent_digits := nofun }
  have hvalue : digitsValue (w.whole ++ w.fraction) =
      digitsValue d.digits * 10 ^ (d.point.toNat - d.digits.length + 1) := by
    change digitsValue (w.whole ++ List.replicate 1 '0') = _
    rw [digitsValue_scale, digitsValue_scale, Nat.mul_assoc, ← Nat.pow_add]
  have hlength : 0 < d.digits.length := by simp [hcons]
  have hpower : (-1 : Int) + (d.point.toNat - d.digits.length + 1 : Nat) =
      d.point - d.digits.length := by
    omega
  refine ⟨w, Written.shows_of_covers ?_ ?_ ?_ ?_ ?_⟩
  · simp [Written.text, Written.exponentText, w]
  · simp [Written.isInteger, w]
  · rw [hvalue]
    exact Nat.mul_pos hpos (Nat.pow_pos (by decide))
  · rw [hvalue, coversDecimal_shift]
    simpa [Written.power, w, ← hpower] using hcovers
  · simp [Written.power, w]

/-- The point stands between digits. -/
theorem Decimal.Stands.written_between (h : d.Stands x) (hpoint : 0 < d.point)
    (hlt : d.point.toNat < d.digits.length) :
    ∃ w : Written, w.Shows (d.digits.take d.point.toNat ++ ['.'] ++ d.digits.drop d.point.toNat)
      x := by
  obtain ⟨hdigits, ⟨c, cs, hcons, hc⟩, hpos, hcovers, hge⟩ := h
  obtain ⟨n, hn⟩ : ∃ n, d.point.toNat = n + 1 := ⟨d.point.toNat - 1, by omega⟩
  let w : Written := {
    whole := d.digits.take d.point.toNat
    fraction := d.digits.drop d.point.toNat
    exponent := none
    whole_digits := hdigits.of_subset (List.take_subset _ _)
    leading := .inr ⟨c, cs.take n, by rw [hcons, hn, List.take_succ_cons], hc⟩
    fraction_digits := hdigits.of_subset (List.drop_subset _ _)
    exponent_digits := nofun }
  have hne : w.fraction ≠ [] := by
    simp only [w, Ne, List.drop_eq_nil_iff]
    omega
  have hdigits : w.whole ++ w.fraction = d.digits := List.take_append_drop _ _
  have hpower : w.power - w.fraction.length = d.point - d.digits.length := by
    simp only [Written.power, w, List.length_drop]
    omega
  refine ⟨w, Written.shows_of_covers ?_ ?_ ?_ ?_ ?_⟩
  · rw [Written.text, if_neg (by simpa using hne)]
    simp [Written.exponentText, w]
  · simp [Written.isInteger, hne]
  · rwa [hdigits]
  · rwa [hdigits, hpower]
  · rwa [hpower]

/-- Decimal notation of a decimal that stands for a double. -/
theorem Decimal.Stands.exists_written (h : d.Stands x) :
    ∃ w : Written, w.Shows d.text x := by
  simp only [Decimal.text]
  split
  · exact h.written_exponential
  · split
    · exact h.written_below ‹_›
    · split
      · exact h.written_whole ‹_›
      · exact h.written_between (by omega) (by omega)

/-- The text of a double is that of a written number with its sign. -/
theorem Finite.exists_written (x : Finite) :
    ∃ w : Written, w.isInteger = false ∧ x.text = w.signedText x.negative ∧
      w.number x.negative = .float (.finite x) := by
  have hshows : ∃ w : Written,
      w.Shows (if x.significand = 0 then ['0', '.', '0'] else x.shortest.text) x := by
    split
    · rename_i hs
      have hshift : x.shift = 0 := x.canonical.2.1.resolve_left (by omega)
      refine ⟨{
        whole := ['0']
        fraction := ['0']
        exponent := none
        whole_digits := allDigits_zeros 1
        leading := .inl rfl
        fraction_digits := allDigits_zeros 1
        exponent_digits := nofun }, rfl, rfl, fun negative => ?_⟩
      obtain ⟨_, _, _, _⟩ := x
      subst hs hshift
      rfl
    · rename_i hs
      obtain ⟨n, e, hshortest, hcovers, hn, he⟩ := shortest_covers hs
      rw [hshortest]
      exact (Decimal.ofWhole_stands hn hcovers he).exists_written
  obtain ⟨w, htext, hfloat, hreads⟩ := hshows
  exact ⟨w, hfloat, by rw [Finite.text, Written.signedText, htext], hreads x.negative⟩

end Binary64

/-! ### Numbers -/

/-- The digits of a natural number, as a written number. -/
def Written.ofNat (n : Nat) : Written where
  whole := Nat.toDigits 10 n
  fraction := []
  exponent := none
  whole_digits := allDigits_toDigits n
  leading := by
    rcases Nat.eq_zero_or_pos n with rfl | hn
    · exact .inl rfl
    · exact .inr (toDigits_ne_zero hn)
  fraction_digits := nofun
  exponent_digits := nofun

/-- An integer has few enough digits to be read. -/
def Written.Fits (w : Written) : Prop :=
  w.isInteger = true → w.whole.length ≤ Number.digitLimit

theorem Written.ofNat_text (n : Nat) : (Written.ofNat n).text = Nat.toDigits 10 n := by
  simp [text, ofNat, exponentText]

/-- The digits of an integer are a written number with its sign. -/
theorem Number.intText_eq (n : Int) : intText n = (Written.ofNat n.natAbs).signedText (n < 0) := by
  simp only [intText, Written.signedText, Written.ofNat_text, decide_eq_true_eq]

theorem Number.intText_ne_nil (n : Int) : intText n ≠ [] := by
  obtain ⟨c, s, htext, -⟩ := (Written.ofNat n.natAbs).text_cons
  rw [intText_eq, Written.signedText, htext]
  split <;> exact List.cons_ne_nil _ _

/-- An integer is written with digits and a minus sign. -/
theorem Number.mem_intText {n : Int} {c : Char} (hc : c ∈ intText n) :
    c = '-' ∨ c.isDigit = true := by
  rw [intText] at hc
  split at hc
  · exact (List.mem_cons.mp hc).imp_right (allDigits_toDigits _ c)
  · exact .inr (allDigits_toDigits _ c hc)

/-- A number with few enough digits to be written has few enough to be read. -/
theorem Written.ofNat_fits {n : Nat} (h : n < Number.digitBound) : (Written.ofNat n).Fits :=
  fun _ => (Nat.length_toDigits_le_iff (by decide) (by decide)).mpr h

/-- **Written numbers.**  A finite number is written with digits that stand for it. -/
theorem Number.exists_written {n : Number} (hfinite : n.isFinite = true) (infinity nan : String) :
    ∃ (w : Written) (negative : Bool), n.textWith infinity nan = w.signedText negative ∧
      w.number negative = n ∧ (n.isWritable = true → w.Fits) := by
  cases n with
  | int n =>
      refine ⟨.ofNat n.natAbs, n < 0, ?_, ?_, fun h => Written.ofNat_fits ?_⟩
      · rw [textWith, intText_eq]
      · simp only [Written.number, Written.isInteger, Written.ofNat, digitsValue,
          Nat.ofDigitChars_ten_toDigits, decide_eq_true_eq]
        simp only [List.isEmpty_nil, Option.isNone_none, Bool.and_self, ↓reduceIte, int.injEq]
        split <;> omega
      · rwa [isWritable, decide_eq_true_eq] at h
  | float x =>
      cases x with
      | finite x =>
          obtain ⟨w, hfloat, htext, hnumber⟩ := x.exists_written
          exact ⟨w, x.negative, htext, hnumber, fun _ h => absurd h (by simp [hfloat])⟩
      | infinite _ => cases hfinite
      | nan => cases hfinite

end Quarry
