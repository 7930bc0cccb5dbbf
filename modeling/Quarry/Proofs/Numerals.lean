import Mathlib.Data.List.Basic
import Quarry.Json.Reader
import Quarry.Proofs.Scanning
import Quarry.Proofs.Written
import Quarry.Text.Numeral

/-!
# Numerals — written numbers are read back

There are two readers of numbers: `Json.readNumber` at the front of a document and
`Text.numeral?` for a whole text.  On a written number both find its parts again.
-/

namespace Quarry

/-- The exponent, if one is written. -/
def Written.exponentValue : Option (Bool × List Char) → Option Int :=
  Option.map fun (negative, s) => if negative then -(digitsValue s : Int) else digitsValue s

/-- The power of a written number is the value of its exponent. -/
theorem Written.power_eq (w : Written) : w.power = (exponentValue w.exponent).getD 0 := by
  rw [power]
  split <;> rename_i h <;> rw [h] <;> rfl

/-- Digits stop in front of an exponent, and in front of what follows if there is none. -/
theorem Written.exponentText_stops {e : Option (Bool × List Char)} {p : Char → Bool}
    {rest : List Char} (he : p 'e' = false) (hrest : Stops p rest) :
    Stops p (exponentText e ++ rest) := by
  cases e with
  | none => exact hrest
  | some e => exact stops_cons.mpr he

namespace Json

/-- A character that can go on with a number. -/
def continuesNumber (c : Char) : Bool :=
  c.isDigit || c = '.' || c = 'e' || c = 'E'

/-- What stands in front of the point is read up to the point. -/
theorem wholePart_append {s t : List Char} (hs : AllDigits s)
    (hleading : s = ['0'] ∨ ∃ c s', s = c :: s' ∧ c ≠ '0') (ht : Stops Char.isDigit t) :
    wholePart (s ++ t) = some (s, t) := by
  rcases hleading with rfl | ⟨c, s', rfl, hc⟩
  · rfl
  · rw [wholePart]
    · rw [span_append_of_stops (p := isAsciiDigit) hs ht]
    · intro t' h
      exact hc (List.cons.inj h).1

theorem stops_point {t : List Char} (ht : Stops (· = '.') t) : fractionPart t = ([], t) := by
  rw [fractionPart]
  rintro s rfl
  simp at ht

/-- The digits behind a point are read up to what is no digit, -/
theorem fractionPart_append {s t : List Char} (hs : AllDigits s) (hdigit : Stops Char.isDigit t)
    (hpoint : Stops (· = '.') t) :
    fractionPart ((if s.isEmpty then [] else '.' :: s) ++ t) = (s, t) := by
  cases s with
  | nil => exact stops_point hpoint
  | cons c s =>
      simp only [List.isEmpty_cons, Bool.false_eq_true, ↓reduceIte, List.cons_append, fractionPart]
      rw [← List.cons_append, span_append_of_stops (p := isAsciiDigit) hs hdigit]

/-- and so is an exponent with its sign. -/
theorem exponentPart_append {e : Option (Bool × List Char)} {t : List Char}
    (he : ∀ negative s, e = some (negative, s) → s ≠ [] ∧ AllDigits s)
    (hdigit : Stops Char.isDigit t) (hexp : Stops (fun c => c = 'e' || c = 'E') t) :
    exponentPart (Written.exponentText e ++ t) = (Written.exponentValue e, t) := by
  cases e with
  | none =>
      cases t with
      | nil => rfl
      | cons c t =>
          have : (c = 'e' || c = 'E') = false := by simpa using hexp
          simp only [Written.exponentText, List.nil_append, exponentPart, this]
          rfl
  | some e =>
      obtain ⟨negative, s⟩ := e
      obtain ⟨hne, hs⟩ := he negative s rfl
      have hsign : exponentSign ((if negative then '-' else '+') :: (s ++ t)) =
          (negative, s ++ t) := by
        cases negative <;> rfl
      obtain ⟨c, s, rfl⟩ := List.exists_cons_of_ne_nil hne
      simp only [Written.exponentText, List.cons_append, exponentPart] at hsign ⊢
      rw [hsign, ← List.cons_append, span_append_of_stops (p := isAsciiDigit) hs hdigit]
      rfl

/-- **A written number at the front of a text is read back.**  What follows must not go on with the
number. -/
theorem readUnsigned_text {w : Written} (negative : Bool) (start : List Char) {rest : List Char}
    (hfits : w.Fits) (hrest : Stops continuesNumber rest) :
    readUnsigned negative start (w.text ++ rest) = .ok (.number (w.number negative), rest) := by
  have hdigit : Stops Char.isDigit rest :=
    hrest.mono fun c hc => by simp [continuesNumber, hc]
  have hpoint : Stops (· = '.') rest :=
    hrest.mono fun c hc => by
      rw [decide_eq_true_eq] at hc
      subst hc
      rfl
  have hexp : Stops (fun c => c = 'e' || c = 'E') rest :=
    hrest.mono fun c hc => by
      simp only [Bool.or_eq_true, decide_eq_true_eq, continuesNumber] at hc ⊢
      tauto
  -- every part ends where the next one begins
  have hdigit' := Written.exponentText_stops (e := w.exponent) (p := Char.isDigit) rfl hdigit
  have hpoint' := Written.exponentText_stops (e := w.exponent) (p := (· = '.')) rfl hpoint
  have hfraction : Stops Char.isDigit ((if w.fraction.isEmpty then [] else '.' :: w.fraction)
      ++ (Written.exponentText w.exponent ++ rest)) := by
    split
    · exact hdigit'
    · exact stops_cons.mpr rfl
  rw [Written.text, List.append_assoc, List.append_assoc, readUnsigned,
    wholePart_append w.whole_digits w.leading hfraction]
  simp only
  rw [fractionPart_append w.fraction_digits hdigit' hpoint']
  simp only
  rw [exponentPart_append w.exponent_digits hdigit hexp]
  have hinteger : (w.fraction.isEmpty && (Written.exponentValue w.exponent).isNone) =
      w.isInteger := by
    rw [Written.exponentValue, Option.isNone_map, Written.isInteger]
  simp only [hinteger]
  cases hw : w.isInteger with
  | true => simp [Written.number, hw, Nat.not_lt.mpr (hfits hw)]
  | false => simp [Written.number, hw, Written.power_eq]

/-- The same with a sign before it. -/
theorem readNumber_signedText {w : Written} {negative : Bool} {rest : List Char} (hfits : w.Fits)
    (hrest : Stops continuesNumber rest) :
    readNumber (w.signedText negative ++ rest) = .ok (.number (w.number negative), rest) := by
  cases negative with
  | true => exact readUnsigned_text true _ hfits hrest
  | false =>
      rw [Written.signedText, if_neg Bool.false_ne_true, readNumber]
      · exact readUnsigned_text false _ hfits hrest
      · intro s hs
        obtain ⟨c, t, htext, hc⟩ := w.text_cons
        rw [htext] at hs
        cases hs
        cases hc

end Json

namespace Text

/-- Digits of ASCII are digits of a numeral, with the same value, -/
theorem digitValue?_of_isDigit {c : Char} (hc : c.isDigit = true) :
    digitValue? c = some (c.toNat - 48) := by
  have hle : c.toNat ≤ '9'.toNat := by
    rw [Char.isDigit, Bool.and_eq_true, decide_eq_true_eq, decide_eq_true_eq] at hc
    exact hc.2
  rw [digitValue?, if_pos (Nat.lt_of_le_of_lt hle (by decide))]
  exact if_pos hc

theorem isDigit_of_allDigits {s : List Char} (hs : AllDigits s) : ∀ c ∈ s, isDigit c = true := by
  intro c hc
  rw [isDigit, digitValue?_of_isDigit (hs c hc)]
  rfl

/-- so a run of them has the same value in both readers. -/
theorem naturalOf_eq {s : List Char} (hs : AllDigits s) : naturalOf s = digitsValue s := by
  rw [naturalOf, digitsValue, Nat.ofDigitChars_eq_foldl]
  refine List.foldl_ext _ _ _ fun n c hc => ?_
  rw [digitValue?_of_isDigit (hs c hc)]
  rfl

/-- The digits of a natural number write it. -/
theorem naturalOf_toDigits (n : Nat) : naturalOf (Nat.toDigits 10 n) = n := by
  rw [naturalOf_eq (allDigits_toDigits n), digitsValue, Nat.ofDigitChars_ten_toDigits]

theorem isNumeral_iff {s : List Char} :
    isNumeral s = true ↔ s ≠ [] ∧ ∀ c ∈ s, isDigit c = true := by
  simp [isNumeral]

theorem isNumeral_toDigits (n : Nat) : isNumeral (Nat.toDigits 10 n) = true :=
  isNumeral_iff.mpr ⟨Nat.toDigits_ne_nil, isDigit_of_allDigits (allDigits_toDigits n)⟩

/-- In a whole text, too, an exponent is read back. -/
theorem exponent?_exponentText {e : Option (Bool × List Char)}
    (he : ∀ negative s, e = some (negative, s) → s ≠ [] ∧ AllDigits s) :
    exponent? (Written.exponentText e) = some (Written.exponentValue e) := by
  cases e with
  | none => rfl
  | some e =>
      obtain ⟨negative, s⟩ := e
      obtain ⟨hne, hs⟩ := he negative s rfl
      have hsigned : signed ((if negative then '-' else '+') :: s) = (negative, s) := by
        cases negative <;> rfl
      have hnumeral : isNumeral s = true := isNumeral_iff.mpr ⟨hne, isDigit_of_allDigits hs⟩
      simp [Written.exponentText, exponent?, hsigned, hnumeral, Written.exponentValue,
        naturalOf_eq hs]

/-- The text of a written number after its sign. -/
theorem signed_signedText (w : Written) (negative : Bool) :
    signed (w.signedText negative) = (negative, w.text) := by
  cases negative with
  | true => rfl
  | false =>
      obtain ⟨c, s, htext, hc⟩ := w.text_cons
      rw [Written.signedText, if_neg Bool.false_ne_true, htext, signed]
      · rintro s' ⟨⟩
        cases hc
      · rintro s' ⟨⟩
        cases hc

/-- **A written number is found as a numeral with its parts.** -/
theorem numeral?_signedText (w : Written) (negative : Bool) :
    numeral? (w.signedText negative) =
      some ⟨negative, w.whole, w.fraction, w.power, w.isInteger⟩ := by
  -- neither the exponent nor a point is taken for a digit of what comes before it
  have hdigit : Stops isDigit (Written.exponentText w.exponent) := by
    have := Written.exponentText_stops (e := w.exponent) (p := isDigit) rfl stops_nil
    rwa [List.append_nil] at this
  have hfraction : Stops isDigit ((if w.fraction.isEmpty then [] else '.' :: w.fraction)
      ++ Written.exponentText w.exponent) := by
    split
    · exact hdigit
    · exact stops_cons.mpr rfl
  obtain ⟨c, s, hcons, -⟩ := w.exists_cons
  have hwhole : w.whole.isEmpty = false := by rw [hcons, List.isEmpty_cons]
  rw [numeral?, signed_signedText]
  simp only [Written.text, List.append_assoc]
  rw [span_append_of_stops (isDigit_of_allDigits w.whole_digits) hfraction]
  simp only [hwhole, Bool.false_and, Bool.false_eq_true, ↓reduceIte]
  have hexponent := exponent?_exponentText w.exponent_digits
  rcases hf : w.fraction with _ | ⟨d, t⟩
  · -- without a point the exponent begins at once
    have hinteger : w.isInteger = (Written.exponentValue w.exponent).isNone := by
      rw [Written.isInteger, hf, Written.exponentValue, Option.isNone_map]
      rfl
    rw [hinteger, w.power_eq]
    rcases he : w.exponent with _ | e
    · rfl
    · rw [he] at hexponent
      split
      · rename_i hnone
        cases hexponent.symm.trans hnone
      · rename_i hsome
        cases hexponent.symm.trans hsome
        rfl
  · have hinteger : w.isInteger = false := by rw [Written.isInteger, hf]; rfl
    simp only [List.isEmpty_cons, Bool.false_eq_true, ↓reduceIte, List.cons_append]
    rw [← List.cons_append, ← hf,
      span_append_of_stops (isDigit_of_allDigits w.fraction_digits) hdigit]
    simp only [hexponent, hinteger, w.power_eq]
    rfl

/-- The number that a written number is read as, in normal form. -/
theorem toNumber_signedText {w : Written} {negative : Bool} (hfits : w.Fits) :
    Numeral.toNumber ⟨negative, w.whole, w.fraction, w.power, w.isInteger⟩ =
      .ok (w.number negative).normalize := by
  have hdigits := naturalOf_eq (w.whole_digits.append w.fraction_digits)
  rw [Numeral.toNumber, Written.number]
  cases hw : w.isInteger with
  | true =>
      simp only [↓reduceIte, Number.readInt, if_neg (Nat.not_lt.mpr (hfits hw)),
        naturalOf_eq w.whole_digits]
      rfl
  | false =>
      simp only [Bool.false_eq_true, ↓reduceIte, Numeral.toFloat, hdigits]
      rfl

/-- **A written integer** is read back, if it has few enough digits. -/
theorem integerOf_intText {n : Int} (h : (Number.int n).isWritable = true) :
    integerOf (Number.intText n) = .ok n := by
  rw [Number.isWritable, decide_eq_true_eq] at h
  have hfits : (Nat.toDigits 10 n.natAbs).length ≤ Number.digitLimit := Written.ofNat_fits h rfl
  rw [integerOf, Number.intText_eq, signed_signedText, Written.ofNat_text]
  simp only [Number.readInt, if_neg (Nat.not_lt.mpr hfits),
    naturalOf_toDigits, decide_eq_true_eq, Except.ok.injEq]
  split <;> omega

end Text

end Quarry
