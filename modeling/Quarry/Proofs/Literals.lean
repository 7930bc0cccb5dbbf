import Quarry.Operand.Literal
import Quarry.Proofs.Comparisons
import Quarry.Proofs.DottedPaths
import Quarry.Proofs.RoundTrip

/-!
# Literals — scalars in queries

The text of a scalar has no blanks at its ends, and it is a quoted text or made of letters,
digits, points and signs (`write_scalar`).  As a literal it is read as the scalar in normal form
(`Literal.read_write`), so what is in normal form reads back from its text with any blanks around it
(`Literal.read_render`).  A number with a nearest double always has few enough digits to be written.
-/

namespace Quarry

/-! ### Numbers that can be written -/

namespace Binary64

theorem canonical_of_ofParts {negative : Bool} {significand shift : Nat} {x : Finite}
    (h : ofParts negative significand shift = .finite x) : Canonical significand shift := by
  rw [ofParts] at h
  split at h
  · assumption
  · cases h

/-- A fraction with a nearest double is not too large. -/
theorem log2_of_ofQuotient {negative : Bool} {num den : Nat} {x : Finite}
    (h : ofQuotient negative num den = .finite x) : (num / den).log2 ≤ 2097 := by
  simp only [ofQuotient] at h
  split at h
  · have := (canonical_of_ofParts h).2.2
    omega
  · have := (canonical_of_ofParts h).2.2
    omega

end Binary64

/-- An integer with a nearest double has few enough digits to be written. -/
theorem Number.isWritable_of_toFloat {n : Number} {x : Binary64} (h : n.toFloat = .ok x) :
    n.isWritable = true := by
  cases n with
  | float _ => rfl
  | int n =>
      have hfinite : ∃ y, Binary64.ofInt n = .finite y := by
        rw [toFloat] at h
        generalize Binary64.ofInt n = z at h ⊢
        cases z with
        | finite y => exact ⟨y, rfl⟩
        | _ => cases h
      obtain ⟨y, hy⟩ := hfinite
      -- variables for the exponents, so that the powers are not computed
      obtain ⟨k, hk⟩ : ∃ k, k = 700 := ⟨700, rfl⟩
      have hlog := Binary64.log2_of_ofQuotient hy
      rw [Nat.div_one] at hlog
      have hlt : n.natAbs * Binary64.unitsPerOne < 2 ^ (3 * k) :=
        Nat.lt_log2_self.trans_le (Nat.pow_le_pow_right (by decide) (by omega))
      rw [isWritable, decide_eq_true_eq, digitBound]
      calc n.natAbs ≤ n.natAbs * Binary64.unitsPerOne :=
            Nat.le_mul_of_pos_right _ Binary64.unitsPerOne_pos
        _ < 2 ^ (3 * k) := hlt
        _ ≤ 10 ^ k := Binary64.two_pow_le_ten_pow k
        _ ≤ 10 ^ digitLimit := Nat.pow_le_pow_right (by decide) (by rw [hk]; decide)

/-- A value whose numbers have nearest doubles can be written. -/
theorem Value.isWritable_of_representable {v : Value} (h : v.Representable) :
    v.isWritable = true := by
  induction v with
  | number n =>
      obtain ⟨x, hx⟩ := everyNumber_number.mp h
      exact Number.isWritable_of_toFloat hx
  | array items ih => exact areWritable_iff.mpr fun v hv => ih v hv (everyNumber_array.mp h v hv)
  | object members ih =>
      exact membersWritable_iff.mpr fun member hm =>
        ih member hm (everyNumber_object.mp h member hm)
  | _ => rfl

/-! ### The characters of literals -/

/-- A character of a literal without quotes. -/
def isLiteralPart (c : Char) : Bool :=
  isDottedPart c || c = '-' || c = '+'

/-- A property of the characters of literals without quotes, checked one by one. -/
theorem literalPart_forall {p : Char → Prop}
    (h : ∀ n < 128, isLiteralPart (Char.ofNat n) = true → p (Char.ofNat n)) {c : Char}
    (hc : isLiteralPart c = true) : p c := by
  have hascii : c.toNat < 128 := by
    simp only [isLiteralPart, Bool.or_eq_true, decide_eq_true_eq] at hc
    rcases hc with (hc | rfl) | rfl
    · exact dottedPart_forall (p := fun c => c.toNat < 128) (by decide) hc
    · decide
    · decide
  exact ascii_forall (p := fun c => isLiteralPart c = true → p c) h hascii hc

theorem isLiteralPart_of_isDigit {c : Char} (h : c.isDigit = true) : isLiteralPart c = true := by
  simp [isLiteralPart, isDottedPart, isNamePart, Char.isAlphanum, h]

theorem Written.literalPart {w : Written} {negative : Bool} :
    ∀ c ∈ w.signedText negative, isLiteralPart c = true := by
  have hdigits : ∀ {s}, AllDigits s → ∀ c ∈ s, isLiteralPart c = true :=
    fun hs c hc => isLiteralPart_of_isDigit (hs c hc)
  have hexponent : ∀ c ∈ exponentText w.exponent, isLiteralPart c = true := by
    intro c hc
    rcases he : w.exponent with _ | ⟨sign, s⟩
    · rw [he] at hc
      cases hc
    · rw [he, exponentText, List.mem_cons, List.mem_cons] at hc
      rcases hc with rfl | rfl | hc
      · decide
      · cases sign <;> decide
      · exact hdigits (w.exponent_digits sign s he).2 c hc
  have htext : ∀ c ∈ w.text, isLiteralPart c = true := by
    intro c hc
    rw [text, List.mem_append, List.mem_append] at hc
    rcases hc with (hc | hc) | hc
    · exact hdigits w.whole_digits c hc
    · split at hc
      · cases hc
      · rcases List.mem_cons.mp hc with rfl | hc
        · decide
        · exact hdigits w.fraction_digits c hc
    · exact hexponent c hc
  intro c hc
  cases negative with
  | true =>
      rcases List.mem_cons.mp hc with rfl | hc
      · decide
      · exact htext c hc
  | false => exact htext c hc

/-- The text of a scalar: quoted, or made of letters, digits, points and signs. -/
theorem write_scalar {v : Value} (hscalar : v.IsScalar) (hfinite : v.IsFinite) :
    (∃ s, v = .string s) ∨ (Json.write .compact 0 v ≠ [] ∧
      ∀ c ∈ Json.write .compact 0 v, isLiteralPart c = true) := by
  cases v with
  | null => exact .inr ⟨by decide, chars_forall (by decide)⟩
  | bool b => cases b <;> exact .inr ⟨by decide, chars_forall (by decide)⟩
  | number n =>
      refine .inr ?_
      obtain ⟨w, negative, htext, -, -⟩ :=
        Number.exists_written (Value.everyNumber_number.mp hfinite) "Infinity" "NaN"
      obtain ⟨c, s, hcons, -⟩ := w.text_cons
      rw [Json.write, Json.writeNumber, htext]
      exact ⟨by cases negative <;> simp [Written.signedText, hcons], Written.literalPart⟩
  | string s => exact .inl ⟨s, rfl⟩
  | array _ => exact hscalar.elim
  | object _ => exact hscalar.elim

theorem trimmed_quoted (s : List Char) : Text.Trimmed (Text.quoted s) := by
  have hquote : Text.isBlank '"' = false := by decide
  refine ⟨stops_cons.mpr hquote, ?_⟩
  rw [Text.quoted, List.reverse_append]
  exact stops_cons.mpr hquote

/-- The text of a scalar is not empty and has no blanks at its ends. -/
theorem trimmed_scalar {v : Value} (hscalar : v.IsScalar) (hfinite : v.IsFinite) :
    Json.write .compact 0 v ≠ [] ∧ Text.Trimmed (Json.write .compact 0 v) := by
  rcases write_scalar hscalar hfinite with ⟨s, rfl⟩ | ⟨hne, hparts⟩
  · exact ⟨List.cons_ne_nil _ _, trimmed_quoted s.toList⟩
  · exact ⟨hne, Text.trimmed_of_forall fun c hc =>
      literalPart_forall (p := fun c => Text.isBlank c = false) (by decide) (hparts c hc)⟩

/-! ### Reading -/

namespace Literal

theorem ofList_ne {c d : Char} {s t : List Char} (h : c ≠ d) :
    String.ofList (c :: s) ≠ String.ofList (d :: t) := fun heq =>
  h (List.cons.inj (String.ofList_injective heq)).1

/-- A text that begins with no quote is not quoted. -/
theorem unquote?_eq_none {c : Char} {s : List Char} (hc : c ≠ '"' ∧ c ≠ '\x27') :
    unquote? (c :: s) = none := by
  have hbetween : betweenQuotes? (c :: s) = none := by
    rw [betweenQuotes?, if_neg]
    simp [hc]
  rw [unquote?, hbetween]

/-- A text that begins with another letter is none of the three words. -/
theorem ne_word {c : Char} (s : List Char) (hc : c ≠ 'n' ∧ c ≠ 't' ∧ c ≠ 'f') :
    String.ofList (c :: s) ≠ "null" ∧ String.ofList (c :: s) ≠ "true" ∧
      String.ofList (c :: s) ≠ "false" :=
  ⟨ofList_ne (t := ['u', 'l', 'l']) hc.1, ofList_ne (t := ['r', 'u', 'e']) hc.2.1,
    ofList_ne (t := ['a', 'l', 's', 'e']) hc.2.2⟩

theorem read_of_unquote? {c : Char} {s : List Char} (hc : c ≠ 'n' ∧ c ≠ 't' ∧ c ≠ 'f')
    {text inner : String} (htext : Text.trim text.toList = c :: s)
    (hinner : unquote? (c :: s) = some inner) : read text = .ok (.string inner) := by
  obtain ⟨hnull, htrue, hfalse⟩ := ne_word s hc
  simp only [read, htext, hnull, htrue, hfalse, ↓reduceIte, hinner]

theorem read_of_numeral? {c : Char} {s : List Char} (hc : c ≠ 'n' ∧ c ≠ 't' ∧ c ≠ 'f')
    {text : String} {n : Text.Numeral} {number : Number} (htext : Text.trim text.toList = c :: s)
    (hnone : unquote? (c :: s) = none) (hnumeral : Text.numeral? (c :: s) = some n)
    (hnumber : n.toNumber = .ok number) : read text = .ok (.number number) := by
  obtain ⟨hnull, htrue, hfalse⟩ := ne_word s hc
  simp only [read, htext, hnull, htrue, hfalse, ↓reduceIte, hnone, hnumeral, hnumber,
    Result.bind_ok, Result.pure_eq_ok]

theorem read_number {w : Written} {negative : Bool} (hfits : w.Fits) {text : String}
    (htext : Text.trim text.toList = w.signedText negative) :
    read text = .ok (.number (w.number negative).normalize) := by
  obtain ⟨c, s, hcons, hc⟩ : ∃ c s, w.signedText negative = c :: s ∧ (c.isDigit ∨ c = '-') := by
    obtain ⟨c, s, hcons, hc⟩ := w.text_cons
    cases negative with
    | true => exact ⟨_, _, rfl, .inr rfl⟩
    | false => exact ⟨c, s, hcons, .inl hc⟩
  have hne : ∀ d : Char, d.isDigit = false → d ≠ '-' → c ≠ d := by
    rintro d hd hminus rfl
    rcases hc with hc | hc
    · rw [hd] at hc
      cases hc
    · exact hminus hc
  have hquotes : unquote? (c :: s) = none :=
    unquote?_eq_none ⟨hne '"' rfl (by decide), hne '\x27' rfl (by decide)⟩
  have hnumeral := Text.numeral?_signedText w negative
  rw [hcons] at htext hnumeral
  exact read_of_numeral?
    ⟨hne 'n' rfl (by decide), hne 't' rfl (by decide), hne 'f' rfl (by decide)⟩ htext hquotes
    hnumeral (Text.toNumber_signedText hfits)

theorem unquote?_quoted (s : String) : unquote? (Text.quoted s.toList) = some s := by
  have hbetween : betweenQuotes? (Text.quoted s.toList) = some ('"', Text.encode s.toList) := by
    simp [Text.quoted, betweenQuotes?]
  have hread := Json.readQuoted_quoted s []
  rw [List.append_nil] at hread
  rw [unquote?, hbetween]
  simp [wholeQuoted?, hread, Json.skipSpace]

/-- **The text of a scalar is read as the scalar**, in normal form; blanks around it do not
count. -/
theorem read_write {v : Value} (hscalar : v.IsScalar) (hfinite : v.IsFinite)
    (hwritable : v.isWritable = true) {text : String}
    (htext : Text.trim text.toList = Json.write .compact 0 v) : read text = .ok v.normalize := by
  cases v with
  | null =>
      simp only [read, htext]
      rfl
  | bool b =>
      simp only [read, htext]
      cases b <;> rfl
  | number n =>
      have hn := Value.everyNumber_number.mp hfinite
      obtain ⟨w, negative, hwritten, hnumber, hfits⟩ := Number.exists_written hn "Infinity" "NaN"
      rw [Json.write, Json.writeNumber, hwritten] at htext
      rw [read_number (hfits hwritable) htext, hnumber, Value.normalize, if_pos hn]
  | string s =>
      exact read_of_unquote? ⟨by decide, by decide, by decide⟩ htext (unquote?_quoted s)
  | array _ => exact hscalar.elim
  | object _ => exact hscalar.elim

/-- **Literals read back what was written.**  A scalar that can be written has a text.  If its
number is finite and in normal form, the text is read as the scalar, with any blanks around it. -/
theorem read_render {v : Value} (hscalar : v.IsScalar) (hv : v.WellFormed) (hfinite : v.IsFinite)
    (hwritable : v.isWritable = true) {front back : List Char}
    (hfront : ∀ c ∈ front, Text.isBlank c = true) (hback : ∀ c ∈ back, Text.isBlank c = true) :
    ∃ text, Json.render .compact v = .ok text ∧
      read (String.ofList front ++ text ++ String.ofList back) = .ok v := by
  refine ⟨_, if_pos hwritable, ?_⟩
  have htrim : Text.trim (String.ofList front ++ String.ofList (Json.write .compact 0 v) ++
      String.ofList back).toList = Json.write .compact 0 v := by
    simp only [String.toList_append, String.toList_ofList]
    rw [Text.trim_append_blank hback, Text.trim_blank_append hfront,
      Text.trim_of_trimmed (trimmed_scalar hscalar hfinite).2]
  rw [read_write hscalar hfinite hwritable htrim, Value.normalize_of_wellFormed hv hfinite]

/-- A text that begins like a quoted number and ends in a backslash, between blanks. -/
theorem read_render_quote :
    let v : Value := .string "\"-12e5\\"
    let front := ['\t', '\u3000']
    let back := ['\n']
    (v.IsScalar ∧ v.WellFormed ∧ v.IsFinite ∧ v.isWritable = true ∧
      (∀ c ∈ front, Text.isBlank c = true) ∧ ∀ c ∈ back, Text.isBlank c = true) ∧
    Json.render .compact v = .ok "\"\\\"-12e5\\\\\"" ∧
      read "\t\u3000\"\\\"-12e5\\\\\"\n" = .ok v := by
  intro v front back
  have hfinite : v.IsFinite := Value.everyNumber_string _
  have hfront : ∀ c ∈ ['\t', '\u3000'], Text.isBlank c = true := chars_forall (by decide)
  have hback : ∀ c ∈ ['\n'], Text.isBlank c = true := chars_forall (by decide)
  have hrender : Json.render .compact v = .ok "\"\\\"-12e5\\\\\"" := rfl
  obtain ⟨text, htext, hread⟩ := read_render (v := v) trivial trivial hfinite rfl hfront hback
  cases hrender.symm.trans htext
  exact ⟨⟨trivial, trivial, hfinite, rfl, hfront, hback⟩, hrender, hread⟩

end Literal

end Quarry
