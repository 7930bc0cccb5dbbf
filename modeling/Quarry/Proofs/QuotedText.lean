import Mathlib.Tactic.SplitIfs
import Quarry.Json.Reader
import Quarry.Proofs.Result

/-!
# Quoted text — every text is read back from between its quotes

A text is written character by character, and `Form` says which written forms a character has.  Each
of them is read as that character (`decodeFrom_form`), and by induction the whole text comes back,
in whatever forms its characters are written (`decode_forms`).  So this holds of both ways of
quoting (`decode_quoted`, `decode_quotedAscii`).  A numbered escape is only read with a character
after it; the closing quote is always there.
-/

namespace Quarry.Text

/-! ### Hexadecimal digits -/

theorem hexValue?_hexDigit : ∀ n < 16, hexValue? (hexDigit n) = some n := by
  decide

theorem hex_four (n : Nat) :
    hex n 4 = [hexDigit (n / 16 / 16 / 16 % 16), hexDigit (n / 16 / 16 % 16),
      hexDigit (n / 16 % 16), hexDigit (n % 16)] := rfl

/-- What is true of hexadecimal digits, and of a backslash and a `u`, is true of the characters of a
numbered escape. -/
theorem unicodeEscape_forall {p : Char → Prop} (hslash : p '\\') (hletter : p 'u')
    (hdigit : ∀ n < 16, p (hexDigit n)) (n : Nat) : ∀ c ∈ unicodeEscape n, p c := by
  simp only [unicodeEscape, hex_four, List.forall_mem_cons]
  exact ⟨hslash, hletter, hdigit _ (Nat.mod_lt _ (by decide)), hdigit _ (Nat.mod_lt _ (by decide)),
    hdigit _ (Nat.mod_lt _ (by decide)), hdigit _ (Nat.mod_lt _ (by decide)), List.forall_mem_nil _⟩

/-- Four hexadecimal digits are read back. -/
theorem unit16_hex {n : Nat} (hn : n < 0x10000) (s : List Char) :
    unit16 (hex n 4 ++ s) = .unit n s := by
  have hdigit : ∀ m, hexValue? (hexDigit (m % 16)) = some (m % 16) := fun m =>
    hexValue?_hexDigit _ (Nat.mod_lt _ (by decide))
  have hvalue : ((n / 16 / 16 / 16 % 16 * 16 + n / 16 / 16 % 16) * 16 + n / 16 % 16) * 16
      + n % 16 = n := by
    omega
  rw [hex_four]
  simp [unit16, hex4?, hdigit, hvalue]

/-! ### Characters -/

/-- A short escape stands for the character that it was chosen for. -/
theorem shortEscaped?_of_shortEscape? {c e : Char} (h : shortEscape? c = some e) :
    shortEscaped? e = some c := by
  rw [shortEscape?] at h
  split_ifs at h with hc hc hc hc hc hc hc <;> cases h <;> rw [hc] <;> rfl

/-- A character without a short escape is not a quote or a backslash. -/
theorem ne_of_shortEscape?_eq_none {c : Char} (h : shortEscape? c = none) :
    c ≠ '"' ∧ c ≠ '\\' := by
  constructor <;> rintro rfl <;> cases h

/-- Escapes that are no halves of pairs stand for themselves. -/
theorem joinHalves_of_not_half {n : Nat} (hn : n < 0xD800 ∨ 0xE000 ≤ n) (rest : List Char) :
    joinHalves n rest = .ok (Char.ofNat n, rest) := by
  have hhigh : (0xD800 ≤ n && n < 0xDC00) = false := by simp; omega
  have hlow : (0xDC00 ≤ n && n < 0xE000) = false := by simp; omega
  simp only [joinHalves, hhigh, hlow, Bool.false_eq_true, ↓reduceIte]

/-- Two halves make one character. -/
theorem joinHalves_halves {m : Nat} (hm : m < 0x100000) {s : List Char} (hs : s ≠ []) :
    joinHalves (0xD800 + m / 0x400) (unicodeEscape (0xDC00 + m % 0x400) ++ s) =
      .ok (Char.ofNat (0x10000 + m), s) := by
  obtain ⟨c, s, rfl⟩ := List.exists_cons_of_ne_nil hs
  have hhigh : (0xD800 ≤ 0xD800 + m / 0x400 && 0xD800 + m / 0x400 < 0xDC00) = true := by
    simp; omega
  have hlow : (0xDC00 ≤ 0xDC00 + m % 0x400 && 0xDC00 + m % 0x400 < 0xE000) = true := by
    simp; omega
  have hvalue : 0x10000 + (0xD800 + m / 0x400 - 0xD800) * 0x400 + (0xDC00 + m % 0x400 - 0xDC00) =
      0x10000 + m := by
    omega
  have hunit := unit16_hex (by omega : 0xDC00 + m % 0x400 < 0x10000) (c :: s)
  rw [hex_four] at hunit
  simp only [unicodeEscape, hex_four, List.cons_append, List.nil_append, joinHalves, hhigh,
    ↓reduceIte]
  simp only [unit16, List.cons_append, List.nil_append] at hunit
  split at hunit
  · rename_i hfour
    cases hunit
    simp only [hfour, hlow, ↓reduceIte, hvalue]
  · cases hunit

/-- The written forms of a character inside quotes: itself, its short escape, its number, or its
number in two halves. -/
inductive Form (c : Char) : List Char → Prop where
  | plain (hquote : c ≠ '"') (hslash : c ≠ '\\') (h : 32 ≤ c.toNat) : Form c [c]
  | short {e : Char} (h : shortEscape? c = some e) : Form c ['\\', e]
  | numbered (h : c.toNat < 0x10000) : Form c (unicodeEscape c.toNat)
  | halves {m : Nat} (h : c.toNat = 0x10000 + m) :
      Form c (unicodeEscape (0xD800 + m / 0x400) ++ unicodeEscape (0xDC00 + m % 0x400))

/-- Both writers choose one of these forms: the one leaves everything beyond the control characters
as it is, -/
theorem form_encodeChar (c : Char) : Form c (encodeChar c) := by
  rw [encodeChar]
  cases he : shortEscape? c with
  | some e => exact .short he
  | none =>
      obtain ⟨hquote, hslash⟩ := ne_of_shortEscape?_eq_none he
      simp only
      split
      · exact .numbered (by omega)
      · exact .plain hquote hslash (by omega)

/-- and the other leaves printable ASCII. -/
theorem form_encodeCharAscii (c : Char) : Form c (encodeCharAscii c) := by
  rw [encodeCharAscii]
  cases he : shortEscape? c with
  | some e => exact .short he
  | none =>
      obtain ⟨hquote, hslash⟩ := ne_of_shortEscape?_eq_none he
      simp only [Bool.and_eq_true, decide_eq_true_eq]
      split
      · exact .plain hquote hslash (by omega)
      · split
        · exact .numbered ‹_›
        · exact .halves (by omega)

theorem Form.length_pos {c : Char} {t : List Char} (h : Form c t) : 0 < t.length := by
  cases h <;> exact Nat.zero_lt_succ _

/-- A numbered escape, with a character after it. -/
theorem decodeFrom_unicodeEscape (opening : List Char) (fuel : Nat) {n : Nat} (hn : n < 0x10000)
    {s : List Char} (hs : s ≠ []) {d : Char} {s' : List Char}
    (hjoin : joinHalves n s = .ok (d, s')) :
    decodeFrom opening (fuel + 1) (unicodeEscape n ++ s) =
      (decodeFrom opening fuel s').map fun (text, rest) => (d :: text, rest) := by
  have hlength : ¬ (hex n 4 ++ s).length < 5 := by
    have := List.length_pos_iff.mpr hs
    rw [List.length_append, hex_four]
    simp only [List.length_cons, List.length_nil]
    omega
  simp only [unicodeEscape, List.cons_append, decodeFrom]
  simp only [Char.reduceEq, ↓reduceIte, hlength, unit16_hex hn, hjoin, Result.bind_ok]
  cases decodeFrom opening fuel s' <;> rfl

/-- **One character.**  Each written form of a character is read as that character. -/
theorem decodeFrom_form (opening : List Char) (fuel : Nat) {c : Char} {t : List Char}
    (h : Form c t) {s : List Char} (hs : s ≠ []) :
    decodeFrom opening (fuel + 1) (t ++ s) =
      (decodeFrom opening fuel s).map fun (text, rest) => (c :: text, rest) := by
  have hvalid : c.toNat < 0xD800 ∨ 0xDFFF < c.toNat ∧ c.toNat < 0x110000 := c.valid
  cases h with
  | plain hquote hslash h =>
      simp only [List.singleton_append, decodeFrom]
      rw [if_neg hquote, if_neg hslash, if_neg (Nat.not_lt.mpr h)]
      cases decodeFrom opening fuel s <;> rfl
  | @short e h =>
      have hshort := shortEscaped?_of_shortEscape? h
      have hletter : e ≠ 'u' := by
        rintro rfl
        cases hshort
      simp only [List.cons_append, List.nil_append, decodeFrom]
      simp only [Char.reduceEq, ↓reduceIte, hshort]
      cases decodeFrom opening fuel s <;> rfl
  | numbered h =>
      have hjoin := joinHalves_of_not_half (hvalid.imp_right And.left) s
      rw [Char.ofNat_toNat] at hjoin
      exact decodeFrom_unicodeEscape opening fuel h hs hjoin
  | @halves m h =>
      have hjoin := joinHalves_halves (by omega : m < 0x100000) hs
      rw [← h, Char.ofNat_toNat] at hjoin
      rw [List.append_assoc]
      exact decodeFrom_unicodeEscape opening fuel (by omega) (by simp [unicodeEscape]) hjoin

/-! ### Texts -/

theorem encode_cons (c : Char) (s : List Char) : encode (c :: s) = encodeChar c ++ encode s :=
  List.flatMap_cons

/-- A text without characters to escape is quoted as it is. -/
theorem quoted_of_forall {s : List Char} (h : ∀ c ∈ s, encodeChar c = [c]) :
    quoted s = '"' :: (s ++ ['"']) := by
  have hencode : encode s = s := by
    induction s with
    | nil => rfl
    | cons c s ih =>
        rw [encode_cons, h c List.mem_cons_self, ih fun d hd => h d (List.mem_cons_of_mem c hd),
          List.singleton_append]
  rw [quoted, hencode, List.cons_append]

section Forms

variable {write : Char → List Char} (hwrite : ∀ c, Form c (write c))

include hwrite

/-- No character is written in less than one, so the written text has fuel for each. -/
theorem length_le_forms (s : List Char) : s.length ≤ (s.flatMap write).length := by
  induction s with
  | nil => exact Nat.zero_le _
  | cons c s ih =>
      have := (hwrite c).length_pos
      rw [List.flatMap_cons, List.length_append, List.length_cons]
      omega

/-- The inside of a quoted text is read up to the closing quote. -/
theorem decodeFrom_forms (opening rest : List Char) {s : List Char} {fuel : Nat}
    (hfuel : s.length < fuel) :
    decodeFrom opening fuel (s.flatMap write ++ '"' :: rest) = .ok (s, rest) := by
  induction s generalizing fuel with
  | nil =>
      obtain ⟨fuel, rfl⟩ := Nat.exists_eq_add_one.mpr hfuel
      simp [decodeFrom]
  | cons c s ih =>
      obtain ⟨fuel, rfl⟩ := Nat.exists_eq_add_one.mpr (Nat.zero_lt_of_lt hfuel)
      rw [List.flatMap_cons, List.append_assoc,
        decodeFrom_form opening fuel (hwrite c) (by simp), ih (Nat.lt_of_succ_lt_succ hfuel)]
      rfl

/-- **Quoted text is read back**, and what follows the closing quote is left. -/
theorem decode_forms (s rest : List Char) :
    decode ('"' :: s.flatMap write ++ ['"'] ++ rest) = .ok (s, rest) := by
  have hfuel : s.length < ('"' :: s.flatMap write ++ ['"'] ++ rest).length + 1 := by
    have := length_le_forms hwrite s
    simp only [List.length_append, List.length_cons, List.cons_append]
    omega
  rw [decode]
  simpa using decodeFrom_forms hwrite ('"' :: s.flatMap write ++ ['"'] ++ rest) rest hfuel

end Forms

/-- **A quoted text is read back**, whatever stands behind it, -/
theorem decode_quoted (s rest : List Char) : decode (quoted s ++ rest) = .ok (s, rest) :=
  decode_forms form_encodeChar s rest

/-- and so is one in ASCII. -/
theorem decode_quotedAscii (s rest : List Char) : decode (quotedAscii s ++ rest) = .ok (s, rest) :=
  decode_forms form_encodeCharAscii s rest

end Quarry.Text

namespace Quarry.Json

/-- A quoted string at the front of any text is read. -/
structure ReadsQuoted (text : List Char) (s : String) : Prop where
  opens : ∃ t, text = '"' :: t
  reads : ∀ rest, readQuoted (text ++ rest) = .ok (s, rest)

/-- In a document a quoted text is one that begins with its quote. -/
theorem readsQuoted_of_decode {t : List Char} {s : String}
    (h : ∀ rest, Text.decode ('"' :: t ++ rest) = .ok (s.toList, rest)) :
    ReadsQuoted ('"' :: t) s := by
  refine ⟨⟨t, rfl⟩, fun rest => ?_⟩
  rw [readQuoted, h rest]
  simp only [String.ofList_toList]

theorem readsQuoted_quoted (s : String) : ReadsQuoted (Text.quoted s.toList) s :=
  readsQuoted_of_decode (Text.decode_quoted s.toList)

theorem readQuoted_quoted (s : String) (rest : List Char) :
    readQuoted (Text.quoted s.toList ++ rest) = .ok (s, rest) :=
  (readsQuoted_quoted s).reads rest

theorem readsQuoted_quotedAscii (s : String) : ReadsQuoted (Text.quotedAscii s.toList) s :=
  readsQuoted_of_decode (Text.decode_quotedAscii s.toList)

end Quarry.Json
