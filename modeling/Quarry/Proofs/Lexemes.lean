import Quarry.Expr.Reader
import Quarry.Json.Writer
import Quarry.Proofs.DottedPaths
import Quarry.Proofs.Numerals
import Quarry.Proofs.Places

/-!
# Lexemes — texts that are scanned as words

A lexeme is a token without its offset, in the form in which expressions are written.  A text
spells lexemes if it writes them one after another, with blanks between them or none; only where
the next character would go on with a lexeme, a blank has to stand before it (`Lexeme.goesOn`).

Scanning a text that spells lexemes gives tokens of the same classes and texts, and one for the end
(`scan_spelled`).  One lexeme is scanned whatever follows it, as long as that does not go on with
it; the text as a whole by induction on how it is spelled.
-/

namespace Quarry

/-! ### Numbers without a sign -/

/-- The number has a sign before it. -/
def Number.isNegative : Number → Bool
  | .int n => n < 0
  | .float x => x.isNegative

/-- A number without a sign is written as digits that stand for it. -/
theorem Number.exists_unsigned {n : Number} (hfinite : n.isFinite = true)
    (hsign : n.isNegative = false) :
    ∃ w : Written, Json.writeNumber n = w.text ∧ w.number false = n ∧
      (n.isWritable = true → w.Fits) := by
  cases n with
  | int n =>
      have hn : 0 ≤ n := by simpa [isNegative] using hsign
      refine ⟨.ofNat n.natAbs, ?_, ?_, fun h => Written.ofNat_fits ?_⟩
      · rw [Json.writeNumber, textWith, intText, if_neg (Int.not_lt.mpr hn), Written.ofNat_text]
      · simp [Written.number, Written.isInteger, Written.ofNat, digitsValue,
          Nat.ofDigitChars_ten_toDigits, abs_of_nonneg hn]
      · rwa [isWritable, decide_eq_true_eq] at h
  | float x =>
      cases x with
      | finite x =>
          have hx : x.negative = false := hsign
          obtain ⟨w, hfloat, htext, hnumber⟩ := x.exists_written
          rw [hx] at htext hnumber
          exact ⟨w, htext, hnumber, fun _ h => absurd h (by simp [hfloat])⟩
      | infinite _ => cases hfinite
      | nan => cases hfinite

/-- A number without a sign is read in normal form. -/
theorem Expr.numberValue_writeNumber {n : Number} (hfinite : n.isFinite = true)
    (hwritable : n.isWritable = true) (hsign : n.isNegative = false) :
    numberValue (Json.writeNumber n) = .ok (.number n.normalize) := by
  obtain ⟨w, htext, hnumber, hfits⟩ := Number.exists_unsigned hfinite hsign
  have hnumeral := Text.numeral?_signedText w false
  rw [Written.signedText, if_neg Bool.false_ne_true] at hnumeral
  rw [numberValue, htext, hnumeral]
  simp only [Text.toNumber_signedText (hfits hwritable), hnumber]
  rfl

instance : DecidablePred IsIdentifier := fun name =>
  -- goes through the name, where instances for all characters would go through those
  have := List.decidableBAll (isNamePart · = true) name
  inferInstanceAs (Decidable (_ ∧ _ ∧ _))

namespace Expr

/-! ### Lexemes -/

/-- A word of a written expression. -/
inductive Lexeme where
  | number (n : Number)
  | quoted (s : String)
  | word (s : String)
  /-- A name with the dot before it. -/
  | dotted (s : String)
  | sign (kind : TokenKind)

/-- The text of a class whose tokens all have the same one. -/
def TokenKind.sign : TokenKind → List Char
  | .equal => ['=', '=']
  | .notEqual => ['!', '=']
  | .greaterEqual => ['>', '=']
  | .lessEqual => ['<', '=']
  | .greater => ['>']
  | .less => ['<']
  | .pipe => ['|']
  | .dot => ['.']
  | .leftBracket => ['[']
  | .rightBracket => [']']
  | .leftParen => ['(']
  | .rightParen => [')']
  | .leftBrace => ['\x7b']
  | .rightBrace => ['\x7d']
  | .comma => [',']
  | .colon => [':']
  | .plus => ['+']
  | .minus => ['-']
  | .star => ['*']
  | .slash => ['/']
  | .percent => ['%']
  | .number | .string | .field | .word | .finish => []

/-- The text goes on with a number. -/
def continuesNumeral : List Char → Bool
  | [] => false
  | c :: s =>
      Text.isDigit c || (c = '.' && s.head?.any Text.isDigit)
        || ((c = 'e' || c = 'E') && s.head?.any fun d => Text.isDigit d || d = '+' || d = '-')

namespace Lexeme

def kind : Lexeme → TokenKind
  | .number _ => .number
  | .quoted _ => .string
  | .word _ => .word
  | .dotted _ => .field
  | .sign kind => kind

def text : Lexeme → List Char
  | .number n => Json.writeNumber n
  | .quoted s => Text.quoted s.toList
  | .word s => s.toList
  | .dotted s => '.' :: s.toList
  | .sign kind => kind.sign

/-- A text after the lexeme is taken for a part of it. -/
def goesOn : Lexeme → List Char → Bool
  | .number _, s => continuesNumeral s
  | .word _, s | .dotted _, s => s.head?.any continuesWord
  | .sign .dot, s => s.head?.any startsWord
  | .sign .greater, s | .sign .less, s => s.head?.any (· = '=')
  | _, _ => false

/-- The lexeme can be written: a number without a sign, a name, or one of the signs. -/
def Sound : Lexeme → Prop
  | .number n => n.isFinite = true ∧ n.isNegative = false
  | .quoted _ => True
  | .word s | .dotted s => IsIdentifier s.toList
  | .sign kind => kind.sign ≠ []

end Lexeme

/-! ### One lexeme -/

theorem extend_append {p : Char → Bool} {s t : List Char} (front : List Char)
    (hs : ∀ c ∈ s, p c = true) (ht : Stops p t) : extend p front (s ++ t) = (front ++ s, t) := by
  rw [extend, span_append_of_stops hs ht]

/-- What does not go on with a number begins with no digit, -/
theorem stops_of_continuesNumeral {s : List Char} (h : continuesNumeral s = false) :
    Stops Text.isDigit s := by
  rintro c t rfl
  simp only [continuesNumeral, Bool.or_eq_false_iff] at h
  exact h.1.1

/-- with no fraction, -/
theorem fraction_of_continuesNumeral {s : List Char} (h : continuesNumeral s = false)
    (front : List Char) : fraction front s = (front, s) := by
  rw [fraction.eq_def]
  split
  · rename_i d t
    have hd : Text.isDigit '.' = false ∧ Text.isDigit d = false := by
      simpa [continuesNumeral] using h
    simp only [hd.2, Bool.false_eq_true, ↓reduceIte]
  · rfl

/-- and with no exponent. -/
theorem exponent_of_continuesNumeral {s : List Char} (h : continuesNumeral s = false)
    (front : List Char) : exponent front s = (front, s) := by
  rw [exponent.eq_def]
  split
  · rename_i e d t
    by_cases he : (e = 'e' || e = 'E') = true
    · simp only [continuesNumeral, he, Bool.true_and, List.head?_cons, Option.any_some,
        Bool.or_eq_false_iff] at h
      obtain ⟨-, ⟨hdigit, hplus⟩, hminus⟩ := h
      simp only [he, hdigit, hplus, hminus, Bool.or_self, Bool.false_eq_true, ↓reduceIte]
    · simp only [he, Bool.false_eq_true, ↓reduceIte]
  · rfl

theorem exponent_append {e : Option (Bool × List Char)} {t : List Char}
    (he : ∀ negative s, e = some (negative, s) → s ≠ [] ∧ AllDigits s)
    (ht : continuesNumeral t = false) (front : List Char) :
    exponent front (Written.exponentText e ++ t) = (front ++ Written.exponentText e, t) := by
  cases e with
  | none => rw [Written.exponentText, List.append_nil, List.nil_append,
      exponent_of_continuesNumeral ht]
  | some e =>
      obtain ⟨negative, s⟩ := e
      obtain ⟨hne, hs⟩ := he negative s rfl
      have hdigits := Text.isDigit_of_allDigits hs
      obtain ⟨d, s, rfl⟩ := List.exists_cons_of_ne_nil hne
      have hsign : Text.isDigit (if negative then '-' else '+') = false := by
        cases negative <;> rfl
      have hspan := extend_append (front ++ ['e', if negative then '-' else '+']) hdigits
        (stops_of_continuesNumeral ht)
      rw [List.cons_append] at hspan
      rw [Written.exponentText, List.cons_append, List.cons_append, List.cons_append, exponent]
      simp only [decide_true, Bool.true_or, ↓reduceIte, hsign, Bool.false_eq_true,
        hdigits d List.mem_cons_self, hspan]
      cases negative <;> simp

theorem fraction_append {s t : List Char} (hs : AllDigits s) (hdigit : Stops Text.isDigit t)
    (hpoint : ∀ front, fraction front t = (front, t)) (front : List Char) :
    fraction front ((if s.isEmpty then [] else '.' :: s) ++ t) =
      (front ++ (if s.isEmpty then [] else '.' :: s), t) := by
  cases s with
  | nil => simpa using hpoint front
  | cons d s =>
      have hdigits := Text.isDigit_of_allDigits hs
      have hspan := extend_append (front ++ ['.']) hdigits hdigit
      rw [List.cons_append] at hspan
      simp only [List.isEmpty_cons, Bool.false_eq_true, ↓reduceIte, List.cons_append, fraction,
        hdigits d List.mem_cons_self, hspan]
      simp

/-- **A written number is scanned**, whatever follows that does not go on with it. -/
theorem scanNumber_text (w : Written) {rest : List Char} (h : continuesNumeral rest = false) :
    scanNumber (w.text ++ rest) = (w.text, rest) := by
  have hdigit : Stops Text.isDigit (Written.exponentText w.exponent ++ rest) :=
    Written.exponentText_stops rfl (stops_of_continuesNumeral h)
  have hpoint (front : List Char) : fraction front (Written.exponentText w.exponent ++ rest) =
      (front, Written.exponentText w.exponent ++ rest) := by
    cases w.exponent with
    | none => exact fraction_of_continuesNumeral h front
    | some e => rfl
  have hwhole : Stops Text.isDigit ((if w.fraction.isEmpty then [] else '.' :: w.fraction)
      ++ (Written.exponentText w.exponent ++ rest)) := by
    split
    · exact hdigit
    · exact stops_cons.mpr rfl
  rw [Written.text, List.append_assoc, List.append_assoc, scanNumber,
    extend_append [] (Text.isDigit_of_allDigits w.whole_digits) hwhole]
  simp only
  rw [fraction_append w.fraction_digits hdigit hpoint]
  simp only
  rw [exponent_append w.exponent_digits h]
  simp only [List.nil_append, List.append_assoc]

/-- A character that begins a name is neither a digit nor a quote nor a blank. -/
theorem startsWord_facts {c : Char} (h : startsWord c = true) :
    Text.isDigit c = false ∧ (c = '"' || c = '\x27') = false ∧ Text.isBlank c = false := by
  have hpart : isDottedPart c = true := by
    simp only [startsWord, Bool.or_eq_true, decide_eq_true_eq] at h
    simp only [isDottedPart, isNamePart, Char.isAlphanum, Bool.or_eq_true, decide_eq_true_eq]
    tauto
  exact dottedPart_forall (p := fun c => startsWord c = true →
    Text.isDigit c = false ∧ (c = '"' || c = '\x27') = false ∧ Text.isBlank c = false)
    (by decide) hpart h

theorem digit_facts {c : Char} (h : c.isDigit = true) :
    Text.isDigit c = true ∧ Text.isBlank c = false :=
  literalPart_forall (p := fun c => c.isDigit = true →
    Text.isDigit c = true ∧ Text.isBlank c = false) (by decide)
    (isLiteralPart_of_isDigit h) h

theorem stops_of_head? {p : Char → Bool} {s : List Char} (h : s.head?.any p = false) :
    Stops p s := by
  rintro c t rfl
  simpa using h

/-- A character on its own is scanned, if the next one does not make another token with it. -/
theorem scanOne?_single {c : Char} {kind : TokenKind} {rest : List Char}
    (hc : Text.isDigit c = false ∧ (c = '"' || c = '\x27') = false ∧ startsWord c = false)
    (hsingle : single? c = some kind) (hword : c = '.' → Stops startsWord rest)
    (hdouble : Stops (fun d => (double? c d).isSome) rest) :
    scanOne? c rest = some (kind, [c], rest) := by
  rw [scanOne?.eq_def]
  simp only [hc, Bool.false_eq_true, ↓reduceIte]
  cases rest with
  | nil => simp only [hsingle, Option.map_some]
  | cons d rest =>
      have hfield : (c = '.' && startsWord d) = false := by
        rw [Bool.and_eq_false_imp, decide_eq_true_eq]
        exact fun h => stops_cons.mp (hword h)
      have hnone : double? c d = none := by
        simpa using stops_cons.mp hdouble
      simp only [hfield, hnone, hsingle, Option.map_some, Bool.false_eq_true, ↓reduceIte]

theorem stops_double? {c : Char} {rest : List Char}
    (h : c ∉ ['=', '!', '>', '<'] ∨ Stops (· = '=') rest) :
    Stops (fun d => (double? c d).isSome) rest := by
  rintro d t rfl
  rw [stops_cons, decide_eq_false_iff_not] at h
  simp only [List.mem_cons, List.not_mem_nil, or_false, not_or] at h
  simp only [double?]
  split
  · rfl
  · rename_i hd
    obtain ⟨hne₁, hne₂, hne₃, hne₄⟩ := h.resolve_right hd
    simp only [hne₁, hne₂, hne₃, hne₄, ↓reduceIte, Option.isSome_none]

/-- A sign is scanned. -/
theorem scanOne?_sign {kind : TokenKind} (hsign : kind.sign ≠ []) {rest : List Char}
    (h : (Lexeme.sign kind).goesOn rest = false) :
    ∃ c s, kind.sign = c :: s ∧ Text.isBlank c = false ∧
      scanOne? c (s ++ rest) = some (kind, c :: s, rest) := by
  cases kind with
  | number | string | field | word | finish => exact absurd rfl hsign
  | equal | notEqual | greaterEqual | lessEqual => exact ⟨_, _, rfl, by decide, rfl⟩
  | dot =>
      exact ⟨_, _, rfl, by decide, scanOne?_single (by decide) rfl (fun _ => stops_of_head? h)
        (stops_double? (.inl (by decide)))⟩
  | greater | less =>
      exact ⟨_, _, rfl, by decide, scanOne?_single (by decide) rfl (by simp)
        (stops_double? (.inr (stops_of_head? h)))⟩
  | _ =>
      exact ⟨_, _, rfl, by decide, scanOne?_single (by decide) rfl (by simp)
        (stops_double? (.inl (by decide)))⟩

/-- **A lexeme is scanned** at the front of a text that does not go on with it. -/
theorem scanOne?_lexeme {l : Lexeme} (hl : l.Sound) {rest : List Char}
    (h : l.goesOn rest = false) :
    ∃ c s, l.text = c :: s ∧ Text.isBlank c = false ∧
      scanOne? c (s ++ rest) = some (l.kind, c :: s, rest) := by
  -- `goesOn` says that the token is not longer than the lexeme
  cases l with
  | number n =>
      obtain ⟨w, hw, -⟩ := Number.exists_unsigned hl.1 hl.2
      obtain ⟨c, s, hcons, hc⟩ := w.text_cons
      have hscan := scanNumber_text w h
      rw [hcons, List.cons_append] at hscan
      refine ⟨c, s, hw.trans hcons, (digit_facts hc).2, ?_⟩
      rw [scanOne?.eq_def]
      simp only [(digit_facts hc).1, ↓reduceIte, hscan, Lexeme.kind]
  | quoted s =>
      refine ⟨'"', Text.encode s.toList ++ ['"'], rfl, by decide, ?_⟩
      have hdigit : Text.isDigit '"' = false := by decide
      rw [List.append_assoc, List.singleton_append, scanOne?.eq_def]
      simp only [hdigit, Bool.false_eq_true, ↓reduceIte, decide_true, Bool.true_or,
        Text.delimited?_encode, Option.map_some, Lexeme.kind]
  | word s =>
      obtain ⟨c, t, hcons, hc⟩ := IsIdentifier.exists_cons hl
      obtain ⟨hdigit, hquote, hblank⟩ := startsWord_facts hc
      have hspan := span_append_of_stops (p := continuesWord) hl.2.2 (stops_of_head? h)
      rw [hcons, List.cons_append] at hspan
      have hstart : startsWord c = true := hc
      refine ⟨c, t, hcons, hblank, ?_⟩
      rw [scanOne?.eq_def]
      simp only [hdigit, hquote, hstart, Bool.false_eq_true, ↓reduceIte, hspan, Lexeme.kind]
  | dotted s =>
      obtain ⟨c, t, hcons, hc⟩ := IsIdentifier.exists_cons hl
      have hspan := extend_append (p := continuesWord) ['.'] hl.2.2 (stops_of_head? h)
      rw [hcons, List.cons_append] at hspan
      have hstart : startsWord c = true := hc
      have hdot : Text.isDigit '.' = false ∧ startsWord '.' = false := by decide
      refine ⟨'.', s.toList, rfl, by decide, ?_⟩
      rw [scanOne?.eq_def, hcons, List.cons_append]
      simp only [hdot, Char.reduceEq, decide_false, decide_true, Bool.or_self, Bool.true_and,
        Bool.false_eq_true, ↓reduceIte, hstart, hspan, Lexeme.kind, List.singleton_append]
  | sign kind => exact scanOne?_sign hl h

/-! ### Texts of lexemes -/

/-- A text writes lexemes one after another, with blanks between them where they are needed. -/
inductive Spells : List Lexeme → List Char → Prop where
  | nil : Spells [] []
  | blank {ls : List Lexeme} {c : Char} {s : List Char} (hc : Text.isBlank c = true)
      (h : Spells ls s) : Spells ls (c :: s)
  | cons {l : Lexeme} {ls : List Lexeme} {s : List Char} (h : Spells ls s)
      (hs : l.goesOn s = false) : Spells (l :: ls) (l.text ++ s)

/-- The lexemes with a blank after each of them. -/
def spaced (ls : List Lexeme) : List Char :=
  ls.flatMap fun l => l.text ++ [' ']

theorem Lexeme.goesOn_blank (l : Lexeme) (s : List Char) : l.goesOn (' ' :: s) = false := by
  cases l with
  | number n => rfl
  | sign kind => cases kind <;> rfl
  | _ => rfl

theorem spells_spaced (ls : List Lexeme) : Spells ls (spaced ls) := by
  induction ls with
  | nil => exact .nil
  | cons l ls ih =>
      have hcons : spaced (l :: ls) = l.text ++ (' ' :: spaced ls) := by
        simp [spaced]
      rw [hcons]
      exact .cons (.blank (by decide) ih) (l.goesOn_blank _)

/-- The token is the lexeme. -/
def Token.Is (t : Token) (l : Lexeme) : Prop :=
  t.kind = l.kind ∧ t.text = l.text

/-- The token for the end. -/
def Token.IsFinish (t : Token) : Prop :=
  t.kind = .finish ∧ t.text = []

theorem scanFrom_spelled {ls : List Lexeme} {s : List Char} (h : Spells ls s)
    (hsound : ∀ l ∈ ls, l.Sound) {fuel : Nat} (hfuel : s.length ≤ fuel) (offset : Nat) :
    ∃ ts finish, scanFrom fuel offset s = .ok (ts ++ [finish]) ∧ List.Forall₂ Token.Is ts ls ∧
      finish.IsFinish := by
  induction h generalizing fuel offset with
  | nil =>
      refine ⟨[], ⟨.finish, [], offset⟩, ?_, .nil, rfl, rfl⟩
      cases fuel <;> rfl
  | blank hc h ih =>
      obtain ⟨fuel, rfl⟩ := Nat.exists_eq_add_one.mpr (Nat.zero_lt_of_lt hfuel)
      obtain ⟨ts, finish, hscan, his⟩ := ih hsound (Nat.le_of_succ_le_succ hfuel) (offset + 1)
      exact ⟨ts, finish, by rw [scanFrom, if_pos hc, hscan], his⟩
  | @cons l ls s h hs ih =>
      obtain ⟨c, t, htext, hblank, hone⟩ := scanOne?_lexeme (hsound l List.mem_cons_self) hs
      rw [htext, List.cons_append, List.length_cons, List.length_append] at hfuel
      obtain ⟨fuel, rfl⟩ := Nat.exists_eq_add_one.mpr (Nat.zero_lt_of_lt hfuel)
      obtain ⟨ts, finish, hscan, his, hfinish⟩ :=
        ih (fun l hl => hsound l (List.mem_cons_of_mem _ hl)) (show s.length ≤ fuel by omega)
          (offset + (c :: t).length)
      refine ⟨⟨l.kind, c :: t, offset⟩ :: ts, finish, ?_, .cons ⟨rfl, htext.symm⟩ his, hfinish⟩
      rw [htext, List.cons_append, scanFrom, hblank]
      simp only [Bool.false_eq_true, ↓reduceIte, hone, hscan]
      rfl

/-- **Scanning what spells lexemes** gives their tokens, and one for the end. -/
theorem scan_spelled {ls : List Lexeme} {text : String} (h : Spells ls text.toList)
    (hsound : ∀ l ∈ ls, l.Sound) :
    ∃ ts finish, scan text = .ok (ts ++ [finish]) ∧ List.Forall₂ Token.Is ts ls ∧
      finish.IsFinish :=
  scanFrom_spelled h hsound (Nat.le_refl _) 0

/-- A text that spells a lexeme is not blank. -/
theorem Spells.trim_ne_nil {ls : List Lexeme} {s : List Char} (h : Spells ls s) (hne : ls ≠ [])
    (hsound : ∀ l ∈ ls, l.Sound) : Text.trim s ≠ [] := by
  intro hnil
  rw [Text.trim_eq_nil_iff] at hnil
  induction h with
  | nil => exact hne rfl
  | blank _ _ ih => exact ih hne hsound fun c hc => hnil c (List.mem_cons_of_mem _ hc)
  | @cons l _ _ _ hs _ =>
      obtain ⟨c, t, htext, hblank, -⟩ := scanOne?_lexeme (hsound l List.mem_cons_self) hs
      have := hnil c (by rw [htext]; exact List.mem_cons_self)
      rw [hblank] at this
      cases this

end Expr

end Quarry
