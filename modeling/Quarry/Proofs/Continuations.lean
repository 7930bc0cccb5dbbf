import Quarry.Proofs.RoundTrip

/-!
# Continuations — what was read is read again in front of more text

A value that was read at the front of a text is read there still if more text is put behind it, as
long as that begins with the comma, the bracket or the brace after a part of a container
(`EndsPart`): a number does not go on with these, and nothing else looks beyond its end.  The one
place that looks ahead is the first half of a character pair, and a quoted text that ends there is
not read at all.

The proof goes by induction on the fuel, for values, items and members together
(`readValue_extend`), and allows more fuel for the longer text.
-/

namespace Quarry.Json

/-- The text begins with the comma, the bracket or the brace after an item or a member. -/
def EndsPart : List Char → Prop
  | [] => False
  | c :: _ => c = ',' ∨ c = ']' ∨ c = '\x7d'

variable {tail : List Char}

/-- What ends a part of a container stops everything that does not go on with these three
characters. -/
theorem EndsPart.stops (htail : EndsPart tail) {p : Char → Bool} (hcomma : p ',' = false)
    (hbracket : p ']' = false) (hbrace : p '\x7d' = false) : Stops p tail := by
  rintro c t rfl
  rcases htail with rfl | rfl | rfl
  · exact hcomma
  · exact hbracket
  · exact hbrace

/-- It begins with no blank, -/
theorem skipSpace_append_tail (htail : EndsPart tail) (s : List Char) :
    skipSpace (s ++ tail) = skipSpace s ++ tail :=
  dropWhile_append_tail s (htail.stops rfl rfl rfl)

/-! ### Numbers -/

/-- and with no digit. -/
theorem span_digits_extend (htail : EndsPart tail) (s : List Char) :
    (s ++ tail).span isAsciiDigit =
      ((s.span isAsciiDigit).1, (s.span isAsciiDigit).2 ++ tail) :=
  span_append_tail s (htail.stops rfl rfl rfl)

theorem wholePart_of_ne {c : Char} (hc : c ≠ '0') (s : List Char) :
    wholePart (c :: s) =
      if ((c :: s).span isAsciiDigit).1 = [] then none else some ((c :: s).span isAsciiDigit) := by
  rw [wholePart]
  · cases (c :: s).span isAsciiDigit with
    | mk digits rest => cases digits <;> rfl
  · rintro t ⟨⟩
    exact hc rfl

/-- So each part of a number ends where it did, -/
theorem wholePart_extend (htail : EndsPart tail) {s whole rest : List Char}
    (h : wholePart s = some (whole, rest)) :
    wholePart (s ++ tail) = some (whole, rest ++ tail) := by
  cases s with
  | nil => cases h
  | cons c s =>
      by_cases hc : c = '0'
      · subst hc
        cases h
        rfl
      · rw [wholePart_of_ne hc] at h
        rw [List.cons_append, wholePart_of_ne hc, ← List.cons_append, span_digits_extend htail]
        split at h
        · cases h
        · rename_i hne
          rw [if_neg hne, Option.some.inj h]

/-- with a fraction or without, -/
theorem fractionPart_extend (htail : EndsPart tail) (s : List Char) :
    fractionPart (s ++ tail) = ((fractionPart s).1, (fractionPart s).2 ++ tail) := by
  by_cases hpoint : ∃ t, s = '.' :: t
  · obtain ⟨t, rfl⟩ := hpoint
    rw [List.cons_append, fractionPart, span_digits_extend htail, fractionPart]
    cases hspan : t.span isAsciiDigit with
    | mk digits rest => cases digits <;> rfl
  · have hs : Stops (· = '.') s := by
      rintro c t rfl
      exact decide_eq_false fun hc => hpoint ⟨t, hc ▸ rfl⟩
    have hboth : Stops (· = '.') (s ++ tail) := by
      cases s with
      | nil => exact htail.stops rfl rfl rfl
      | cons c s => exact stops_cons.mpr (stops_cons.mp hs)
    rw [stops_point hs, stops_point hboth]

theorem exponentSign_extend (htail : EndsPart tail) (s : List Char) :
    exponentSign (s ++ tail) = ((exponentSign s).1, (exponentSign s).2 ++ tail) := by
  cases s with
  | nil =>
      cases tail with
      | nil => exact htail.elim
      | cons c t => rcases htail with rfl | rfl | rfl <;> rfl
  | cons c s =>
      by_cases hminus : c = '-'
      · subst hminus
        rfl
      by_cases hplus : c = '+'
      · subst hplus
        rfl
      have hother (t : List Char) : exponentSign (c :: t) = (false, c :: t) := by
        rw [exponentSign]
        · rintro _ ⟨⟩
          exact hminus rfl
        · rintro _ ⟨⟩
          exact hplus rfl
      rw [List.cons_append, hother, hother]
      rfl

/-- and with an exponent or without. -/
theorem exponentPart_extend (htail : EndsPart tail) (s : List Char) :
    exponentPart (s ++ tail) = ((exponentPart s).1, (exponentPart s).2 ++ tail) := by
  cases s with
  | nil =>
      cases tail with
      | nil => exact htail.elim
      | cons c t => rcases htail with rfl | rfl | rfl <;> rfl
  | cons c s =>
      rw [List.cons_append, exponentPart, exponentPart]
      split
      · rw [exponentSign_extend htail]
        dsimp only
        rw [span_digits_extend htail]
        cases hspan : (exponentSign s).2.span isAsciiDigit with
        | mk digits rest => cases digits <;> rfl
      · rfl

/-- A number that was read is read again; where it began is only told in faults. -/
theorem readUnsigned_extend (htail : EndsPart tail) {negative : Bool} {start start' s : List Char}
    {v : Value} {rest : List Char} (h : readUnsigned negative start s = .ok (v, rest)) :
    readUnsigned negative start' (s ++ tail) = .ok (v, rest ++ tail) := by
  rw [readUnsigned] at h ⊢
  split at h
  · cases h
  · rename_i whole s₁ hwhole
    rw [wholePart_extend htail hwhole]
    dsimp only at h ⊢
    rw [fractionPart_extend htail]
    dsimp only
    rw [exponentPart_extend htail]
    dsimp only
    split at h
    · rename_i hinteger
      rw [if_pos hinteger]
      split at h
      · cases h
      · rename_i hfits
        rw [if_neg hfits]
        cases h
        rfl
    · rename_i hfloat
      rw [if_neg hfloat]
      cases h
      rfl

/-- An unsigned number begins with a digit. -/
theorem readUnsigned_front {negative : Bool} {start s : List Char} {result : Value × List Char}
    (h : readUnsigned negative start s = .ok result) : ∃ c t, s = c :: t ∧ c.isDigit = true := by
  cases s with
  | nil => cases h
  | cons c t =>
      refine ⟨c, t, rfl, ?_⟩
      by_contra hdigit
      have hzero : c ≠ '0' := by
        rintro rfl
        exact hdigit rfl
      have hspan : ((c :: t).span isAsciiDigit).1 = [] := by
        rw [List.span_eq_takeWhile_dropWhile]
        exact List.takeWhile_cons_of_neg hdigit
      rw [readUnsigned, wholePart_of_ne hzero, if_pos hspan] at h
      cases h

/-- What a number begins with. -/
theorem readNumber_front {s : List Char} {result : Value × List Char}
    (h : readNumber s = .ok result) :
    ∃ c t, c.isDigit = true ∧ (s = c :: t ∨ s = '-' :: c :: t) := by
  rw [readNumber.eq_def] at h
  split at h
  · obtain ⟨c, t, rfl, hc⟩ := readUnsigned_front h
    exact ⟨c, t, hc, .inr rfl⟩
  · obtain ⟨c, t, hs, hc⟩ := readUnsigned_front h
    exact ⟨c, t, hc, .inl hs⟩

theorem readNumber_of_isDigit {c : Char} {s : List Char} (hc : c.isDigit = true) :
    readNumber (c :: s) = readUnsigned false (c :: s) (c :: s) := by
  rw [readNumber]
  rintro _ ⟨⟩
  cases hc

/-- Words and numbers are read again. -/
theorem readScalar_extend (htail : EndsPart tail) {constants : Bool} {s : List Char} {v : Value}
    {rest : List Char} (h : readScalar constants s = .ok (v, rest)) :
    readScalar constants (s ++ tail) = .ok (v, rest ++ tail) := by
  have hconstant {name : String} {x : Binary64} {t : List Char}
      (h : readConstant constants name x t = .ok (v, rest)) :
      readConstant constants name x (t ++ tail) = .ok (v, rest ++ tail) := by
    cases constants with
    | true =>
        cases h
        rfl
    | false => cases h
  -- a word ends with its last letter, and what is no word begins like a number
  rw [readScalar.eq_def] at h
  split at h
  · cases h
    rfl
  · cases h
    rfl
  · cases h
    rfl
  · exact hconstant h
  · exact hconstant h
  · exact hconstant h
  · obtain ⟨c, t, hc, rfl | rfl⟩ := readNumber_front h
    · rw [readNumber_of_isDigit hc] at h
      rw [List.cons_append, readScalar_eq_readNumber hc (.inl rfl), readNumber_of_isDigit hc]
      exact readUnsigned_extend htail h
    · rw [List.cons_append, List.cons_append, readScalar_eq_readNumber hc (.inr rfl)]
      exact readUnsigned_extend htail h

end Quarry.Json


/-! ### Quoted text -/

namespace Quarry.Text

variable {opening opening' tail : List Char} {fuel fuel' : Nat}

/-- What a text that is read begins with: the closing quote, a character for itself, a short escape
or a numbered one. -/
theorem decodeFrom_cases {s text rest : List Char}
    (h : decodeFrom opening (fuel + 1) s = .ok (text, rest)) :
    (s = '"' :: rest ∧ text = []) ∨
    (∃ c s' text', s = c :: s' ∧ c ≠ '"' ∧ c ≠ '\\' ∧ ¬ c.toNat < 32 ∧
      decodeFrom opening fuel s' = .ok (text', rest) ∧ text = c :: text') ∨
    (∃ e d s' text', s = '\\' :: e :: s' ∧ shortEscaped? e = some d ∧
      decodeFrom opening fuel s' = .ok (text', rest) ∧ text = d :: text') ∨
    ∃ t high s₁ d s₂ text', s = '\\' :: 'u' :: t ∧ 5 ≤ t.length ∧ unit16 t = .unit high s₁ ∧
      joinHalves high s₁ = .ok (d, s₂) ∧ decodeFrom opening fuel s₂ = .ok (text', rest) ∧
      text = d :: text' := by
  cases s with
  | nil => cases h
  | cons c s =>
      -- the closing quote, an escape with a number, a short escape, and any other character
      rw [decodeFrom.eq_def] at h
      dsimp only at h
      split at h
      · rename_i hquote
        cases h
        exact .inl ⟨by rw [hquote], rfl⟩
      rename_i hquote
      split at h
      · rename_i hescape
        subst hescape
        split at h
        · cases h
        · split at h
          · cases h
          · rename_i t hlength
            split at h
            · cases h
            · rename_i high s₁ hunit
              obtain ⟨⟨d, s₂⟩, hjoin, h⟩ := Result.bind_eq_ok.mp h
              obtain ⟨⟨text', rest'⟩, hread, h⟩ := Result.bind_eq_ok.mp h
              cases h
              exact .inr (.inr (.inr ⟨t, high, s₁, d, s₂, text', rfl, Nat.not_lt.mp hlength, hunit,
                hjoin, hread, rfl⟩))
        · rename_i e s' _
          split at h
          · cases h
          · rename_i d hshort
            obtain ⟨⟨text', rest'⟩, hread, h⟩ := Result.bind_eq_ok.mp h
            cases h
            exact .inr (.inr (.inl ⟨e, d, s', text', rfl, hshort, hread, rfl⟩))
      · rename_i hescape
        split at h
        · cases h
        · rename_i hcontrol
          obtain ⟨⟨text', rest'⟩, hread, h⟩ := Result.bind_eq_ok.mp h
          cases h
          exact .inr (.inl ⟨c, s, text', rfl, hquote, hescape, hcontrol, hread, rfl⟩)

/-- A numbered escape is not cut off in a text that is read. -/
theorem decodeFrom_escape {s t : List Char} {result : List Char × List Char}
    (h : decodeFrom opening fuel s = .ok result) (hs : s ++ tail = '\\' :: 'u' :: t) :
    ∃ t', s = '\\' :: 'u' :: t' ∧ 5 ≤ t'.length := by
  obtain ⟨fuel, rfl⟩ : ∃ n, fuel = n + 1 := by
    cases fuel with
    | zero => cases h
    | succ fuel => exact ⟨fuel, rfl⟩
  rcases decodeFrom_cases h with ⟨rfl, -⟩ | ⟨c, s, _, rfl, -, hescape, -⟩ |
    ⟨e, d, s, _, rfl, hshort, -⟩ | ⟨t', _, _, _, _, _, rfl, hlength, -⟩
  · cases hs
  · exact absurd (List.cons.inj hs).1 hescape
  · obtain ⟨rfl, -⟩ := List.cons.inj (List.cons.inj hs).2
    cases hshort
  · exact ⟨t', rfl, hlength⟩

/-- The first half of a pair finds the same second half in front of more text, if what it leaves is
read. -/
theorem joinHalves_extend {high : Nat} {s s' : List Char} {d : Char}
    {result : List Char × List Char} (h : joinHalves high s = .ok (d, s'))
    (hrest : decodeFrom opening fuel s' = .ok result) (tail : List Char) :
    joinHalves high (s ++ tail) = .ok (d, s' ++ tail) := by
  rw [joinHalves.eq_def] at h ⊢
  split at h
  · rename_i hhigh
    rw [if_pos hhigh]
    split at h
    · rename_i a b c e f rest
      simp only [List.cons_append]
      cases hhex : hex4? a b c e with
      | none =>
          rw [hhex] at h
          cases h
      | some low =>
          rw [hhex] at h
          dsimp only at h ⊢
          split at h
          · rename_i hlow
            rw [if_pos hlow]
            rw [Except.ok.injEq, Prod.mk.injEq] at h
            obtain ⟨rfl, rfl⟩ := h
            rfl
          · rename_i hlow
            rw [if_neg hlow]
            cases h
            rfl
    · rename_i hother
      cases h
      split
      · -- a second half that needs the tail is cut off without it, and no such text is read
        rename_i hsplit
        obtain ⟨t, rfl, hlength⟩ := decodeFrom_escape hrest hsplit
        match t, hlength with
        | a :: b :: c :: e :: f :: t, _ => exact absurd rfl (hother a b c e f t)
      · rfl
  · rename_i hhigh
    rw [if_neg hhigh]
    split at h
    · rename_i hlow
      rw [if_pos hlow]
      cases h
      rfl
    · rename_i hlow
      rw [if_neg hlow]
      cases h
      rfl

/-- Four digits of an escape are in the text or not. -/
theorem unit16_extend {s s' : List Char} {n : Nat} (h : unit16 s = .unit n s') (tail : List Char) :
    unit16 (s ++ tail) = .unit n (s' ++ tail) := by
  rw [unit16.eq_def] at h
  split at h
  · rename_i a b c d rest
    cases hhex : hex4? a b c d with
    | none =>
        rw [hhex] at h
        cases h
    | some m =>
        rw [hhex] at h
        cases h
        simp only [List.cons_append, unit16, hhex]
  · cases h

/-- **Quoted text that was read** is read in front of more text. -/
theorem decodeFrom_extend {s text rest : List Char} (hfuel : fuel ≤ fuel')
    (h : decodeFrom opening fuel s = .ok (text, rest)) (tail : List Char) :
    decodeFrom opening' fuel' (s ++ tail) = .ok (text, rest ++ tail) := by
  induction fuel generalizing s text rest fuel' with
  | zero => cases h
  | succ fuel ih =>
      obtain ⟨fuel', rfl⟩ := Nat.exists_eq_add_one.mpr (Nat.zero_lt_of_lt hfuel)
      have hfuel := Nat.le_of_succ_le_succ hfuel
      rcases decodeFrom_cases h with ⟨rfl, rfl⟩ |
        ⟨c, s, text, rfl, hquote, hescape, hcontrol, hread, rfl⟩ |
        ⟨e, d, s, text, rfl, hshort, hread, rfl⟩ |
        ⟨t, high, s₁, d, s₂, text, rfl, hlength, hunit, hjoin, hread, rfl⟩
      · rfl
      · rw [List.cons_append, decodeFrom.eq_def]
        dsimp only
        rw [if_neg hquote, if_neg hescape, if_neg hcontrol, ih hfuel hread]
        rfl
      · have hletter : e ≠ 'u' := by
          rintro rfl
          cases hshort
        rw [List.cons_append, List.cons_append, decodeFrom, if_neg (by decide), if_pos rfl]
        · dsimp only
          rw [hshort, ih hfuel hread]
          rfl
        · exact hletter
      · have hlong : ¬ (t ++ tail).length < 5 := by
          rw [List.length_append]
          omega
        have hjoin' := joinHalves_extend hjoin hread tail
        rw [List.cons_append, List.cons_append, decodeFrom, if_neg (by decide), if_pos rfl,
          if_neg hlong, unit16_extend hunit]
        dsimp only
        rw [hjoin', Result.bind_ok, ih hfuel hread]
        rfl

end Quarry.Text

namespace Quarry.Json

/-! ### Values -/

/-- A quoted text ends at its quote, so it is read again whatever stands behind it. -/
theorem readQuoted_extend {s rest : List Char} {text : String}
    (h : readQuoted ('"' :: s) = .ok (text, rest)) (tail : List Char) :
    readQuoted ('"' :: (s ++ tail)) = .ok (text, rest ++ tail) := by
  rw [readQuoted] at h ⊢
  split at h
  · rename_i chars rest' hread
    cases h
    have hfuel : ('"' :: s).length + 1 ≤ ('"' :: (s ++ tail)).length + 1 := by
      simp only [List.length_cons, List.length_append]
      omega
    have hread' : Text.decode ('"' :: (s ++ tail)) = .ok (chars, rest ++ tail) :=
      Text.decodeFrom_extend hfuel hread tail
    rw [hread']
  · cases h

/-- The reader gives the same in front of `tail`, from as much fuel or more. -/
def Extends {α : Type} (tail : List Char) (reader : Nat → List Char → Except Halt (α × List Char))
    (fuel : Nat) : Prop :=
  ∀ {fuel' : Nat} {s rest : List Char} {a : α}, fuel ≤ fuel' → reader fuel s = .ok (a, rest) →
    reader fuel' (s ++ tail) = .ok (a, rest ++ tail)

section Steps

variable {tail : List Char} {constants : Bool} {fuel : Nat}

/-- Items are read again if values are, -/
theorem readItems_step (htail : EndsPart tail) (hvalue : Extends tail (readValue constants) fuel)
    (hitems : Extends tail (readItems constants) fuel) :
    Extends tail (readItems constants) (fuel + 1) := by
  intro fuel' s rest items hfuel h
  obtain ⟨fuel', rfl⟩ := Nat.exists_eq_add_one.mpr (Nat.zero_lt_of_lt hfuel)
  replace hfuel := Nat.le_of_succ_le_succ hfuel
  rw [readItems] at h ⊢
  obtain ⟨⟨v, s'⟩, hv, h⟩ := Result.bind_eq_ok.mp h
  rw [hvalue hfuel hv, Result.bind_ok]
  dsimp only at h ⊢
  rw [skipSpace_append_tail htail]
  split at h
  · rename_i hend
    cases h
    rw [hend]
    rfl
  · rename_i s'' hcomma
    obtain ⟨⟨vs, rest'⟩, hvs, h⟩ := Result.bind_eq_ok.mp h
    cases h
    simp only [hcomma, List.cons_append, skipSpace_append_tail htail, hitems hfuel hvs,
      Result.bind_ok, Result.pure_eq_ok]
  · cases h

/-- and so are members, -/
theorem readPairs_step (htail : EndsPart tail) (hvalue : Extends tail (readValue constants) fuel)
    (hpairs : Extends tail (readPairs constants) fuel) :
    Extends tail (readPairs constants) (fuel + 1) := by
  intro fuel' s rest pairs hfuel h
  obtain ⟨fuel', rfl⟩ := Nat.exists_eq_add_one.mpr (Nat.zero_lt_of_lt hfuel)
  replace hfuel := Nat.le_of_succ_le_succ hfuel
  rw [readPairs.eq_def] at h
  dsimp only at h
  split at h
  · rename_i t
    obtain ⟨⟨name, s₁⟩, hname, h⟩ := Result.bind_eq_ok.mp h
    dsimp only at h
    rw [List.cons_append, readPairs, readQuoted_extend hname, Result.bind_ok]
    dsimp only
    rw [skipSpace_append_tail htail]
    split at h
    · rename_i s₂ hcolon
      obtain ⟨⟨v, s₃⟩, hv, h⟩ := Result.bind_eq_ok.mp h
      dsimp only at h
      simp only [hcolon, List.cons_append, skipSpace_append_tail htail, hvalue hfuel hv,
        Result.bind_ok]
      split at h
      · rename_i hend
        cases h
        rw [hend]
        rfl
      · rename_i s₄ hcomma
        obtain ⟨⟨rest', s₅⟩, hrest, h⟩ := Result.bind_eq_ok.mp h
        cases h
        simp only [hcomma, List.cons_append, skipSpace_append_tail htail, hpairs hfuel hrest,
          Result.bind_ok, Result.pure_eq_ok]
      · cases h
    · cases h
  · cases h

/-- No item and no member is read from nothing. -/
theorem readItems_nil (constants : Bool) (fuel : Nat) {result : List Value × List Char} :
    readItems constants fuel [] ≠ .ok result := by
  match fuel with
  | 0 => exact nofun
  | 1 => exact nofun
  | fuel + 2 => exact nofun

theorem readPairs_nil (constants : Bool) (fuel : Nat)
    {result : List (String × Value) × List Char} : readPairs constants fuel [] ≠ .ok result := by
  cases fuel <;> exact nofun

/-- What does not begin with a bracket does not in front of more text, unless there is nothing. -/
theorem stops_append_tail {p : Char → Bool} {s : List Char} (hne : s ≠ []) (h : Stops p s)
    (tail : List Char) : Stops p (s ++ tail) := by
  obtain ⟨c, t, rfl⟩ := List.exists_cons_of_ne_nil hne
  exact stops_cons.mpr (stops_cons.mp h)

/-- and values if the parts of containers are. -/
theorem readValue_step (htail : EndsPart tail) (hitems : Extends tail (readItems constants) fuel)
    (hpairs : Extends tail (readPairs constants) fuel) :
    Extends tail (readValue constants) (fuel + 1) := by
  intro fuel' s rest v hfuel h
  obtain ⟨fuel', rfl⟩ := Nat.exists_eq_add_one.mpr (Nat.zero_lt_of_lt hfuel)
  replace hfuel := Nat.le_of_succ_le_succ hfuel
  rw [readValue.eq_def] at h
  dsimp only at h
  split at h
  · rename_i t
    obtain ⟨⟨text, s'⟩, htext, h⟩ := Result.bind_eq_ok.mp h
    cases h
    rw [List.cons_append, readValue, readQuoted_extend htext]
    rfl
  · rename_i t
    split at h
    · rename_i hend
      cases h
      rw [List.cons_append, readValue, skipSpace_append_tail htail, hend]
      rfl
    · rename_i hother
      obtain ⟨⟨items, s'⟩, hread, h⟩ := Result.bind_eq_ok.mp h
      cases h
      -- the tail may begin with the bracket, so something has to stand before it
      have hne : skipSpace t ≠ [] := by
        intro hnil
        rw [hnil] at hread
        exact readItems_nil constants fuel hread
      have hstops : Stops (· = ']') (skipSpace t) := by
        intro c t' hcons
        exact decide_eq_false fun hc => hother t' (hc ▸ hcons)
      rw [List.cons_append, readValue_array, skipSpace_append_tail htail, hitems hfuel hread]
      · rfl
      · rw [skipSpace_append_tail htail]
        exact stops_append_tail hne hstops tail
  · rename_i t
    split at h
    · rename_i hend
      cases h
      rw [List.cons_append, readValue, skipSpace_append_tail htail, hend]
      rfl
    · rename_i hother
      obtain ⟨⟨pairs, s'⟩, hread, h⟩ := Result.bind_eq_ok.mp h
      cases h
      have hne : skipSpace t ≠ [] := by
        intro hnil
        rw [hnil] at hread
        exact readPairs_nil constants fuel hread
      have hstops : Stops (· = '\x7d') (skipSpace t) := by
        intro c t' hcons
        exact decide_eq_false fun hc => hother t' (hc ▸ hcons)
      rw [List.cons_append, readValue_object, skipSpace_append_tail htail, hpairs hfuel hread]
      · rfl
      · rw [skipSpace_append_tail htail]
        exact stops_append_tail hne hstops tail
  · rename_i hquote hbracket hbrace
    have hscalar := readScalar_extend htail h
    cases s with
    | nil => cases h
    | cons c t =>
        rw [List.cons_append] at hscalar ⊢
        rw [readValue, hscalar]
        · rintro _ ⟨⟩
          exact hquote _ rfl
        · rintro _ ⟨⟩
          exact hbracket _ rfl
        · rintro _ ⟨⟩
          exact hbrace _ rfl

end Steps

/-- **What was read is read in front of more text.** -/
theorem readValue_extend {tail : List Char} (htail : EndsPart tail) (constants : Bool)
    (fuel : Nat) :
    Extends tail (readValue constants) fuel ∧ Extends tail (readItems constants) fuel ∧
      Extends tail (readPairs constants) fuel := by
  induction fuel with
  | zero =>
      refine ⟨?_, ?_, ?_⟩ <;> intro fuel' s rest a _ h <;> cases h
  | succ fuel ih =>
      obtain ⟨hvalue, hitems, hpairs⟩ := ih
      exact ⟨readValue_step htail hitems hpairs, readItems_step htail hvalue hitems,
        readPairs_step htail hvalue hpairs⟩

/-- Of a text that is read its value is read after the blanks, and leaves blanks. -/
theorem readValue_of_read {constants : Bool} {s : List Char} {v : Value}
    (h : read constants s = .ok v) :
    ∃ rest, readValue constants (2 * s.length + 2) (skipSpace s) = .ok (v, rest) ∧
      skipSpace rest = [] := by
  rw [read, readText.eq_def] at h
  split at h
  · cases h
  · cases hread : readValue constants (2 * s.length + 2) (skipSpace s) with
    | error halt =>
        rw [hread] at h
        cases h
    | ok result =>
        obtain ⟨w, rest⟩ := result
        rw [hread, Result.bind_ok] at h
        dsimp only at h
        split at h
        · rename_i hend
          cases h
          exact ⟨rest, rfl, hend⟩
        · cases h

/-- **A text that is read** is read in front of more text, too. -/
theorem readValue_append (tail : List Char) (htail : EndsPart tail) {constants : Bool}
    {s : List Char} {v : Value} (h : read constants s = .ok v) {fuel : Nat}
    (hfuel : 2 * s.length + 2 ≤ fuel) :
    ∃ rest, readValue constants fuel (skipSpace (s ++ tail)) = .ok (v, rest ++ tail) ∧
      skipSpace (rest ++ tail) = tail := by
  obtain ⟨rest, hread, hrest⟩ := readValue_of_read h
  refine ⟨rest, ?_, ?_⟩
  · rw [skipSpace_append_tail htail]
    exact (readValue_extend htail constants _).1 hfuel hread
  · rw [skipSpace_append_tail htail, hrest, List.nil_append]

end Quarry.Json
