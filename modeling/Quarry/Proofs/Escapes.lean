import Quarry.Proofs.Balance
import Quarry.Proofs.Continuations
import Quarry.Proofs.Lexing
import Quarry.Proofs.Places

/-!
# Escapes — what quotes leave as it is

Only few characters have a part in escapes.  Any other stands in a quoted text for itself, unless it
is a control character, and so it is in the written form of a text if and only if it is in the text
(`Text.mem_encode_iff`).  The other way about, it is not lost when a quoted text is read
(`Text.mem_of_decodeFrom`, `Literal.mem_of_unquote?`).

A quoted text ends with its closing quote.  What is cut off before it cannot be passed over, and is
not read as JSON (`Text.delimited?_cut`, `Literal.wholeQuoted?_cut`).  If it is still read as a
quoted text, then as one that has no other characters (`Literal.unquote?_cut`).
-/

namespace Quarry

namespace Text

variable {c : Char} {s text rest : List Char}

/-- A character that escapes are made of. -/
def isEscapePart (c : Char) : Bool :=
  c = '\\' || c = 'u' || (shortEscaped? c).isSome || (hexValue? c).isSome

theorem isEscapePart_eq_false : isEscapePart c = false ↔
    c ≠ '\\' ∧ c ≠ 'u' ∧ shortEscaped? c = none ∧ hexValue? c = none := by
  simp [isEscapePart, and_assoc]

/-! ### Writing -/

/-- A character is written as itself, or by an escape if it has a part in escapes or is a control
character. -/
theorem encodeChar_cases (c : Char) :
    (encodeChar c = [c] ∧ 32 ≤ c.toNat) ∨
      ((isEscapePart c = true ∨ c.toNat < 32) ∧ ∀ d ∈ encodeChar c, isEscapePart d = true) := by
  rw [encodeChar]
  cases he : shortEscape? c with
  | some e =>
      have hletter : isEscapePart e = true := by
        simp [isEscapePart, shortEscaped?_of_shortEscape? he]
      refine .inr ⟨?_, by simpa using ⟨by decide, hletter⟩⟩
      rw [shortEscape?] at he
      split_ifs at he with hc hc hc hc hc hc hc <;> subst hc <;> decide
  | none =>
      simp only
      split
      · rename_i hc
        exact .inr ⟨.inr hc, unicodeEscape_forall (by decide) (by decide) (by decide) c.toNat⟩
      · rename_i hc
        exact .inl ⟨rfl, Nat.not_lt.mp hc⟩

/-- **Written for itself**: what has no part in escapes is in the written form of a text if it is in
the text and no control character. -/
theorem mem_encode_iff (hc : isEscapePart c = false) :
    c ∈ encode s ↔ c ∈ s ∧ 32 ≤ c.toNat := by
  rw [encode, List.mem_flatMap]
  constructor
  · rintro ⟨d, hd, hmem⟩
    rcases encodeChar_cases d with ⟨heq, hlower⟩ | ⟨-, hparts⟩
    · rw [heq, List.mem_singleton] at hmem
      exact hmem ▸ ⟨hd, hlower⟩
    · cases hc.symm.trans (hparts c hmem)
  · rintro ⟨hmem, hlower⟩
    refine ⟨c, hmem, ?_⟩
    rcases encodeChar_cases c with ⟨heq, -⟩ | ⟨hpart | hupper, -⟩
    · exact heq ▸ List.mem_singleton_self c
    · cases hc.symm.trans hpart
    · omega

/-! ### Reading -/

theorem mem_of_unit16 {n : Nat} (h : unit16 s = .unit n rest) (hc : hexValue? c = none)
    (hmem : c ∈ s) : c ∈ rest := by
  have hdigit : ∀ {d m}, hexValue? d = some m → c ≠ d := by
    rintro d m hd rfl
    cases hc.symm.trans hd
  rw [unit16.eq_def] at h
  split at h
  · rename_i a b d e tail
    split at h
    · rename_i m hhex
      cases h
      simp only [hex4?, Option.bind_eq_bind, Option.bind_eq_some_iff] at hhex
      obtain ⟨_, ha, _, hb, _, hd, _, he, -⟩ := hhex
      simpa [hdigit ha, hdigit hb, hdigit hd, hdigit he] using hmem
    · cases h
  · cases h

theorem mem_of_joinHalves {high : Nat} {d : Char} (h : joinHalves high s = .ok (d, rest))
    (hc : isEscapePart c = false) (hmem : c ∈ s) : c ∈ rest := by
  obtain ⟨hslash, hletter, -, hhex⟩ := isEscapePart_eq_false.mp hc
  rw [joinHalves.eq_def] at h
  split at h
  · split at h
    · rename_i a b e f g tail
      split at h
      · cases h
      · rename_i low hfour
        split at h
        · have hunit : unit16 (a :: b :: e :: f :: g :: tail) = .unit low (g :: tail) := by
            simp only [unit16, hfour]
          have hrest := mem_of_unit16 hunit hhex (by simpa [hslash, hletter] using hmem)
          rw [Except.ok.injEq, Prod.mk.injEq] at h
          exact h.2 ▸ hrest
        · cases h
          exact hmem
    · cases h
      exact hmem
  · split at h <;> cases h <;> exact hmem

/-- **Read for itself**: what has no part in escapes is not lost in reading. -/
theorem mem_of_decodeFrom {opening : List Char} {fuel : Nat} (hc : isEscapePart c = false)
    (h : decodeFrom opening fuel s = .ok (text, rest)) (hmem : c ∈ s) : c ∈ text ∨ c ∈ rest := by
  obtain ⟨hslash, hletter, hshort, hhex⟩ := isEscapePart_eq_false.mp hc
  induction fuel generalizing s text with
  | zero => cases h
  | succ fuel ih =>
      rcases decodeFrom_cases h with ⟨rfl, rfl⟩ | ⟨d, s', text', rfl, -, -, -, hread, rfl⟩ |
        ⟨e, d, s', text', rfl, hescape, hread, rfl⟩ |
        ⟨t, high, s₁, d, s₂, text', rfl, -, hunit, hjoin, hread, rfl⟩
      · refine .inr ((List.mem_cons.mp hmem).resolve_left ?_)
        rintro rfl
        cases hshort
      · rcases List.mem_cons.mp hmem with rfl | hmem
        · exact .inl List.mem_cons_self
        · exact (ih hread hmem).imp_left (List.mem_cons_of_mem d)
      · have hne : c ≠ e := by
          rintro rfl
          cases hshort.symm.trans hescape
        have hmem : c ∈ s' := by simpa [hslash, hne] using hmem
        exact (ih hread hmem).imp_left (List.mem_cons_of_mem d)
      · have hmem : c ∈ t := by simpa [hslash, hletter] using hmem
        have hmem := mem_of_joinHalves hjoin hc (mem_of_unit16 hunit hhex hmem)
        exact (ih hread hmem).imp_left (List.mem_cons_of_mem d)

theorem delimited?_eq_some {q : Char} (h : delimited? q s = some (text, rest)) :
    s = text ++ rest := by
  fun_induction delimited? q s generalizing text with
  | case1 => cases h
  | case2 =>
      cases h
      rfl
  | case3 => cases h
  | case4 => cases h
  | case5 _ _ _ _ ih =>
      obtain ⟨⟨_, _⟩, hrest, ⟨⟩⟩ := Option.map_eq_some_iff.mp h
      rw [ih hrest, List.cons_append, List.cons_append]
  | case6 _ _ _ _ ih =>
      obtain ⟨⟨_, _⟩, hrest, ⟨⟩⟩ := Option.map_eq_some_iff.mp h
      rw [ih hrest, List.cons_append]

/-- A quoted text without its end is not passed over. -/
theorem delimited?_cut {front back : List Char} (h : encode s = front ++ back) :
    delimited? '"' front = none := by
  rw [Option.eq_none_iff_forall_not_mem]
  rintro ⟨text, rest⟩ hfound
  have hwhole := Expr.delimited?_append hfound (back ++ ['"'])
  rw [← List.append_assoc, ← h, delimited?_encode s []] at hwhole
  simp at hwhole

end Text

namespace Literal

variable {c : Char} {s : List Char} {name : String}

/-- A quoted text without its end is not read. -/
theorem wholeQuoted?_cut {front back : List Char} (h : Text.encode s = front ++ back) :
    wholeQuoted? ('"' :: front) = none := by
  rw [wholeQuoted?]
  split
  · rename_i text rest hread
    have hwhole := Json.readQuoted_extend hread (back ++ ['"'])
    have hquoted := Json.readQuoted_quoted (String.ofList s) []
    rw [String.toList_ofList, Text.quoted, List.append_nil, h, List.cons_append,
      List.append_assoc, hwhole] at hquoted
    simp at hquoted
  · rfl

/-- What a JSON string holds is kept where it has no part in escapes. -/
theorem mem_of_wholeQuoted? {q : Char} (h : wholeQuoted? (q :: s) = some name)
    (hpart : Text.isEscapePart c = false) (hspace : Json.isSpace c = false) (hmem : c ∈ s) :
    c ∈ name.toList := by
  rw [wholeQuoted?, Json.readQuoted] at h
  cases hread : Text.decode (q :: s) with
  | error stop => simp [hread] at h
  | ok found =>
      obtain ⟨text, rest⟩ := found
      simp only [hread, Option.ite_none_right_eq_some, List.isEmpty_iff, Option.some.injEq] at h
      obtain ⟨hrest, rfl⟩ := h
      rw [String.toList_ofList]
      refine (Text.mem_of_decodeFrom hpart hread hmem).resolve_right fun hc => ?_
      rw [Json.skipSpace, List.dropWhile_eq_nil_iff] at hrest
      exact Bool.false_ne_true (hspace.symm.trans (hrest c hc))

/-- What is between quotes is what is left without them. -/
theorem betweenQuotes?_eq_some {q : Char} {inner : List Char}
    (h : betweenQuotes? s = some (q, inner)) :
    s = q :: (inner ++ [q]) ∧ (q = '"' ∨ q = '\x27') := by
  rw [betweenQuotes?.eq_def] at h
  split at h
  · rename_i d tail
    split at h
    · rename_i hboth
      obtain ⟨hd, hlast⟩ := (Bool.and_eq_true _ _).mp hboth
      cases h
      have htail : tail.dropLast ++ [q] = tail :=
        List.dropLast_append_getLast? q (of_decide_eq_true hlast)
      exact ⟨by rw [htail], by simpa using hd⟩
    · cases h
  · cases h

/-- A quoted text stands for what is between its quotes, unless it is a JSON string. -/
theorem exists_of_unquote? (h : unquote? s = some name) :
    ∃ q inner, s = q :: (inner ++ [q]) ∧ (q = '"' ∨ q = '\x27') ∧
      (wholeQuoted? s = some name ∨ name = String.ofList inner) := by
  rw [unquote?] at h
  cases hbetween : betweenQuotes? s with
  | none =>
      rw [hbetween] at h
      cases h
  | some found =>
      obtain ⟨q, inner⟩ := found
      obtain ⟨hs, hq⟩ := betweenQuotes?_eq_some hbetween
      refine ⟨q, inner, hs, hq, ?_⟩
      simp only [hbetween] at h
      split at h
      · cases hwhole : wholeQuoted? s with
        | none =>
            rw [hwhole] at h
            exact .inr (Option.some.inj h).symm
        | some text =>
            rw [hwhole] at h
            exact .inl h
      · exact .inr (Option.some.inj h).symm

/-- What a quoted text without its end can still be read as has no other characters. -/
theorem unquote?_cut {front back : List Char} (h : Text.encode s = front ++ back)
    (hname : unquote? ('"' :: front) = some name) : ∀ c ∈ name.toList, c ∈ front := by
  obtain ⟨q, inner, hfront, -, hwhole | rfl⟩ := exists_of_unquote? hname
  · cases (wholeQuoted?_cut h).symm.trans hwhole
  · obtain ⟨rfl, rfl⟩ := List.cons.inj hfront
    rw [String.toList_ofList]
    exact fun c hc => List.mem_append_left _ hc

/-- **What quotes hold is kept** where it has no part in quoting. -/
theorem mem_of_unquote? (h : unquote? s = some name) (hpart : Text.isEscapePart c = false)
    (hquote : c ≠ '\x27') (hspace : Json.isSpace c = false) (hmem : c ∈ s) : c ∈ name.toList := by
  have hdouble : c ≠ '"' := by
    rintro rfl
    cases hpart
  obtain ⟨q, inner, rfl, hq, hwhole⟩ := exists_of_unquote? h
  have hne : c ≠ q := by rcases hq with rfl | rfl <;> assumption
  have hinner : c ∈ inner := by simpa [hne] using hmem
  rcases hwhole with hwhole | rfl
  · exact mem_of_wholeQuoted? hwhole hpart hspace (List.mem_append_left _ hinner)
  · rwa [String.toList_ofList]

end Literal

end Quarry
