import Quarry.Proofs.NaturalKeys

/-!
# Numbered texts — numbers inside texts count by their value

Digits between a text that does not end in a digit and one that does not begin with one are a run of
their own.  So the key of the whole is made of the key of the front, the value of the digits and the
key of the back (`Chunk.key_around`).  Zeros in front of a number do not change its value
(`Chunk.key_numbered`), and what two keys begin with in common does not count when they are compared
(`Chunk.orderKeys_append`).

Together this is the order of numbered texts (`Chunk.key_by_value`): after the same front, the
smaller number comes first, whatever stands behind the numbers and however many zeros in front of
them.
-/

namespace Quarry

/-! ### Texts beside a number -/

namespace Text

/-- A text that a number can follow: it does not end in a digit, and has no long run of digits. -/
structure BeforeNumber (s : List Char) : Prop where
  stops : Stops isDigit s.reverse
  short : ShortRuns s

/-- A text that can follow a number: it does not begin with a digit, and has no long run of
digits. -/
structure BehindNumber (s : List Char) : Prop where
  stops : Stops isDigit s
  short : ShortRuns s

/-- A zero of any script. -/
def IsZero (c : Char) : Prop :=
  digitValue? c = some 0

theorem isDigit_of_isZero {c : Char} (h : IsZero c) : isDigit c = true := by
  rw [isDigit, h]
  rfl

/-- Zeros at the front of a numeral do not count. -/
theorem naturalOf_zeros_append {zeros : List Char} (h : ∀ c ∈ zeros, IsZero c) (s : List Char) :
    naturalOf (zeros ++ s) = naturalOf s := by
  induction zeros with
  | nil => rfl
  | cons c zeros ih =>
      obtain ⟨hc, hzeros⟩ := List.forall_mem_cons.mp h
      have hfirst : naturalOf (c :: (zeros ++ s)) = naturalOf (zeros ++ s) := by
        rw [naturalOf, List.foldl_cons, hc]
        rfl
      exact hfirst.trans (ih hzeros)

end Text

namespace Chunk

variable {front digits back : List Char} {k l : List Chunk}

/-! ### Keys -/

/-- The key of a text with digits inside. -/
theorem key_around (hfront : Stops Text.isDigit front.reverse) (hback : Stops Text.isDigit back)
    (hne : digits ≠ []) (hdigits : ∀ c ∈ digits, Text.isDigit c = true)
    (hlength : digits.length ≤ Number.digitLimit)
    (hk : key (String.ofList front) = .ok k) (hl : key (String.ofList back) = .ok l) :
    key (String.ofList (front ++ digits ++ back)) =
      .ok (k ++ number (Text.naturalOf digits) :: l) := by
  have hfront' : ∀ c ∈ front.getLast?, Text.isDigit c = false := by
    rw [← List.head?_reverse]
    exact stops_iff_head?.mp hfront
  have hnumber : key (String.ofList digits) = .ok [number (Text.naturalOf digits)] := by
    rw [key, String.toList_ofList, runs_of_kind hne hdigits, List.mapM_cons,
      ofRun_digits hne hdigits hlength]
    rfl
  have hbehind : key (String.ofList (digits ++ back)) =
      .ok (number (Text.naturalOf digits) :: l) := by
    rw [key_append (border_of_kinds true
      (fun c hc => hdigits c (List.mem_of_getLast? hc)) (stops_iff_head?.mp hback)), hnumber, hl]
    rfl
  have hborder : ∀ c ∈ (digits ++ back).head?, Text.isDigit c = true := by
    intro c hc
    rw [List.head?_append_of_ne_nil _ hne] at hc
    exact hdigits c (List.mem_of_head? hc)
  rw [List.append_assoc, key_append (border_of_kinds false hfront' hborder), hk, hbehind]
  rfl

/-- The key of a text with a number inside, written with zeros in front or without. -/
theorem key_numbered (zeros : List Char) (n : Nat) (hfront : Text.BeforeNumber front)
    (hback : Text.BehindNumber back) (hzeros : ∀ c ∈ zeros, Text.IsZero c)
    (hlength : (zeros ++ Nat.toDigits 10 n).length ≤ Number.digitLimit)
    (hk : key (String.ofList front) = .ok k) (hl : key (String.ofList back) = .ok l) :
    key (String.ofList (front ++ (zeros ++ Nat.toDigits 10 n) ++ back)) =
      .ok (k ++ number n :: l) := by
  have hne : zeros ++ Nat.toDigits 10 n ≠ [] :=
    List.append_ne_nil_of_right_ne_nil _ Nat.toDigits_ne_nil
  have hdigits : ∀ c ∈ zeros ++ Nat.toDigits 10 n, Text.isDigit c = true :=
    List.forall_mem_append.mpr ⟨fun c hc => Text.isDigit_of_isZero (hzeros c hc),
      Text.isDigit_of_allDigits (allDigits_toDigits n)⟩
  rw [key_around hfront.stops hback.stops hne hdigits hlength hk hl,
    Text.naturalOf_zeros_append hzeros, Text.naturalOf_toDigits]

/-- What two keys begin with in common does not count. -/
theorem orderKeys_append (j k l : List Chunk) : orderKeys (j ++ k) (j ++ l) = orderKeys k l := by
  induction j with
  | nil => rfl
  | cons c j ih =>
      rw [List.cons_append, List.cons_append, orderKeys, order_eq_iff.mpr rfl]
      exact ih

/-- **Numbers inside texts count by their value.**  After the same front, the text with the smaller
number comes first, whatever follows the numbers.  Zeros in front of a number do not change the
key. -/
theorem key_by_value (hfront : Text.BeforeNumber front) :
    (∀ {m n : Nat} {s t : List Char}, m < n → n < Number.digitBound →
      Text.BehindNumber s → Text.BehindNumber t →
      ∃ k l, key (String.ofList (front ++ Nat.toDigits 10 m ++ s)) = .ok k ∧
        key (String.ofList (front ++ Nat.toDigits 10 n ++ t)) = .ok l ∧ orderKeys k l = .lt) ∧
    ∀ {n : Nat} {s zeros : List Char}, Text.BehindNumber s → (∀ c ∈ zeros, Text.IsZero c) →
      (zeros ++ Nat.toDigits 10 n).length ≤ Number.digitLimit →
      ∃ k, key (String.ofList (front ++ Nat.toDigits 10 n ++ s)) = .ok k ∧
        key (String.ofList (front ++ (zeros ++ Nat.toDigits 10 n) ++ s)) = .ok k := by
  have hkey {s : List Char} (hs : Text.ShortRuns s) : ∃ k, key (String.ofList s) = .ok k :=
    key_isOk (by rwa [String.toList_ofList])
  obtain ⟨j, hj⟩ := hkey hfront.short
  have hnumbered {n : Nat} {s : List Char} {k : List Chunk} (hs : Text.BehindNumber s)
      (hlength : (Nat.toDigits 10 n).length ≤ Number.digitLimit)
      (hk : key (String.ofList s) = .ok k) :
      key (String.ofList (front ++ Nat.toDigits 10 n ++ s)) = .ok (j ++ number n :: k) := by
    have hwhole := key_numbered [] n hfront hs (List.forall_mem_nil _) hlength hj hk
    rwa [List.nil_append] at hwhole
  constructor
  · intro m n s t hmn hn hs ht
    have hlength {n : Nat} (hn : n < Number.digitBound) :
        (Nat.toDigits 10 n).length ≤ Number.digitLimit :=
      (Nat.length_toDigits_le_iff (by decide) (by decide)).mpr hn
    obtain ⟨k, hk⟩ := hkey hs.short
    obtain ⟨l, hl⟩ := hkey ht.short
    refine ⟨_, _, hnumbered hs (hlength (hmn.trans hn)) hk, hnumbered ht (hlength hn) hl, ?_⟩
    rw [orderKeys_append, orderKeys, order, Nat.compare_eq_lt.mpr hmn]
    rfl
  · intro n s zeros hs hzeros hlength
    have hshort : (Nat.toDigits 10 n).length ≤ Number.digitLimit := by
      rw [List.length_append] at hlength
      exact Nat.le_of_add_left_le hlength
    obtain ⟨k, hk⟩ := hkey hs.short
    exact ⟨_, hnumbered hs hshort hk, key_numbered zeros n hfront hs hzeros hlength hj hk⟩

/-- Nine and ten behind another number, and zeros of two scripts in front of the nine. -/
theorem key_by_value_version :
    let front := ['v', '1', '.']
    let s := ['.', '7']
    let t := ['a']
    let zeros := ['0', '\u0660']
    (Text.BeforeNumber front ∧ 9 < 10 ∧ 10 < Number.digitBound ∧ Text.BehindNumber s ∧
      Text.BehindNumber t ∧ (∀ c ∈ zeros, Text.IsZero c) ∧
      (zeros ++ Nat.toDigits 10 9).length ≤ Number.digitLimit) ∧
    ∃ k l, key "v1.9.7" = .ok k ∧ key "v1.10a" = .ok l ∧ orderKeys k l = .lt ∧
      key "v1.0\u06609.7" = .ok k := by
  intro front s t zeros
  have hfront : Text.BeforeNumber front :=
    ⟨stops_cons.mpr (by decide), Text.shortRuns_of_length (by decide)⟩
  have hs : Text.BehindNumber s :=
    ⟨stops_cons.mpr (by decide), Text.shortRuns_of_length (by decide)⟩
  have ht : Text.BehindNumber t :=
    ⟨stops_cons.mpr (by decide), Text.shortRuns_of_length (by decide)⟩
  have hbound : 10 ^ 1 < Number.digitBound := Nat.pow_lt_pow_right (by decide) (by decide)
  have hzeros : ∀ c ∈ ['0', '\u0660'], Text.IsZero c :=
    List.forall_mem_cons.mpr ⟨rfl, List.forall_mem_singleton.mpr rfl⟩
  have hlength : (zeros ++ Nat.toDigits 10 9).length ≤ Number.digitLimit := by decide
  obtain ⟨horder, hpadded⟩ := key_by_value hfront
  obtain ⟨k, l, hk, hl, hlt⟩ := horder (by decide : 9 < 10) hbound hs ht
  obtain ⟨k', hk', hzero⟩ := hpadded hs hzeros hlength
  cases hk.symm.trans hk'
  exact ⟨⟨hfront, by decide, hbound, hs, ht, hzeros, hlength⟩, k, l, hk, hl, hlt, hzero⟩

end Chunk

end Quarry
