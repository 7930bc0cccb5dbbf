import Mathlib.Data.List.Basic
import Mathlib.Data.List.TakeDrop
import Mathlib.Data.List.TakeWhile
import Quarry.Text.Class
import Quarry.Text.Cut

/-!
# Scanning — the front of a text

A reader takes the characters it wants and leaves the rest.  What it leaves begins with none of
them, which `Stops` says.  Trimming and plain cutting are described in the same terms: a text
without blanks at its ends stays as it is, and a text is cut after the part in which the needle
cannot begin.
-/

namespace Quarry

/-- The text does not begin with a character of the kind. -/
def Stops (p : Char → Bool) (s : List Char) : Prop :=
  ∀ c t, s = c :: t → p c = false

@[simp] theorem stops_nil {p : Char → Bool} : Stops p [] :=
  nofun

@[simp] theorem stops_cons {p : Char → Bool} {c : Char} {s : List Char} :
    Stops p (c :: s) ↔ p c = false :=
  ⟨fun h => h c s rfl, fun h _ _ hcons => (List.cons.inj hcons).1 ▸ h⟩

theorem stops_iff_head? {p : Char → Bool} {s : List Char} :
    Stops p s ↔ ∀ c ∈ s.head?, p c = false := by
  cases s <;> simp

instance (p : Char → Bool) : DecidablePred (Stops p)
  | [] => .isTrue stops_nil
  | _ :: _ => decidable_of_iff _ stops_cons.symm

theorem Stops.mono {p q : Char → Bool} {s : List Char} (h : Stops p s)
    (hpq : ∀ c, q c = true → p c = true) : Stops q s := by
  intro c t hs
  have := h c t hs
  by_contra hq
  rw [hpq c (Bool.not_eq_false _ ▸ hq)] at this
  cases this

theorem dropWhile_of_stops {p : Char → Bool} {s : List Char} (h : Stops p s) :
    s.dropWhile p = s := by
  cases s with
  | nil => rfl
  | cons c s => rw [List.dropWhile_cons, stops_cons.mp h, if_neg Bool.false_ne_true]

theorem dropWhile_append_of_stops {p : Char → Bool} {s t : List Char} (hs : ∀ c ∈ s, p c = true)
    (ht : Stops p t) : (s ++ t).dropWhile p = t := by
  rw [List.dropWhile_append_of_pos hs, dropWhile_of_stops ht]

/-- A text is characters of a kind and then a text that does not begin with one. -/
theorem exists_front (p : Char → Bool) (s : List Char) :
    ∃ front rest, s = front ++ rest ∧ (∀ c ∈ front, p c = true) ∧ Stops p rest := by
  refine ⟨s.takeWhile p, s.dropWhile p, List.takeWhile_append_dropWhile.symm,
    fun c hc => List.mem_takeWhile_imp hc, fun c t hrest => ?_⟩
  simpa [hrest] using List.head?_dropWhile_not p s

/-- A span takes the characters of its kind, and no more. -/
theorem span_append_of_stops {p : Char → Bool} {s t : List Char} (hs : ∀ c ∈ s, p c = true)
    (ht : Stops p t) : (s ++ t).span p = (s, t) := by
  rw [List.span_eq_takeWhile_dropWhile, dropWhile_append_of_stops hs ht]
  congr 1
  have := List.takeWhile_append_dropWhile (p := p) (l := s ++ t)
  rw [dropWhile_append_of_stops hs ht] at this
  exact List.append_cancel_right this

/-- What stands behind a text is not reached if it begins with no character of the kind. -/
theorem dropWhile_append_tail {p : Char → Bool} (s : List Char) {t : List Char} (ht : Stops p t) :
    (s ++ t).dropWhile p = s.dropWhile p ++ t := by
  induction s with
  | nil => exact dropWhile_of_stops ht
  | cons c s ih =>
      rw [List.cons_append, List.dropWhile_cons, List.dropWhile_cons]
      split
      · exact ih
      · rfl

/-- The same for a span. -/
theorem span_append_tail {p : Char → Bool} (s : List Char) {t : List Char} (ht : Stops p t) :
    (s ++ t).span p = ((s.span p).1, (s.span p).2 ++ t) := by
  have htake : (s ++ t).takeWhile p = s.takeWhile p := by
    have hparts : (s ++ t).takeWhile p ++ (s.dropWhile p ++ t) =
        s.takeWhile p ++ (s.dropWhile p ++ t) := by
      rw [← dropWhile_append_tail s ht, List.takeWhile_append_dropWhile,
        dropWhile_append_tail s ht, ← List.append_assoc, List.takeWhile_append_dropWhile]
    exact List.append_cancel_right hparts
  rw [List.span_eq_takeWhile_dropWhile, List.span_eq_takeWhile_dropWhile, htake,
    dropWhile_append_tail s ht]

/-- A property of every ASCII character, checked one by one. -/
theorem ascii_forall {p : Char → Prop} (h : ∀ n < 128, p (Char.ofNat n)) {c : Char}
    (hc : c.toNat < 128) : p c := by
  have := h c.toNat hc
  rwa [Char.ofNat_toNat] at this

/-- A property of the characters of a text, checked one by one. -/
theorem chars_forall {p : Char → Prop} [DecidablePred p] {s : List Char}
    (h : (s.all fun c => decide (p c)) = true) : ∀ c ∈ s, p c :=
  fun c hc => of_decide_eq_true (List.all_eq_true.mp h c hc)

namespace Text

/-! ### Trimming -/

/-- A text without blanks at its ends. -/
def Trimmed (s : List Char) : Prop :=
  Stops isBlank s ∧ Stops isBlank s.reverse

instance (s : List Char) : Decidable (Trimmed s) :=
  inferInstanceAs (Decidable (_ ∧ _))

theorem trim_of_trimmed {s : List Char} (h : Trimmed s) : trim s = s := by
  rw [trim, trimLeft, dropWhile_of_stops h.1, trimRight, dropWhile_of_stops h.2,
    List.reverse_reverse]

/-- A text that begins and ends in trimmed texts is trimmed. -/
theorem Trimmed.append {s t : List Char} (hs : Trimmed s) (ht : Trimmed t) (hs' : s ≠ [])
    (ht' : t ≠ []) (middle : List Char) : Trimmed (s ++ middle ++ t) := by
  obtain ⟨c, s', rfl⟩ := List.exists_cons_of_ne_nil hs'
  obtain ⟨d, t', hd⟩ := List.exists_cons_of_ne_nil (List.reverse_ne_nil_iff.mpr ht')
  refine ⟨stops_cons.mpr (stops_cons.mp hs.1), ?_⟩
  have hlast := ht.2
  rw [hd] at hlast
  rw [List.reverse_append, hd]
  exact stops_cons.mpr (stops_cons.mp hlast)

/-- A text between two characters that are no blanks is trimmed. -/
theorem trimmed_between {c d : Char} (hc : isBlank c = false) (hd : isBlank d = false)
    (s : List Char) : Trimmed (c :: (s ++ [d])) := by
  refine ⟨stops_cons.mpr hc, ?_⟩
  rw [List.reverse_cons, List.reverse_append]
  exact stops_cons.mpr hd

theorem trimmed_of_forall {s : List Char} (h : ∀ c ∈ s, isBlank c = false) : Trimmed s := by
  constructor <;> rintro c t hs
  · exact h c (hs ▸ List.mem_cons_self)
  · exact h c (List.mem_reverse.mp (hs ▸ List.mem_cons_self))

/-- One blank is skipped. -/
theorem dropWhile_blank {s : List Char} (h : Stops isBlank s) :
    (' ' :: s).dropWhile isBlank = s :=
  dropWhile_append_of_stops (s := [' ']) (chars_forall (by decide)) h

/-- Nothing is left of a text of blanks, and of no other. -/
theorem trim_eq_nil_iff {s : List Char} : trim s = [] ↔ ∀ c ∈ s, isBlank c = true := by
  rw [trim, trimRight, List.reverse_eq_nil_iff, List.dropWhile_eq_nil_iff]
  simp only [List.mem_reverse]
  constructor
  · intro h c hc
    rw [← List.takeWhile_append_dropWhile (p := isBlank) (l := s)] at hc
    exact (List.mem_append.mp hc).elim List.mem_takeWhile_imp (h c)
  · exact fun h c hc => h c (List.dropWhile_subset _ hc)

theorem trim_append_ne_nil {s : List Char} (h : trim s ≠ []) (t : List Char) :
    trim (s ++ t) ≠ [] := fun hnil =>
  h (trim_eq_nil_iff.mpr fun c hc => trim_eq_nil_iff.mp hnil c (List.mem_append_left t hc))

/-- Blanks at the front are trimmed. -/
theorem trim_blank_append {s t : List Char} (hs : ∀ c ∈ s, isBlank c = true) :
    trim (s ++ t) = trim t := by
  rw [trim, trimLeft, List.dropWhile_append_of_pos hs, trim, trimLeft]

theorem trimRight_prefix (s : List Char) : trimRight s <+: s := by
  rw [trimRight, ← List.reverse_suffix, List.reverse_reverse]
  exact List.dropWhile_suffix _

/-- What is in front of a text that is trimmed on the right stays if it is no blank. -/
theorem trimRight_cons {c : Char} (hc : isBlank c = false) (s : List Char) :
    trimRight (c :: s) = c :: trimRight s := by
  have htail : (s.reverse ++ [c]).dropWhile isBlank = s.reverse.dropWhile isBlank ++ [c] :=
    dropWhile_append_tail s.reverse (stops_cons.mpr hc)
  rw [trimRight, List.reverse_cons, htail, List.reverse_append]
  rfl

/-- Trimming a text that does not begin with a blank. -/
theorem trim_cons {c : Char} (hc : isBlank c = false) (s : List Char) :
    trim (c :: s) = c :: trimRight s := by
  rw [trim, trimLeft, dropWhile_of_stops (stops_cons.mpr hc), trimRight_cons hc]

/-- Blanks at the end are trimmed. -/
theorem trim_append_blank {s t : List Char} (ht : ∀ c ∈ t, isBlank c = true) :
    trim (s ++ t) = trim s := by
  rw [trim, trim, trimLeft, List.dropWhile_append]
  split
  · rename_i hs
    have hleft : trimLeft s = [] := List.isEmpty_iff.mp hs
    rw [hleft, List.dropWhile_eq_nil_iff.mpr ht]
  · rw [trimRight, List.reverse_append,
      List.dropWhile_append_of_pos fun c hc => ht c (List.mem_reverse.mp hc)]
    rfl

theorem trim_ne_nil_of_mem {s : List Char} {c : Char} (hc : isBlank c = false) (h : c ∈ s) :
    trim s ≠ [] := by
  intro hnil
  cases hc.symm.trans (trim_eq_nil_iff.mp hnil c h)

/-- Trimming takes blanks off both ends. -/
theorem exists_trim (s : List Char) :
    ∃ front back, s = front ++ trim s ++ back ∧ (∀ c ∈ front, isBlank c = true) ∧
      ∀ c ∈ back, isBlank c = true := by
  obtain ⟨front, rest, rfl, hfront, hrest⟩ := exists_front isBlank s
  obtain ⟨back, middle, hmiddle, hback, hstops⟩ := exists_front isBlank rest.reverse
  have hsplit : rest = middle.reverse ++ back.reverse := by
    rw [← List.reverse_append, ← hmiddle, List.reverse_reverse]
  have htrim : trim (front ++ rest) = middle.reverse := by
    rw [trim_blank_append hfront, trim, trimLeft, dropWhile_of_stops hrest, trimRight, hmiddle,
      dropWhile_append_of_stops hback hstops]
  refine ⟨front, back.reverse, ?_, hfront, fun c hc => hback c (List.mem_reverse.mp hc)⟩
  rw [htrim, List.append_assoc, ← hsplit]

/-- Trimming keeps what is no blank. -/
theorem mem_of_trim {s : List Char} {c : Char} (hc : isBlank c = false) (hmem : c ∈ s) :
    c ∈ trim s := by
  obtain ⟨front, back, heq, hfront, hback⟩ := exists_trim s
  rw [heq, List.mem_append, List.mem_append] at hmem
  rcases hmem with (hmem | hmem) | hmem
  · cases hc.symm.trans (hfront c hmem)
  · exact hmem
  · cases hc.symm.trans (hback c hmem)

theorem trim_subset (s : List Char) : trim s ⊆ s := by
  intro c hc
  obtain ⟨front, back, heq, -⟩ := exists_trim s
  rw [heq]
  exact List.mem_append_left back (List.mem_append_right front hc)

/-- A trimmed text is trimmed. -/
theorem trim_trim (s : List Char) : trim (trim s) = trim s := by
  obtain ⟨front, back, heq, hfront, hback⟩ := exists_trim s
  calc trim (trim s) = trim (front ++ trim s ++ back) := by
        rw [trim_append_blank hback, trim_blank_append hfront]
    _ = trim s := by rw [← heq]

/-- What is left of a text begins with its first character that is not a blank. -/
theorem head?_trim (s : List Char) : (trim s).head? = s.find? (!isBlank ·) := by
  have hleft : s.find? (!isBlank ·) = (trimLeft s).head? := List.find?_not_eq_head?_dropWhile _ s
  rw [hleft, trim]
  cases hs : trimLeft s with
  | nil => rfl
  | cons c rest =>
      have hc : isBlank c = false := by
        simpa using List.find?_some (hleft.trans (congrArg List.head? hs))
      rw [trimRight, List.reverse_cons, List.dropWhile_append]
      split <;> simp [hc]

/-! ### Cutting -/

/-- A needle with a character that the text lacks does not occur. -/
theorem cutFirst?_eq_none {needle s : List Char} {c : Char} (hc : c ∈ needle) (hs : c ∉ s) :
    cutFirst? needle s = none := by
  induction s with
  | nil =>
      rw [cutFirst?, if_neg]
      intro h
      rw [List.isEmpty_iff.mp h] at hc
      cases hc
  | cons d s ih =>
      rw [cutFirst?]
      split
      · rename_i rest h
        have hfound : needle ++ rest = d :: s := List.isPrefixOf?_eq_some_iff_append_eq.mp h
        exact absurd (hfound ▸ List.mem_append_left rest hc) hs
      · rw [ih (fun h => hs (List.mem_cons_of_mem d h)), Option.map_none]

/-- A needle is found behind a part without its first character. -/
theorem cutFirst?_append {c : Char} {s : List Char} (hs : c ∉ s) (needle rest : List Char) :
    cutFirst? (c :: needle) (s ++ (c :: needle ++ rest)) = some (s, rest) := by
  induction s with
  | nil =>
      have h : (c :: needle).isPrefixOf? (c :: needle ++ rest) = some rest :=
        List.isPrefixOf?_eq_some_iff_append_eq.mpr rfl
      rw [List.nil_append]
      rw [List.cons_append] at h ⊢
      rw [cutFirst?, h]
  | cons d s ih =>
      rw [List.mem_cons, not_or] at hs
      have h : (c :: needle).isPrefixOf? (d :: (s ++ (c :: needle ++ rest))) = none := by
        rw [List.isPrefixOf?, if_neg]
        simpa using hs.1
      rw [List.cons_append, cutFirst?, h, ih hs.2]
      rfl

/-- What occurs in a text is a run of its characters. -/
theorem occurs_iff {needle s : List Char} : occurs needle s = true ↔ needle <:+: s := by
  rw [occurs]
  induction s with
  | nil => cases needle <;> simp [cutFirst?]
  | cons c s ih =>
      rw [List.infix_cons_iff, cutFirst?]
      cases hfound : needle.isPrefixOf? (c :: s) with
      | some rest =>
          have hfront : needle <+: c :: s :=
            ⟨rest, List.isPrefixOf?_eq_some_iff_append_eq.mp hfound⟩
          simp [hfront]
      | none =>
          have hfront : ¬ needle <+: c :: s := by
            rintro ⟨rest, hrest⟩
            rw [List.isPrefixOf?_eq_some_iff_append_eq.mpr hrest] at hfound
            cases hfound
          simpa [hfront] using ih

end Text

end Quarry
