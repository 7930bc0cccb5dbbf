import Quarry.Proofs.Balance
import Quarry.Proofs.Dialects

/-!
# Segments — what a filter text is made of

A text is read as a chain if it can be cut at bars into segments of one stage each
(`Filter.readChain_eq_ok_iff`).  Of a segment only what is left without the blanks at its ends is
read.  Blanks around a text are around its first segment and its last, so they do not matter
(`Filter.readChain_padded`), and the bar between two texts may have blanks around it
(`Filter.read_bar_padded`).

A text that is read is balanced, since only such texts can be cut.  And it begins as its first stage
does, hence not with a brace (`Filter.head?_trim_ne_brace`).
-/

namespace Quarry

/-! ### Blanks around a text -/

namespace Text

variable {sep : Char} {s t : List Char} {parts : List (List Char)}

theorem Undivided.append (hs : Undivided sep s) (ht : Undivided sep t) :
    Undivided sep (s ++ t) := by
  induction hs with
  | nil => exact ht
  | char hc hsep _ ih => exact .char hc hsep ih
  | brackets hpair hs _ ih =>
      rw [List.append_assoc]
      exact .brackets hpair hs ih
  | quotes hq hs _ ih =>
      rw [List.append_assoc]
      exact .quotes hq hs ih

theorem undivided_of_blank (hsep : isBlank sep = false) (h : ∀ c ∈ s, isBlank c = true) :
    Undivided sep s := by
  have hmarks : ∀ c ∈ marks, isBlank c = false := chars_forall (by decide)
  refine undivided_of_forall fun c hc => ⟨fun hmem => ?_, fun heq => ?_⟩
  · cases (h c hc).symm.trans (hmarks c hmem)
  · cases (h c hc).symm.trans (heq ▸ hsep)

/-- What stands behind joined parts stands behind the last. -/
theorem intercalate_concat_append (done : List (List Char)) (last back : List Char) :
    [sep].intercalate (done ++ [last ++ back]) = [sep].intercalate (done ++ [last]) ++ back := by
  induction done with
  | nil => simp
  | cons part done ih =>
      cases done with
      | nil => simp [List.intercalate_cons_cons]
      | cons next done =>
          simp only [List.cons_append, List.intercalate_cons_cons, List.append_assoc] at ih ⊢
          rw [ih]

/-- Blanks in front of a text are in front of its first part. -/
theorem cutOutside_blank_append (hsep : sep ∉ marks) (hblank : isBlank sep = false)
    (hs : ∀ c ∈ s, isBlank c = true) (h : cutOutside [sep] t = .ok parts) :
    ∃ parts', cutOutside [sep] (s ++ t) = .ok parts' ∧ parts'.map trim = parts.map trim := by
  obtain ⟨hne, rfl, hundivided⟩ := (cutOutside_eq_ok_iff hsep).mp h
  obtain ⟨part, rest, rfl⟩ := List.exists_cons_of_ne_nil hne
  obtain ⟨hpart, hrest⟩ := List.forall_mem_cons.mp hundivided
  refine ⟨(s ++ part) :: rest, (cutOutside_eq_ok_iff hsep).mpr ⟨List.cons_ne_nil _ _,
    intercalate_append_cons s part, List.forall_mem_cons.mpr ⟨?_, hrest⟩⟩, ?_⟩
  · exact (undivided_of_blank hblank hs).append hpart
  · rw [List.map_cons, trim_blank_append hs, List.map_cons]

/-- Blanks behind a text are behind its last part. -/
theorem cutOutside_append_blank (hsep : sep ∉ marks) (hblank : isBlank sep = false)
    (ht : ∀ c ∈ t, isBlank c = true) (h : cutOutside [sep] s = .ok parts) :
    ∃ parts', cutOutside [sep] (s ++ t) = .ok parts' ∧ parts'.map trim = parts.map trim := by
  obtain ⟨hne, rfl, hundivided⟩ := (cutOutside_eq_ok_iff hsep).mp h
  obtain ⟨done, last, rfl⟩ := (List.eq_nil_or_concat' parts).resolve_left hne
  obtain ⟨hdone, hlast⟩ := List.forall_mem_append.mp hundivided
  refine ⟨done ++ [last ++ t], (cutOutside_eq_ok_iff hsep).mpr ⟨by simp,
    intercalate_concat_append done last t, List.forall_mem_append.mpr ⟨hdone, ?_⟩⟩, ?_⟩
  · rw [List.forall_mem_singleton] at hlast ⊢
    exact hlast.append (undivided_of_blank hblank ht)
  · simp only [List.map_append, List.map_cons, List.map_nil, trim_append_blank ht]

end Text

/-! ### Texts that are read -/

namespace Filter

variable {limit limit' levels : Nat} {s : List Char} {chain chain' : Filter}

/-- **Blanks around a text** do not matter. -/
theorem readChain_padded {front back : List Char} (hfront : ∀ c ∈ front, Text.isBlank c = true)
    (hback : ∀ c ∈ back, Text.isBlank c = true) (h : readChain limit levels s = .ok chain) :
    readChain limit levels (front ++ s ++ back) = .ok chain := by
  cases levels with
  | zero => cases h
  | succ levels =>
      obtain ⟨segments, hsegments, hchain⟩ := readChain_eq_ok_iff.mp h
      obtain ⟨segments', hsegments', htrim⟩ :=
        Text.cutOutside_blank_append (by decide) (by decide) hfront hsegments
      obtain ⟨padded, hpadded, htrim'⟩ :=
        Text.cutOutside_append_blank (by decide) (by decide) hback hsegments'
      exact readChain_eq_ok_iff.mpr ⟨padded, hpadded, (htrim'.trans htrim).symm ▸ hchain⟩

/-- A bar with blanks around it between two texts. -/
theorem read_bar_padded {first second : String} (hfirst : Text.trim first.toList ≠ [])
    (hsecond : Text.trim second.toList ≠ []) (hread : read limit first = .ok chain)
    (hread' : read limit second = .ok chain') :
    read limit (first ++ " | " ++ second) = .ok (chain ++ chain') := by
  have htext : (first ++ " | " ++ second).toList =
      ([] ++ first.toList ++ [' ']) ++ '|' :: ([' '] ++ second.toList ++ []) := by simp
  have hnone : ∀ c ∈ [], Text.isBlank c = true := List.forall_mem_nil _
  have hblank : ∀ c ∈ [' '], Text.isBlank c = true := chars_forall (by decide)
  have hbar : '|' ∈ (first ++ " | " ++ second).toList := by simp
  rw [read_eq_readChain hfirst] at hread
  rw [read_eq_readChain hsecond] at hread'
  rw [read_eq_readChain (Text.trim_ne_nil_of_mem (by decide) hbar), htext]
  exact readChain_bar (readChain_padded hnone hblank hread) (readChain_padded hblank hnone hread')

/-- The limit has no part in a chain, as only a fault names it. -/
theorem readChain_limit (h : readChain limit levels s = .ok chain) :
    readChain limit' levels s = .ok chain :=
  ((readChain_endsAlike (Nat.le_refl levels) s).of_ok h).1

theorem balanced_of_readChain (h : readChain limit levels s = .ok chain) : Text.Balanced s := by
  cases levels with
  | zero => cases h
  | succ levels =>
      obtain ⟨segments, hsegments, -⟩ := readChain_eq_ok_iff.mp h
      exact Text.balanced_of_cutFrom (Text.cutOutside_ok.mp hsegments)

theorem readStage_brace (reader : List Char → Except Fault Filter) (s : List Char) :
    readStage reader ('\x7b' :: s) =
      .error (.query (.filter (.unknownStage (String.ofList ('\x7b' :: s))))) := by
  have hbuiltin : builtin? ('\x7b' :: s) = none := builtin?_eq_none (by decide) List.mem_cons_self
  rw [readStage, if_neg (by simp), hbuiltin]
  rfl

/-- **No text that is read begins with a brace.** -/
theorem head?_trim_ne_brace (h : readChain limit levels s = .ok chain) :
    (Text.trim s).head? ≠ some '\x7b' := by
  cases levels with
  | zero => cases h
  | succ levels =>
      obtain ⟨segments, hsegments, hchain⟩ := readChain_eq_ok_iff.mp h
      obtain ⟨hne, rfl, -⟩ := (Text.cutOutside_eq_ok_iff (by decide)).mp hsegments
      obtain ⟨segment, rest, rfl⟩ := List.exists_cons_of_ne_nil hne
      obtain ⟨back, hback⟩ : segment <+: ['|'].intercalate (segment :: rest) := by
        cases rest with
        | nil => exact ⟨[], by simp⟩
        | cons next rest => exact ⟨_, by rw [List.intercalate_cons_cons, List.append_assoc]⟩
      rw [List.map_cons, List.forall₂_cons_left_iff] at hchain
      obtain ⟨stage, chain, ⟨htrim, hstage⟩, -, rfl⟩ := hchain
      intro hbrace
      -- the first segment is not blank, so it begins as the whole text does
      have hfirst : (Text.trim segment).head? = some '\x7b' := by
        obtain ⟨c, s, hs⟩ := List.exists_cons_of_ne_nil htrim
        have hc : segment.find? (!Text.isBlank ·) = some c := by
          rw [← Text.head?_trim, hs]
          rfl
        rw [← hback, Text.head?_trim, List.find?_append, hc] at hbrace
        rw [hs]
        exact hbrace
      obtain ⟨s, hs⟩ := List.head?_eq_some_iff.mp hfirst
      rw [hs, readStage_brace] at hstage
      cases hstage

end Filter

end Quarry
