import Quarry.Proofs.PlainPaths
import Quarry.Proofs.Segments

/-!
# Slices — arrays and texts cut in two

A slice up to an integer ends where the slice from that integer on begins (`Items.bound`), so the
two are the whole (`Items.slice_append_slice`).  Where the integer is an index at all, the slice
from it on begins with the item at the index (`Items.at?_eq_head?_slice`).

The rest is about the texts of these stages.  A numeral is read up to what comes next, a bracket or
a colon, and it is read back as the integer that it was written for (`Text.integerOf_intText`).
What stands in brackets is one stage, since there is no bar in it (`read_inBrackets`).
-/

namespace Quarry

/-! ### Items -/

namespace Items

variable {α : Type} {n : Int} {items : List α}

/-- A bound counts from the end if it is negative, and is cut off at both ends. -/
theorem bound_eq (length : Nat) (n : Int) :
    (bound length n : Int) = max 0 (min (if n < 0 then n + length else n) length) := by
  rw [bound]
  split <;> omega

theorem slice_until (items : List α) (n : Int) :
    slice items none (some n) = items.take (bound items.length n) := rfl

theorem slice_from (items : List α) (n : Int) :
    slice items (some n) none = items.drop (bound items.length n) := by
  rw [slice]
  exact congrArg (List.drop _) List.take_length

/-- **The two slices at an integer** are the whole. -/
theorem slice_append_slice (items : List α) (n : Int) :
    slice items none (some n) ++ slice items (some n) none = items := by
  rw [slice_until, slice_from]
  exact List.take_append_drop _ items

/-- The slice up to an integer has as many items as its bound says. -/
theorem length_slice_until (items : List α) (n : Int) :
    ((slice items none (some n)).length : Int) =
      max 0 (min (if n < 0 then n + items.length else n) items.length) := by
  have hle : bound items.length n ≤ items.length := Nat.min_le_left _ _
  rw [slice_until, List.length_take, Nat.min_eq_left hle, bound_eq]

/-- The integer leads to an item, from the front or from the end. -/
def InRange (length : Nat) (n : Int) : Prop :=
  -(length : Int) ≤ n ∧ n < length

/-- In range the place of an item is the remainder by the length. -/
theorem bound_of_inRange (h : InRange items.length n) :
    bound items.length n = (n % items.length).toNat ∧ (n % items.length).toNat < items.length := by
  obtain ⟨hlow, hhigh⟩ := h
  have hmod : n % items.length = if n < 0 then n + items.length else n := by
    split
    · rw [← Int.add_emod_right, Int.emod_eq_of_lt (by omega) (by omega)]
    · rw [Int.emod_eq_of_lt (by omega) hhigh]
  rw [bound, hmod]
  split <;> omega

theorem at?_of_inRange (h : InRange items.length n) :
    at? items n = items[(n % items.length).toNat]? := by
  obtain ⟨hbound, hlt⟩ := bound_of_inRange h
  obtain ⟨hlow, hhigh⟩ := h
  have hplace : (if n < 0 then n + items.length else n).toNat = (n % items.length).toNat := by
    rw [bound] at hbound
    split at hbound <;> split <;> omega
  rw [at?, if_neg (by split <;> omega), hplace]

/-- **An index in range** leads to what the slice from it on begins with. -/
theorem at?_eq_head?_slice (h : InRange items.length n) :
    at? items n = (slice items (some n) none).head? := by
  rw [at?_of_inRange h, slice_from, List.head?_drop, (bound_of_inRange h).1]

/-- **An index out of range** leads to nothing. -/
theorem at?_eq_none (h : ¬ InRange items.length n) : at? items n = none := by
  rw [InRange, not_and_or] at h
  rw [at?]
  split
  · rw [if_pos (by omega)]
  · rw [List.getElem?_eq_none (by omega)]

end Items

/-! ### Numerals -/

namespace Filter

variable {n : Int} {limit : Nat} {inner rest : List Char}

/-- **A written integer** is read up to what comes behind its digits. -/
theorem numeralAt?_intText (n : Int) (hrest : Stops Text.isDigit rest) :
    numeralAt? (Number.intText n ++ rest) = some (Number.intText n, rest) := by
  have hdigits : ∀ c ∈ Nat.toDigits 10 n.natAbs, Text.isDigit c = true :=
    Text.isDigit_of_allDigits (allDigits_toDigits _)
  have hne : Nat.toDigits 10 n.natAbs ≠ [] := Nat.toDigits_ne_nil
  rw [Number.intText]
  split
  · have hspan := span_append_of_stops hdigits hrest
    rw [List.cons_append, numeralAt?.eq_def]
    simp only [hspan]
    rfl
  · exact numeralAt?_append (Text.isNumeral_iff.mpr ⟨hne, hdigits⟩) hrest

/-- The characters of an integer are no quotes, no brackets and no blanks. -/
theorem intText_plain {c : Char} (hc : c ∈ Number.intText n) :
    c ∉ Text.marks ∧ Text.isBlank c = false := by
  rcases Number.mem_intText hc with rfl | hdigit
  · decide
  · have hdigit : Text.isDigit c = true := by
      rw [Text.isDigit, Text.digitValue?_of_isDigit hdigit]
      rfl
    exact ⟨Path.notMem_marks_of_isDigit hdigit, Path.isBlank_of_isDigit hdigit⟩

theorem intText_stops (n : Int) (s : List Char) : Stops Text.isBlank (Number.intText n ++ s) := by
  obtain ⟨c, t, hcons⟩ := List.exists_cons_of_ne_nil (Number.intText_ne_nil n)
  rw [hcons, List.cons_append]
  exact stops_cons.mpr (intText_plain (hcons ▸ List.mem_cons_self)).2

/-- A bound that is written. -/
theorem readBound_intText (h : (Number.int n).isWritable = true) :
    readBound (Number.intText n) = .ok (some n) := by
  rw [readBound, if_neg (by simpa using Number.intText_ne_nil n), Text.integerOf_intText h]
  rfl

/-! ### Stages in brackets -/

/-- A text in brackets. -/
def inBrackets (inner : List Char) : List Char :=
  '[' :: (inner ++ [']'])

/-- The text of the stage that finds the item at an integer. -/
def indexText (n : Int) : String :=
  String.ofList (inBrackets (Number.intText n))

/-- The text of the stage that cuts off everything from an integer on. -/
def untilText (n : Int) : String :=
  String.ofList (inBrackets (':' :: Number.intText n))

/-- The text of the stage that leaves everything from an integer on. -/
def fromText (n : Int) : String :=
  String.ofList (inBrackets (Number.intText n ++ [':']))

/-- No builtin begins with a bracket. -/
theorem builtin?_inBrackets (inner : List Char) : builtin? (inBrackets inner) = none := by
  have hname : ∀ b : Builtin, b.name.toList.head? ≠ some '[' := by
    intro b
    cases b <;> decide
  rw [builtin?, if_neg (by simp [inBrackets]), if_neg (by simp [inBrackets]), Builtin.ofName?,
    List.find?_eq_none]
  intro b _ hb
  have heq : b.name = String.ofList (inBrackets inner) := of_decide_eq_true hb
  refine hname b ?_
  rw [heq, String.toList_ofList]
  rfl

section Stages

variable (reader : List Char → Except Fault Filter)

theorem readStage_item (h : (Number.int n).isWritable = true) :
    readStage reader (inBrackets (Number.intText n)) = .ok (.index n) := by
  have hclosing : Stops Text.isDigit [']'] := stops_cons.mpr (by decide)
  have hnumeral := numeralAt?_intText n hclosing
  have hindex : indexText? (inBrackets (Number.intText n)) = some (Number.intText n) := by
    rw [inBrackets, indexText?]
    simp only [afterBracket?, dropWhile_of_stops (intText_stops n _), hnumeral]
    rfl
  rw [readStage, if_neg (by simp [inBrackets]), builtin?_inBrackets]
  simp only [hindex, Text.integerOf_intText h]
  rfl

theorem readStage_until (h : (Number.int n).isWritable = true) :
    readStage reader (inBrackets (':' :: Number.intText n)) = .ok (.slice none (some n)) := by
  have hclosing : Stops Text.isDigit [']'] := stops_cons.mpr (by decide)
  have hnumeral := numeralAt?_intText n hclosing
  have hindex : indexText? (inBrackets (':' :: Number.intText n)) = none := rfl
  have hslice : sliceText? (inBrackets (':' :: Number.intText n)) =
      some ([], Number.intText n) := by
    have hcolon (s : List Char) : (':' :: s).dropWhile Text.isBlank = ':' :: s := rfl
    have hnone (s : List Char) : numeralAt? (':' :: s) = none := rfl
    rw [inBrackets, sliceText?]
    simp only [List.cons_append, afterBracket?, hcolon, hnone, Option.getD_none,
      dropWhile_of_stops (intText_stops n _), hnumeral]
    rfl
  rw [readStage, if_neg (by simp [inBrackets]), builtin?_inBrackets]
  simp only [hindex, hslice, readBound_intText h]
  rfl

theorem readStage_from (h : (Number.int n).isWritable = true) :
    readStage reader (inBrackets (Number.intText n ++ [':'])) = .ok (.slice (some n) none) := by
  have hcolon : Stops Text.isDigit [':', ']'] := stops_cons.mpr (by decide)
  have hnumeral := numeralAt?_intText n hcolon
  have htext : inBrackets (Number.intText n ++ [':']) =
      '[' :: (Number.intText n ++ [':', ']']) := by
    rw [inBrackets, List.append_assoc]
    rfl
  have hindex : indexText? (inBrackets (Number.intText n ++ [':'])) = none := by
    rw [htext, indexText?]
    simp only [afterBracket?, dropWhile_of_stops (intText_stops n _), hnumeral]
    rfl
  have hslice : sliceText? (inBrackets (Number.intText n ++ [':'])) =
      some (Number.intText n, []) := by
    rw [htext, sliceText?]
    simp only [afterBracket?, dropWhile_of_stops (intText_stops n _), hnumeral, Option.getD_some]
    rfl
  rw [readStage, if_neg (by simp [inBrackets]), builtin?_inBrackets]
  simp only [hindex, hslice, readBound_intText h]
  rfl

end Stages

/-- **A stage in brackets** is a text on its own, if there are no quotes and no more brackets. -/
theorem read_inBrackets {stage : Stage} (hinner : ∀ c ∈ inner, c ∉ Text.marks)
    (hstage : readStage (readChain limit limit) (inBrackets inner) = .ok stage) :
    read limit (String.ofList (inBrackets inner)) = .ok [stage] := by
  have hplain : Text.Undivided '[' inner :=
    Text.undivided_of_forall fun c hc =>
      ⟨hinner c hc, fun heq => hinner c hc (heq ▸ (by decide))⟩
  have hundivided : Text.Undivided '|' (inBrackets inner) := by
    have hpair : ('[', ']') ∈ Text.bracketPairs := by decide
    have hbrackets : Text.Undivided '|' ('[' :: inner ++ [']'] ++ []) :=
      .brackets hpair hplain.balanced .nil
    rwa [List.append_nil] at hbrackets
  have htrim : Text.trim (inBrackets inner) = inBrackets inner :=
    Text.trim_of_trimmed (Text.trimmed_between (by decide) (by decide) inner)
  exact read_of_passes hundivided.passes htrim (List.cons_ne_nil _ _) hstage

theorem read_indexText (limit : Nat) (h : (Number.int n).isWritable = true) :
    read limit (indexText n) = .ok [.index n] :=
  read_inBrackets (fun _ hc => (intText_plain hc).1) (readStage_item _ h)

theorem read_untilText (limit : Nat) (h : (Number.int n).isWritable = true) :
    read limit (untilText n) = .ok [.slice none (some n)] :=
  read_inBrackets (List.forall_mem_cons.mpr ⟨by decide, fun _ hc => (intText_plain hc).1⟩)
    (readStage_until _ h)

theorem read_fromText (limit : Nat) (h : (Number.int n).isWritable = true) :
    read limit (fromText n) = .ok [.slice (some n) none] :=
  read_inBrackets (List.forall_mem_append.mpr
      ⟨fun _ hc => (intText_plain hc).1, List.forall_mem_singleton.mpr (by decide)⟩)
    (readStage_from _ h)

/-- The first item of what is left from an integer on. -/
theorem read_fromText_first (limit : Nat) (h : (Number.int n).isWritable = true) :
    read limit (fromText n ++ " | " ++ "first") =
      .ok [.slice (some n) none, .builtin .first] := by
  have hbracket : '[' ∈ (fromText n).toList := by simp [fromText, inBrackets]
  exact read_bar_padded (Text.trim_ne_nil_of_mem (by decide) hbracket) (by decide)
    (read_fromText limit h) rfl

/-! ### Cutting in two -/

/-- **Slices cut cleanly.**  What an integer cuts off an array or a text and what it leaves are the
whole, and the cut is at the integer, counted from the end if it is negative, or else at the nearer
end.  The item at an integer is the first of what the integer leaves; where the integer is not in
range there is none, and null is found. -/
theorem slices_join (limit : Nat) (hn : (Number.int n).isWritable = true) :
    (∀ items : List Value, ∃ front back : List Value,
      evaluate limit (untilText n) (.array items) = .ok (.array front) ∧
      evaluate limit (fromText n) (.array items) = .ok (.array back) ∧ front ++ back = items ∧
      (front.length : Int) =
        max 0 (min (if n < 0 then n + items.length else n) items.length)) ∧
    (∀ s : String, ∃ front back : String,
      evaluate limit (untilText n) (.string s) = .ok (.string front) ∧
      evaluate limit (fromText n) (.string s) = .ok (.string back) ∧ front ++ back = s ∧
      (front.length : Int) = max 0 (min (if n < 0 then n + s.length else n) s.length)) ∧
    ∀ items : List Value,
      (-(items.length : Int) ≤ n ∧ n < items.length → ∃ v,
        evaluate limit (indexText n) (.array items) = .ok v ∧
        evaluate limit (fromText n ++ " | " ++ "first") (.array items) = .ok v ∧
        items[(n % items.length).toNat]? = some v) ∧
      (¬ (-(items.length : Int) ≤ n ∧ n < items.length) →
        evaluate limit (indexText n) (.array items) = .ok .null) := by
  -- what the four texts do; the rest is about slices of lists
  have huntil (v : Value) :
      evaluate limit (untilText n) v = .ok (Stage.cut none (some n) v) := by
    rw [evaluate, read_untilText limit hn]
    rfl
  have hfrom (v : Value) :
      evaluate limit (fromText n) v = .ok (Stage.cut (some n) none v) := by
    rw [evaluate, read_fromText limit hn]
    rfl
  have hindex (items : List Value) :
      evaluate limit (indexText n) (.array items) = .ok ((Items.at? items n).getD .null) := by
    rw [evaluate, read_indexText limit hn]
    rfl
  have hfirst (items : List Value) :
      evaluate limit (fromText n ++ " | " ++ "first") (.array items) =
        .ok ((Items.slice items (some n) none).head?.getD .null) := by
    rw [evaluate, read_fromText_first limit hn]
    rfl
  refine ⟨fun items => ?_, fun s => ?_, fun items => ⟨fun hrange => ?_, fun hrange => ?_⟩⟩
  · exact ⟨_, _, huntil _, hfrom _, Items.slice_append_slice items n,
      Items.length_slice_until items n⟩
  · refine ⟨_, _, huntil _, hfrom _, ?_, ?_⟩
    · rw [← String.ofList_append, Items.slice_append_slice, String.ofList_toList]
    · rw [String.length_ofList, Items.length_slice_until, String.length_toList]
  · have hat := Items.at?_of_inRange hrange
    have hhead := Items.at?_eq_head?_slice hrange
    have hlt := (Items.bound_of_inRange hrange).2
    rw [List.getElem?_eq_getElem hlt] at hat
    refine ⟨_, hindex items, ?_, ?_⟩
    · rw [hfirst, hhead]
    · rw [hat, List.getElem?_eq_getElem hlt]
      rfl
  · rw [hindex, Items.at?_eq_none hrange]
    rfl

/-- Two from the end: of three items it is the second, a text of two characters is cut at its
front, and of one item it is out of range. -/
theorem slices_join_negative :
    let items : List Value := [.null, .bool true, .ofNat 7]
    (Number.int (-2)).isWritable = true ∧
      (∃ front back : List Value, evaluate 8 "[:-2]" (.array items) = .ok (.array front) ∧
        evaluate 8 "[-2:]" (.array items) = .ok (.array back) ∧ front ++ back = items ∧
        (front.length : Int) = 1) ∧
      (∃ front back : String, evaluate 8 "[:-2]" (.string "é𝄞") = .ok (.string front) ∧
        evaluate 8 "[-2:]" (.string "é𝄞") = .ok (.string back) ∧ front ++ back = "é𝄞" ∧
        (front.length : Int) = 0) ∧
      (evaluate 8 "[-2]" (.array items) = .ok (.bool true) ∧
        evaluate 8 "[-2:] | first" (.array items) = .ok (.bool true)) ∧
      evaluate 8 "[-2]" (.array [.null]) = .ok .null := by
  intro items
  have hn : (Number.int (-2)).isWritable = true := by
    rw [Number.isWritable, decide_eq_true_eq, Number.digitBound]
    exact (Nat.lt_pow_self (by decide)).trans_le' (by decide)
  have huntil : untilText (-2) = "[:-2]" := by decide
  have hfrom : fromText (-2) = "[-2:]" := by decide
  have hindex : indexText (-2) = "[-2]" := by decide
  have hfirst : "[-2:]" ++ " | " ++ "first" = "[-2:] | first" := by decide
  obtain ⟨harrays, htexts, hitems⟩ := slices_join 8 hn
  rw [huntil, hfrom] at harrays htexts
  rw [hfrom, hindex, hfirst] at hitems
  obtain ⟨v, hv, hhead, hplace⟩ := (hitems items).1 (by decide)
  cases hplace
  exact ⟨hn, harrays items, htexts "é𝄞", ⟨hv, hhead⟩, (hitems [.null]).2 (by decide)⟩

end Filter

end Quarry
