import Mathlib.Data.Char
import Quarry.Proofs.SortKeys
import Quarry.Step.Sorting

/-!
# Natural keys — texts as digits and what is between them

A text is cut into runs of digits and of other characters in turns (`Chunk.Alternates`), in one way
only (`Chunk.runs_eq`), and each run makes a part of the key.  So where two texts meet between runs,
their keys are put together (`Chunk.key_append`).  A run of digits that is too long for a numeral
makes no part, and nothing else fails to (`Chunk.key_isOk`).

Parts of different kinds never have to be compared beyond their kinds, so keys compare without
failing (`Chunk.sortKeys_compares`).  Their order turns round when the sides do, and it is
transitive (`Chunk.orderKeys_follows`); only equal keys tie.
-/

namespace Quarry

/-- Lists of characters compare as the texts they are. -/
theorem compare_ofList (s t : List Char) :
    compare (String.ofList s) (String.ofList t) = compare s t := by
  have hlist : s.compareLex compare t = compareOfLessAndEq s t := by
    induction s generalizing t with
    | nil => cases t <;> rfl
    | cons c s ih =>
        cases t with
        | nil => rfl
        | cons d t =>
            have hc : compare c d = compareOfLessAndEq c d := rfl
            simp only [List.compareLex_cons_cons, ih, hc, compareOfLessAndEq,
              List.cons_lt_cons_iff, List.cons.injEq]
            rcases lt_trichotomy c d with h | rfl | h
            · simp [h]
            · simp
            · simp [h.not_gt, h.ne']
  change compareOfLessAndEq (String.ofList s) (String.ofList t) = s.compareLex compare t
  rw [hlist]
  simp only [compareOfLessAndEq, String.lt_iff, ← String.toList_inj, String.toList_ofList]

namespace Chunk

variable {c d e : Chunk} {j k l : List Chunk}

/-! ### The order of keys -/

/-- A part as a sort key: digits come before texts. -/
def sortKey : Chunk → Key
  | number n => .list [.ofNat 0, .ofNat n]
  | text s => .list [.ofNat 1, .text (String.ofList s)]

theorem orderKeys_eq (k l : List Chunk) : orderKeys k l = k.compareLex order l := by
  induction k generalizing l with
  | nil => cases l <;> rfl
  | cons c k ih =>
      cases l with
      | nil => rfl
      | cons d l => rw [orderKeys, ih, List.compareLex_cons_cons]

theorem order_swap (c d : Chunk) : order d c = (order c d).swap := by
  cases c with
  | number m =>
      cases d with
      | number n => exact Std.OrientedOrd.eq_swap (a := n)
      | text t => rfl
  | text s =>
      cases d with
      | number n => rfl
      | text t => exact Std.OrientedOrd.eq_swap (a := t)

theorem order_follows (c d e : Chunk) : Follows (order c d) (order d e) (order c e) := by
  cases c <;> cases d <;> cases e
  case number.number.number => exact follows_compare _ _ _
  case text.text.text => exact follows_compare _ _ _
  case number.text.text => exact ⟨nofun, fun _ => rfl, fun _ => rfl⟩
  case number.number.text => exact ⟨fun _ => rfl, nofun, Eq.symm⟩
  case number.text.number => exact ⟨nofun, nofun, nofun⟩
  case text.number.number => exact ⟨nofun, fun _ => rfl, fun _ => rfl⟩
  case text.text.number => exact ⟨fun _ => rfl, nofun, Eq.symm⟩
  case text.number.text => exact ⟨nofun, nofun, nofun⟩

theorem order_eq_iff : order c d = .eq ↔ c = d := by
  cases c <;> cases d <;> simp [order]

theorem orderKeys_swap (k l : List Chunk) : orderKeys l k = (orderKeys k l).swap := by
  rw [orderKeys_eq, orderKeys_eq]
  exact compareLex_swap fun c _ d _ => order_swap c d

theorem orderKeys_follows (j k l : List Chunk) :
    Follows (orderKeys j k) (orderKeys k l) (orderKeys j l) := by
  rw [orderKeys_eq, orderKeys_eq, orderKeys_eq]
  exact compareLex_follows fun c _ d _ e _ => order_follows c d e

/-- Only equal keys tie. -/
theorem orderKeys_eq_iff : orderKeys k l = .eq ↔ k = l := by
  rw [orderKeys_eq, compareLex_eq_iff]
  simp only [order_eq_iff, List.forall₂_eq_eq_eq]

theorem sortKey_compares (c d : Chunk) : c.sortKey.Compares d.sortKey (order c d) := by
  cases c with
  | number m =>
      cases d with
      | number n => exact (Key.compares_ofNat 0 0).cons fun _ => (Key.compares_ofNat m n).single
      | text t =>
          have hnever : compare 0 1 = .eq →
            Key.Compares (.list [.ofNat m]) (.list [.text (String.ofList t)]) .eq := nofun
          exact (Key.compares_ofNat 0 1).cons hnever
  | text s =>
      cases d with
      | number n =>
          have hnever : compare 1 0 = .eq →
            Key.Compares (.list [.text (String.ofList s)]) (.list [.ofNat n]) .eq := nofun
          exact (Key.compares_ofNat 1 0).cons hnever
      | text t =>
          have htext := (Key.compares_text (String.ofList s) (String.ofList t)).single
          rw [compare_ofList] at htext
          exact (Key.compares_ofNat 1 1).cons fun _ => htext

/-- Comparing the keys part by part never fails, and comes out as their order. -/
theorem sortKeys_compares (k l : List Chunk) :
    Key.Compares (.list (k.map sortKey)) (.list (l.map sortKey)) (orderKeys k l) := by
  rw [orderKeys_eq]
  exact Key.compares_map fun c _ d _ => sortKey_compares c d

/-! ### Runs -/

/-- Runs of digits and of other characters in turns, beginning with digits if `digits` says so. -/
inductive Alternates : (digits : Bool) → List (List Char) → Prop where
  | nil (digits : Bool) : Alternates digits []
  | cons {digits : Bool} {run : List Char} {rest : List (List Char)} (hne : run ≠ [])
      (hrun : ∀ c ∈ run, Text.isDigit c = digits) (hrest : Alternates (!digits) rest) :
      Alternates digits (run :: rest)

theorem runs_flatten (s : List Char) : (runs s).flatten = s := by
  induction s with
  | nil => rfl
  | cons c s ih =>
      rw [runs]
      split
      · rename_i d run rest heq
        rw [heq] at ih
        split <;> simp [← ih]
      · rw [List.flatten_cons, ih, List.singleton_append]

/-- The first run begins with the first character. -/
theorem exists_runs_cons (c : Char) (s : List Char) :
    ∃ run rest, runs (c :: s) = (c :: run) :: rest := by
  rw [runs]
  split
  · split
    · exact ⟨_, _, rfl⟩
    · exact ⟨_, _, rfl⟩
  · exact ⟨_, _, rfl⟩

/-- A run ends where a character of the other kind follows. -/
theorem runs_append {s t : List Char}
    (h : ∀ c ∈ s.getLast?, ∀ d ∈ t.head?, Text.isDigit c ≠ Text.isDigit d) :
    runs (s ++ t) = runs s ++ runs t := by
  induction s with
  | nil => rfl
  | cons c s ih =>
      cases s with
      | nil =>
          cases t with
          | nil => rfl
          | cons d t =>
              obtain ⟨run, rest, hruns⟩ := exists_runs_cons d t
              have hborder := h c rfl d rfl
              rw [List.singleton_append, runs, hruns]
              simp only [if_neg hborder]
              rfl
      | cons d s =>
          obtain ⟨run, rest, hruns⟩ := exists_runs_cons d s
          have hrest := ih (by simpa using h)
          rw [hruns, List.cons_append, List.cons_append] at hrest
          rw [List.cons_append, List.cons_append, runs, hrest, runs, hruns]
          simp only
          split
          · rfl
          · rfl

/-- Digits and other characters meet between runs. -/
theorem border_of_kinds (digits : Bool) {s t : List Char}
    (hs : ∀ c ∈ s.getLast?, Text.isDigit c = digits)
    (ht : ∀ c ∈ t.head?, Text.isDigit c = !digits) :
    ∀ c ∈ s.getLast?, ∀ d ∈ t.head?, Text.isDigit c ≠ Text.isDigit d := by
  intro c hc d hd
  rw [hs c hc, ht d hd]
  cases digits <;> decide

/-- Characters of one kind are one run. -/
theorem runs_of_kind {digits : Bool} {run : List Char} (hne : run ≠ [])
    (hrun : ∀ c ∈ run, Text.isDigit c = digits) : runs run = [run] := by
  induction run with
  | nil => exact absurd rfl hne
  | cons c run ih =>
      obtain ⟨hc, hrun⟩ := List.forall_mem_cons.mp hrun
      cases run with
      | nil => rfl
      | cons d run =>
          rw [runs, ih (List.cons_ne_nil _ _) hrun]
          simp only [hc, hrun d List.mem_cons_self, ↓reduceIte]

theorem Alternates.head? {digits : Bool} {parts : List (List Char)} (h : Alternates digits parts) :
    ∀ c ∈ parts.flatten.head?, Text.isDigit c = digits := by
  intro c hc
  cases h with
  | nil => cases hc
  | cons hne hrun _ =>
      obtain ⟨d, t, rfl⟩ := List.exists_cons_of_ne_nil hne
      cases hc
      exact hrun c List.mem_cons_self

/-- **Runs in turns are the runs of the text they make.** -/
theorem runs_eq {digits : Bool} {parts : List (List Char)} (h : Alternates digits parts) :
    runs parts.flatten = parts := by
  induction h with
  | nil => rfl
  | @cons digits run rest hne hrun hrest ih =>
      have hborder := border_of_kinds digits (fun c hc => hrun c (List.mem_of_getLast? hc))
        hrest.head?
      rw [List.flatten_cons, runs_append hborder, runs_of_kind hne hrun, ih,
        List.singleton_append]

/-! ### Keys of texts -/

/-- A run of digits counts by its value. -/
theorem ofRun_digits {run : List Char} (hne : run ≠ []) (hrun : ∀ c ∈ run, Text.isDigit c = true)
    (hlength : run.length ≤ Number.digitLimit) :
    ofRun run = .ok (.number (Text.naturalOf run)) := by
  rw [ofRun, if_pos (Text.isNumeral_iff.mpr ⟨hne, hrun⟩), if_neg (Nat.not_lt.mpr hlength)]

/-- The key of two texts with a border between runs is that of the one and then that of the
other. -/
theorem key_append {s t : List Char}
    (h : ∀ c ∈ s.getLast?, ∀ d ∈ t.head?, Text.isDigit c ≠ Text.isDigit d) :
    key (String.ofList (s ++ t)) = (do
      let k ← key (String.ofList s)
      let l ← key (String.ofList t)
      return k ++ l) := by
  simp only [key, String.toList_ofList, runs_append h, List.mapM_append]

/-- The key of a text of runs in turns is made of their parts. -/
theorem key_eq {digits : Bool} {parts : List (List Char)} (h : Alternates digits parts) :
    key (String.ofList parts.flatten) = parts.mapM ofRun := by
  rw [key, String.toList_ofList, runs_eq h]

end Chunk

/-- No run of digits in the text is longer than numerals may be. -/
def Text.ShortRuns (s : List Char) : Prop :=
  ∀ run, run <:+: s → (∀ c ∈ run, isDigit c = true) → run.length ≤ Number.digitLimit

theorem Text.shortRuns_of_length {s : List Char} (h : s.length ≤ Number.digitLimit) :
    ShortRuns s :=
  fun _ hrun _ => hrun.length_le.trans h

namespace Chunk

theorem ofRun_isOk {run : List Char}
    (h : Text.isNumeral run = true → run.length ≤ Number.digitLimit) : ∃ c, ofRun run = .ok c := by
  rw [ofRun]
  by_cases hnumeral : Text.isNumeral run = true
  · rw [if_pos hnumeral, if_neg (Nat.not_lt.mpr (h hnumeral))]
    exact ⟨_, rfl⟩
  · rw [if_neg hnumeral]
    exact ⟨_, rfl⟩

/-- **A text without long runs of digits has a key.** -/
theorem key_isOk {s : String} (h : Text.ShortRuns s.toList) : ∃ k, key s = .ok k := by
  refine Result.mapM_isOk fun run hrun => ofRun_isOk fun hnumeral => h run ?_ ?_
  · have hinfix := List.infix_of_mem_flatten hrun
    rwa [runs_flatten] at hinfix
  · exact (Text.isNumeral_iff.mp hnumeral).2

end Chunk

end Quarry
