import Quarry.Proofs.NaturalSort
import Quarry.Proofs.Places

/-!
# Sorting integers — by the text of a number

The natural key of an integer that is not negative is the integer.  The minus sign of a negative one
is a text before its digits: such integers come after all others, and of two of them the greater
magnitude comes later (`SignLast`).  So a sort by integers is in numeric order where none is
negative, and otherwise only if they are all equal.
-/

namespace Quarry

namespace Chunk

/-- The natural key of an integer. -/
def intKey (n : Int) : List Chunk :=
  if n < 0 then [.text ['-'], .number n.natAbs] else [.number n.natAbs]

/-- An integer comes before another one: those that are not negative by value, and then the
negative ones by magnitude. -/
def SignLast (m n : Int) : Prop :=
  (0 ≤ m ∧ n < 0) ∨ (0 ≤ m ∧ m ≤ n) ∨ (n ≤ m ∧ m < 0)

theorem ofRun_toDigits {n : Nat} (hn : n < Number.digitBound) :
    ofRun (Nat.toDigits 10 n) = .ok (.number n) := by
  have hlength : (Nat.toDigits 10 n).length ≤ Number.digitLimit :=
    (Nat.length_toDigits_le_iff (by decide) (by decide)).mpr hn
  rw [ofRun_digits Nat.toDigits_ne_nil (Text.isDigit_of_allDigits (allDigits_toDigits n)) hlength,
    Text.naturalOf_toDigits]

theorem key_intText {n : Int} (hn : n.natAbs < Number.digitBound) :
    key (String.ofList (Number.intText n)) = .ok (intKey n) := by
  have hdigits : Alternates true [Nat.toDigits 10 n.natAbs] :=
    .cons Nat.toDigits_ne_nil (Text.isDigit_of_allDigits (allDigits_toDigits _)) (.nil _)
  rw [Number.intText, intKey]
  split
  · have hsigned : Alternates false [['-'], Nat.toDigits 10 n.natAbs] :=
      .cons (List.cons_ne_nil _ _) (by simp; decide) hdigits
    have hkey := key_eq hsigned
    have hsign : ofRun ['-'] = .ok (.text ['-']) := by decide
    rw [List.mapM_cons, List.mapM_cons, hsign, ofRun_toDigits hn] at hkey
    simpa using hkey
  · have hkey := key_eq hdigits
    rw [List.mapM_cons, ofRun_toDigits hn] at hkey
    simpa using hkey

theorem orderKeys_intKey {m n : Int} :
    orderKeys (intKey m) (intKey n) ≠ .gt ↔ SignLast m n := by
  have hnumber (j k : Nat) : compare j k ≠ .gt ↔ j ≤ k := by
    rw [ne_eq, compare_gt_iff_gt, Nat.not_lt]
  rw [intKey, intKey, SignLast]
  by_cases hm : m < 0
  · by_cases hn : n < 0
    · have horder : orderKeys [.text ['-'], .number m.natAbs] [.text ['-'], .number n.natAbs] =
          compare m.natAbs n.natAbs := by
        simp [orderKeys, order]
      rw [if_pos hm, if_pos hn, horder, hnumber]
      omega
    · have horder : orderKeys [.text ['-'], .number m.natAbs] [.number n.natAbs] = .gt := rfl
      rw [if_pos hm, if_neg hn, horder, iff_false_left (by simp)]
      omega
  · by_cases hn : n < 0
    · have horder : orderKeys [.number m.natAbs] [.text ['-'], .number n.natAbs] = .lt := rfl
      rw [if_neg hm, if_pos hn, horder, iff_true_left (by decide)]
      omega
    · have horder : orderKeys [.number m.natAbs] [.number n.natAbs] =
          compare m.natAbs n.natAbs := by
        simp [orderKeys, order]
      rw [if_neg hm, if_neg hn, horder, hnumber]
      omega

end Chunk

/-- The integer under a name, zero if there is none. -/
def Value.integerUnder (name : String) (v : Value) : Int :=
  match v.member? name with
  | some (.number (.int n)) => n
  | _ => 0

namespace Sorting

variable {name : String} {item : Value} {n : Int}

/-- An item is sorted by the integer under a name if the integer can be written. -/
theorem itemKey_int (h : item.member? name = some (.number (.int n))) :
    itemKey [.field name] item =
      if (item.integerUnder name).natAbs < Number.digitBound then
        .ok (Chunk.intKey (item.integerUnder name))
      else .error (.number .longInteger) := by
  have hn : item.integerUnder name = n := by rw [Value.integerUnder, h]
  have hresolve : Path.resolve [.field name] item false = some (.number (.int n)) := by
    cases item with
    | object members =>
        have hfound : Members.find? members name = some (.number (.int n)) := h
        simp [Path.resolve, Path.hasWildcard, Path.follow, Segment.follow, hfound]
    | _ => cases h
  rw [itemKey, hresolve, hn]
  simp only [Operand.text, Value.text, Number.isWritable, Number.textWith, decide_eq_true_eq]
  split
  · rw [Result.bind_ok, Chunk.key_intText ‹_›]
  · rfl

theorem signLast_of_before {descending : Bool} {m n : Int}
    (h : before descending (Chunk.intKey m) (Chunk.intKey n) = true) :
    if descending then Chunk.SignLast n m else Chunk.SignLast m n := by
  cases descending with
  | false => exact Chunk.orderKeys_intKey.mp (of_decide_eq_true h)
  | true =>
      rw [before_swap] at h
      exact Chunk.orderKeys_intKey.mp (of_decide_eq_true h)

end Sorting

/-! ### Numeric order -/

theorem Chunk.SignLast.le_iff {m n : Int} (h : SignLast m n) :
    m ≤ n ↔ (0 ≤ m ∧ 0 ≤ n) ∨ m = n := by
  rw [SignLast] at h
  omega

section Numeric

variable {α : Type} {valueOf : α → Int} {items : List α}

/-- Where any two integers are both not negative or equal, none is negative or all are equal. -/
theorem pairwise_nonneg_or_eq :
    (items.Pairwise fun a b => (0 ≤ valueOf a ∧ 0 ≤ valueOf b) ∨ valueOf a = valueOf b) ↔
      (∀ a ∈ items, 0 ≤ valueOf a) ∨ ∀ a ∈ items, ∀ b ∈ items, valueOf a = valueOf b := by
  constructor
  · intro h
    have hflip : items.Pairwise
        (flip fun a b => (0 ≤ valueOf a ∧ 0 ≤ valueOf b) ∨ valueOf a = valueOf b) :=
      h.imp fun hab => hab.imp And.symm Eq.symm
    have hall : ∀ a ∈ items, ∀ b ∈ items,
        (0 ≤ valueOf a ∧ 0 ≤ valueOf b) ∨ valueOf a = valueOf b := fun a ha b hb =>
      h.forall_of_forall_of_flip (fun _ _ => .inr rfl) hflip ha hb
    by_cases hnegative : ∃ c ∈ items, valueOf c < 0
    · obtain ⟨c, hc, hneg⟩ := hnegative
      refine .inr fun a ha b hb => ?_
      have hca := hall c hc a ha
      have hcb := hall c hc b hb
      omega
    · refine .inl fun a ha => ?_
      by_contra hneg
      exact hnegative ⟨a, ha, Int.not_le.mp hneg⟩
  · rintro (h | h)
    · exact List.pairwise_of_forall_mem_list fun a ha b hb => .inl ⟨h a ha, h b hb⟩
    · exact List.pairwise_of_forall_mem_list fun a ha b hb => .inr (h a ha b hb)

/-- Integers that are sorted with the negative ones last, either way, are in numeric order if and
only if none is negative or they are all equal. -/
theorem pairwise_numeric_iff {descending : Bool}
    (h : items.Pairwise fun a b => if descending then Chunk.SignLast (valueOf b) (valueOf a)
      else Chunk.SignLast (valueOf a) (valueOf b)) :
    (items.Pairwise fun a b => if descending then valueOf b ≤ valueOf a
      else valueOf a ≤ valueOf b) ↔
      (∀ a ∈ items, 0 ≤ valueOf a) ∨ ∀ a ∈ items, ∀ b ∈ items, valueOf a = valueOf b := by
  have hpair {m n : Int} (h : if descending then Chunk.SignLast n m else Chunk.SignLast m n) :
      (if descending then n ≤ m else m ≤ n) ↔ (0 ≤ m ∧ 0 ≤ n) ∨ m = n := by
    cases descending with
    | false => exact Chunk.SignLast.le_iff h
    | true => exact (Chunk.SignLast.le_iff h).trans (or_congr and_comm eq_comm)
  rw [← pairwise_nonneg_or_eq]
  constructor
  · exact fun hle => (h.and hle).imp fun hab => (hpair hab.1).mp hab.2
  · exact fun halike => (h.and halike).imp fun hab => (hpair hab.1).mpr hab.2

end Numeric

/-- **Sorting by integers.**  If one of them cannot be written, the step fails.  Otherwise those
that are not negative come first, by value, and the negative ones come after them by magnitude; if
the greatest comes first, all the other way round.  This is the numeric order if and only if none is
negative or they are all equal. -/
theorem Step.sort_integers {name : String} {items : List Value}
    (hitems : ∀ item ∈ items, ∃ n, item.member? name = some (.number (.int n)))
    {step : Step} {descending : Bool} (hkind : step.kind = .sort)
    (hasks : Sorting.Asks step.config [.field name] descending) (settings : Settings) :
    let valueOf := Value.integerUnder name
    ((∃ item ∈ items, Number.digitBound ≤ (valueOf item).natAbs) →
      step.run settings (.array items) = .error (.number .longInteger)) ∧
    ((∀ item ∈ items, (valueOf item).natAbs < Number.digitBound) → ∃ sorted : List Value,
      step.run settings (.array items) = .ok (.array sorted) ∧ sorted.Perm items ∧
      (sorted.Pairwise fun v w => if descending then Chunk.SignLast (valueOf w) (valueOf v)
        else Chunk.SignLast (valueOf v) (valueOf w)) ∧
      ((sorted.Pairwise fun v w => if descending then valueOf w ≤ valueOf v
          else valueOf v ≤ valueOf w) ↔
        (∀ item ∈ items, 0 ≤ valueOf item) ∨
          ∀ v ∈ items, ∀ w ∈ items, valueOf v = valueOf w)) := by
  intro valueOf
  have hitemKey : ∀ item ∈ items, Sorting.itemKey [.field name] item =
      if (valueOf item).natAbs < Number.digitBound then .ok (Chunk.intKey (valueOf item))
      else .error (.number .longInteger) := fun item hitem =>
    (hitems item hitem).elim fun _ => Sorting.itemKey_int
  -- one integer that is too long fails the whole step, wherever it is
  constructor
  · intro hlong
    have hfailed : Sorting.apply step.config items = .error (.number .longInteger) := by
      refine Sorting.apply_eq_error hasks (fun item hitem => ?_) ?_
      · rw [hitemKey item hitem]
        split
        · exact .ok _
        · rintro _ ⟨⟩
          rfl
      · obtain ⟨item, hitem, hbound⟩ := hlong
        exact ⟨item, hitem, by rw [hitemKey item hitem, if_neg (Nat.not_lt.mpr hbound)]⟩
    rw [run, hkind]
    simp only [arrayItems, Result.bind_ok, hfailed, Result.bind_error]
  · intro hshort
    have hkey : ∀ item ∈ items,
        Sorting.itemKey [.field name] item = .ok (Chunk.intKey (valueOf item)) := by
      intro item hitem
      rw [hitemKey item hitem, if_pos (hshort item hitem)]
    have hperm := List.mergeSort_perm items fun v w =>
      Sorting.before descending (Chunk.intKey (valueOf v)) (Chunk.intKey (valueOf w))
    have hsorted := (Sorting.pairwise_before descending (fun v => Chunk.intKey (valueOf v))
      items).imp fun {v w} h => Sorting.signLast_of_before h
    refine ⟨_, Sorting.run_eq hkind hasks hkey settings, hperm, hsorted, ?_⟩
    -- the order by sign and digits is numeric if no sign is negative, or if nothing differs
    rw [pairwise_numeric_iff hsorted]
    simp only [hperm.mem_iff]

/-- A negative integer and one that is not: there is no numeric order for them. -/
theorem Step.sort_integers_negative :
    let one : Value := .object [("f", .number (.int 1))]
    let minusOne : Value := .object [("f", .number (.int (-1)))]
    ∃ sorted : List Value, Step.run {} ⟨"s", .sort, "f asc", "", true⟩ (.array [minusOne, one]) =
        .ok (.array sorted) ∧ sorted.Perm [minusOne, one] ∧
      ¬ sorted.Pairwise fun v w => v.integerUnder "f" ≤ w.integerUnder "f" := by
  intro one minusOne
  have hone : one.integerUnder "f" = 1 := rfl
  have hminusOne : minusOne.integerUnder "f" = -1 := rfl
  have hitems : ∀ item ∈ [minusOne, one], ∃ n, item.member? "f" = some (.number (.int n)) := by
    simp only [List.mem_cons, List.not_mem_nil, or_false]
    rintro item (rfl | rfl) <;> exact ⟨_, rfl⟩
  have hkind : (⟨"s", .sort, "f asc", "", true⟩ : Step).kind = .sort := rfl
  have hasks : Sorting.Asks "f asc" [.field "f"] false :=
    ⟨by decide, (by decide : String.ofList (Text.lower "asc".toList) = "asc")⟩
  have hshort : ∀ item ∈ [minusOne, one],
      (item.integerUnder "f").natAbs < Number.digitBound := by
    have hbound : 1 < Number.digitBound := Nat.one_lt_pow (by decide) (by decide)
    simpa [hone, hminusOne] using hbound
  obtain ⟨sorted, hrun, hperm, -, hnumeric⟩ :=
    (Step.sort_integers hitems hkind hasks {}).2 hshort
  refine ⟨sorted, hrun, hperm, fun hpairwise => ?_⟩
  have hsame := hnumeric.mp hpairwise
  simp [hone, hminusOne] at hsame

/-- **Integers are not sorted numerically**: of one and minus one, one comes first. -/
theorem Step.not_sort_numeric :
    ¬ ∀ items : List Value, (∀ item ∈ items, ∃ n, item.member? "f" = some (.number (.int n))) →
      ∃ sorted : List Value, Step.run {} ⟨"s", .sort, "f asc", "", true⟩ (.array items) =
        .ok (.array sorted) ∧
          sorted.Pairwise fun v w => v.integerUnder "f" ≤ w.integerUnder "f" := by
  intro hnumeric
  let one : Value := .object [("f", .number (.int 1))]
  let minusOne : Value := .object [("f", .number (.int (-1)))]
  have hasks : Sorting.Asks "f asc" [.field "f"] false :=
    ⟨by decide, (by decide : String.ofList (Text.lower "asc".toList) = "asc")⟩
  obtain ⟨sorted, hrun, hpairwise⟩ := hnumeric [one, minusOne] (by
    simp only [List.mem_cons, List.not_mem_nil, or_false]
    rintro item (rfl | rfl) <;> exact ⟨_, rfl⟩)
  have hkey : ∀ item ∈ [one, minusOne],
      Sorting.itemKey [.field "f"] item = .ok (Chunk.intKey (item.integerUnder "f")) := by
    have hbound : 1 < Number.digitBound := Nat.one_lt_pow (by decide) (by decide)
    simp only [List.mem_cons, List.not_mem_nil, or_false]
    rintro item (rfl | rfl) <;> exact (Sorting.itemKey_int rfl).trans (if_pos hbound)
  have hsame : [one, minusOne].mergeSort (fun v w => Sorting.before false
      (Chunk.intKey (v.integerUnder "f")) (Chunk.intKey (w.integerUnder "f"))) =
        [one, minusOne] :=
    List.mergeSort_of_pairwise (by simp [one, minusOne]; decide)
  rw [Sorting.run_eq rfl hasks hkey, hsame] at hrun
  cases hrun
  exact absurd (List.pairwise_pair.mp hpairwise) (by decide)

end Quarry
