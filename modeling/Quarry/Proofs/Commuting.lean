import Quarry.Proofs.Conditions
import Quarry.Proofs.Converses
import Quarry.Proofs.NaturalSort
import Quarry.Proofs.Segments

/-!
# Commuting — filters before and after sorts

A filter looks at one item at a time, and a sort is stable.  So what a filter keeps of the sorted
items is what sorting leaves of the items it keeps: this is `filter_mergeSort`, whatever is
filtered by and whichever way is sorted.

Tests may fail.  A condition of a select fails in one way only (`Condition.failsOnly_holds`), so it
does not matter which item is the first to fail, and even then selecting and sorting end alike
(`Items.keep_comm`).
-/

namespace Quarry

/-! ### Keeping and sorting -/

namespace Items

variable {α : Type} {test : α → Except Fault Bool} {items : List α}

theorem failsOnly_keep {e : Fault} (h : ∀ a ∈ items, Result.FailsOnly e (test a)) :
    Result.FailsOnly e (keep test items) := by
  induction items with
  | nil => exact .ok []
  | cons a items ih =>
      obtain ⟨ha, hitems⟩ := List.forall_mem_cons.mp h
      rw [keep]
      exact ha.bind fun passes => (ih hitems).map

theorem keep_eq_error {e : Fault} (h : ∀ a ∈ items, Result.FailsOnly e (test a))
    (hfails : ∃ a ∈ items, test a = .error e) : keep test items = .error e := by
  obtain ⟨a, ha, hfail⟩ := hfails
  obtain ⟨e', he', -⟩ := keep_eq_of_error (fun _ _ _ => Iff.rfl) ⟨a, ha, e, hfail⟩
  rw [he', failsOnly_keep h e' he']

/-- **Keeping commutes** with whatever rearranges the items and commutes with filtering, if there is
one way in which tests fail. -/
theorem keep_comm {rearrange : List α → List α} (hperm : (rearrange items).Perm items)
    (hfilter : ∀ p : α → Bool, (rearrange items).filter p = rearrange (items.filter p))
    {e : Fault} (h : ∀ a ∈ items, Result.FailsOnly e (test a)) :
    keep test (rearrange items) = (do return rearrange (← keep test items)) := by
  have h' : ∀ a ∈ rearrange items, Result.FailsOnly e (test a) := fun a ha =>
    h a (hperm.mem_iff.mp ha)
  by_cases hfails : ∃ a ∈ items, test a = .error e
  · have hfails' : ∃ a ∈ rearrange items, test a = .error e := by
      obtain ⟨a, ha, hfail⟩ := hfails
      exact ⟨a, hperm.mem_iff.mpr ha, hfail⟩
    rw [keep_eq_error h hfails, keep_eq_error h' hfails', Result.bind_error]
  · have hanswers : ∀ a ∈ items, test a = .ok ((test a).toOption.getD false) := by
      intro a ha
      cases hanswer : test a with
      | ok answer => rfl
      | error e' => exact absurd ⟨a, ha, h a ha e' hanswer ▸ hanswer⟩ hfails
    rw [keep_eq_filter hanswers, keep_eq_filter fun a ha => hanswers a (hperm.mem_iff.mp ha),
      hfilter]
    rfl

end Items

/-! ### Comparisons that fail -/

section Failing

open Result

theorem Value.failsOnly_toFloat (v : Value) : FailsOnly (.number .integerTooLarge) v.toFloat :=
  fun _ => Value.toFloat_eq_error

theorem Operand.failsOnly_looselySame (a b : Operand) :
    FailsOnly (.number .integerTooLarge) (looselySame a b) := by
  have hnumeric (v w : Value) :
      FailsOnly (.number .integerTooLarge) (looselySame.numericallySame v w) :=
    v.failsOnly_toFloat.bind fun _ => w.failsOnly_toFloat.map
  rw [looselySame.eq_def]
  split
  · exact .ok true
  · exact .ok false
  · exact .ok false
  · split
    · exact .ok true
    · split
      · exact hnumeric _ _
      · exact hnumeric _ _
      · exact .ok false

theorem Operand.failsOnly_order? (a b : Operand) :
    FailsOnly (.number .integerTooLarge) (order? a b) := by
  have hview (a : Operand) : FailsOnly (.number .integerTooLarge) a.toFloat :=
    fun _ => Operand.toFloat_eq_error
  refine (hview a).bind fun x => (hview b).bind fun y => ?_
  split <;> exact .ok _

/-- **A comparison fails in one way only**, at an integer that has no nearest double. -/
theorem Relation.failsOnly_compare (r : Relation) (a b : Operand) :
    FailsOnly (.number .integerTooLarge) (r.compare a b) := by
  cases r with
  | eq => exact Operand.failsOnly_looselySame a b
  | ne => exact (Operand.failsOnly_looselySame a b).map
  | _ => exact (Operand.failsOnly_order? a b).map

theorem Condition.failsOnly_holds (c : Condition) (v : Value) :
    FailsOnly (.number .integerTooLarge) (c.holds v) := by
  rw [holds]
  split
  · exact .ok _
  · exact Relation.failsOnly_compare _ _ _

end Failing

namespace Filtering

/-- What a text makes of an item: a text without an operator lets every item pass. -/
inductive Tests (config : String) : (Value → Except Fault Bool) → Prop where
  | all (h : read config = .ok none) : Tests config fun _ => .ok true
  | test {t : Test} {path : Path} (h : read config = .ok (some t))
      (hpath : Path.read t.field = .ok path) : Tests config (passes path t.operator t.literal)

theorem Tests.apply_eq {config : String} {test : Value → Except Fault Bool}
    (h : Tests config test) (items : List Value) : apply config items = Items.keep test items := by
  cases h with
  | all h =>
      rw [apply, h, Result.bind_ok, Items.keep_eq_filter fun _ _ => rfl]
      simp
  | test h hpath => simp only [apply, h, hpath, Result.bind_ok]

end Filtering

namespace Value

/-- **Sorting values commutes with filtering them.** -/
theorem filter_sort {items : List Value} (h : ∀ v ∈ items, v.Comparable) (p : Value → Bool) :
    (sort items).filter p = sort (items.filter p) := by
  lift items to List {v : Value // v.Comparable} using h
  rw [sort_val, List.filter_map, List.filter_map, sort_val,
    filter_mergeSort precedes_trans precedes_total]

end Value

/-! ### Steps -/

/-- Filtering and sorting steps. -/
theorem Step.filter_sort_comm {filter sort : Step} (hfilter : filter.kind = .filter)
    (hsort : sort.kind = .sort) {test : Value → Except Fault Bool} {path : Path}
    {descending : Bool} {items : List Value} (htests : Filtering.Tests filter.config test)
    (hasks : Sorting.Asks sort.config path descending)
    (hanswers : ∀ item ∈ items, ∃ answer, test item = .ok answer)
    (hreadable : ∀ item ∈ items, Sorting.Readable (path.resolve item false))
    (settings : Settings) :
    ∃ result : List Value,
      filter.run settings (.array items) >>= sort.run settings = .ok (.array result) ∧
      sort.run settings (.array items) >>= filter.run settings = .ok (.array result) := by
  obtain ⟨keyOf, hkey⟩ := Sorting.exists_keyOf hreadable
  let passes (item : Value) : Bool := (test item).toOption.getD false
  have hpasses : ∀ item ∈ items, test item = .ok (passes item) := by
    intro item hitem
    obtain ⟨answer, hanswer⟩ := hanswers item hitem
    simp only [passes, hanswer]
    rfl
  have hrun {items' : List Value} (h : ∀ item ∈ items', item ∈ items) :
      filter.run settings (.array items') = .ok (.array (items'.filter passes)) := by
    rw [Step.run, hfilter]
    simp only [Step.arrayItems, Result.bind_ok, htests.apply_eq,
      Items.keep_eq_filter fun item hitem => hpasses item (h item hitem), Result.pure_eq_ok]
  have hperm := List.mergeSort_perm items
    fun v w => Sorting.before descending (keyOf v) (keyOf w)
  refine ⟨(items.filter passes).mergeSort fun v w => Sorting.before descending (keyOf v) (keyOf w),
    ?_, ?_⟩
  · rw [hrun fun _ hitem => hitem, Result.bind_ok, Sorting.run_eq hsort hasks fun item hitem =>
      hkey item (List.mem_of_mem_filter hitem)]
  · rw [Sorting.run_eq hsort hasks hkey, Result.bind_ok, hrun fun _ => hperm.mem_iff.mp,
      Sorting.filter_sorted]

/-! ### Filters -/

namespace Filter

variable {limit : Nat}

/-- Selecting and then sorting, or the other way round. -/
theorem applyAll_select_sort (condition : Condition) {v : Value} (hv : v.Comparable)
    (levels : Nat) :
    Stage.applyAll limit levels [.select condition, .builtin .sort] v =
      Stage.applyAll limit levels [.builtin .sort, .select condition] v := by
  cases v with
  | array items =>
      have hitems : ∀ item ∈ items, item.Comparable := Value.everyNumber_array.mp hv
      have hcomm : Items.keep condition.holds (Value.sort items) =
          (do return Value.sort (← Items.keep condition.holds items)) :=
        Items.keep_comm (Value.sort_perm items) (Value.filter_sort hitems)
          fun item _ => condition.failsOnly_holds item
      simp only [Stage.applyAll, Stage.apply, Builtin.apply, Result.bind_ok, hcomm]
      cases Items.keep condition.holds items <;> rfl
  | _ => rfl

/-- A select and a sort with a bar between them, either way. -/
theorem read_select_sort {c : String} {condition : Condition}
    (hread : read limit ("select(" ++ c ++ ")") = .ok [.select condition]) :
    read limit ("select(" ++ c ++ ") | sort") = .ok [.select condition, .builtin .sort] ∧
      read limit ("sort | select(" ++ c ++ ")") = .ok [.builtin .sort, .select condition] := by
  have hselect : Text.trim ("select(" ++ c ++ ")").toList ≠ [] :=
    Text.trim_ne_nil_of_mem (c := 's') (by decide) (by simp)
  have hsort : Text.trim "sort".toList ≠ [] :=
    Text.trim_ne_nil_of_mem (c := 's') (by decide) (by simp)
  have htext : "select(" ++ c ++ ") | sort" = "select(" ++ c ++ ")" ++ " | " ++ "sort" := by
    simp [← String.toList_inj]
  have htext' : "sort | select(" ++ c ++ ")" = "sort" ++ " | " ++ ("select(" ++ c ++ ")") := by
    simp [← String.toList_inj]
  rw [htext, htext']
  exact ⟨read_bar_padded hselect hsort hread rfl, read_bar_padded hsort hselect rfl hread⟩

/-- Selecting and sorting in a filter end alike, and there is a result if no test fails. -/
theorem evaluate_select_sort {c : String} {condition : Condition}
    (hread : read limit ("select(" ++ c ++ ")") = .ok [.select condition]) {v : Value}
    (hv : v.Comparable) :
    evaluate limit ("select(" ++ c ++ ") | sort") v =
        evaluate limit ("sort | select(" ++ c ++ ")") v ∧
      ((∀ items, v = .array items → ∀ item ∈ items, ∃ answer, condition.holds item = .ok answer) →
        ∃ w, evaluate limit ("select(" ++ c ++ ") | sort") v = .ok w) := by
  obtain ⟨hselected, hsorted⟩ := read_select_sort hread
  rw [evaluate, evaluate, hselected, hsorted]
  refine ⟨applyAll_select_sort condition hv limit, fun hanswers => ?_⟩
  cases v with
  | array items =>
      obtain ⟨kept, hkept, -⟩ := Items.keep_yields (hanswers items rfl)
      rw [Result.bind_ok, run, Stage.applyAll, Stage.apply, hkept]
      exact ⟨_, rfl⟩
  | _ => exact ⟨_, rfl⟩

end Filter

/-! ### Both -/

/-- **Filtering and sorting commute.**  A filter step and a sort step, in either direction, leave
the same array whichever is run first, where no test fails and every item can be sorted.  So do a
select stage, with any condition that is read, and the sort of filters, also where a test fails, and
there is a result where none does. -/
theorem filter_sort_commute :
    (∀ (settings : Settings) (filter sort : Step) (test : Value → Except Fault Bool) (path : Path)
      (descending : Bool) (items : List Value), filter.kind = .filter → sort.kind = .sort →
      Filtering.Tests filter.config test → Sorting.Asks sort.config path descending →
      (∀ item ∈ items, ∃ answer, test item = .ok answer) →
      (∀ item ∈ items, Sorting.Readable (path.resolve item false)) →
      ∃ result : List Value,
        filter.run settings (.array items) >>= sort.run settings = .ok (.array result) ∧
        sort.run settings (.array items) >>= filter.run settings = .ok (.array result)) ∧
    ∀ (limit : Nat) (c : String) (condition : Condition) (v : Value),
      Filter.read limit ("select(" ++ c ++ ")") = .ok [.select condition] → v.Comparable →
      Filter.evaluate limit ("select(" ++ c ++ ") | sort") v =
        Filter.evaluate limit ("sort | select(" ++ c ++ ")") v ∧
      ((∀ items, v = .array items → ∀ item ∈ items, ∃ answer, condition.holds item = .ok answer) →
        ∃ w, Filter.evaluate limit ("select(" ++ c ++ ") | sort") v = .ok w) :=
  ⟨fun settings _ _ _ _ _ _ hfilter hsort htests hasks hanswers hreadable =>
    Step.filter_sort_comm hfilter hsort htests hasks hanswers hreadable settings,
    fun _ _ _ _ hread hv => Filter.evaluate_select_sort hread hv⟩

/-- Two items that pass, with one key, and one that does not. -/
theorem filter_sort_commute_ties :
    let items : List Value := [.object [("a", .bool true), ("b", .string "x2")],
      .object [("a", .bool false), ("b", .string "x10")],
      .object [("a", .bool true), ("b", .string "X2")]]
    (∃ result : List Value,
      Step.run {} ⟨"f", .filter, "a == true", "", true⟩ (.array items) >>=
        Step.run {} ⟨"s", .sort, "b desc", "", true⟩ = .ok (.array result) ∧
      Step.run {} ⟨"s", .sort, "b desc", "", true⟩ (.array items) >>=
        Step.run {} ⟨"f", .filter, "a == true", "", true⟩ = .ok (.array result)) ∧
    ∃ w, Filter.evaluate 8 "select(.a == true) | sort" (.array items) = .ok w ∧
      Filter.evaluate 8 "sort | select(.a == true)" (.array items) = .ok w := by
  intro items
  obtain ⟨hsteps, hfilters⟩ := filter_sort_commute
  constructor
  · have hread : Filtering.read "a == true" = .ok (some ⟨"a", .relation .eq, .bool true⟩) := rfl
    have hpath : Path.read "a" = .ok [.field "a"] := by decide
    have htests := Filtering.Tests.test hread hpath
    have hasks : Sorting.Asks "b desc" [.field "b"] true :=
      ⟨by decide, (by decide : String.ofList (Text.lower "desc".toList) = "desc")⟩
    have hshort {s : String} (h : s.toList.length ≤ 3) : Text.ShortRuns s.toList :=
      Text.shortRuns_of_length (h.trans (by decide))
    refine hsteps {} ⟨"f", .filter, "a == true", "", true⟩ ⟨"s", .sort, "b desc", "", true⟩ _ _ _
      items rfl rfl htests hasks ?_ ?_
    · simp only [items, List.forall_mem_cons]
      exact ⟨⟨_, rfl⟩, ⟨_, rfl⟩, ⟨_, rfl⟩, nofun⟩
    · simp only [items, List.forall_mem_cons]
      exact ⟨Sorting.readable_string (s := "x2") (hshort (by decide)),
        Sorting.readable_string (s := "x10") (hshort (by decide)),
        Sorting.readable_string (s := "X2") (hshort (by decide)), nofun⟩
  · have hcomparable : (Value.array items).Comparable := by simp [Value.Comparable, items]
    obtain ⟨hcomm, hok⟩ := hfilters 8 ".a == true" ⟨[.field "a"], some (.eq, .bool true)⟩
      (.array items) rfl hcomparable
    obtain ⟨w, hw⟩ := hok (by
      rintro _ ⟨⟩
      simp only [items, List.forall_mem_cons]
      exact ⟨⟨_, rfl⟩, ⟨_, rfl⟩, ⟨_, rfl⟩, nofun⟩)
    exact ⟨w, hw, hcomm.symm.trans hw⟩

end Quarry
