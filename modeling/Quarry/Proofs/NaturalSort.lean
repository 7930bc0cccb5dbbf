import Quarry.Proofs.NaturalKeys
import Quarry.Proofs.Totality
import Quarry.Step.Basic

/-!
# Natural sort — by a field, in both directions

A sort step names a field and a direction (`Asks`).  It sorts the items by the natural keys of the
texts that are under the field, and it is a stable sort, the greatest first if that is asked for
(`apply_eq`).

Stability comes out of one fact about sorting: what is filtered out of a sorted list is what would
be left by sorting the filtered list (`filter_mergeSort`).  Sorting changes nothing among items
that have one key, so these stay as they came, whichever way is sorted (`natural_sort`).
-/

namespace Quarry

/-! ### Sorted lists, filtered -/

section Sorted

variable {α : Type} {le : α → α → Bool}
  (htrans : ∀ a b c, le a b = true → le b c = true → le a c = true)
  (htotal : ∀ a b, (le a b || le b a) = true)

/-- A list is parted in one way only into what has a property and then what does not. -/
theorem append_inj_of_parted {p : α → Bool} {front back front' back' : List α}
    (heq : front ++ back = front' ++ back') (hfront : ∀ a ∈ front, p a = true)
    (hback : ∀ a ∈ back, p a = false) (hfront' : ∀ a ∈ front', p a = true)
    (hback' : ∀ a ∈ back', p a = false) : front = front' ∧ back = back' := by
  have hparted {front back : List α} (hfront : ∀ a ∈ front, p a = true)
      (hback : ∀ a ∈ back, p a = false) : (front ++ back).filter p = front := by
    rw [List.filter_append, List.filter_eq_self.mpr hfront,
      List.filter_eq_nil_iff.mpr fun a ha => Bool.eq_false_iff.mp (hback a ha), List.append_nil]
  have hfronts : front = front' := by
    rw [← hparted hfront hback, heq, hparted hfront' hback']
  rw [hfronts] at heq
  exact ⟨hfronts, List.append_cancel_left heq⟩

include htrans htotal

/-- An item is sorted in behind those that it is not at most, and before all others. -/
theorem mergeSort_cons_parted (a : α) (items : List α) :
    ∃ front back, (a :: items).mergeSort le = front ++ a :: back ∧
      items.mergeSort le = front ++ back ∧ (∀ b ∈ front, le a b = false) ∧
      ∀ b ∈ back, le a b = true := by
  obtain ⟨front, back, hsort, hitems, hfront⟩ := List.mergeSort_cons htrans htotal a items
  have hsorted := List.pairwise_mergeSort htrans htotal (a :: items)
  rw [hsort] at hsorted
  exact ⟨front, back, hsort, hitems, fun b hb => by simpa using hfront b hb,
    (List.pairwise_cons.mp (List.pairwise_append.mp hsorted).2.1).1⟩

/-- **Sorting commutes with filtering.** -/
theorem filter_mergeSort (p : α → Bool) (items : List α) :
    (items.mergeSort le).filter p = (items.filter p).mergeSort le := by
  induction items with
  | nil => rw [List.mergeSort_nil, List.filter_nil, List.mergeSort_nil]
  | cons a items ih =>
      obtain ⟨front, back, hsort, hitems, hfront, hback⟩ :=
        mergeSort_cons_parted htrans htotal a items
      rw [hitems, List.filter_append] at ih
      by_cases ha : p a = true
      · obtain ⟨front', back', hsort', hitems', hfront', hback'⟩ :=
          mergeSort_cons_parted htrans htotal a (items.filter p)
        -- both lists are parted by what the new item is at most
        obtain ⟨rfl, rfl⟩ := append_inj_of_parted (p := fun b => !le a b) (ih.trans hitems')
          (fun b hb => by simp [hfront b (List.mem_of_mem_filter hb)])
          (fun b hb => by simp [hback b (List.mem_of_mem_filter hb)])
          (fun b hb => by simp [hfront' b hb]) (fun b hb => by simp [hback' b hb])
        rw [hsort, List.filter_append, List.filter_cons_of_pos ha, List.filter_cons_of_pos ha,
          hsort']
      · rw [hsort, List.filter_append, List.filter_cons_of_neg ha, List.filter_cons_of_neg ha, ih]

end Sorted

/-! ### What is asked for -/

namespace Sorting

/-- The words after the field ask for a direction: ascending if there are none, and otherwise what
the first of them names, in small or capital letters. -/
def Directs (descending : Bool) : List (List Char) → Prop
  | [] => descending = false
  | word :: _ => String.ofList (Text.lower word) = if descending then "desc" else "asc"

/-- A text asks to sort by what is at a path, which is its first word without a leading dot, and
which way. -/
structure Asks (config : String) (path : Path) (descending : Bool) : Prop where
  path : Path.read (String.ofList (Text.dropLeading '.' ((Text.words config.toList).headD []))) =
    .ok path
  direction : Directs descending (Text.words config.toList).tail

/-- **The texts that are accepted** ask for something, and what they ask for is planned. -/
theorem asks_iff {config : String} {path : Path} {descending : Bool} :
    Asks config path descending ↔ ∃ plan, read config = .ok plan ∧
      Path.read plan.field = .ok path ∧ plan.descending = descending := by
  have hasks {words : List (List Char)} (hwords : Text.words config.toList = words) :
      Asks config path descending ↔
        Path.read (String.ofList (Text.dropLeading '.' (words.headD []))) = .ok path ∧
          Directs descending words.tail := by
    rw [← hwords]
    exact ⟨fun h => ⟨h.path, h.direction⟩, fun h => ⟨h.1, h.2⟩⟩
  rw [read]
  split
  · rename_i hwords
    rw [hasks hwords]
    simp only [Except.ok.injEq, exists_eq_left', Directs, List.tail_nil, List.headD_nil,
      Text.dropLeading, eq_comm (a := false)]
  · rename_i hwords
    rw [hasks hwords]
    simp only [Except.ok.injEq, exists_eq_left', Directs, List.headD_cons, List.tail_cons,
      eq_comm (a := false)]
  · rename_i field direction rest hwords
    rw [hasks hwords]
    simp only [List.headD_cons, List.tail_cons, Directs]
    by_cases hasc : String.ofList (Text.lower direction) = "asc"
    · have hne : "asc" ≠ "desc" := by decide
      simp only [hasc, ↓reduceIte, Except.ok.injEq, exists_eq_left']
      cases descending <;> simp
    by_cases hdesc : String.ofList (Text.lower direction) = "desc"
    · simp only [hdesc, String.reduceEq, ↓reduceIte, Except.ok.injEq, exists_eq_left']
      cases descending <;> simp
    · simp only [if_neg hasc, if_neg hdesc, reduceCtorEq, false_and, exists_false, iff_false]
      cases descending <;> simp [hasc, hdesc]

/-! ### What is done -/

/-- What an item is sorted by. -/
def itemKey (path : Path) (item : Value) : Except Fault (List Chunk) := do
  Chunk.key (← (path.resolve item false).text)

/-- The first key may stand before the second. -/
def before (descending : Bool) (k l : List Chunk) : Bool :=
  if descending then Chunk.orderKeys k l ≠ .lt else Chunk.orderKeys k l ≠ .gt

theorem before_swap (k l : List Chunk) : before true k l = before false l k := by
  rw [before, before, Chunk.orderKeys_swap k l]
  cases Chunk.orderKeys k l <;> rfl

theorem before_trans (descending : Bool) (j k l : List Chunk) (hjk : before descending j k = true)
    (hkl : before descending k l = true) : before descending j l = true := by
  have hascending (j k l : List Chunk) (hjk : before false j k = true)
      (hkl : before false k l = true) : before false j l = true := by
    simp only [before, Bool.false_eq_true, ↓reduceIte, decide_eq_true_eq] at *
    exact (Chunk.orderKeys_follows j k l).ne_gt hjk hkl
  cases descending with
  | false => exact hascending j k l hjk hkl
  | true =>
      rw [before_swap] at *
      exact hascending l k j hkl hjk

theorem before_total (descending : Bool) (k l : List Chunk) :
    (before descending k l || before descending l k) = true := by
  rw [before, before, Chunk.orderKeys_swap k l]
  cases descending <;> cases Chunk.orderKeys k l <;> rfl

theorem before_self (descending : Bool) (k : List Chunk) : before descending k k = true := by
  rw [before, Chunk.orderKeys_eq_iff.mpr rfl]
  cases descending <;> rfl

variable {path : Path} {keyOf : Value → List Chunk} {items : List Value}

theorem keyed_eq {item : Value} {k : List Chunk} (h : itemKey path item = .ok k) :
    keyed path item = .ok (k, item) := by
  obtain ⟨text, htext, hkey⟩ := Result.bind_eq_ok.mp h
  rw [keyed, htext, Result.bind_ok, hkey]
  rfl

/-- **Sorting** is a stable sort of the items by their keys. -/
theorem apply_eq {config : String} {descending : Bool} (h : Asks config path descending)
    (hkey : ∀ item ∈ items, itemKey path item = .ok (keyOf item)) :
    apply config items =
      .ok (items.mergeSort fun v w => before descending (keyOf v) (keyOf w)) := by
  obtain ⟨plan, hplan, hpath, rfl⟩ := asks_iff.mp h
  have hkeyed : items.mapM (keyed path) = .ok (items.map fun item => (keyOf item, item)) :=
    Result.mapM_eq_map fun item hitem => keyed_eq (hkey item hitem)
  have harrange : arrange plan.descending (items.map fun item => (keyOf item, item)) =
      (items.mergeSort fun v w => before plan.descending (keyOf v) (keyOf w)).map
        fun item => (keyOf item, item) :=
    (List.map_mergeSort fun v _ w _ => by rw [before]).symm
  rw [apply, hplan, Result.bind_ok, hpath, Result.bind_ok, hkeyed, Result.bind_ok,
    Result.pure_eq_ok, harrange, List.map_map]
  exact congrArg Except.ok (List.map_id _)

theorem run_eq {step : Step} {descending : Bool} (hkind : step.kind = .sort)
    (h : Asks step.config path descending)
    (hkey : ∀ item ∈ items, itemKey path item = .ok (keyOf item)) (settings : Settings) :
    step.run settings (.array items) =
      .ok (.array (items.mergeSort fun v w => before descending (keyOf v) (keyOf w))) := by
  rw [Step.run, hkind]
  simp only [Step.arrayItems, Result.bind_ok, apply_eq h hkey, Result.pure_eq_ok]

/-- Items cannot be sorted if one has no key, for which there is one reason. -/
theorem apply_eq_error {config : String} {descending : Bool} {fault : Fault}
    (h : Asks config path descending)
    (honly : ∀ item ∈ items, Result.FailsOnly fault (itemKey path item))
    (hfails : ∃ item ∈ items, itemKey path item = .error fault) :
    apply config items = .error fault := by
  obtain ⟨plan, hplan, hpath, -⟩ := asks_iff.mp h
  have hkeyed : keyed path = fun item => do return (← itemKey path item, item) := by
    funext item
    rw [keyed, itemKey, bind_assoc]
  have hmapM : items.mapM (keyed path) = .error fault := by
    rw [hkeyed]
    refine Result.FailsOnly.mapM_eq_error (fun item hitem => (honly item hitem).map) ?_
    obtain ⟨item, hitem, hfail⟩ := hfails
    exact ⟨item, hitem, by rw [hfail, Result.bind_error]⟩
  rw [apply, hplan, Result.bind_ok, hpath, Result.bind_ok, hmapM, Result.bind_error]

/-- The sorted items are in the order of their keys. -/
theorem pairwise_before (descending : Bool) (keyOf : Value → List Chunk) (items : List Value) :
    (items.mergeSort fun v w => before descending (keyOf v) (keyOf w)).Pairwise
      fun v w => before descending (keyOf v) (keyOf w) = true :=
  List.pairwise_mergeSort
    (fun u v w => before_trans descending (keyOf u) (keyOf v) (keyOf w))
    (fun v w => before_total descending (keyOf v) (keyOf w)) items

/-- What is filtered out of the sorted items is what sorting the filtered items leaves. -/
theorem filter_sorted (descending : Bool) (keyOf : Value → List Chunk) (p : Value → Bool)
    (items : List Value) :
    (items.mergeSort fun v w => before descending (keyOf v) (keyOf w)).filter p =
      (items.filter p).mergeSort fun v w => before descending (keyOf v) (keyOf w) :=
  filter_mergeSort
    (fun u v w => before_trans descending (keyOf u) (keyOf v) (keyOf w))
    (fun v w => before_total descending (keyOf v) (keyOf w)) p items

/-- Items with one key stay as they came. -/
theorem filter_sorted_of_key (descending : Bool) (keyOf : Value → List Chunk) (k : List Chunk)
    (items : List Value) :
    (items.mergeSort fun v w => before descending (keyOf v) (keyOf w)).filter (keyOf · = k) =
      items.filter (keyOf · = k) := by
  rw [filter_sorted]
  refine List.mergeSort_of_pairwise (List.pairwise_of_forall_mem_list fun v hv w hw => ?_)
  have hv := of_decide_eq_true (List.mem_filter.mp hv).2
  have hw := of_decide_eq_true (List.mem_filter.mp hw).2
  rw [hv, hw, before_self]

/-- What is sorted by can be written, and there is no long run of digits in its text. -/
structure Readable (a : Operand) : Prop where
  writable : ∀ v, a = some v → v.isWritable = true
  short : ∀ text, a.text = .ok text → Text.ShortRuns text.toList

theorem readable_string {s : String} (h : Text.ShortRuns s.toList) :
    Readable (some (.string s)) where
  writable := by
    rintro v ⟨⟩
    rfl
  short := by
    rintro text ⟨⟩
    exact h

theorem itemKey_isOk {item : Value} (h : Readable (path.resolve item false)) :
    ∃ k, itemKey path item = .ok k := by
  obtain ⟨text, htext⟩ : ∃ text, (path.resolve item false).text = .ok text := by
    cases hfound : path.resolve item false with
    | none => exact ⟨"", rfl⟩
    | some v => exact Value.text_of_isWritable (h.writable v hfound)
  obtain ⟨k, hk⟩ := Chunk.key_isOk (h.short text htext)
  exact ⟨k, by rw [itemKey, htext, Result.bind_ok, hk]⟩

/-- Items with short runs of digits have keys. -/
theorem exists_keyOf (h : ∀ item ∈ items, Readable (path.resolve item false)) :
    ∃ keyOf : Value → List Chunk, ∀ item ∈ items, itemKey path item = .ok (keyOf item) := by
  refine ⟨fun item => ((itemKey path item).toOption).getD [], fun item hitem => ?_⟩
  obtain ⟨k, hk⟩ := itemKey_isOk (h item hitem)
  change itemKey path item = .ok ((itemKey path item).toOption.getD [])
  rw [hk]
  rfl

end Sorting

/-- **A natural sort, stable in both directions.**  Every text without long runs of digits has a
key.  Comparing keys part by part never fails and comes out as their order, which is a total
preorder.  A sort step makes of an array a rearrangement of its items in the order of the keys of
the texts under the field, or in the reverse order, and items with one key stay as they came either
way. -/
theorem natural_sort :
    (∀ s : String, Text.ShortRuns s.toList → ∃ k, Chunk.key s = .ok k) ∧
    (∀ k l : List Chunk, Key.Compares (.list (k.map Chunk.sortKey)) (.list (l.map Chunk.sortKey))
      (Chunk.orderKeys k l)) ∧
    (∀ k l : List Chunk, Chunk.orderKeys k l ≠ .gt ∨ Chunk.orderKeys l k ≠ .gt) ∧
    (∀ j k l : List Chunk, Chunk.orderKeys j k ≠ .gt → Chunk.orderKeys k l ≠ .gt →
      Chunk.orderKeys j l ≠ .gt) ∧
    ∀ (settings : Settings) (step : Step) (path : Path) (descending : Bool) (items : List Value),
      step.kind = .sort → Sorting.Asks step.config path descending →
      (∀ item ∈ items, Sorting.Readable (path.resolve item false)) →
      ∃ (sorted : List Value) (keyOf : Value → List Chunk),
        (∀ item ∈ items, ∃ text, (path.resolve item false).text = .ok text ∧
          Chunk.key text = .ok (keyOf item)) ∧
        step.run settings (.array items) = .ok (.array sorted) ∧ sorted.Perm items ∧
        (sorted.Pairwise fun v w => if descending then Chunk.orderKeys (keyOf v) (keyOf w) ≠ .lt
          else Chunk.orderKeys (keyOf v) (keyOf w) ≠ .gt) ∧
        ∀ k, sorted.filter (keyOf · = k) = items.filter (keyOf · = k) := by
  refine ⟨fun s => Chunk.key_isOk, Chunk.sortKeys_compares, fun k l => ?_, fun j k l hjk hkl =>
    (Chunk.orderKeys_follows j k l).ne_gt hjk hkl, ?_⟩
  · rw [Chunk.orderKeys_swap k l]
    cases Chunk.orderKeys k l <;> decide
  · intro settings step path descending items hkind hasks hreadable
    obtain ⟨keyOf, hkey⟩ := Sorting.exists_keyOf hreadable
    refine ⟨_, keyOf, fun item hitem => Result.bind_eq_ok.mp (hkey item hitem),
      Sorting.run_eq hkind hasks hkey settings, List.mergeSort_perm _ _, ?_,
      fun k => Sorting.filter_sorted_of_key descending keyOf k items⟩
    refine (Sorting.pairwise_before descending keyOf items).imp fun {v w} h => ?_
    rw [Sorting.before] at h
    cases descending <;> simpa using h

/-- Two texts with one key stay as they came, also where the greatest comes first. -/
theorem natural_sort_ties :
    let v : Value := .object [("f", .string "a2")]
    let w : Value := .object [("f", .string "A2")]
    (∃ k, Chunk.key "A2" = .ok k) ∧
      Chunk.orderKeys [.text ['a']] [.text ['a'], .number 2] ≠ .gt ∧
      ∀ settings, Step.run settings ⟨"s", .sort, "f desc", "", true⟩ (.array [w, v]) =
        .ok (.array [w, v]) := by
  intro v w
  obtain ⟨hkeys, -, -, htrans, hsort⟩ := natural_sort
  have hshort : ∀ s ∈ ["a2", "A2"], Text.ShortRuns s.toList := by
    simp only [List.mem_cons, List.not_mem_nil, or_false]
    rintro s (rfl | rfl) <;> exact Text.shortRuns_of_length (by decide)
  refine ⟨hkeys "A2" (hshort _ (by simp)),
    htrans _ [.text ['a'], .number 1] _ (by decide) (by decide), fun settings => ?_⟩
  have hasks : Sorting.Asks "f desc" [.field "f"] true :=
    ⟨by decide, (by decide : String.ofList (Text.lower "desc".toList) = "desc")⟩
  have hreadable : ∀ item ∈ [w, v], Sorting.Readable (Path.resolve [.field "f"] item false) := by
    simp only [List.mem_cons, List.not_mem_nil, or_false]
    rintro item (rfl | rfl)
    · exact Sorting.readable_string (hshort "A2" (by simp))
    · exact Sorting.readable_string (hshort "a2" (by simp))
  obtain ⟨sorted, keyOf, hkeyOf, hrun, hperm, -, hties⟩ :=
    hsort settings ⟨"s", .sort, "f desc", "", true⟩ [.field "f"] true [w, v] rfl hasks hreadable
  have hkey {item : Value} {text : String} (hitem : item ∈ [w, v])
      (htext : (Path.resolve [.field "f"] item false).text = .ok text)
      (hkey : Chunk.key text = .ok [.text ['a'], .number 2]) :
      keyOf item = [.text ['a'], .number 2] := by
    obtain ⟨text', htext', hkey'⟩ := hkeyOf item hitem
    obtain rfl := Except.ok.inj (htext.symm.trans htext')
    exact Except.ok.inj (hkey'.symm.trans hkey)
  have hall : ∀ item ∈ [w, v], keyOf item = [.text ['a'], .number 2] := by
    simp only [List.mem_cons, List.not_mem_nil, or_false]
    rintro item (rfl | rfl) <;> exact hkey (by simp) rfl (by decide)
  have hsame := hties [.text ['a'], .number 2]
  rw [List.filter_eq_self.mpr fun item hitem => decide_eq_true (hall item (hperm.mem_iff.mp hitem)),
    List.filter_eq_self.mpr fun item hitem => decide_eq_true (hall item hitem)] at hsame
  rw [hrun, hsame]

end Quarry
