import Quarry.Proofs.Connectives
import Quarry.Proofs.Continuations
import Quarry.Proofs.Criteria

/-!
# Conjunctions — selecting twice

Two texts of criteria between the brackets of `$and` make a text that is read two levels deeper,
to the criteria of both (`read_conjunctionText`): each is read at its place as it was read alone,
up to the comma or bracket behind it.

Selecting keeps those of a collection that match: `collection` are the values that it tries and
`selected` what it leaves, and the collection of what is left are those that were kept.  So
selecting by one text and then by another is selecting by the conjunction, whatever the shape of
the value, and doing it again changes nothing (`evaluate_conjunction`).
-/

namespace Quarry.Criteria

/-! ### The text of a conjunction -/

/-- The text with two documents under "every". -/
def conjunctionText (q₁ q₂ : String) : String :=
  "\x7b\"$and\": [" ++ q₁ ++ ", " ++ q₂ ++ "]\x7d"

/-- Of a text that is not blank its document is read. -/
theorem readValue_of_document {q : String} {raw : Value} (hne : Text.trim q.toList ≠ [])
    (h : document q = .ok raw) :
    ∃ rest, Json.readValue true (2 * q.toList.length + 2) (Json.skipSpace q.toList) =
      .ok (raw, rest) ∧ Json.skipSpace rest = [] := by
  rw [document, if_neg (by rwa [List.isEmpty_iff])] at h
  refine Json.readValue_of_read ?_
  cases hread : Json.read true q.toList with
  | error fault =>
      rw [hread] at h
      cases h
  | ok v =>
      rw [hread] at h
      cases h
      rfl

/-- A value does not begin with the bracket that closes an array. -/
theorem stops_of_readValue {constants : Bool} {fuel : Nat} {s : List Char}
    {result : Value × List Char} (h : Json.readValue constants fuel s = .ok result) :
    s ≠ [] ∧ Stops (· = ']') s := by
  cases fuel with
  | zero => cases h
  | succ fuel =>
      cases s with
      | nil => cases h
      | cons c s =>
          refine ⟨List.cons_ne_nil _ _, stops_cons.mpr (decide_eq_false ?_)⟩
          rintro rfl
          cases h

theorem document_conjunctionText {q₁ q₂ : String} {raw₁ raw₂ : Value}
    (hq₁ : Text.trim q₁.toList ≠ []) (hq₂ : Text.trim q₂.toList ≠ [])
    (h₁ : document q₁ = .ok raw₁) (h₂ : document q₂ = .ok raw₂) :
    document (conjunctionText q₁ q₂) = .ok (under "$and" (.array [raw₁, raw₂])) := by
  obtain ⟨rest₁, hread₁, hrest₁⟩ := readValue_of_document hq₁ h₁
  obtain ⟨rest₂, hread₂, hrest₂⟩ := readValue_of_document hq₂ h₂
  -- what follows each of the texts
  let tail₂ : List Char := [']', '\x7d']
  let tail₁ : List Char := ',' :: ' ' :: (q₂.toList ++ tail₂)
  let n := 2 * q₁.toList.length + 2 * q₂.toList.length
  have htail₁ : Json.EndsPart tail₁ := .inl rfl
  have htail₂ : Json.EndsPart tail₂ := .inr (.inl rfl)
  have hitem₁ := (Json.readValue_extend htail₁ true _).1 (by omega : _ ≤ n + 26) hread₁
  have hitem₂ := (Json.readValue_extend htail₂ true _).1 (by omega : _ ≤ n + 25) hread₂
  have hblank : Json.skipSpace (' ' :: (q₂.toList ++ tail₂)) =
      Json.skipSpace q₂.toList ++ tail₂ := Json.skipSpace_append_tail htail₂ q₂.toList
  rw [← hblank] at hitem₂
  have hitems : Json.readItems true (n + 27) (Json.skipSpace q₁.toList ++ tail₁) =
      .ok ([raw₁, raw₂], ['\x7d']) := by
    refine Json.readItems_more hitem₁ ?_ (Json.readItems_last hitem₂ ?_)
    · rw [Json.skipSpace_append_tail htail₁, hrest₁]
      rfl
    · rw [Json.skipSpace_append_tail htail₂, hrest₂]
      rfl
  have harray : Json.readValue true (n + 28) (Json.skipSpace ('[' :: (q₁.toList ++ tail₁))) =
      .ok (.array [raw₁, raw₂], ['\x7d']) := by
    obtain ⟨hne, hstops⟩ := stops_of_readValue hread₁
    rw [Json.skipSpace_cons (by decide), Json.readValue_array, Json.skipSpace_append_tail htail₁,
      hitems]
    · rfl
    · rw [Json.skipSpace_append_tail htail₁]
      exact Json.stops_append_tail hne hstops tail₁
  have htext : (conjunctionText q₁ q₂).toList = '\x7b' :: (Text.quoted "$and".toList ++
      ((Json.Layout.lines 0).colon ++ ('[' :: (q₁.toList ++ tail₁)))) := by
    simp only [conjunctionText, String.toList_append, List.append_assoc]
    rfl
  have hread : Json.read true (conjunctionText q₁ q₂).toList =
      .ok (under "$and" (.array [raw₁, raw₂])) := by
    rw [htext]
    refine Json.read_of_readValue (by decide) (by decide) ?_
    have hfuel : 2 * ('\x7b' :: (Text.quoted "$and".toList ++ ((Json.Layout.lines 0).colon ++
        ('[' :: (q₁.toList ++ tail₁))))).length + 2 = n + 28 + 2 := by
      have hname : (Text.quoted "$and".toList).length = 6 := by decide
      simp only [List.length_cons, List.length_append, hname, Json.Layout.colon, List.length_nil,
        tail₁, tail₂, n]
      omega
    rw [hfuel]
    exact Json.readValue_single (.lines 0) "$and" harray rfl
  have hne : (Text.trim (conjunctionText q₁ q₂).toList).isEmpty = false := by
    rw [List.isEmpty_eq_false_iff, htext]
    intro hnil
    have hbrace := Text.trim_eq_nil_iff.mp hnil '\x7b' List.mem_cons_self
    cases hbrace
  rw [document, hne, hread]
  rfl

theorem read_conjunctionText [Pattern.Names] [Shape.Report] {limit : Nat} {q₁ q₂ : String}
    {c₁ c₂ : Criteria}
    (hq₁ : Text.trim q₁.toList ≠ []) (hq₂ : Text.trim q₂.toList ≠ [])
    (hread₁ : read limit q₁ = .ok c₁) (hread₂ : read limit q₂ = .ok c₂) :
    read (limit + 2) (conjunctionText q₁ q₂) = .ok (.every [.every [c₁, c₂]]) := by
  obtain ⟨raw₁, hdocument₁, -⟩ := Result.bind_eq_ok.mp hread₁
  obtain ⟨raw₂, hdocument₂, -⟩ := Result.bind_eq_ok.mp hread₂
  exact read_conjunction hdocument₁ hread₁ hdocument₂ hread₂
    (document_conjunctionText hq₁ hq₂ hdocument₁ hdocument₂)

/-! ### Selecting -/

/-- The computation has an answer, and it is yes. -/
def isYes : Except Fault Bool → Bool
  | .ok answer => answer
  | .error _ => false

theorem eq_ok_isYes {x : Except Fault Bool} (h : ∃ answer, x = .ok answer) : x = .ok (isYes x) := by
  obtain ⟨answer, rfl⟩ := h
  rfl

/-- Keeping items asks every one of them. -/
theorem keep_eq_ok_iff {test : Value → Except Fault Bool} {items kept : List Value} :
    Items.keep test items = .ok kept ↔ (∀ item ∈ items, ∃ answer, test item = .ok answer) ∧
      kept = items.filter fun item => isYes (test item) := by
  constructor
  · intro h
    have hall : ∀ item ∈ items, ∃ answer, test item = .ok answer := by
      induction items generalizing kept with
      | nil => exact List.forall_mem_nil _
      | cons item items ih =>
          obtain ⟨answer, hitem, h⟩ := Result.bind_eq_ok.mp h
          obtain ⟨rest, hrest, -⟩ := Result.bind_eq_ok.mp h
          exact List.forall_mem_cons.mpr ⟨⟨answer, hitem⟩, ih hrest⟩
    rw [Items.keep_eq_filter fun item hitem => eq_ok_isYes (hall item hitem)] at h
    exact ⟨hall, (Except.ok.inj h).symm⟩
  · rintro ⟨hall, rfl⟩
    exact Items.keep_eq_filter fun item hitem => eq_ok_isYes (hall item hitem)

/-- The values that are tried. -/
def collection : Value → List Value
  | .array items => items
  | .object members => (firstArray? members).getD [.object members]
  | _ => []

/-- What is left of a value if those of its collection are kept for which `p` says yes. -/
def selected (p : Value → Bool) : Value → Value
  | .array items => .array (items.filter p)
  | .object members =>
      match firstArray? members with
      | Option.some items => .array (items.filter p)
      | none => if p (.object members) then .object members else .null
  | v => v

/-- Selecting tries the whole collection, and leaves what matches. -/
theorem select_eq_ok_iff {c : Criteria} {v w : Value} :
    c.select v = .ok w ↔ (∀ item ∈ collection v, ∃ answer, c.matches? item = .ok answer) ∧
      w = selected (fun item => isYes (c.matches? item)) v := by
  have hkeep (items : List Value) :
      (do return Value.array (← Items.keep c.matches? items)) = .ok w ↔
      (∀ item ∈ items, ∃ answer, c.matches? item = .ok answer) ∧
        w = .array (items.filter fun item => isYes (c.matches? item)) := by
    simp only [Result.bind_eq_ok, keep_eq_ok_iff, Result.pure_eq_ok, Except.ok.injEq]
    constructor
    · rintro ⟨kept, ⟨hall, rfl⟩, rfl⟩
      exact ⟨hall, rfl⟩
    · rintro ⟨hall, rfl⟩
      exact ⟨_, ⟨hall, rfl⟩, rfl⟩
  cases v with
  | array items => exact hkeep items
  | object members =>
      rw [select, collection, selected]
      cases firstArray? members with
      | some items => exact hkeep items
      | none =>
          dsimp only
          rw [Option.getD_none, List.forall_mem_singleton, matches?]
          cases c.holds members with
          | error fault =>
              refine iff_of_false (fun h => by cases h) ?_
              rintro ⟨⟨answer, h⟩, -⟩
              cases h
          | ok answer =>
              rw [Result.bind_ok, Result.pure_eq_ok, Except.ok.injEq, eq_comm]
              exact (and_iff_right ⟨answer, rfl⟩).symm
  | _ =>
      rw [select, Except.ok.injEq, eq_comm]
      · exact (and_iff_right (List.forall_mem_nil _)).symm
      all_goals
        intro _ h
        cases h

/-- What is left has the collection that was kept. -/
theorem collection_selected (p : Value → Bool) (v : Value) :
    collection (selected p v) = (collection v).filter p := by
  cases v with
  | array items => rfl
  | object members =>
      rw [selected, collection]
      cases hfirst : firstArray? members with
      | some items => rfl
      | none => cases hp : p (.object members) <;> simp [collection, hfirst, hp]
  | _ => rfl

theorem selected_selected (p q : Value → Bool) (v : Value) :
    selected q (selected p v) = selected (fun item => p item && q item) v := by
  have hfilter (items : List Value) : selected q (.array (items.filter p)) =
      .array (items.filter fun item => p item && q item) := by
    rw [selected, List.filter_filter]
    simp only [Bool.and_comm]
  cases v with
  | array items => exact hfilter items
  | object members =>
      rw [selected, selected]
      cases hfirst : firstArray? members with
      | some items => exact hfilter items
      | none => cases p (.object members) <;> simp [selected, hfirst]
  | _ => rfl

/-! ### Selecting twice -/

theorem matches?_conjunction (c₁ c₂ : Criteria) (item : Value) :
    (Criteria.every [.every [c₁, c₂]]).matches? item =
      (do if ← c₁.matches? item then c₂.matches? item else return false) := by
  cases item with
  | object members =>
      rw [matches?, matches?, matches?, holds, everyHolds_singleton, holds, everyHolds,
        everyHolds_singleton]
  | _ => rfl

/-- **Selecting twice** is selecting by the conjunction, where either succeeds. -/
theorem select_select_eq_ok_iff {c₁ c₂ : Criteria} {v w : Value} :
    (do c₂.select (← c₁.select v)) = .ok w ↔
      (Criteria.every [.every [c₁, c₂]]).select v = .ok w := by
  have hboth (item : Value) :
      (∃ answer, (Criteria.every [.every [c₁, c₂]]).matches? item = .ok answer) ↔
        (∃ answer, c₁.matches? item = .ok answer) ∧
          (isYes (c₁.matches? item) = true → ∃ answer, c₂.matches? item = .ok answer) := by
    rw [matches?_conjunction]
    cases c₁.matches? item with
    | error fault => simp
    | ok answer => cases answer <;> simp [isYes]
  have hyes (item : Value) :
      isYes ((Criteria.every [.every [c₁, c₂]]).matches? item) =
        (isYes (c₁.matches? item) && isYes (c₂.matches? item)) := by
    rw [matches?_conjunction]
    cases c₁.matches? item with
    | error fault => rfl
    | ok answer => cases answer <;> rfl
  simp only [Result.bind_eq_ok, select_eq_ok_iff, hboth, hyes]
  constructor
  · rintro ⟨u, ⟨hall₁, rfl⟩, hall₂, rfl⟩
    rw [collection_selected, List.forall_mem_filter] at hall₂
    rw [selected_selected]
    exact ⟨fun item hitem => ⟨hall₁ item hitem, hall₂ item hitem⟩, rfl⟩
  · rintro ⟨hall, rfl⟩
    refine ⟨_, ⟨fun item hitem => (hall item hitem).1, rfl⟩, ?_, (selected_selected _ _ v).symm⟩
    rw [collection_selected, List.forall_mem_filter]
    exact fun item hitem => (hall item hitem).2

/-- Selecting again changes nothing. -/
theorem select_idem {c : Criteria} {v w : Value} (h : c.select v = .ok w) : c.select w = .ok w := by
  obtain ⟨hall, rfl⟩ := select_eq_ok_iff.mp h
  rw [select_eq_ok_iff, collection_selected, List.forall_mem_filter, selected_selected]
  simp only [Bool.and_self, and_true]
  exact fun item hitem _ => hall item hitem

/-- Selecting succeeds if no comparison and no lookup fails for the objects that are tried. -/
theorem exists_select {c : Criteria} {v : Value}
    (h : ∀ members, .object members ∈ collection v → Answered members c) :
    ∃ w, c.select v = .ok w ∧ collection w ⊆ collection v := by
  refine ⟨_, select_eq_ok_iff.mpr ⟨fun item hitem => ?_, rfl⟩, ?_⟩
  · cases item with
    | object members =>
        obtain ⟨answer, hanswer, -⟩ := holds_decides (h members hitem)
        exact ⟨answer, hanswer⟩
    | _ => exact ⟨false, rfl⟩
  · rw [collection_selected]
    exact List.filter_subset_self _

/-- **Filtering twice is filtering by the conjunction**, for any value, and for any two texts that
are not blank and are read.  Where the one succeeds the other does, with the same result; a text
that is used again changes nothing; and if no comparison and no lookup of the two texts fails for
an object of the collection, both succeed. -/
theorem evaluate_conjunction [Pattern.Names] [Shape.Report] {limit : Nat} {q₁ q₂ : String}
    {c₁ c₂ : Criteria}
    (hq₁ : Text.trim q₁.toList ≠ []) (hq₂ : Text.trim q₂.toList ≠ [])
    (hread₁ : read limit q₁ = .ok c₁) (hread₂ : read limit q₂ = .ok c₂) (v : Value) :
    (∀ w, (do evaluate limit q₂ (← evaluate limit q₁ v)) = .ok w ↔
      evaluate (limit + 2) (conjunctionText q₁ q₂) v = .ok w) ∧
    (∀ w, evaluate limit q₁ v = .ok w → evaluate limit q₁ w = .ok w) ∧
    ((∀ members, .object members ∈ collection v →
        Answered members c₁ ∧ Answered members c₂) →
      ∃ w, (do evaluate limit q₂ (← evaluate limit q₁ v)) = .ok w ∧
        evaluate (limit + 2) (conjunctionText q₁ q₂) v = .ok w) := by
  have heval₁ (u : Value) : evaluate limit q₁ u = c₁.select u := by
    rw [evaluate, hread₁, Result.bind_ok]
  have heval₂ (u : Value) : evaluate limit q₂ u = c₂.select u := by
    rw [evaluate, hread₂, Result.bind_ok]
  have hboth : evaluate (limit + 2) (conjunctionText q₁ q₂) v =
      (Criteria.every [.every [c₁, c₂]]).select v := by
    rw [evaluate, read_conjunctionText hq₁ hq₂ hread₁ hread₂, Result.bind_ok]
  simp only [heval₁, heval₂, hboth]
  refine ⟨fun w => select_select_eq_ok_iff, fun w => select_idem, fun hanswered => ?_⟩
  obtain ⟨u, hu, hsub⟩ := exists_select fun members hmem => (hanswered members hmem).1
  obtain ⟨w, hw, -⟩ := exists_select fun members hmem => (hanswered members (hsub hmem)).2
  have htwice := Result.bind_eq_ok.mpr ⟨u, hu, hw⟩
  exact ⟨w, htwice, select_select_eq_ok_iff.mp htwice⟩

/-- Of an object with an array the items are kept. -/
theorem evaluate_conjunction_items :
    let _ : Pattern.Names := default
    let _ : Shape.Report := default
    let q₁ := "\x7b\"a\": \x7b\"$gt\": 1\x7d\x7d"
    let q₂ := " \x7b\"b\": \x7b\"$regex\": \"^x\", \"$options\": \"i\"\x7d\x7d"
    let items : List (List (String × Value)) :=
      [[("a", .number (.int 1))], [("a", .number (.int 2)), ("b", .string "Xy")]]
    let v : Value := .object [("n", .null), ("items", .array (items.map .object))]
    ∃ c₁ c₂, Text.trim q₁.toList ≠ [] ∧ Text.trim q₂.toList ≠ [] ∧
      read 2 q₁ = .ok c₁ ∧ read 2 q₂ = .ok c₂ ∧
      (∀ w, (do evaluate 2 q₂ (← evaluate 2 q₁ v)) = .ok w ↔
        evaluate 4 (conjunctionText q₁ q₂) v = .ok w) ∧
      (∀ w, evaluate 2 q₁ v = .ok w → evaluate 2 q₁ w = .ok w) ∧
      ∃ w, (do evaluate 2 q₂ (← evaluate 2 q₁ v)) = .ok w ∧
        evaluate 4 (conjunctionText q₁ q₂) v = .ok w := by
  intro _ _ q₁ q₂ items v
  have hitems {q : String} (h : (match read 2 q with
      | .ok c => decide (∀ members ∈ items, Answered members c)
      | .error _ => false) = true) :
      ∃ c, read 2 q = .ok c ∧ ∀ members, .object members ∈ collection v → Answered members c := by
    split at h
    · rename_i c hread
      refine ⟨c, hread, fun members hmem => ?_⟩
      obtain ⟨members', hmem', hobject⟩ := List.mem_map.mp hmem
      cases hobject
      exact of_decide_eq_true h members hmem'
    · cases h
  obtain ⟨c₁, hread₁, hanswered₁⟩ := hitems (q := q₁) (by decide +kernel)
  obtain ⟨c₂, hread₂, hanswered₂⟩ := hitems (q := q₂) (by decide +kernel)
  have hq₁ : Text.trim q₁.toList ≠ [] := by decide
  have hq₂ : Text.trim q₂.toList ≠ [] := by decide
  obtain ⟨htwice, hagain, hsucceeds⟩ := evaluate_conjunction hq₁ hq₂ hread₁ hread₂ v
  exact ⟨c₁, c₂, hq₁, hq₂, hread₁, hread₂, htwice, hagain,
    hsucceeds fun members hmem => ⟨hanswered₁ members hmem, hanswered₂ members hmem⟩⟩

end Quarry.Criteria
