import Quarry.Proofs.Filters
import Quarry.Proofs.Merging
import Quarry.Proofs.Totality

/-!
# Entries — objects taken apart, and put together again

`to_entries` makes an entry of every member.  `from_entries` passes over the items that have not
both a key and a value, puts the keys of the others in text, and merges the pairs
(`fromEntries_eq`); so the names are the texts of the keys, each in its first place and with its
last value, whatever the keys were before.  What was taken apart comes back as it was
(`entries_round_trip`).

Every key has a text, with one exception: an integer with more digits than are ever written, on its
own or somewhere in the key (`fromEntries_of_not_isWritable`).
-/

namespace Quarry

namespace Builtin

variable {members named : List (String × Value)} {items : List Value}

/-- The entry of a member. -/
def entry (member : String × Value) : Value :=
  .object [("key", .string member.1), ("value", member.2)]

/-- The key and the value of what has both. -/
def keyed? (v : Value) : Option (Value × Value) := do
  return (← v.member? "key", ← v.member? "value")

/-- A member for a key and a value, under the text of the key. -/
def inText (pair : Value × Value) : Except Fault (String × Value) := do
  return (← pair.1.text, pair.2)

/-- A member has the text of a key for its name, and the value beside the key. -/
def Names (pair : Value × Value) (member : String × Value) : Prop :=
  pair.1.text = .ok member.1 ∧ pair.2 = member.2

/-! ### Items -/

/-- Reading an entry finds a key and a value, and then puts the key in text. -/
theorem ofEntry?_eq (v : Value) : ofEntry? v = (keyed? v).mapM inText := by
  unfold ofEntry? keyed?
  cases v.member? "key" with
  | none => rfl
  | some key =>
      cases v.member? "value" with
      | none => rfl
      | some w =>
          show (do return some (← key.text, w)) = (do return some (← inText (key, w)))
          rw [inText]
          cases key.text <;> rfl

/-- A pair is put in text as a member if the member has the text of its key for a name and its
value, -/
theorem inText_eq_ok_iff {pair : Value × Value} {member : String × Value} :
    inText pair = .ok member ↔ Names pair member := by
  obtain ⟨name, w⟩ := member
  simp [inText, Names, Result.bind_eq_ok]

/-- so there is at most one such member, -/
theorem names_unique : Relator.RightUnique Names := by
  rintro pair ⟨name, v⟩ ⟨other, w⟩ ⟨hname, rfl⟩ ⟨hother, rfl⟩
  have heq : name = other := Except.ok.inj (hname.symm.trans hother)
  rw [heq]

/-- and there is one if the key can be written. -/
theorem inText_of_isWritable {pair : Value × Value} (h : pair.1.isWritable = true) :
    ∃ member, inText pair = .ok member := by
  obtain ⟨name, hname⟩ := Value.text_of_isWritable h
  exact ⟨(name, pair.2), inText_eq_ok_iff.mpr ⟨hname, rfl⟩⟩

/-- A key that cannot be written has an integer with too many digits in it, -/
theorem inText_of_not_isWritable {pair : Value × Value} (h : pair.1.isWritable = false) :
    inText pair = .error (.number .longInteger) := by
  rw [inText, Value.text_of_not_isWritable h]
  rfl

/-- and nothing else can go wrong with it. -/
theorem inText_failsOnly (pair : Value × Value) :
    Result.FailsOnly (.number .longInteger) (inText pair) := by
  cases h : pair.1.isWritable with
  | false =>
      rw [inText_of_not_isWritable h]
      rintro _ ⟨⟩
      rfl
  | true =>
      obtain ⟨member, hmember⟩ := inText_of_isWritable h
      rw [hmember]
      exact .ok member

/-! ### Arrays -/

/-- **`from_entries`** passes over what is no entry, puts keys in text and merges. -/
theorem fromEntries_eq (items : List Value) : fromEntries.apply (.array items) = (do
    return Value.ofPairs (← (items.filterMap keyed?).mapM inText)) := by
  rw [← Result.mapM_filterMap fun v _ => ofEntry?_eq v, apply]
  cases items.mapM ofEntry? <;> rfl

/-- **The members** are merged from what the keyed items are named. -/
theorem fromEntries_of_names (h : List.Forall₂ Names (items.filterMap keyed?) named) :
    fromEntries.apply (.array items) = .ok (.object (Members.merge named)) := by
  have hnamed : (items.filterMap keyed?).mapM inText = .ok named :=
    Result.mapM_eq_ok_iff.mpr (h.imp fun _ _ => inText_eq_ok_iff.mpr)
  rw [fromEntries_eq, hnamed]
  rfl

/-- If all keys can be written, the pairs have names, in their order. -/
theorem exists_names (h : ∀ pair ∈ items.filterMap keyed?, pair.1.isWritable = true) :
    ∃ named, List.Forall₂ Names (items.filterMap keyed?) named := by
  obtain ⟨named, hnamed⟩ := Result.mapM_isOk fun pair hpair => inText_of_isWritable (h pair hpair)
  exact ⟨named, (Result.mapM_eq_ok_iff.mp hnamed).imp fun _ _ => inText_eq_ok_iff.mp⟩

/-- One key without a text is enough to fail. -/
theorem fromEntries_of_not_isWritable
    (h : ∃ pair ∈ items.filterMap keyed?, pair.1.isWritable = false) :
    fromEntries.apply (.array items) = .error (.number .longInteger) := by
  obtain ⟨pair, hpair, hlong⟩ := h
  rw [fromEntries_eq, Result.FailsOnly.mapM_eq_error (fun pair _ => inText_failsOnly pair)
    ⟨pair, hpair, inText_of_not_isWritable hlong⟩]
  rfl

/-! ### There and back -/

/-- `to_entries` makes one entry of each member, in order. -/
theorem toEntries_eq (members : List (String × Value)) :
    toEntries.apply (.object members) = .ok (.array (members.map entry)) := by
  rw [apply, Result.mapM_eq_map fun member _ => toEntry_eq member]
  rfl

/-- The entries of an object name its members again, -/
theorem names_entries (members : List (String × Value)) :
    List.Forall₂ Names ((members.map entry).filterMap keyed?) members := by
  induction members with
  | nil => exact .nil
  | cons member members ih => exact .cons ⟨rfl, rfl⟩ ih

/-- so an object comes back from its entries. -/
theorem fromEntries_entries (h : Members.Distinct members) :
    fromEntries.apply (.array (members.map entry)) = .ok (.object members) := by
  -- pairs with distinct names merge into themselves
  rw [fromEntries_of_names (names_entries members), Members.merge_of_distinct h]

theorem evaluate_fromEntries (limit : Nat) (v : Value) :
    Filter.evaluate limit "from_entries" v = fromEntries.apply v :=
  show (do .ok (← fromEntries.apply v)) = fromEntries.apply v by
    cases fromEntries.apply v <;> rfl

/-- **Entries there and back.**  An object that is taken apart and put together again is the same,
and so are the entries of an object that is put together and taken apart.  Whatever its items are,
an array is put together from the pairs of those that have a key and a value: each text of a key in
its first place, with the value of its last pair.  A key without a text makes this fail. -/
theorem entries_round_trip (limit : Nat) :
    (∀ members : List (String × Value), Members.Distinct members →
      Filter.evaluate limit "to_entries | from_entries" (.object members) =
        .ok (.object members)) ∧
    (∀ items : List Value, (∀ pair ∈ items.filterMap keyed?, pair.1.isWritable = true) →
      ∃ named members : List (String × Value),
        List.Forall₂ Names (items.filterMap keyed?) named ∧
        Filter.evaluate limit "from_entries" (.array items) = .ok (.object members) ∧
        Members.names members = (Members.names named).eraseDups ∧
        ∀ name, Members.find? members name = Members.last? named name) ∧
    (∀ items : List Value, (∃ pair ∈ items.filterMap keyed?, pair.1.isWritable = false) →
      Filter.evaluate limit "from_entries" (.array items) = .error (.number .longInteger)) ∧
    ∀ members : List (String × Value), Members.Distinct members →
      Filter.evaluate limit "from_entries | to_entries" (.array (members.map entry)) =
        .ok (.array (members.map entry)) := by
  refine ⟨fun members h => ?_, fun items h => ?_, fun items h => ?_, fun members h => ?_⟩
  · show (do .ok (← fromEntries.apply (← toEntries.apply (.object members)))) = _
    rw [toEntries_eq, Result.bind_ok, fromEntries_entries h]
    rfl
  · obtain ⟨named, hnamed⟩ := exists_names h
    refine ⟨named, Members.merge named, hnamed, ?_, Members.names_merge named,
      Members.find?_merge named⟩
    rw [evaluate_fromEntries, fromEntries_of_names hnamed]
  · rw [evaluate_fromEntries, fromEntries_of_not_isWritable h]
  · show (do .ok (← toEntries.apply (← fromEntries.apply (.array (members.map entry))))) = _
    rw [fromEntries_entries h, Result.bind_ok, toEntries_eq]
    rfl

/-- The keys `true` and `"true"` have one text; one item is no object, and one has no value. -/
theorem entries_round_trip_mixed :
    let keyed (key value : Value) : Value := .object [("key", key), ("value", value)]
    let items : List Value := [keyed (.bool true) .null, keyed .null (.ofNat 2),
      .string "key", .object [("key", .string "x")], keyed (.string "true") (.ofNat 3)]
    let members : List (String × Value) := [("b", .null), ("a", .ofNat 1)]
    ((∀ pair ∈ items.filterMap keyed?, pair.1.isWritable = true) ∧
      ∃ found, Filter.evaluate 8 "from_entries" (.array items) = .ok (.object found) ∧
        Members.names found = ["true", "null"] ∧ Members.find? found "true" = some (.ofNat 3)) ∧
    Members.Distinct members ∧
      Filter.evaluate 8 "to_entries | from_entries" (.object members) = .ok (.object members) := by
  intro keyed items members
  have hpairs : items.filterMap keyed? =
      [(.bool true, .null), (.null, .ofNat 2), (.string "true", .ofNat 3)] := rfl
  have hwritable : ∀ pair ∈ items.filterMap keyed?, pair.1.isWritable = true := by
    rw [hpairs]
    simp only [List.forall_mem_cons]
    exact ⟨rfl, rfl, rfl, nofun⟩
  have hdistinct : Members.Distinct members := by decide
  obtain ⟨hback, hfrom, -, -⟩ := entries_round_trip 8
  obtain ⟨named, found, hnamed, heval, hnames, hfind⟩ := hfrom items hwritable
  have hexpected : named = [("true", .null), ("null", .ofNat 2), ("true", .ofNat 3)] := by
    refine List.right_unique_forall₂' names_unique hnamed ?_
    rw [hpairs]
    exact .cons ⟨rfl, rfl⟩ (.cons ⟨rfl, rfl⟩ (.cons ⟨rfl, rfl⟩ .nil))
  subst hexpected
  exact ⟨⟨hwritable, found, heval, hnames, hfind "true"⟩, hdistinct, hback members hdistinct⟩

/-- The least integer that is never written has no text to be a name. -/
theorem not_fromEntries_long :
    let items : List Value :=
      [.object [("key", .number (.int Number.digitBound)), ("value", .null)]]
    ¬ ∃ members, Filter.evaluate 8 "from_entries" (.array items) = .ok (.object members) := by
  intro items
  rintro ⟨members, h⟩
  have hpairs : items.filterMap keyed? = [(.number (.int Number.digitBound), .null)] := rfl
  have hlong : Value.isWritable (.number (.int Number.digitBound)) = false := by
    rw [Value.isWritable, Number.isWritable, decide_eq_false_iff_not, Int.natAbs_natCast]
    exact Nat.lt_irrefl _
  have hfails : ∃ pair ∈ items.filterMap keyed?, pair.1.isWritable = false := by
    rw [hpairs]
    exact ⟨_, List.mem_singleton_self _, hlong⟩
  rw [evaluate_fromEntries, fromEntries_of_not_isWritable hfails] at h
  cases h

end Builtin

end Quarry
