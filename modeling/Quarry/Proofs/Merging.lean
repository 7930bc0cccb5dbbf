import Mathlib.Data.List.Induction
import Quarry.Proofs.Invariants

/-!
# Merging — the members that pairs leave

Pairs that are put one after another leave every name in the place of its first pair
(`names_merge`), with the thing of its last one (`find?_merge`).  Members with distinct names are
known by these two, the order of their names and what is found under each (`eq_of_names_eq`).

So it makes no difference whether some of the pairs are merged beforehand, those in front
(`merge_merge_append`) or those behind (`merge_append_merge`).  For the objects that pairs make
this says that merging is biased to the right and keeps what is an object already
(`Value.ofPairs_rightBiased`).
-/

namespace Quarry.Members

variable {α : Type} {members others pairs : List (String × α)} {name other : String} {a : α}

/-- The last thing under a name. -/
def last? (pairs : List (String × α)) (name : String) : Option α :=
  find? pairs.reverse name

/-! ### Finding -/

theorem find?_eq_some_iff (h : Distinct members) :
    find? members name = some a ↔ (name, a) ∈ members :=
  ⟨mem_of_find?, find?_of_mem h⟩

theorem find?_eq_none_iff : find? members name = none ↔ name ∉ names members := by
  induction members with
  | nil => simp [find?, names]
  | cons member members ih =>
      obtain ⟨other, a⟩ := member
      rw [find?, names, List.map_cons, List.mem_cons, not_or]
      split
      · rename_i heq
        simp [heq]
      · rename_i hne
        rw [ih, names]
        exact ⟨fun h => ⟨Ne.symm hne, h⟩, And.right⟩

theorem find?_append (front back : List (String × α)) (name : String) :
    find? (front ++ back) name = (find? front name).or (find? back name) := by
  induction front with
  | nil => rfl
  | cons member front ih =>
      obtain ⟨other, a⟩ := member
      rw [List.cons_append, find?, find?]
      split
      · rfl
      · exact ih

theorem last?_append (front back : List (String × α)) (name : String) :
    last? (front ++ back) name = (last? back name).or (last? front name) := by
  rw [last?, List.reverse_append, find?_append]
  rfl

theorem last?_singleton (name other : String) (a : α) :
    last? [(name, a)] other = if name = other then some a else none :=
  rfl

/-- Where no name comes twice, the first thing under a name is the last. -/
theorem last?_of_distinct (h : Distinct members) (name : String) :
    last? members name = find? members name := by
  have hreverse : Distinct members.reverse := by
    rw [Distinct, names, List.map_reverse]
    exact List.nodup_reverse.mpr h
  refine Option.ext fun a => ?_
  rw [last?, find?_eq_some_iff hreverse, find?_eq_some_iff h, List.mem_reverse]

/-- A pair whose name does not come again is the last one of the name. -/
theorem last?_append_cons {front back : List (String × α)} (h : name ∉ names back) :
    last? (front ++ (name, a) :: back) name = some a := by
  have hback : last? back name = none := by
    rw [last?, find?_eq_none_iff, names, List.map_reverse, List.mem_reverse]
    exact h
  rw [← List.singleton_append, last?_append, last?_append, hback, last?_singleton, if_pos rfl]
  rfl

/-! ### Names in order, and what is under them -/

theorem merge_concat (pairs : List (String × α)) (name : String) (a : α) :
    merge (pairs ++ [(name, a)]) = put (merge pairs) name a :=
  List.foldl_concat ..

/-- A last item counts if it has not come before. -/
theorem eraseDups_concat (names : List String) (name : String) :
    (names ++ [name]).eraseDups =
      if name ∈ names then names.eraseDups else names.eraseDups ++ [name] := by
  rw [List.eraseDups_append]
  split <;> rename_i hmem <;> simp [List.removeAll, hmem, List.eraseDups_cons]

theorem names_put (members : List (String × α)) (name : String) (a : α) :
    names (put members name a) =
      if name ∈ names members then names members else names members ++ [name] := by
  induction members with
  | nil => rfl
  | cons member members ih =>
      obtain ⟨other, b⟩ := member
      rw [put]
      by_cases hname : other = name
      · simp [names, hname]
      · rw [if_neg hname, names, List.map_cons, ← names, ih]
        by_cases hmem : name ∈ names members <;> simp_all [names, Ne.symm hname]

theorem find?_put (members : List (String × α)) (name other : String) (a : α) :
    find? (put members name a) other = if name = other then some a else find? members other := by
  induction members with
  | nil => rfl
  | cons member members ih =>
      obtain ⟨first, b⟩ := member
      rw [put]
      by_cases hfirst : first = name
      · subst hfirst
        simp only [if_pos, find?]
        split <;> rfl
      · rw [if_neg hfirst, find?, find?, ih]
        by_cases hname : name = other
        · simp [← hname, hfirst]
        · simp [hname]

/-- **Every name stands in the place of its first pair.** -/
theorem names_merge (pairs : List (String × α)) :
    names (merge pairs) = (names pairs).eraseDups := by
  induction pairs using List.reverseRecOn with
  | nil => rfl
  | append_singleton pairs pair ih =>
      obtain ⟨name, a⟩ := pair
      have hnames : names (pairs ++ [(name, a)]) = names pairs ++ [name] := List.map_append
      rw [merge_concat, names_put, ih, hnames, eraseDups_concat]
      simp only [List.mem_eraseDups]

/-- **Every name has the thing of its last pair.** -/
theorem find?_merge (pairs : List (String × α)) (name : String) :
    find? (merge pairs) name = last? pairs name := by
  induction pairs using List.reverseRecOn with
  | nil => rfl
  | append_singleton pairs pair ih =>
      obtain ⟨other, a⟩ := pair
      rw [merge_concat, find?_put, last?_append, last?_singleton, ih]
      split <;> rfl

/-! ### Members known by their names -/

/-- The members under some names, one lookup after another. -/
def lookups (members : List (String × α)) (names : List String) : List (String × α) :=
  names.filterMap fun name => (find? members name).map (name, ·)

theorem mem_lookups {names : List String} :
    (name, a) ∈ lookups members names ↔ name ∈ names ∧ find? members name = some a := by
  simp only [lookups, List.mem_filterMap, Option.map_eq_some_iff, Prod.mk.injEq]
  constructor
  · rintro ⟨name', hname, b, hb, rfl, rfl⟩
    exact ⟨hname, hb⟩
  · rintro ⟨hname, ha⟩
    exact ⟨name, hname, a, ha, rfl, rfl⟩

theorem lookups_append (members : List (String × α)) (names names' : List String) :
    lookups members (names ++ names') = lookups members names ++ lookups members names' :=
  List.filterMap_append

theorem lookups_names (h : Distinct members) : lookups members (names members) = members := by
  rw [lookups, names, List.filterMap_map]
  refine (List.filterMap_congr fun member hmem => ?_).trans List.filterMap_some
  rw [Function.comp_apply, find?_of_mem h hmem]
  rfl

/-- Members with distinct names are equal if their names are the same, in the same order, with the
same things. -/
theorem eq_of_names_eq (hmembers : Distinct members) (hothers : Distinct others)
    (hnames : names members = names others)
    (hfind : ∀ name, find? members name = find? others name) : members = others :=
  calc members
    _ = lookups members (names members) := (lookups_names hmembers).symm
    _ = lookups others (names others) := by simp only [lookups, hnames, hfind]
    _ = others := lookups_names hothers

/-! ### Merging in parts -/

/-- Repetitions behind may be dropped beforehand. -/
theorem eraseDups_append_eraseDups (front back : List String) :
    (front ++ back.eraseDups).eraseDups = (front ++ back).eraseDups := by
  induction back using List.reverseRecOn with
  | nil => rfl
  | append_singleton back name ih =>
      rw [eraseDups_concat, ← List.append_assoc, eraseDups_concat]
      by_cases hmem : name ∈ back
      · rw [if_pos hmem, ih, if_pos (List.mem_append_right _ hmem)]
      · rw [if_neg hmem, ← List.append_assoc, eraseDups_concat, ih]
        simp only [List.mem_append, List.mem_eraseDups]

theorem merge_append (front back : List (String × α)) :
    merge (front ++ back) =
      back.foldl (fun members pair => put members pair.1 pair.2) (merge front) :=
  List.foldl_append ..

/-- **Pairs in front** may be merged beforehand. -/
theorem merge_merge_append (front back : List (String × α)) :
    merge (merge front ++ back) = merge (front ++ back) := by
  rw [merge_append, merge_of_distinct (merge_spec front).1, merge_append]

/-- **Pairs behind** may be merged beforehand. -/
theorem merge_append_merge (front back : List (String × α)) :
    merge (front ++ merge back) = merge (front ++ back) := by
  refine eq_of_names_eq (merge_spec _).1 (merge_spec _).1 ?_ fun name => ?_
  · have hnames (xs ys : List (String × α)) : names (xs ++ ys) = names xs ++ names ys :=
      List.map_append
    rw [names_merge, names_merge, hnames, hnames, names_merge, eraseDups_append_eraseDups]
  · have hback : last? (merge back) name = last? back name := by
      rw [last?_of_distinct (merge_spec back).1, find?_merge]
    rw [find?_merge, find?_merge, last?_append, last?_append, hback]

end Quarry.Members

namespace Quarry.Value

/-- **Objects are merged to the right.**  Pairs always make an object.  It has their names, each
once and in the order in which they first come, and under each of them the value of the last pair
with this name.  The members of an object make this object again, and of two lists of pairs each
can be made an object beforehand. -/
theorem ofPairs_rightBiased :
    (∀ pairs : List (String × Value), ∃ members,
      ofPairs pairs = object members ∧ ofMembers members = .ok (object members) ∧
      Members.names members = (Members.names pairs).eraseDups ∧
      ∀ front name v back, pairs = front ++ (name, v) :: back → name ∉ Members.names back →
        (object members).member? name = some v) ∧
    (∀ members o, ofMembers members = .ok o → ofPairs members = o) ∧
    ∀ front back members others, ofPairs front = object members → ofPairs back = object others →
      ofPairs (front ++ back) = ofPairs (members ++ others) := by
  refine ⟨fun pairs => ⟨Members.merge pairs, rfl, if_pos (Members.merge_spec pairs).1,
    Members.names_merge pairs, ?_⟩, ?_, ?_⟩
  · rintro front name v back rfl hlast
    rw [member?, Members.find?_merge, Members.last?_append_cons hlast]
  · intro members o h
    rw [ofMembers] at h
    split at h
    · rename_i hdistinct
      cases h
      rw [ofPairs, Members.merge_of_distinct hdistinct]
    · cases h
  · rintro front back _ _ ⟨⟩ ⟨⟩
    rw [ofPairs, ofPairs, Members.merge_merge_append, Members.merge_append_merge]

/-- A name that comes three times, over two lists. -/
theorem ofPairs_rightBiased_repeated :
    ∃ members, ofPairs [("a", .bool true), ("b", .null), ("a", .bool false)] = object members ∧
      Members.names members = ["a", "b"] ∧ (object members).member? "a" = some (.bool false) ∧
      ofPairs members = object members ∧
      ofPairs ([("a", .bool true), ("b", .null), ("a", .bool false)] ++
        [("c", .null), ("a", .null)])
        = ofPairs (members ++ [("c", .null), ("a", .null)]) := by
  obtain ⟨hmerge, hown, hboth⟩ := ofPairs_rightBiased
  obtain ⟨members, hmembers, hobject, hnames, hlast⟩ :=
    hmerge [("a", .bool true), ("b", .null), ("a", .bool false)]
  exact ⟨members, hmembers, hnames, hlast [("a", .bool true), ("b", .null)] "a" _ [] rfl nofun,
    hown _ _ hobject, hboth _ _ _ _ hmembers rfl⟩

end Quarry.Value
