import Quarry.Proofs.Picks

/-!
# Renames — new names for all members at once

The text of a rename lists old names with new ones.  A member gets the name that is listed for its
own, or keeps its own, whatever happens to the others.  So names may be swapped, or go round.

If no member that keeps its name has one of the new names, then the list with old and new turned
around gives every member its own name back (`Reshaping.newName_swap`).  Hence no two members meet
under one name on the way, nothing is merged, and every member stays in its place
(`Step.rename_undone`).
-/

namespace Quarry

namespace Reshaping

/-! ### The text of a rename -/

/-- A name that can stand in the list of a rename. -/
structure IsListedName (name : String) : Prop where
  nonempty : name.toList ≠ []
  trimmed : Text.Trimmed name.toList
  comma : ',' ∉ name.toList
  colon : ':' ∉ name.toList

/-- The text that lists old names with new ones. -/
def renameText (renames : List (String × String)) : String :=
  ",".intercalate (renames.map fun pair => pair.1 ++ ":" ++ pair.2)

variable {old new : String} {renames : List (String × String)}

theorem readRename_pair (hold : IsListedName old) (hnew : IsListedName new) :
    readRename (old ++ ":" ++ new).toList = .ok (old, new) := by
  have hcut : Text.cutFirst? [':'] (old ++ ":" ++ new).toList = some (old.toList, new.toList) := by
    have := Text.cutFirst?_append hold.colon [] new.toList
    simpa using this
  obtain ⟨c, s, hs⟩ := List.exists_cons_of_ne_nil hold.nonempty
  obtain ⟨d, t, ht⟩ := List.exists_cons_of_ne_nil hnew.nonempty
  have hleft : Text.trim old.toList = c :: s := (Text.trim_of_trimmed hold.trimmed).trans hs
  have hright : Text.trim new.toList = d :: t := (Text.trim_of_trimmed hnew.trimmed).trans ht
  rw [readRename, hcut]
  simp only [hleft, hright]
  rw [← hs, ← ht, String.ofList_toList, String.ofList_toList]

/-- Every name in the list can stand there. -/
def AreListed (renames : List (String × String)) : Prop :=
  ∀ pair ∈ renames, IsListedName pair.1 ∧ IsListedName pair.2

theorem entries_renameText (h : AreListed renames) :
    entries (renameText renames) = renames.map fun pair => (pair.1 ++ ":" ++ pair.2).toList := by
  have hcomma : ∀ text ∈ renames.map (fun pair => pair.1 ++ ":" ++ pair.2), ',' ∉ text.toList :=
    List.forall_mem_map.mpr fun pair hpair => by
      simp [(h pair hpair).1.comma, (h pair hpair).2.comma]
  -- an entry begins with its old name and ends with its new one, so no blanks come off
  have htrim : ∀ pair ∈ renames,
      Text.trim (pair.1 ++ ":" ++ pair.2).toList = (pair.1 ++ ":" ++ pair.2).toList := by
    intro pair hpair
    obtain ⟨hold, hnew⟩ := h pair hpair
    rw [String.toList_append, String.toList_append]
    exact Text.trim_of_trimmed
      (hold.trimmed.append hnew.trimmed hold.nonempty hnew.nonempty ":".toList)
  have hmap : (renames.map fun pair => pair.1 ++ ":" ++ pair.2).map
      (fun text => Text.trim text.toList) =
        renames.map fun pair => (pair.1 ++ ":" ++ pair.2).toList := by
    rw [List.map_map]
    exact List.map_congr_left htrim
  rw [renameText, entries_intercalate hcomma, hmap]
  exact List.filter_eq_self.mpr (List.forall_mem_map.mpr fun pair _ => by simp)

/-- **The text of a rename** is read as the list that it was written from. -/
theorem readRenames_renameText (h : AreListed renames) (hold : Members.Distinct renames) :
    readRenames (renameText renames) = .ok renames := by
  have hpairs : (entries (renameText renames)).mapM readRename = .ok renames := by
    rw [entries_renameText h, List.mapM_map]
    have hread := Result.mapM_eq_map (g := id) fun pair hpair =>
      readRename_pair (h pair hpair).1 (h pair hpair).2
    rwa [List.map_id] at hread
  rw [readRenames, hpairs]
  exact congrArg Except.ok (Members.merge_of_distinct hold)

/-! ### New names -/

/-- The name that a member gets. -/
def newName (renames : List (String × String)) (name : String) : String :=
  (Members.find? renames name).getD name

/-- **Turned around, a rename leads back** to any name that is listed as old or not listed as
new. -/
theorem newName_swap (hnew : (renames.map Prod.snd).Nodup) {name : String}
    (h : name ∉ renames.map Prod.fst → name ∉ renames.map Prod.snd) :
    newName (renames.map Prod.swap) (newName renames name) = name := by
  have hnames : Members.names (renames.map Prod.swap) = renames.map Prod.snd := by
    rw [Members.names, List.map_map]
    rfl
  cases hfound : Members.find? renames name with
  | some new =>
      have hback : (new, name) ∈ renames.map Prod.swap :=
        List.mem_map.mpr ⟨(name, new), Members.mem_of_find? hfound, rfl⟩
      have hdistinct : Members.Distinct (renames.map Prod.swap) := by
        rwa [Members.Distinct, hnames]
      rw [newName, newName, hfound, Option.getD_some, Members.find?_of_mem hdistinct hback,
        Option.getD_some]
  | none =>
      have hkept : Members.find? (renames.map Prod.swap) name = none := by
        rw [Members.find?_eq_none_iff, hnames]
        exact h (Members.find?_eq_none_iff.mp hfound)
      rw [newName, newName, hfound, Option.getD_none, hkept, Option.getD_none]

/-- The members under their new names. -/
def relabel (renames : List (String × String)) (members : List (String × Value)) :
    List (String × Value) :=
  members.map fun member => (newName renames member.1, member.2)

variable {members : List (String × Value)}

/-- Names that differ after a change differed before it. -/
theorem distinct_of_relabel (h : Members.Distinct (relabel renames members)) :
    Members.Distinct members := by
  have hnames : Members.names (relabel renames members) =
      (Members.names members).map (newName renames) := by
    simp [Members.names, relabel]
  rw [Members.Distinct, hnames] at h
  exact h.of_map

/-- Where all members can be led back, the rename turned around leaves nothing of the change. -/
theorem relabel_swap (hnew : (renames.map Prod.snd).Nodup)
    (hfree : ∀ member ∈ members,
      member.1 ∉ renames.map Prod.fst → member.1 ∉ renames.map Prod.snd) :
    relabel (renames.map Prod.swap) (relabel renames members) = members := by
  rw [relabel, relabel, List.map_map]
  refine (List.map_congr_left fun member hmember => ?_).trans (List.map_id members)
  exact Prod.ext (newName_swap hnew (hfree member hmember)) rfl

/-- Members that meet under one name are merged. -/
theorem rename_of_read {config : String} (h : readRenames config = .ok renames)
    (members : List (String × Value)) :
    rename config (.object members) =
      .ok (.object (Members.merge (relabel renames members))) := by
  rw [rename, h]
  rfl

/-- A rename that merges nothing leaves every member in its place. -/
theorem rename_renameText (hlisted : AreListed renames) (hold : Members.Distinct renames)
    (hdistinct : Members.Distinct (relabel renames members)) :
    rename (renameText renames) (.object members) = .ok (.object (relabel renames members)) := by
  rw [rename_of_read (readRenames_renameText hlisted hold), Members.merge_of_distinct hdistinct]

end Reshaping

/-- **A rename without collisions can be undone.**  If the old names of the list differ, the new
names differ, and no member outside the list has a new name, then a rename gives every member its
new name in its place, and the rename with old and new turned around leaves the object as it was.
The old and the new names may overlap, so names may be swapped or go round. -/
theorem Step.rename_undone (settings : Settings) {members : List (String × Value)}
    (hmembers : Members.Distinct members) {renames : List (String × String)}
    (hlisted : Reshaping.AreListed renames) (hold : (renames.map Prod.fst).Nodup)
    (hnew : (renames.map Prod.snd).Nodup)
    (hfree : ∀ member ∈ members,
      member.1 ∉ renames.map Prod.fst → member.1 ∉ renames.map Prod.snd)
    {there back : Step} (hthere : there.kind = .rename) (hback : back.kind = .rename)
    (hto : there.config = Reshaping.renameText renames)
    (hfrom : back.config = Reshaping.renameText (renames.map Prod.swap)) :
    let others := members.map fun member => (Reshaping.newName renames member.1, member.2)
    there.run settings (.object members) = .ok (.object others) ∧
      back.run settings (.object others) = .ok (.object members) := by
  intro others
  have hundone : Reshaping.relabel (renames.map Prod.swap) others = members :=
    Reshaping.relabel_swap hnew hfree
  have hothers : Members.Distinct others := Reshaping.distinct_of_relabel (hundone ▸ hmembers)
  have hturned : Reshaping.AreListed (renames.map Prod.swap) :=
    List.forall_mem_map.mpr fun pair hpair => (hlisted pair hpair).symm
  have hnew' : Members.Distinct (renames.map Prod.swap) := by
    rw [Members.Distinct, Members.names, List.map_map]
    exact hnew
  rw [run, run, hthere, hback, hto, hfrom]
  refine ⟨Reshaping.rename_renameText hlisted hold hothers, ?_⟩
  have hrename := Reshaping.rename_renameText hturned hnew' (hundone ▸ hmembers)
  rwa [hundone] at hrename

/-- Two names are swapped, a third goes on to a name that is free, and the last member is not in the
list. -/
theorem Step.rename_undone_swap :
    let members : List (String × Value) :=
      [("a", .null), ("b", .bool true), ("c", .bool false), ("e", .null)]
    let renames := [("a", "b"), ("b", "a"), ("c", "c. d")]
    let there : Step := ⟨"r", .rename, "a:b,b:a,c:c. d", "", true⟩
    let back : Step := ⟨"r", .rename, "b:a,a:b,c. d:c", "", true⟩
    let others : List (String × Value) :=
      [("b", .null), ("a", .bool true), ("c. d", .bool false), ("e", .null)]
    Members.Distinct members ∧ Reshaping.AreListed renames ∧ (renames.map Prod.fst).Nodup ∧
      (renames.map Prod.snd).Nodup ∧
      (∀ member ∈ members,
        member.1 ∉ renames.map Prod.fst → member.1 ∉ renames.map Prod.snd) ∧
      there.config = Reshaping.renameText renames ∧
      back.config = Reshaping.renameText (renames.map Prod.swap) ∧
      there.run {} (.object members) = .ok (.object others) ∧
      back.run {} (.object others) = .ok (.object members) := by
  intro members renames there back others
  have hmembers : Members.Distinct members := by decide
  let names := ["a", "b", "c", "c. d"]
  have hne : ∀ name ∈ names, name.toList ≠ [] := by decide
  have htrimmed : ∀ name ∈ names, Text.Trimmed name.toList := by decide
  have hmarks : ∀ name ∈ names, ',' ∉ name.toList ∧ ':' ∉ name.toList := by decide
  have hpairs : ∀ pair ∈ renames, pair.1 ∈ names ∧ pair.2 ∈ names := by decide
  have hname : ∀ name ∈ names, Reshaping.IsListedName name := fun name hmem =>
    ⟨hne name hmem, htrimmed name hmem, (hmarks name hmem).1, (hmarks name hmem).2⟩
  have hlisted : Reshaping.AreListed renames := fun pair hpair =>
    ⟨hname _ (hpairs pair hpair).1, hname _ (hpairs pair hpair).2⟩
  have hold : (renames.map Prod.fst).Nodup := by decide
  have hnew : (renames.map Prod.snd).Nodup := by decide
  have hfree : ∀ member ∈ members,
      member.1 ∉ renames.map Prod.fst → member.1 ∉ renames.map Prod.snd := by
    simp [members, renames]
  have hto : "a:b,b:a,c:c. d" = Reshaping.renameText renames := by decide
  have hfrom : "b:a,a:b,c. d:c" = Reshaping.renameText (renames.map Prod.swap) := by decide
  have hrun := @Step.rename_undone {} members hmembers renames hlisted hold hnew hfree there back
    rfl rfl hto hfrom
  exact ⟨hmembers, hlisted, hold, hnew, hfree, hto, hfrom, hrun.1, hrun.2⟩

end Quarry
