import Quarry.Proofs.Merging
import Quarry.Proofs.Renames

/-!
# Collisions — members that meet under one name

A rename looks at every member by itself, and puts the members under their new names one after
another.  A member that is not listed keeps its name, but it may not be the only one to come to it:
a listed member may be given the same name.  Of the members that meet under a name, the place of the
first counts and the value of the last (`Reshaping.brought?_around`).

So a member that is not listed always leaves its name in the object, and it keeps its value as long
as no member behind it takes the name with another value (`Step.rename_unlisted`).
-/

namespace Quarry

namespace Reshaping

variable {renames : List (String × String)} {name : String}

/-- What the last of some members that get a name brings under it. -/
def brought? (renames : List (String × String)) (name : String)
    (members : List (String × Value)) : Option Value :=
  Members.last? (relabel renames members) name

theorem newName_of_unlisted (h : name ∉ Members.names renames) : newName renames name = name := by
  rw [newName, Members.find?_eq_none_iff.mpr h]
  rfl

/-- Under a name that is not listed stands what the last member behind brings, or else what stood
there. -/
theorem brought?_around (h : name ∉ Members.names renames) (before : List (String × Value))
    (v : Value) (after : List (String × Value)) :
    brought? renames name (before ++ (name, v) :: after) =
      some ((brought? renames name after).getD v) := by
  have hrelabel : relabel renames (before ++ (name, v) :: after) =
      relabel renames before ++ ([(name, v)] ++ relabel renames after) := by
    simp [relabel, newName_of_unlisted h]
  have hself : Members.last? [(name, v)] name = some v := by
    rw [Members.last?_singleton, if_pos rfl]
  rw [brought?, brought?, hrelabel, Members.last?_append, Members.last?_append, hself]
  cases Members.last? (relabel renames after) name <;> rfl

end Reshaping

/-- **What a rename leaves of the members that are not listed.**  Their names are all there, once
each.  Under the name of such a member stands what the last member behind it brings that gets the
same name, and its own value if there is none.  So all of them are still there with their values if
and only if what is brought under their names in this way are these values again. -/
theorem Step.rename_unlisted (settings : Settings) {step : Step} (hkind : step.kind = .rename)
    {renames : List (String × String)} (hread : Reshaping.readRenames step.config = .ok renames)
    (members : List (String × Value)) :
    ∃ result, step.run settings (.object members) = .ok (.object result) ∧
      Members.Distinct result ∧
      (∀ before name v after, members = before ++ (name, v) :: after →
        name ∉ Members.names renames →
          Members.find? result name = some ((Reshaping.brought? renames name after).getD v)) ∧
      ((∀ member ∈ members, member.1 ∉ Members.names renames → member ∈ result) ↔
        ∀ before name v after, members = before ++ (name, v) :: after →
          name ∉ Members.names renames →
            ∀ w, Reshaping.brought? renames name after = some w → w = v) := by
  -- what is under an unlisted name is its own value, or the last one that a rename brings there
  have hdistinct := (Members.merge_spec (Reshaping.relabel renames members)).1
  have hfind : ∀ before name v after, members = before ++ (name, v) :: after →
      name ∉ Members.names renames →
        Members.find? (Members.merge (Reshaping.relabel renames members)) name =
          some ((Reshaping.brought? renames name after).getD v) := by
    rintro before name v after rfl hname
    rw [Members.find?_merge, ← Reshaping.brought?_around hname before]
    rfl
  refine ⟨_, ?_, hdistinct, hfind, ?_, ?_⟩
  · rw [run, hkind]
    exact Reshaping.rename_of_read hread members
  · rintro hkept before name v after rfl hname w hw
    have hmem := hkept (name, v) (by simp) hname
    have hv := (Members.find?_of_mem hdistinct hmem).symm.trans
      (hfind before name v after rfl hname)
    rw [hw] at hv
    exact (Option.some.inj hv).symm
  · rintro hsame ⟨name, v⟩ hmem hname
    obtain ⟨before, after, hmembers⟩ := List.append_of_mem hmem
    have hfound := hfind before name v after hmembers hname
    have hvalue : (Reshaping.brought? renames name after).getD v = v := by
      cases hbrought : Reshaping.brought? renames name after with
      | none => rfl
      | some w => exact hsame before name v after hmembers hname w hbrought
    rw [hvalue] at hfound
    exact Members.mem_of_find? hfound

/-- A member takes the name of one in front of it and another the name of one behind it, and a
member that nobody meets stays. -/
theorem Step.rename_unlisted_met :
    let members : List (String × Value) :=
      [("b", .null), ("a", .bool true), ("c", .bool false), ("d", .null), ("e", .null)]
    let step : Step := ⟨"r", .rename, "a:b, c : d", "", true⟩
    let renames := [("a", "b"), ("c", "d")]
    Reshaping.readRenames step.config = .ok renames ∧
      ∃ result, step.run {} (.object members) = .ok (.object result) ∧
        Members.find? result "b" = some (.bool true) ∧ Members.find? result "d" = some .null ∧
        Members.find? result "e" = some .null := by
  intro members step renames
  have hread : Reshaping.readRenames "a:b, c : d" = .ok [("a", "b"), ("c", "d")] := rfl
  obtain ⟨result, hrun, -, hfind, -⟩ := @rename_unlisted {} step rfl _ hread members
  refine ⟨hread, result, hrun, ?_, ?_, ?_⟩
  · exact hfind [] "b" .null _ rfl (by decide)
  · exact hfind [("b", .null), ("a", .bool true), ("c", .bool false)] "d" .null _ rfl (by decide)
  · exact hfind [("b", .null), ("a", .bool true), ("c", .bool false), ("d", .null)] "e" .null _ rfl
      (by decide)

/-- A member that is not listed is lost to a member behind it. -/
theorem Step.rename_overwrites :
    let members : List (String × Value) := [("b", .bool true), ("a", .null)]
    let step : Step := ⟨"r", .rename, "a:b", "", true⟩
    let renames := [("a", "b")]
    Members.Distinct members ∧ Reshaping.readRenames step.config = .ok renames ∧
      step.run {} (.object members) = .ok (.object [("b", .null)]) ∧
      ¬ ∀ member ∈ members, member.1 ∉ Members.names renames → member ∈ [("b", Value.null)] := by
  intro members step renames
  have hread : Reshaping.readRenames "a:b" = .ok [("a", "b")] := rfl
  have hrun : run {} ⟨"r", .rename, "a:b", "", true⟩ (.object [("b", .bool true), ("a", .null)]) =
      .ok (.object [("b", .null)]) := rfl
  refine ⟨by decide, hread, hrun, fun h => ?_⟩
  have hmem := h ("b", .bool true) List.mem_cons_self (by decide)
  rw [List.mem_singleton] at hmem
  cases hmem

end Quarry
