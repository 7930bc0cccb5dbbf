import Mathlib.Data.List.Perm.Basic
import Quarry.Proofs.DottedPaths
import Quarry.Proofs.Merging
import Quarry.Proofs.Result
import Quarry.Step.Basic

/-!
# Picks — the listed members and the others

The text of a pick or an omission lists names between commas.  Blanks around a name and blank
entries do not count (`Reshaping.entries_intercalate`).  Picking reads every entry as a path, and an
entry without dots and brackets that is not `*` is the path of one member, so here both steps mean
the same members.

A pick looks the names up in the order of the list.  A name that comes again is looked up again with
the same result, so its first place counts (`Members.merge_lookups`).  An omission goes through the
members instead.  Together the two have every member once (`Step.pick_omit`).
-/

namespace Quarry

/-! ### Looking names up -/

namespace Members

variable {α : Type} {members : List (String × α)} {name : String} {a : α}

/-- What is there already is put in its own place. -/
theorem put_of_find? (h : find? members name = some a) : put members name a = members := by
  induction members with
  | nil => cases h
  | cons member members ih =>
      obtain ⟨other, b⟩ := member
      rw [find?] at h
      rw [put]
      split at h
      · rename_i heq
        cases h
        rw [if_pos heq, heq]
      · rename_i hne
        rw [if_neg hne, ih h]

/-- **Repeated lookups** add nothing: of every name the first place counts. -/
theorem merge_lookups (members : List (String × α)) (names : List String) :
    merge (lookups members names) = lookups members names.eraseDups := by
  induction names using List.reverseRecOn with
  | nil => rfl
  | append_singleton names name ih =>
      rw [lookups_append, eraseDups_concat]
      cases hfound : find? members name with
      | none =>
          have hlast : lookups members [name] = [] := by simp [lookups, hfound]
          rw [hlast, List.append_nil, ih]
          split
          · rfl
          · rw [lookups_append, hlast, List.append_nil]
      | some a =>
          have hlast : lookups members [name] = [(name, a)] := by simp [lookups, hfound]
          rw [hlast, merge_concat, ih]
          split
          · rename_i hmem
            have hdistinct : Distinct (lookups members names.eraseDups) := ih ▸ (merge_spec _).1
            exact put_of_find? (find?_of_mem hdistinct
              (mem_lookups.mpr ⟨List.mem_eraseDups.mpr hmem, hfound⟩))
          · rename_i hmem
            have hnew : name ∉ Members.names (lookups members names.eraseDups) := fun h => by
              obtain ⟨⟨_, b⟩, hb, rfl⟩ := List.mem_map.mp h
              exact hmem (List.mem_eraseDups.mp (mem_lookups.mp hb).1)
            rw [put_of_not_mem a hnew, lookups_append, hlast]

/-- **The looked-up members and the others** are all members, in another order. -/
theorem lookups_append_filter_perm (h : Distinct members) (names : List String) :
    (lookups members names.eraseDups ++
      members.filter fun member => !names.contains member.1).Perm members := by
  have hpicked : (lookups members names.eraseDups).Nodup := by
    rw [← merge_lookups]
    exact .of_map Prod.fst (merge_spec (lookups members names)).1
  have hkept : (members.filter fun member => names.contains member.1).Nodup :=
    .of_map Prod.fst (h.filter _)
  have hperm : (lookups members names.eraseDups).Perm
      (members.filter fun member => names.contains member.1) :=
    (List.perm_ext_iff_of_nodup hpicked hkept).mpr fun (name, a) => by
      rw [mem_lookups, List.mem_eraseDups, find?_eq_some_iff h, List.mem_filter,
        List.contains_iff_mem, and_comm]
  exact (hperm.append_right _).trans
    (List.filter_append_perm (fun member => names.contains member.1) members)

end Members

/-! ### Lists between commas -/

/-- A name without dots and brackets that is no wildcard is the path of one member. -/
theorem Path.read_name {name : List Char} (hne : name ≠ []) (htrim : Text.trim name = name)
    (hchars : ∀ c ∈ name, c ≠ '.' ∧ c ≠ '[' ∧ c ≠ ']') (hstar : name ≠ ['*']) :
    read (String.ofList name) = .ok [.field (String.ofList name)] := by
  have hdot : '.' ∉ name := fun hmem => (hchars '.' hmem).1 rfl
  have hopen : '[' ∉ (String.ofList name).toList := by
    rw [String.toList_ofList]
    exact fun hmem => (hchars '[' hmem).2.1 rfl
  have hclose : ']' ∉ (String.ofList name).toList := by
    rw [String.toList_ofList]
    exact fun hmem => (hchars ']' hmem).2.2 rfl
  have htext : String.ofList name ≠ "" := fun heq =>
    hne (by simpa using congrArg String.toList heq)
  rw [read_splitOn hopen hclose htext, String.toList_ofList, List.splitOn_eq_singleton hdot]
  simp [nameSegment, htrim, hstar, hne.symm]

namespace Reshaping

/-- A text between commas that is blank or names one member. -/
structure IsPlainEntry (text : List Char) : Prop where
  chars : ∀ c ∈ text, c ≠ ',' ∧ c ≠ '.' ∧ c ≠ '[' ∧ c ≠ ']'
  star : Text.trim text ≠ ['*']

theorem IsPlainEntry.comma_notMem {text : List Char} (h : IsPlainEntry text) : ',' ∉ text :=
  fun hmem => (h.chars ',' hmem).1 rfl

/-- The entries of texts with commas between them are what is left of the texts without blanks. -/
theorem entries_intercalate {texts : List String} (h : ∀ text ∈ texts, ',' ∉ text.toList) :
    entries (",".intercalate texts) =
      (texts.map fun text => Text.trim text.toList).filter (!·.isEmpty) := by
  cases texts with
  | nil => rfl
  | cons text texts =>
      have hcomma : ∀ part ∈ (text :: texts).map String.toList, ',' ∉ part :=
        List.forall_mem_map.mpr h
      have hsep : ",".toList = [','] := rfl
      rw [entries, String.toList_intercalate, hsep, Text.cutAll_eq_splitOn,
        List.splitOn_intercalate ',' hcomma (by simp), List.map_map]
      rfl

/-- The names that plain entries list. -/
def listed (texts : List String) : List String :=
  ((texts.map fun text => Text.trim text.toList).filter (!·.isEmpty)).map String.ofList

variable {texts : List String}

theorem entries_of_plain (h : ∀ text ∈ texts, IsPlainEntry text.toList) :
    (entries (",".intercalate texts)).map String.ofList = listed texts := by
  rw [entries_intercalate fun text ht => (h text ht).comma_notMem, listed]

theorem readPicks_of_plain (h : ∀ text ∈ texts, IsPlainEntry text.toList) :
    readPicks (",".intercalate texts) =
      .ok ((listed texts).map fun name => (name, [.field name])) := by
  rw [← entries_of_plain h, List.map_map, readPicks]
  refine Result.mapM_eq_map fun entry hentry => ?_
  rw [entries_intercalate fun text ht => (h text ht).comma_notMem,
    List.mem_filter] at hentry
  obtain ⟨text, htext, rfl⟩ := List.mem_map.mp hentry.1
  have hread := Path.read_name (by simpa using hentry.2) (Text.trim_trim text.toList)
    (fun c hc => ((h text htext).chars c (Text.trim_subset _ hc)).2) (h text htext).star
  simp only [hread, Result.bind_ok, Result.pure_eq_ok, Function.comp_apply]

/-- Gathering what is at names looks them up. -/
theorem gather_fields (names : List String) (members : List (String × Value)) :
    gather (names.map fun name => (name, [.field name])) (.object members) =
      .object (Members.lookups members names.eraseDups) := by
  rw [gather, List.filterMap_map, Value.ofPairs, ← Members.merge_lookups]
  simp only [Function.comp_def, Path.resolve_field]
  rfl

end Reshaping

/-- **Picking and omitting split an object.**  If the text lists plain names between commas, with
blanks around them, blank entries and repetitions as may be, a pick leaves the members with these
names in the order of the list, and an omission the other members in their own order.  So every
member is in one of the two results and not in the other, with its value. -/
theorem Step.pick_omit (settings : Settings) {members : List (String × Value)}
    (hmembers : Members.Distinct members) {texts : List String}
    (htexts : ∀ text ∈ texts, Reshaping.IsPlainEntry text.toList) {pick leave : Step}
    (hpick : pick.kind = .pick) (hleave : leave.kind = .omit)
    (hpicked : pick.config = ",".intercalate texts)
    (hleft : leave.config = ",".intercalate texts) :
    let names := Reshaping.listed texts
    let picked := names.eraseDups.filterMap fun name =>
      (Members.find? members name).map (name, ·)
    let others := members.filter fun member => !names.contains member.1
    pick.run settings (.object members) = .ok (.object picked) ∧
      leave.run settings (.object members) = .ok (.object others) ∧
      (∀ member, member ∈ picked ↔ member ∈ members ∧ member.1 ∈ names) ∧
      (∀ member ∈ members, Xor (member ∈ picked) (member ∈ others)) ∧
      (picked ++ others).Perm members := by
  intro names picked others
  have hmem (member : String × Value) :
      member ∈ picked ↔ member ∈ members ∧ member.1 ∈ names :=
    calc member ∈ picked
      _ ↔ member.1 ∈ names.eraseDups ∧ Members.find? members member.1 = some member.2 :=
        Members.mem_lookups
      _ ↔ member ∈ members ∧ member.1 ∈ names := by
        rw [List.mem_eraseDups, Members.find?_eq_some_iff hmembers, and_comm]
  refine ⟨?_, ?_, hmem, fun member hmember => ?_, Members.lookups_append_filter_perm hmembers names⟩
  · rw [run, hpick]
    simp only [Reshaping.pick, hpicked, Reshaping.readPicks_of_plain htexts, Result.bind_ok,
      Result.pure_eq_ok, Reshaping.each, Reshaping.gather_fields]
    rfl
  · rw [run, hleave]
    simp only [Reshaping.omitted, hleft, Reshaping.entries_of_plain htexts]
    exact if_pos (hmembers.filter _)
  · rw [hmem, List.mem_filter]
    by_cases hname : member.1 ∈ names <;> simp [Xor, hmember, hname]

/-- A name with a blank in front of it that comes again, a blank entry, and a name that is
missing. -/
theorem Step.pick_omit_repeated :
    let members : List (String × Value) := [("a", .null), ("b", .bool true), ("c", .bool false)]
    let texts := [" b", "", "a", "b", "d"]
    let pick : Step := ⟨"p", .pick, " b,,a,b,d", "", true⟩
    let leave : Step := ⟨"o", .omit, " b,,a,b,d", "", true⟩
    Members.Distinct members ∧ (∀ text ∈ texts, Reshaping.IsPlainEntry text.toList) ∧
      pick.config = ",".intercalate texts ∧ leave.config = ",".intercalate texts ∧
      pick.run {} (.object members) = .ok (.object [("b", .bool true), ("a", .null)]) ∧
      leave.run {} (.object members) = .ok (.object [("c", .bool false)]) := by
  intro members texts pick leave
  have hmembers : Members.Distinct members := by decide
  have hchars : ∀ text ∈ texts, ∀ c ∈ text.toList, c ≠ ',' ∧ c ≠ '.' ∧ c ≠ '[' ∧ c ≠ ']' := by
    simp [texts]
  have hstar : ∀ text ∈ texts, Text.trim text.toList ≠ ['*'] := by decide
  have htexts : ∀ text ∈ texts, Reshaping.IsPlainEntry text.toList :=
    fun text ht => ⟨hchars text ht, hstar text ht⟩
  have hconfig : " b,,a,b,d" = ",".intercalate texts := by decide
  obtain ⟨hpick, hleave, -⟩ :=
    @Step.pick_omit {} members hmembers texts htexts pick leave rfl rfl hconfig hconfig
  exact ⟨hmembers, htexts, hconfig, hconfig, hpick, hleave⟩

end Quarry
