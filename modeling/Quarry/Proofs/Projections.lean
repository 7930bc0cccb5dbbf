import Quarry.Proofs.Balance
import Quarry.Step.Basic

/-!
# Projections — lists of paths in braces

A projection in which no entry has a target of its own is a list of paths, as a pick is.  The two
lists are read in different ways.  A projection is cut at the commas outside quotes and brackets,
and every entry at its first colon; a pick is cut at every comma.  Where there are no quotes,
brackets and colons, the parts are the same (`Text.cutOutside_of_unmarked`), and so are the entries
that count, those that are not blank (`Reshaping.readProjected_of_uncut`).

An entry is a path and the name of what is found there, in both.  So the step that maps by the
projection and the step that picks end alike on every array (`Step.map_pick_agree`).
-/

namespace Quarry

/-- A text without brackets that is no path is refused for its dots. -/
theorem Path.query_of_read_error {text : String} (hopen : '[' ∉ text.toList)
    (hclose : ']' ∉ text.toList) {fault : Fault} (h : read text = .error fault) :
    ∃ cause, fault = .query (.path cause) := by
  by_cases htext : text = ""
  · subst htext
    cases h
  · rw [read_splitOn hopen hclose htext] at h
    split_ifs at h <;> cases h
    · exact ⟨_, rfl⟩
    · exact ⟨_, rfl⟩

namespace Reshaping

variable {limit : Nat} {inner raw : List Char} {text : String}

/-! ### Reading -/

/-- What a part of a list counts for: a blank part for nothing. -/
def counted? (raw : List Char) : Option (List Char) :=
  Option.guard (!·.isEmpty) (Text.trim raw)

/-- The entries that count are those with something between the commas, -/
theorem entries_eq_filterMap (config : String) :
    entries config = (Text.cutAll ',' config.toList).filterMap counted? := by
  rw [entries, ← List.filterMap_eq_filter, List.filterMap_map]
  rfl

/-- An entry as the name and the path to pick. -/
def readPick (entry : List Char) : Except Fault (String × Path) := do
  return (String.ofList entry, ← Path.read (String.ofList entry))

/-- and each is read on its own. -/
theorem readPicks_eq_mapM (config : String) : readPicks config = (entries config).mapM readPick :=
  rfl

/-- A part without a colon is a path that has its own text for a target. -/
theorem readProjected_of_uncut (h : ':' ∉ raw) :
    readProjected raw = (counted? raw).mapM fun entry => do return (← readPick entry).swap := by
  have hcut : Text.cutFirst? [':'] (Text.trim raw) = none :=
    Text.cutFirst?_eq_none List.mem_cons_self fun hmem => h (Text.trim_subset raw hmem)
  rw [readProjected, counted?]
  cases hentry : Text.trim raw with
  | nil => rfl
  | cons c s =>
      rw [hentry] at hcut
      have hcounts : Option.guard (fun entry : List Char => !entry.isEmpty) (c :: s) =
          some (c :: s) := rfl
      rw [hcounts, Option.mapM_some, readPick]
      simp only [hcut, List.isEmpty_cons, Bool.or_self, Bool.false_eq_true, if_false]
      cases Path.read (String.ofList (c :: s)) <;> rfl

/-- A text in braces is recognized as one, -/
theorem braced?_braces (inner : List Char) :
    braced? (String.ofList ('\x7b' :: (inner ++ ['\x7d']))) = some inner := by
  have htrimmed := Text.trimmed_between (c := '\x7b') (d := '\x7d') (by decide) (by decide) inner
  rw [braced?, String.toList_ofList, Text.trim_of_trimmed htrimmed]
  simp

/-- A list of paths without marks and colons. -/
def IsPathList (text : String) : Prop :=
  ∀ c ∈ text.toList, c ∉ Text.marks ∧ c ≠ ':'

/-- and its entries are read as picks if none of them needs more. -/
theorem readProjection_braces (h : IsPathList text) :
    readProjection ("\x7b" ++ text ++ "\x7d") = do
      return some ((← readPicks text).map Prod.swap) := by
  have hconfig : "\x7b" ++ text ++ "\x7d" =
      String.ofList ('\x7b' :: (text.toList ++ ['\x7d'])) := by
    simp [← String.toList_inj]
  have hcut : Text.cutOutside [','] text.toList = .ok (Text.cutAll ',' text.toList) :=
    Text.cutOutside_of_unmarked (by decide) fun c hc => (h c hc).1
  -- no part has a colon, since the text has none
  have hparts : ∀ raw ∈ Text.cutAll ',' text.toList, ':' ∉ raw := by
    intro raw hraw hmem
    rw [Text.cutAll_eq_splitOn] at hraw
    exact Text.forall_mem_splitOn (fun c hc _ => (h c hc).2) raw hraw ':' hmem rfl
  have hread := Result.mapM_filterMap fun raw hraw => readProjected_of_uncut (hparts raw hraw)
  rw [← entries_eq_filterMap, ← Result.map_mapM, ← readPicks_eq_mapM] at hread
  rw [readProjection, hconfig, braced?_braces]
  calc (do
      let found ← (← Text.cutOutside [','] text.toList).mapM readProjected
      return some (found.filterMap id))
    _ = (do
          let fields ← (do
            return (← (Text.cutAll ',' text.toList).mapM readProjected).filterMap id)
          return some fields) := by
        simp only [hcut, Result.bind_ok, bind_assoc, pure_bind]
    _ = (do return some ((← readPicks text).map Prod.swap)) := by
        simp only [hread, bind_assoc, pure_bind]

/-! ### Building -/

/-- A projection that is a list of paths makes of every item what a pick makes of it. -/
theorem project_braces (h : IsPathList text) (items : List Value) :
    project limit ("\x7b" ++ text ++ "\x7d") items = do
      return items.map (gather (← readPicks text)) := by
  rw [project, readProjection_braces h]
  cases readPicks text with
  | error fault => rfl
  | ok picks =>
      have hswap : (picks.map Prod.swap).map Prod.swap = picks := by
        rw [List.map_map, Prod.swap_swap_eq, List.map_id]
      show Except.ok (items.map (gather ((picks.map Prod.swap).map Prod.swap))) = _
      rw [hswap]
      rfl

/-- A pick from an array gathers from each item. -/
theorem pick_array (config : String) (items : List Value) :
    pick config (.array items) = do
      return .array (items.map (gather (← readPicks config))) := by
  rw [pick]
  cases readPicks config <;> rfl

/-- A list of paths fails for a path that is wrong. -/
theorem query_of_readPicks_error (h : IsPathList text) {fault : Fault}
    (hfault : readPicks text = .error fault) : ∃ cause, fault = .query (.path cause) := by
  rcases Result.mapM_cases readPick (entries text) with
    ⟨picks, hpicks⟩ | ⟨entry, hentry, fault', hread, hfails⟩
  · cases hfault.symm.trans hpicks
  · cases hfault.symm.trans hfails
    -- the characters of an entry are characters of the text
    have hchars : ∀ c ∈ entry, c ∉ Text.marks := by
      rw [entries, List.mem_filter, Text.cutAll_eq_splitOn] at hentry
      obtain ⟨raw, hraw, rfl⟩ := List.mem_map.mp hentry.1
      exact fun c hc => Text.forall_mem_splitOn (fun c hc _ => (h c hc).1) raw hraw c
        (Text.trim_subset raw hc)
    have hbracket {c : Char} (hc : c ∈ Text.marks) : c ∉ (String.ofList entry).toList := by
      rw [String.toList_ofList]
      exact fun hmem => hchars c hmem hc
    cases hpath : Path.read (String.ofList entry) with
    | ok path =>
        rw [readPick, hpath] at hread
        cases hread
    | error fault' =>
        rw [readPick, hpath] at hread
        cases hread
        exact Path.query_of_read_error (hbracket (by decide)) (hbracket (by decide)) hpath

end Reshaping

/-- **A projection that is a list of paths picks from every item.**  If there are no quotes,
brackets and colons in a text, then mapping an array by the text in braces and picking by the text
are both refused for the same entry that is no path, or both leave the same array: of every item the
object of what is found at the paths, each under the text of its path. -/
theorem Step.map_pick_agree (settings : Settings) {text : String} (h : Reshaping.IsPathList text)
    {map pick : Step} (hmap : map.kind = .map) (hpick : pick.kind = .pick)
    (hmapped : map.config = "\x7b" ++ text ++ "\x7d") (hpicked : pick.config = text)
    (items : List Value) :
    (∃ cause, map.run settings (.array items) = .error (.query (.path cause)) ∧
      pick.run settings (.array items) = .error (.query (.path cause))) ∨
    ∃ picks, Reshaping.readPicks text = .ok picks ∧
      map.run settings (.array items) = .ok (.array (items.map (Reshaping.gather picks))) ∧
      pick.run settings (.array items) = .ok (.array (items.map (Reshaping.gather picks))) := by
  have hmapRun : map.run settings (.array items) = do
      return .array (items.map (Reshaping.gather (← Reshaping.readPicks text))) := by
    rw [run, hmap]
    simp only [arrayItems, Result.bind_ok, hmapped, Reshaping.project_braces h, bind_assoc,
      pure_bind]
  have hpickRun : pick.run settings (.array items) = do
      return .array (items.map (Reshaping.gather (← Reshaping.readPicks text))) := by
    rw [run, hpick, ← Reshaping.pick_array, hpicked]
  rw [hmapRun, hpickRun]
  cases hpicks : Reshaping.readPicks text with
  | error fault =>
      obtain ⟨cause, rfl⟩ := Reshaping.query_of_readPicks_error h hpicks
      exact .inl ⟨cause, rfl, rfl⟩
  | ok picks => exact .inr ⟨picks, rfl, rfl, rfl⟩

/-- A path that comes twice, a blank entry and a wildcard; and a text with an empty segment, which
is refused even if there are no items. -/
theorem Step.map_pick_agree_wildcard :
    let text := " a.b,, *,a.b"
    let map : Step := ⟨"m", .map, "\x7b a.b,, *,a.b\x7d", "", true⟩
    let pick : Step := ⟨"p", .pick, " a.b,, *,a.b", "", true⟩
    let item : Value := .object [("a", .object [("b", .null)])]
    let picked : Value := .object [("a.b", .null), ("*", .array [.object [("b", .null)]])]
    let badMap : Step := ⟨"m", .map, "\x7ba..b\x7d", "", true⟩
    let badPick : Step := ⟨"p", .pick, "a..b", "", true⟩
    let fault : Fault := .query (.path (.emptySegment "a..b"))
    Reshaping.IsPathList text ∧ map.config = "\x7b" ++ text ++ "\x7d" ∧
      map.run {} (.array [item]) = .ok (.array [picked]) ∧
      pick.run {} (.array [item]) = .ok (.array [picked]) ∧
      Reshaping.IsPathList "a..b" ∧ badMap.config = "\x7b" ++ "a..b" ++ "\x7d" ∧
      badMap.run {} (.array []) = .error fault ∧ badPick.run {} (.array []) = .error fault := by
  intro text map pick item picked badMap badPick fault
  have htext : Reshaping.IsPathList " a.b,, *,a.b" := chars_forall (by decide)
  have hbad : Reshaping.IsPathList "a..b" := chars_forall (by decide)
  have hconfig : map.config = "\x7b" ++ " a.b,, *,a.b" ++ "\x7d" := by decide
  have hbadConfig : badMap.config = "\x7b" ++ "a..b" ++ "\x7d" := by decide
  have hpick : run {} ⟨"p", .pick, " a.b,, *,a.b", "", true⟩ (.array [item]) =
      .ok (.array [picked]) := rfl
  have hbadPick : run {} ⟨"p", .pick, "a..b", "", true⟩ (.array []) = .error fault := rfl
  have hagree := @map_pick_agree {} _ htext map pick rfl rfl hconfig rfl [item]
  have hbadAgree := @map_pick_agree {} _ hbad badMap badPick rfl rfl hbadConfig rfl []
  have hmap : map.run {} (.array [item]) = .ok (.array [picked]) := by
    rcases hagree with ⟨cause, -, hrefused⟩ | ⟨picks, -, hmapped, hpicked⟩
    · cases hpick.symm.trans hrefused
    · exact hmapped.trans (hpicked.symm.trans hpick)
  have hbadMap : badMap.run {} (.array []) = .error fault := by
    rcases hbadAgree with ⟨cause, hmapped, hpicked⟩ | ⟨picks, -, -, hpicked⟩
    · exact hmapped.trans (hpicked.symm.trans hbadPick)
    · cases hbadPick.symm.trans hpicked
  exact ⟨htext, hconfig, hmap, hpick, hbad, hbadConfig, hbadMap, hbadPick⟩

end Quarry
