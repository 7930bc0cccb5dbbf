import Quarry.Proofs.Segments

/-!
# Maps — a filter on every item

Around any filter text `map(…)` is read as a map of its chain, one level above it
(`Filter.read_map`): the text is balanced, so the brackets belong together and hide its bars.

Two maps one after another go through the items twice, and one map with both bodies goes through
them once.  Either succeeds if every item goes through both bodies with success, but they come to
the faults in another order, so it is successes that agree (`Stage.applyAll_map_map`).

A step that maps takes its text for a filter unless it stands in braces.  No filter text does, so
the step is the map of its text (`Step.run_map_iff`).  It has one level less to go, and the limit
that its faults name is another.
-/

namespace Quarry

/-! ### Chains on every item -/

namespace Stage

variable {limit limit' levels : Nat} {body : List Stage} {items : List Value} {v w : Value}

theorem apply_map_eq_ok_iff : apply limit (levels + 1) (.map body) (.array items) = .ok w ↔
    ∃ ws, items.mapM (applyAll limit levels body) = .ok ws ∧ w = .array ws := by
  rw [apply_map, Result.bind_eq_ok]
  simp [eq_comm]

theorem applyAll_singleton (stage : Stage) (v : Value) :
    applyAll limit levels [stage] v = apply limit levels stage v := by
  rw [applyAll]
  exact bind_pure _

/-- The limit has no part in a success, as only a fault names it. -/
theorem applyAll_limit (limit limit' : Nat) (chain : List Stage) :
    applyAll limit levels chain v = .ok w ↔ applyAll limit' levels chain v = .ok w := by
  have hends (limit limit' : Nat) : EndsAlike Fault.OfQuery Any
      (applyAll limit levels chain v) (applyAll limit' levels chain v) :=
    applyAll_endsAlike Value.invariant_any (Nat.le_refl levels) chain trivial
  exact ⟨fun h => ((hends limit limit').of_ok h).1, fun h => ((hends limit' limit).of_ok h).1⟩

/-- **Two maps** one after another succeed if and only if one map with both bodies does, and with
the same value. -/
theorem applyAll_map_map (body body' : List Stage) :
    applyAll limit (levels + 1) [.map body, .map body'] v = .ok w ↔
      applyAll limit (levels + 1) [.map (body ++ body')] v = .ok w := by
  rw [applyAll]
  simp only [applyAll_singleton]
  cases v with
  | array items =>
      have hbodies : applyAll limit levels (body ++ body') =
          fun item => applyAll limit levels body item >>= applyAll limit levels body' :=
        funext (applyAll_append limit levels body body')
      rw [apply_map_eq_ok_iff, hbodies, Result.bind_eq_ok]
      simp only [apply_map_eq_ok_iff, ← Result.mapM_bind_mapM_eq_ok_iff, Result.bind_eq_ok]
      constructor
      · rintro ⟨_, ⟨us, hus, rfl⟩, hw⟩
        obtain ⟨ws, hws, rfl⟩ := apply_map_eq_ok_iff.mp hw
        exact ⟨ws, ⟨us, hus, hws⟩, rfl⟩
      · rintro ⟨ws, ⟨us, hus, hws⟩, rfl⟩
        exact ⟨_, ⟨us, hus, rfl⟩, apply_map_eq_ok_iff.mpr ⟨ws, hws, rfl⟩⟩
  | _ => rfl

end Stage

/-! ### The text of a map -/

namespace Filter

variable {limit : Nat} {body f g : String} {F G : Filter}

theorem readStage_map {inner : List Char} (h : Text.Balanced inner)
    (reader : List Char → Except Fault Filter) :
    readStage reader ('m' :: 'a' :: 'p' :: '(' :: (inner ++ [')'])) =
      (do return .map (← reader inner)) := by
  have hbuiltin : builtin? ('m' :: 'a' :: 'p' :: '(' :: (inner ++ [')'])) = none :=
    builtin?_eq_none (c := '(') (by decide) (by simp)
  have hindex : indexText? ('m' :: 'a' :: 'p' :: '(' :: (inner ++ [')'])) = none := rfl
  have hslice : sliceText? ('m' :: 'a' :: 'p' :: '(' :: (inner ++ [')'])) = none := rfl
  have hcall : Text.callArgument? ['m', 'a', 'p']
      ('m' :: 'a' :: 'p' :: '(' :: (inner ++ [')'])) = some inner :=
    Text.callArgument?_of_isBalanced _ (Text.isBalanced_iff.mpr h)
  rw [readStage, if_neg (by simp), hbuiltin]
  simp only [hindex, hslice, hcall]

/-- **The text of a map** is read one level above its body. -/
theorem read_map (hbody : Text.trim body.toList ≠ []) (hread : read limit body = .ok F) :
    read (limit + 1) ("map(" ++ body ++ ")") = .ok [.map F] := by
  rw [read_eq_readChain hbody] at hread
  have hbalanced : Text.Balanced body.toList := balanced_of_readChain hread
  have htext : "map(" ++ body ++ ")" =
      String.ofList ('m' :: 'a' :: 'p' :: '(' :: (body.toList ++ [')'])) := by
    simp [← String.toList_inj]
  have hundivided : Text.Undivided '|' ('m' :: 'a' :: 'p' :: '(' :: (body.toList ++ [')'])) := by
    have hbrackets : Text.Undivided '|' ('(' :: body.toList ++ [')'] ++ []) :=
      .brackets (by decide) hbalanced .nil
    rw [List.append_nil] at hbrackets
    exact .char (by decide) (by decide) (.char (by decide) (by decide)
      (.char (by decide) (by decide) hbrackets))
  have htrimmed : Text.Trimmed ('m' :: 'a' :: 'p' :: '(' :: (body.toList ++ [')'])) :=
    Text.trimmed_between (by decide) (by decide) ('a' :: 'p' :: '(' :: body.toList)
  rw [htext]
  refine read_of_passes hundivided.passes (Text.trim_of_trimmed htrimmed) (List.cons_ne_nil _ _) ?_
  rw [readStage_map hbalanced, readChain_limit hread]
  rfl

/-- **Maps fuse.**  For any two texts that are not blank and are read one level below, two maps with
a bar between them are read, so is one map with the bar inside, and of every value the one makes
what the other makes, if either succeeds. -/
theorem evaluate_map_map (hf : Text.trim f.toList ≠ []) (hg : Text.trim g.toList ≠ [])
    (hF : read limit f = .ok F) (hG : read limit g = .ok G) :
    read (limit + 1) ("map(" ++ f ++ ") | map(" ++ g ++ ")") = .ok [.map F, .map G] ∧
      read (limit + 1) ("map(" ++ f ++ " | " ++ g ++ ")") = .ok [.map (F ++ G)] ∧
      ∀ v w, evaluate (limit + 1) ("map(" ++ f ++ ") | map(" ++ g ++ ")") v = .ok w ↔
        evaluate (limit + 1) ("map(" ++ f ++ " | " ++ g ++ ")") v = .ok w := by
  have htwo : read (limit + 1) ("map(" ++ f ++ ") | map(" ++ g ++ ")") = .ok [.map F, .map G] := by
    have htext : "map(" ++ f ++ ") | map(" ++ g ++ ")" =
        "map(" ++ f ++ ")" ++ " | " ++ ("map(" ++ g ++ ")") := by simp [← String.toList_inj]
    have hne (body : String) : Text.trim ("map(" ++ body ++ ")").toList ≠ [] :=
      Text.trim_ne_nil_of_mem (c := 'm') (by decide) (by simp)
    rw [htext]
    exact read_bar_padded (hne f) (hne g) (read_map hf hF) (read_map hg hG)
  have hone : read (limit + 1) ("map(" ++ f ++ " | " ++ g ++ ")") = .ok [.map (F ++ G)] := by
    have htext : "map(" ++ f ++ " | " ++ g ++ ")" = "map(" ++ (f ++ " | " ++ g) ++ ")" := by
      simp [← String.toList_inj]
    have hne : Text.trim (f ++ " | " ++ g).toList ≠ [] :=
      Text.trim_ne_nil_of_mem (c := '|') (by decide) (by simp)
    rw [htext]
    exact read_map hne (read_bar_padded hf hg hF hG)
  refine ⟨htwo, hone, fun v w => ?_⟩
  rw [evaluate, evaluate, htwo, hone]
  exact Stage.applyAll_map_map F G

/-- A body with a blank in front of it, and one that is a map itself. -/
theorem evaluate_map_map_nested :
    let v : Value := .array [.array [.bool true, .null], .null]
    let w : Value := .array [.array [.bool true, .bool false], .null]
    Text.trim " reverse".toList ≠ [] ∧ read 1 " reverse" = .ok [.builtin .reverse] ∧
      Text.trim "map(not)".toList ≠ [] ∧ read 1 "map(not)" = .ok [.map [.builtin .not]] ∧
      evaluate 2 "map( reverse | map(not))" v = .ok w ∧
      evaluate 2 "map( reverse) | map(map(not))" v = .ok w := by
  intro v w
  have hreverse : Text.trim " reverse".toList ≠ [] := by decide
  have hmap : Text.trim "map(not)".toList ≠ [] := by decide
  have hF : read 1 " reverse" = .ok [.builtin .reverse] := rfl
  have hG : read 1 "map(not)" = .ok [.map [.builtin .not]] := rfl
  have hone : evaluate 2 "map( reverse | map(not))" v = .ok w := rfl
  obtain ⟨-, -, hiff⟩ := evaluate_map_map hreverse hmap hF hG
  exact ⟨hreverse, hF, hmap, hG, hone, (hiff v w).mpr hone⟩

end Filter

/-! ### Steps that map -/

/-- A text that is read as a filter is no projection. -/
theorem Reshaping.project_of_read {limit : Nat} {config : String} {F : Filter}
    (hne : Text.trim config.toList ≠ []) (hread : Filter.read limit config = .ok F)
    (items : List Value) : project limit config items = items.mapM (F.run limit) := by
  have hbraced : braced? config = none := by
    have hbrace := Filter.head?_trim_ne_brace (Filter.read_eq_readChain hne ▸ hread)
    rw [braced?]
    split
    · rename_i hs
      exact absurd (congrArg List.head? hs) hbrace
    · rfl
  rw [project, readProjection, hbraced]
  simp only [Result.bind_ok, List.isEmpty_iff, if_neg hne, hread]

namespace Step

/-- **A step that maps** with a filter text succeeds on an array if and only if the map of the text
does, one level higher, and with the same array. -/
theorem run_map_iff {settings : Settings} {step : Step} {F : Filter} (hkind : step.kind = .map)
    (hne : Text.trim step.config.toList ≠ [])
    (hread : Filter.read settings.maxDepth step.config = .ok F) (items : List Value) (w : Value) :
    step.run settings (.array items) = .ok w ↔
      Filter.evaluate (settings.maxDepth + 1) ("map(" ++ step.config ++ ")") (.array items) =
        .ok w := by
  have hstep : step.run settings (.array items) =
      Stage.applyAll settings.maxDepth (settings.maxDepth + 1) [.map F] (.array items) := by
    rw [run, hkind, Stage.applyAll_singleton, Stage.apply_map]
    simp only [arrayItems, Result.bind_ok, Reshaping.project_of_read hne hread]
    rfl
  rw [hstep, Filter.evaluate, Filter.read_map hne hread]
  exact Stage.applyAll_limit settings.maxDepth (settings.maxDepth + 1) [.map F]

/-- A text with blanks around it, and a map in it. -/
theorem run_map_iff_nested :
    let step : Step := ⟨"m", .map, " reverse | map(not) ", "", true⟩
    let items : List Value := [.array [.bool true, .null], .null]
    let w : Value := .array [.array [.bool true, .bool false], .null]
    step.kind = .map ∧ Text.trim step.config.toList ≠ [] ∧
      Filter.read ({} : Settings).maxDepth step.config =
        .ok [.builtin .reverse, .map [.builtin .not]] ∧
      Filter.evaluate 513 "map( reverse | map(not) )" (.array items) = .ok w ∧
      step.run {} (.array items) = .ok w := by
  intro step items w
  have hne : Text.trim step.config.toList ≠ [] := by decide
  have hread : Filter.read ({} : Settings).maxDepth " reverse | map(not) " =
      .ok [.builtin .reverse, .map [.builtin .not]] := rfl
  have hmap : Filter.evaluate 513 "map( reverse | map(not) )" (.array items) = .ok w := rfl
  exact ⟨rfl, hne, hread, hmap, (run_map_iff rfl hne hread items w).mpr hmap⟩

end Step

end Quarry
