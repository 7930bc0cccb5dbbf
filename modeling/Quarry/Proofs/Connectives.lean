import Quarry.Proofs.Acceptance
import Quarry.Proofs.Matching

/-!
# Connectives — documents put together from documents

A document that passes the checks still does so under a connective, one container deeper for a
negation and two for a list.  Its patterns are the same, or are among those of the whole, and a
document is built into the same criteria from more patterns (`build_mono`).  So the criteria of
the whole are those of its parts under the connective (`read_negated`, `read_conjunction`).  A list
of alternatives may be written as well with negations and "every" (`read_deMorgan`).
-/

namespace Quarry.Criteria

variable {ps ps' : List ReadPattern} {limit : Nat} {text text' name : String} {raw v : Value}
  {c : Criteria}

/-! ### More patterns -/

/-- A value is built into the same criteria from the patterns `ps` and `ps'`. -/
def BuildsAlike (ps ps' : List ReadPattern) (v : Value) : Prop :=
  ∀ c, build ps v = .ok c → build ps' v = .ok c

/-- Items are built one by one, so what holds of each holds of the list. -/
theorem buildItems_mono {items : List Value} {cs : List Criteria}
    (hitems : ∀ w ∈ items, BuildsAlike ps ps' w) (h : buildItems ps items = .ok cs) :
    buildItems ps' items = .ok cs := by
  rw [buildItems_eq_mapM] at h ⊢
  exact Result.mapM_mono hitems h

section

variable [Pattern.Names]

/-- A pattern that was found is found among more patterns: reading is a function of its text and
options. -/
theorem findPattern_mono (hread : ∀ p ∈ ps', p.IsRead) (hsub : ps ⊆ ps')
    {regex options : String} {node : Pattern.Node} (h : findPattern ps regex options = .ok node) :
    findPattern ps' regex options = .ok node := by
  rw [findPattern] at h
  split at h
  · rename_i p hp
    cases h
    have hkeys := List.find?_some hp
    rw [Bool.and_eq_true, decide_eq_true_eq, decide_eq_true_eq] at hkeys
    obtain ⟨rfl, rfl⟩ := hkeys
    exact findPattern_of_mem hread (hsub (List.mem_of_find?_eq_some hp))
  · cases h

/-- So a test is built alike, -/
theorem buildTest_mono (hread : ∀ p ∈ ps', p.IsRead) (hsub : ps ⊆ ps')
    {tests : List (String × Value)} {test : FieldTest} (h : buildTest ps tests name v = .ok test) :
    buildTest ps' tests name v = .ok test := by
  by_cases hregex : name = "$regex"
  · -- the one operator that looks at the patterns
    subst hregex
    obtain ⟨node, hnode, htest⟩ := Result.bind_eq_ok.mp h
    cases htest
    exact Result.bind_eq_ok.mpr ⟨node, findPattern_mono hread hsub hnode, rfl⟩
  · simp only [buildTest, hregex, if_false] at h ⊢
    exact h

/-- and so is a condition, from its tests, -/
theorem buildCondition_mono (hread : ∀ p ∈ ps', p.IsRead) (hsub : ps ⊆ ps')
    {condition : FieldCondition} (h : buildCondition ps v = .ok condition) :
    buildCondition ps' v = .ok condition := by
  rw [buildCondition.eq_def] at h ⊢
  split
  · dsimp only at h
    split
    · rename_i hmarked
      rw [if_pos hmarked] at h
      obtain ⟨tests, htests, h⟩ := Result.bind_eq_ok.mp h
      exact Result.bind_eq_ok.mpr
        ⟨tests, Result.mapM_mono (fun m _ test => buildTest_mono hread hsub) htests, h⟩
    · rename_i hmarked
      rwa [if_neg hmarked] at h
  · rename_i hobject
    cases v with
    | object members => exact absurd rfl (hobject members)
    | _ => exact h

/-- and a part of a document, if the documents inside it are. -/
theorem buildPart_mono (hread : ∀ p ∈ ps', p.IsRead) (hsub : ps ⊆ ps') (hv : BuildsAlike ps ps' v)
    (hitems : ∀ items, v = .array items → ∀ w ∈ items, BuildsAlike ps ps' w)
    (h : buildPart ps name v = .ok c) : buildPart ps' name v = .ok c := by
  rw [buildPart.eq_def] at h ⊢
  by_cases hand : name = "$and"
  · rw [if_pos hand] at h ⊢
    cases v with
    | array items =>
        obtain ⟨cs, hcs, h⟩ := Result.bind_eq_ok.mp h
        exact Result.bind_eq_ok.mpr ⟨cs, buildItems_mono (hitems items rfl) hcs, h⟩
    | _ => exact h
  by_cases hor : name = "$or"
  · rw [if_neg hand, if_pos hor] at h ⊢
    cases v with
    | array items =>
        obtain ⟨cs, hcs, h⟩ := Result.bind_eq_ok.mp h
        exact Result.bind_eq_ok.mpr ⟨cs, buildItems_mono (hitems items rfl) hcs, h⟩
    | _ => exact h
  rw [if_neg hand, if_neg hor] at h ⊢
  split
  · rename_i hnot
    rw [if_pos hnot] at h
    obtain ⟨part, hpart, h⟩ := Result.bind_eq_ok.mp h
    exact Result.bind_eq_ok.mpr ⟨part, hv part hpart, h⟩
  · rename_i hnot
    rw [if_neg hnot] at h
    obtain ⟨condition, hcondition, h⟩ := Result.bind_eq_ok.mp h
    exact Result.bind_eq_ok.mpr ⟨condition, buildCondition_mono hread hsub hcondition, h⟩

/-- **More patterns change nothing** in a document of which all patterns were read. -/
theorem build_mono (hread : ∀ p ∈ ps', p.IsRead) (hsub : ps ⊆ ps') (v : Value) :
    BuildsAlike ps ps' v := by
  -- under a connective stand items, so those of an array are gone through along with it
  suffices BuildsAlike ps ps' v ∧
    ∀ items, v = .array items → ∀ w ∈ items, BuildsAlike ps ps' w from this.1
  induction v with
  | object members ih =>
      refine ⟨fun c h => ?_, nofun⟩
      rw [build, buildMembers_eq_mapM] at h ⊢
      obtain ⟨parts, hparts, h⟩ := Result.bind_eq_ok.mp h
      refine Result.bind_eq_ok.mpr ⟨parts, Result.mapM_mono (fun m hm part => ?_) hparts, h⟩
      exact buildPart_mono hread hsub (ih m hm).1 (ih m hm).2
  | array items ih =>
      refine ⟨fun c h => h, ?_⟩
      rintro _ ⟨⟩ w hw
      exact (ih w hw).1
  | _ => exact ⟨fun c h => h, nofun⟩

/-! ### Documents that pass the checks -/

/-- A document passes every check that is made before criteria are built from it. -/
structure Acceptable (limit : Nat) (raw : Value) (read : List ReadPattern) : Prop where
  depth_le : raw.depth ≤ limit
  shape : Shape.IsQuery raw
  patterns_eq : patterns raw = .ok read

/-- A text is accepted if its document is acceptable, -/
theorem Accepts.acceptable (h : Accepts limit text raw ps) : Acceptable limit raw ps :=
  ⟨h.depth_le, h.shape, h.patterns_eq⟩

/-- whatever text the document is read from. -/
theorem Acceptable.accepts (h : Acceptable limit raw ps) (hdocument : document text = .ok raw) :
    Accepts limit text raw ps :=
  ⟨hdocument, h.depth_le, h.shape, h.patterns_eq⟩

/-- What is in the list of patterns was read from its text and options. -/
theorem Acceptable.isRead (h : Acceptable limit raw ps) : ∀ p ∈ ps, p.IsRead :=
  patterns_givesRead raw ps h.patterns_eq

/-- What is read from a text was built from its document. -/
theorem acceptable_of_read [Shape.Report] (hdocument : document text = .ok raw)
    (hread : read limit text = .ok c) :
    ∃ ps, Acceptable limit raw ps ∧ build ps raw.normalize = .ok c := by
  obtain ⟨raw', ps, h⟩ := exists_read_iff.mp ⟨c, hread⟩
  obtain rfl : raw' = raw := Except.ok.inj (h.document_eq.symm.trans hdocument)
  rw [h.read_eq] at hread
  exact ⟨ps, h.acceptable, hread⟩

/-- An acceptable document is read as the criteria that are built from it. -/
theorem Acceptable.read_eq_ok [Shape.Report] (h : Acceptable limit raw ps)
    (hdocument : document text = .ok raw)
    (hbuild : build ps raw.normalize = .ok c) : read limit text = .ok c := by
  rw [(h.accepts hdocument).read_eq, hbuild]

end

/-! ### One connective -/

/-- The document with one member. -/
def under (name : String) (v : Value) : Value :=
  .object [(name, v)]

theorem normalize_under : (under name v).normalize = under name v.normalize := rfl

/-- A connective is one container more. -/
theorem depth_under : (under name v).depth = v.depth + 1 := by
  rw [under, Value.depth, Value.depthMembers, Value.depthMembers, Nat.max_zero]

/-- A connective over what it may have under it is a document of the right shape. -/
theorem isQuery_under (hname : name ∈ Shape.connectives) (h : Shape.IsPart name v) :
    Shape.IsQuery (under name v) :=
  .object (List.forall_mem_singleton.mpr fun _ => hname) (List.forall_mem_singleton.mpr h)

section

variable [Pattern.Names]

/-- A connective has no patterns of its own: the only name that brings one is `$regex`. -/
theorem patterns_under (h : name ≠ "$regex") : patterns (under name v) = patterns v := by
  have hown : ownPattern [(name, v)] = .ok [] := by
    rw [ownPattern, Members.find?, if_neg h]
    rfl
  rw [under, patterns, hown, patternsInMembers, patternsInMembers]
  cases patterns v with
  | error fault => rfl
  | ok found => exact congrArg Except.ok (List.append_nil found)

/-- A document is accepted under a connective that takes it. -/
theorem Acceptable.under (hname : name ∈ Shape.connectives) (hpart : Shape.IsPart name v)
    (hdepth : v.depth ≤ limit) (hpatterns : patterns v = .ok ps) :
    Acceptable (limit + 1) (under name v) ps := by
  refine ⟨?_, isQuery_under hname hpart, ?_⟩
  · rw [depth_under]
    exact Nat.succ_le_succ hdepth
  · rw [patterns_under, hpatterns]
    rintro rfl
    exact absurd hname (by decide)

/-- A negation nests one deeper, -/
theorem Acceptable.negated (h : Acceptable limit raw ps) :
    Acceptable (limit + 1) (Criteria.under "$not" raw) ps :=
  .under (by decide) (.negated h.shape) h.depth_le h.patterns_eq

/-- and a list of documents two deeper, for the connective and its array. -/
theorem Acceptable.list {items : List Value} (hname : name = "$and" ∨ name = "$or")
    (hne : items ≠ []) (hdepth : ∀ v ∈ items, v.depth ≤ limit)
    (hshape : ∀ v ∈ items, Shape.IsQuery v) (hpatterns : patternsInItems items = .ok ps) :
    Acceptable (limit + 2) (Criteria.under name (.array items)) ps := by
  refine .under ?_ (.list hname hne hshape) ?_ hpatterns
  · rcases hname with rfl | rfl <;> decide
  · exact Value.depthItems_le_iff.mpr fun v hv => Nat.succ_le_succ (hdepth v hv)

end

/-! ### The criteria of one connective -/

theorem buildPart_and (ps : List ReadPattern) (items : List Value) :
    buildPart ps "$and" (.array items) = do return .every (← items.mapM (build ps)) := by
  rw [← buildItems_eq_mapM]
  rfl

theorem buildPart_or (ps : List ReadPattern) (items : List Value) :
    buildPart ps "$or" (.array items) = do return .some (← items.mapM (build ps)) := by
  rw [← buildItems_eq_mapM]
  rfl

theorem buildPart_not (ps : List ReadPattern) (v : Value) :
    buildPart ps "$not" v = do return .not (← build ps v) := rfl

/-- The criteria of a document with one member are those of the member alone. -/
theorem build_under (ps : List ReadPattern) (name : String) (v : Value) :
    build ps (under name v) = do return .every [← buildPart ps name v] := by
  rw [under, build, buildMembers_eq_mapM, List.mapM_cons, List.mapM_nil]
  cases buildPart ps name v <;> rfl

/-- So `$not` negates the criteria of its document, -/
theorem build_negated (h : build ps v = .ok c) :
    build ps (under "$not" v) = .ok (.every [.not c]) := by
  rw [build_under, buildPart_not, h]
  rfl

/-- and `$and` asks for all of those in its list. -/
theorem build_conjunction {items : List Value} {cs : List Criteria}
    (h : items.mapM (build ps) = .ok cs) :
    build ps (under "$and" (.array items)) = .ok (.every [.every cs]) := by
  rw [build_under, buildPart_and, h]
  rfl

/-! ### Negation -/

/-- A text with the negation of a document is read one level deeper. -/
theorem read_negated [Pattern.Names] [Shape.Report] (hdocument : document text = .ok raw)
    (hread : read limit text = .ok c)
    (hdocument' : document text' = .ok (under "$not" raw)) :
    read (limit + 1) text' = .ok (.every [.not c]) := by
  obtain ⟨ps, h, hbuild⟩ := acceptable_of_read hdocument hread
  exact h.negated.read_eq_ok hdocument' (build_negated hbuild)

/-! ### Conjunction -/

/-- A text with two documents under "every" is read two levels deeper. -/
theorem read_conjunction [Pattern.Names] [Shape.Report] {text₁ text₂ : String}
    {raw₁ raw₂ : Value} {c₁ c₂ : Criteria}
    (hdocument₁ : document text₁ = .ok raw₁) (hread₁ : read limit text₁ = .ok c₁)
    (hdocument₂ : document text₂ = .ok raw₂) (hread₂ : read limit text₂ = .ok c₂)
    (hdocument : document text = .ok (under "$and" (.array [raw₁, raw₂]))) :
    read (limit + 2) text = .ok (.every [.every [c₁, c₂]]) := by
  obtain ⟨ps₁, h₁, hbuild₁⟩ := acceptable_of_read hdocument₁ hread₁
  obtain ⟨ps₂, h₂, hbuild₂⟩ := acceptable_of_read hdocument₂ hread₂
  have hpatterns : patternsInItems [raw₁, raw₂] = .ok (ps₁ ++ ps₂) := by
    simp only [patternsInItems, h₁.patterns_eq, h₂.patterns_eq, Result.bind_ok,
      Result.pure_eq_ok, List.append_nil]
  have h : Acceptable (limit + 2) (under "$and" (.array [raw₁, raw₂])) (ps₁ ++ ps₂) :=
    .list (.inl rfl) (List.cons_ne_nil _ _) (by simp [h₁.depth_le, h₂.depth_le])
      (by simp [h₁.shape, h₂.shape]) hpatterns
  -- each part keeps its criteria with the patterns of the other one added
  replace hbuild₁ := build_mono h.isRead (List.subset_append_left ps₁ ps₂) _ _ hbuild₁
  replace hbuild₂ := build_mono h.isRead (List.subset_append_right ps₁ ps₂) _ _ hbuild₂
  refine h.read_eq_ok hdocument (build_conjunction ?_)
  rw [Value.normalizeItems_eq_map, List.map_cons, List.map_cons, List.mapM_cons, List.mapM_cons,
    hbuild₁, hbuild₂]
  rfl

/-! ### Alternatives by negation -/

/-- Criteria by which one of `cs` has to hold, without "some". -/
def notEveryNot (cs : List Criteria) : Criteria :=
  .every [.not (.every [.every (cs.map fun c => .every [.not c])])]

/-- **De Morgan.**  One of the parts holds if and only if not all of their negations do, and both
forms are answered for the same members. -/
theorem agrees_notEveryNot (cs : List Criteria) : Agrees (.every [.some cs]) (notEveryNot cs) := by
  intro members h
  cases h with
  | every h =>
      cases List.forall_mem_singleton.mp h with
      | some h =>
          have hnegations : ∀ p ∈ cs.map fun c => Criteria.every [.not c],
              Answered members p := List.forall_mem_map.mpr fun p hp =>
            .every (List.forall_mem_singleton.mpr (.not (h p hp)))
          -- the negations are answered where the parts are
          refine ⟨.every (List.forall_mem_singleton.mpr (.not (.every
            (List.forall_mem_singleton.mpr (.every hnegations))))), ?_⟩
          simp only [notEveryNot, meets_every_iff, meets_some_iff, meets_not_iff,
            List.forall_mem_singleton, List.forall_mem_map, not_forall, Classical.not_not,
            exists_prop]

/-- The document that negates that none of the parts holds. -/
def denied (parts : List Value) : Value :=
  under "$not" (under "$and" (.array (parts.map (under "$not"))))

/-- Negating each of several documents adds no patterns. -/
theorem patternsInItems_negated [Pattern.Names] (parts : List Value) :
    patternsInItems (parts.map (under "$not")) = patternsInItems parts := by
  induction parts with
  | nil => rfl
  | cons v parts ih =>
      rw [List.map_cons, patternsInItems, patternsInItems, ih, patterns_under (by decide)]

/-- **De Morgan.**  A text with alternatives is as good as one that negates all of them. -/
theorem read_deMorgan [Pattern.Names] [Shape.Report] {parts : List Value}
    (hdocument : document text = .ok (under "$or" (.array parts)))
    (hread : read limit text = .ok c) (hdocument' : document text' = .ok (denied parts)) :
    ∃ c', read (limit + 2) text' = .ok c' ∧ Agrees c c' := by
  obtain ⟨ps, h, hbuild⟩ := acceptable_of_read hdocument hread
  rw [normalize_under, Value.normalize, Value.normalizeItems_eq_map] at hbuild
  rw [build_under, buildPart_or] at hbuild
  obtain ⟨part, hpart, hc⟩ := Result.bind_eq_ok.mp hbuild
  obtain ⟨cs, hcs, hpart⟩ := Result.bind_eq_ok.mp hpart
  cases hpart
  cases hc
  refine ⟨_, ?_, agrees_notEveryNot cs⟩
  obtain ⟨hne, hshape⟩ : parts ≠ [] ∧ ∀ v ∈ parts, Shape.IsQuery v := by
    cases h.shape with
    | object _ hparts =>
        obtain ⟨_, hitems, h⟩ := (Shape.isPart_list_iff (.inr rfl)).mp (hparts _ List.mem_cons_self)
        cases hitems
        exact h
  have hdepth := h.depth_le
  rw [depth_under, Value.depth] at hdepth
  obtain ⟨limit, rfl⟩ := Nat.exists_eq_add_one.mpr (Nat.zero_lt_of_lt hdepth)
  replace hdepth := Value.depthItems_le_iff.mp (Nat.le_of_succ_le_succ hdepth)
  have hpatterns := h.patterns_eq
  rw [patterns_under (by decide), patterns, ← patternsInItems_negated] at hpatterns
  -- each part is negated, so are its criteria
  have hnormal : (parts.map (under "$not")).map Value.normalize =
      (parts.map Value.normalize).map (under "$not") := by
    rw [List.map_map, List.map_map]
    rfl
  have hnegations : ((parts.map (under "$not")).map Value.normalize).mapM (build ps) =
      .ok (cs.map fun c => .every [.not c]) := by
    rw [hnormal, List.mapM_map]
    exact Result.mapM_map_eq (fun v _ c => build_negated) hcs
  have hdenied : Acceptable (limit + 1 + 2) (denied parts) ps :=
    (Acceptable.list (.inl rfl) (by simpa using hne)
      (List.forall_mem_map.mpr fun v hv => depth_under ▸ hdepth v hv)
      (List.forall_mem_map.mpr fun v hv => isQuery_under (by decide) (.negated (hshape v hv)))
      hpatterns).negated
  refine hdenied.read_eq_ok hdocument' (build_negated ?_)
  rw [normalize_under, Value.normalize, Value.normalizeItems_eq_map]
  exact build_conjunction hnegations

end Quarry.Criteria
