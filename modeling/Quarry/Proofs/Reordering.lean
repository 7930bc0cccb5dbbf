import Quarry.Proofs.Connectives
import Quarry.Proofs.Criteria

/-!
# Reordering — the order in a document of criteria does not count

`Reorders v v'` says that `v'` is the document `v` with the members of documents and of lists of
operators, and the items under `$and` and `$or`, in another order at any level; values that are
compared with are left as they are.  What passes the checks still passes them then (`Checked`), with
no other patterns, since names are distinct and so operators find the same options beside them.
The criteria that are built agree, by induction on the reordering (`Reorders.builds`).

So matching is Boolean: it answers the same for a reordered text, the opposite for a negated one
(`matches_boolean`), and for alternatives the same as for a text that denies them with negations and
"every".
-/

namespace Quarry

namespace Members

variable {α : Type} {members members' : List (String × α)} {name : String}

/-- Distinct names are distinct in any order, -/
theorem Distinct.perm (hdistinct : Distinct members) (h : members.Perm members') :
    Distinct members' :=
  ((h.map Prod.fst).nodup_iff).mp hdistinct

/-- Under a name that comes once stands the same, whatever the order. -/
theorem find?_perm (hdistinct : Distinct members) (h : members.Perm members') (name : String) :
    find? members' name = find? members name := by
  cases hfound : find? members name with
  | some a => exact find?_of_mem (hdistinct.perm h) (h.mem_iff.mp (mem_of_find? hfound))
  | none =>
      cases hfound' : find? members' name with
      | none => rfl
      | some a =>
          have hmem := h.mem_iff.mpr (mem_of_find? hfound')
          rw [find?_of_mem hdistinct hmem] at hfound
          cases hfound

/-- and the same names are there. -/
theorem has_perm (h : members.Perm members') (name : String) :
    has members' name = has members name :=
  h.symm.any_eq

end Members

namespace Shape

variable {members members' : List (String × Value)}

/-- Whether all names are marked does not depend on their order, -/
theorem isMarkedObject_perm (h : members.Perm members') :
    isMarkedObject members' = isMarkedObject members := by
  rw [isMarkedObject, isMarkedObject, h.symm.all_eq, h.symm.isEmpty_eq]

/-- nor does whether members are operators that go together. -/
theorem AreOperators.perm (hoperators : AreOperators members) (h : members.Perm members') :
    AreOperators members' where
  nonempty := fun hnil => hoperators.nonempty (List.perm_nil.mp (hnil ▸ h))
  each := fun m hm => hoperators.each m (h.mem_iff.mpr hm)
  dependent := by
    rw [Members.has_perm h, Members.has_perm h]
    exact hoperators.dependent

end Shape

namespace Criteria

/-! ### Documents in another order -/

mutual

/-- The second document is the first one with parts in another order. -/
inductive Reorders : Value → Value → Prop where
  | refl (v : Value) : Reorders v v
  | trans {u v w : Value} (h : Reorders u v) (h' : Reorders v w) : Reorders u w
  | members {members members' : List (String × Value)} (h : members.Perm members') :
      Reorders (.object members) (.object members')
  | part {name : String} {v v' : Value} {front back : List (String × Value)}
      (h : ReordersPart name v v') :
      Reorders (.object (front ++ (name, v) :: back)) (.object (front ++ (name, v') :: back))

/-- The same for what stands under a name in a document. -/
inductive ReordersPart : String → Value → Value → Prop where
  | items {name : String} {items items' : List Value} (hname : name = "$and" ∨ name = "$or")
      (h : items.Perm items') : ReordersPart name (.array items) (.array items')
  | item {name : String} {v v' : Value} {front back : List Value}
      (hname : name = "$and" ∨ name = "$or") (h : Reorders v v') :
      ReordersPart name (.array (front ++ v :: back)) (.array (front ++ v' :: back))
  | negated {v v' : Value} (h : Reorders v v') : ReordersPart "$not" v v'
  | operators {name : String} {tests tests' : List (String × Value)}
      (hname : Shape.isMarked name = false) (hmarked : Shape.isMarkedObject tests = true)
      (h : tests.Perm tests') : ReordersPart name (.object tests) (.object tests')

end

variable {ps ps' : List ReadPattern} {limit : Nat} {text text' name : String} {v v' raw : Value}
  {c : Criteria}

/-! ### Depth -/

/-- Members nest as deep in any order, -/
theorem depthMembers_perm {members members' : List (String × Value)} (h : members.Perm members') :
    Value.depthMembers members' ≤ Value.depthMembers members :=
  Value.depthMembers_le_iff.mpr fun m hm =>
    Value.depthMembers_le_iff.mp (Nat.le_refl _) m (h.mem_iff.mpr hm)

mutual

/-- A reordered document is not nested deeper. -/
theorem Reorders.depth_le : ∀ {v v' : Value}, Reorders v v' → v'.depth ≤ v.depth
  | _, _, .refl _ => Nat.le_refl _
  | _, _, .trans h h' => Nat.le_trans h'.depth_le h.depth_le
  | _, _, .members h => depthMembers_perm h
  | _, _, @Reorders.part name v _ front back h => by
      have hdepth := Value.depthMembers_le_iff.mp
        (Nat.le_refl (Value.depthMembers (front ++ (name, v) :: back)))
      rw [List.forall_mem_append, List.forall_mem_cons] at hdepth
      obtain ⟨hfront, hv, hback⟩ := hdepth
      refine Value.depthMembers_le_iff.mpr (List.forall_mem_append.mpr ⟨hfront, ?_⟩)
      exact List.forall_mem_cons.mpr ⟨Nat.le_trans (Nat.succ_le_succ h.depth_le) hv, hback⟩

/-- and by induction so does a reordered document. -/
theorem ReordersPart.depth_le : ∀ {name : String} {v v' : Value}, ReordersPart name v v' →
    v'.depth ≤ v.depth
  -- in each case the same values nest, or values that nest no deeper
  | _, _, _, .items _ h => Value.depthItems_le_iff.mpr fun v hv =>
      Value.depthItems_le_iff.mp (Nat.le_refl _) v (h.mem_iff.mpr hv)
  | _, _, _, @ReordersPart.item _ v _ front back _ h => by
      have hdepth := Value.depthItems_le_iff.mp
        (Nat.le_refl (Value.depthItems (front ++ v :: back)))
      rw [List.forall_mem_append, List.forall_mem_cons] at hdepth
      obtain ⟨hfront, hv, hback⟩ := hdepth
      refine Value.depthItems_le_iff.mpr (List.forall_mem_append.mpr ⟨hfront, ?_⟩)
      exact List.forall_mem_cons.mpr ⟨Nat.le_trans (Nat.succ_le_succ h.depth_le) hv, hback⟩
  | _, _, _, .negated h => h.depth_le
  | _, _, _, .operators _ _ h => depthMembers_perm h

end

/-! ### Checks -/

/-- The normal form of a document is well formed if names are distinct at every level, -/
theorem wellFormed_normalize_object {members : List (String × Value)} :
    (Value.object members).normalize.WellFormed ↔
      Members.Distinct members ∧ ∀ m ∈ members, m.2.normalize.WellFormed := by
  rw [Value.normalize, Value.normalizeMembers_eq_map, Value.WellFormed,
    Value.wellFormedMembers_iff, List.forall_mem_map, Members.Distinct, Members.names,
    List.map_map]
  rfl

/-- in the items of arrays as well. -/
theorem wellFormed_normalize_array {items : List Value} :
    (Value.array items).normalize.WellFormed ↔ ∀ v ∈ items, v.normalize.WellFormed := by
  rw [Value.normalize, Value.normalizeItems_eq_map, Value.WellFormed, Value.wellFormedItems_iff,
    List.forall_mem_map]

theorem not_mem_connectives (hname : Shape.isMarked name = false) : name ∉ Shape.connectives := by
  intro hmem
  have hall : ∀ other ∈ Shape.connectives, Shape.isMarked other = true := by decide
  rw [hall name hmem] at hname
  cases hname

section

variable [Pattern.Names]

/-- A value in a document that has the shape `shape`, no name twice and no pattern but `ps`. -/
structure Checked (ps : List ReadPattern) (shape : Value → Prop) (v : Value) : Prop where
  shape : shape v
  names : v.normalize.WellFormed
  patterns : FindsIn ps (patterns v)

/-- A document has no pattern of its own. -/
theorem ownPattern_of_names {members : List (String × Value)}
    (names : ∀ m ∈ members, Shape.isMarked m.1 = true → m.1 ∈ Shape.connectives) :
    ownPattern members = .ok [] := by
  have hnone : Members.find? members "$regex" = none := by
    cases hfound : Members.find? members "$regex" with
    | none => rfl
    | some v =>
        have hmem : "$regex" ∈ Shape.connectives :=
          names _ (Members.mem_of_find? hfound) (by decide : Shape.isMarked "$regex" = true)
        exact absurd hmem (by decide)
  rw [ownPattern, hnone]

/-- A document is checked by checking its members one by one, beside their names, -/
theorem checked_object_iff {members : List (String × Value)} :
    Checked ps Shape.IsQuery (.object members) ↔ Members.Distinct members ∧ ∀ m ∈ members,
      (Shape.isMarked m.1 = true → m.1 ∈ Shape.connectives) ∧
        Checked ps (Shape.IsPart m.1) m.2 := by
  constructor
  · rintro ⟨hshape, hnames, hpatterns⟩
    obtain ⟨hdistinct, hnames⟩ := wellFormed_normalize_object.mp hnames
    obtain ⟨-, hpatterns⟩ := patterns_findsIn_object.mp hpatterns
    cases hshape with
    | object hmarked hparts =>
        exact ⟨hdistinct, fun m hm => ⟨hmarked m hm, hparts m hm, hnames m hm, hpatterns m hm⟩⟩
  · rintro ⟨hdistinct, h⟩
    have hmarked := fun m hm => (h m hm).1
    refine ⟨.object hmarked fun m hm => (h m hm).2.shape,
      wellFormed_normalize_object.mpr ⟨hdistinct, fun m hm => (h m hm).2.names⟩,
      patterns_findsIn_object.mpr ⟨?_, fun m hm => (h m hm).2.patterns⟩⟩
    rw [ownPattern_of_names hmarked]
    exact .ok (List.nil_subset _)

/-- a list of documents by checking each, -/
theorem checked_list_iff {items : List Value} (hname : name = "$and" ∨ name = "$or") :
    Checked ps (Shape.IsPart name) (.array items) ↔
      items ≠ [] ∧ ∀ v ∈ items, Checked ps Shape.IsQuery v := by
  constructor
  · rintro ⟨hshape, hnames, hpatterns⟩
    obtain ⟨_, hitems, hne, hshape⟩ := (Shape.isPart_list_iff hname).mp hshape
    cases hitems
    rw [wellFormed_normalize_array] at hnames
    rw [Criteria.patterns, patternsInItems_findsIn] at hpatterns
    exact ⟨hne, fun v hv => ⟨hshape v hv, hnames v hv, hpatterns v hv⟩⟩
  · rintro ⟨hne, h⟩
    refine ⟨.list hname hne fun v hv => (h v hv).shape,
      wellFormed_normalize_array.mpr fun v hv => (h v hv).names, ?_⟩
    rw [Criteria.patterns, patternsInItems_findsIn]
    exact fun v hv => (h v hv).patterns

/-- and a negation by checking what is negated. -/
theorem checked_negated_iff :
    Checked ps (Shape.IsPart "$not") v ↔ Checked ps Shape.IsQuery v :=
  ⟨fun h => ⟨Shape.isPart_negated_iff.mp h.shape, h.names, h.patterns⟩,
    fun h => ⟨.negated h.shape, h.names, h.patterns⟩⟩

/-- The options of a pattern are found beside it in any order of the operators. -/
theorem ownPattern_perm {members members' : List (String × Value)}
    (hdistinct : Members.Distinct members) (h : members.Perm members') :
    ownPattern members' = ownPattern members := by
  rw [ownPattern, ownPattern, Members.find?_perm hdistinct h, Members.find?_perm hdistinct h]

/-- So a list of operators passes its checks in any order. -/
theorem Checked.operators_perm {tests tests' : List (String × Value)}
    (hname : Shape.isMarked name = false) (hmarked : Shape.isMarkedObject tests = true)
    (h : tests.Perm tests') (hchecked : Checked ps (Shape.IsPart name) (.object tests)) :
    Checked ps (Shape.IsPart name) (.object tests') := by
  have hother := not_mem_connectives hname
  obtain ⟨hshape, hnames, hpatterns⟩ := hchecked
  obtain ⟨hdistinct, hnames⟩ := wellFormed_normalize_object.mp hnames
  obtain ⟨hown, hpatterns⟩ := patterns_findsIn_object.mp hpatterns
  have hoperators := ((Shape.isPart_field_iff hother).mp hshape).areOperators hmarked
  refine ⟨.field hother (.inl ⟨tests', rfl, hoperators.perm h⟩),
    wellFormed_normalize_object.mpr ⟨hdistinct.perm h, ?_⟩,
    patterns_findsIn_object.mpr ⟨?_, ?_⟩⟩
  · exact fun m hm => hnames m (h.mem_iff.mpr hm)
  · rwa [ownPattern_perm hdistinct h]
  · exact fun m hm => hpatterns m (h.mem_iff.mpr hm)

mutual

/-- **A reordered document passes the same checks.** -/
theorem Reorders.checked : ∀ {v v' : Value}, Reorders v v' → Checked ps Shape.IsQuery v →
    Checked ps Shape.IsQuery v'
  | _, _, .refl _, hchecked => hchecked
  | _, _, .trans h h', hchecked => h'.checked (h.checked hchecked)
  | _, _, .members h, hchecked => by
      obtain ⟨hdistinct, hparts⟩ := checked_object_iff.mp hchecked
      exact checked_object_iff.mpr ⟨hdistinct.perm h, fun m hm => hparts m (h.mem_iff.mpr hm)⟩
  | _, _, .part h, hchecked => by
      rw [checked_object_iff, List.forall_mem_append, List.forall_mem_cons] at hchecked ⊢
      obtain ⟨hdistinct, hfront, ⟨hmarked, hv⟩, hback⟩ := hchecked
      refine ⟨?_, hfront, ⟨hmarked, h.checked hv⟩, hback⟩
      -- the names are the same
      rw [Members.Distinct, Members.names, List.map_append, List.map_cons] at hdistinct ⊢
      exact hdistinct

/-- **What passes the checks passes them in another order**, by induction on the reordering. -/
theorem ReordersPart.checked : ∀ {name : String} {v v' : Value}, ReordersPart name v v' →
    Checked ps (Shape.IsPart name) v → Checked ps (Shape.IsPart name) v'
  | _, _, _, .items hname h, hchecked => by
      obtain ⟨hne, hitems⟩ := (checked_list_iff hname).mp hchecked
      refine (checked_list_iff hname).mpr ⟨?_, fun v hv => hitems v (h.mem_iff.mpr hv)⟩
      exact fun hnil => hne (List.perm_nil.mp (hnil ▸ h))
  | _, _, _, .item hname h, hchecked => by
      rw [checked_list_iff hname, List.forall_mem_append, List.forall_mem_cons] at hchecked ⊢
      obtain ⟨-, hfront, hv, hback⟩ := hchecked
      exact ⟨List.append_ne_nil_of_right_ne_nil _ (List.cons_ne_nil _ _), hfront, h.checked hv,
        hback⟩
  | _, _, _, .negated h, hchecked =>
      checked_negated_iff.mpr (h.checked (checked_negated_iff.mp hchecked))
  | _, _, _, .operators hname hmarked h, hchecked => hchecked.operators_perm hname hmarked h

end

end

/-! ### Criteria -/

/-- A document is built into all of the criteria of its members. -/
theorem build_normalize_object (ps : List ReadPattern) (members : List (String × Value)) :
    build ps (Value.object members).normalize = do
      return .every (← members.mapM fun m => buildPart ps m.1 m.2.normalize) := by
  rw [Value.normalize, Value.normalizeMembers_eq_map, build, buildMembers_eq_mapM, List.mapM_map]
  rfl

/-- The criteria of a list of documents under a connective. -/
def combine (name : String) (cs : List Criteria) : Criteria :=
  if name = "$and" then .every cs else .some cs

/-- Criteria under `$and` or `$or` agree in any order, -/
theorem Agrees.combine_perm {cs cs' : List Criteria} (h : cs.Perm cs') :
    Agrees (combine name cs) (combine name cs') := by
  rw [combine, combine]
  split
  · exact .every_perm h
  · exact .some_perm h

/-- and when one of them is replaced. -/
theorem Agrees.combine_part {front back : List Criteria} {c' : Criteria} (h : Agrees c c') :
    Agrees (combine name (front ++ c :: back)) (combine name (front ++ c' :: back)) := by
  rw [combine, combine]
  split
  · exact .every_part h
  · exact .some_part h

/-- A list of documents is built into the combination of their criteria, -/
theorem buildPart_list (hname : name = "$and" ∨ name = "$or") (ps : List ReadPattern)
    (items : List Value) : buildPart ps name (Value.array items).normalize = do
      return combine name (← items.mapM fun v => build ps v.normalize) := by
  rw [Value.normalize, Value.normalizeItems_eq_map]
  rcases hname with rfl | rfl
  · rw [buildPart_and, List.mapM_map]
    rfl
  · rw [buildPart_or, List.mapM_map]
    rfl

/-- An operator finds the same options beside it. -/
theorem buildTest_perm {tests tests' : List (String × Value)} (hdistinct : Members.Distinct tests)
    (h : tests.Perm tests') (ps : List ReadPattern) : buildTest ps tests' = buildTest ps tests := by
  have hunder (name : String) : textUnder tests' name = textUnder tests name := by
    rw [textUnder, textUnder, Members.find?_perm hdistinct h]
  funext operator operand
  simp only [buildTest, hunder]

/-- and a list of operators into its tests. -/
theorem buildCondition_marked {tests : List (String × Value)}
    (hmarked : Shape.isMarkedObject tests = true) (ps : List ReadPattern) :
    buildCondition ps (.object tests) = do
      return .tests (← tests.mapM fun m => buildTest ps tests m.1 m.2) := by
  rw [buildCondition, if_pos hmarked]

/-- Operators in another order make the tests in another order. -/
theorem buildPart_operators_perm {tests tests' : List (String × Value)}
    (hname : Shape.isMarked name = false) (hmarked : Shape.isMarkedObject tests = true)
    (hdistinct : Members.Distinct tests) (h : tests.Perm tests')
    (hbuild : buildPart ps name (.object tests) = .ok c) :
    ∃ c', buildPart ps name (.object tests') = .ok c' ∧ Agrees c c' := by
  have hmarked' : Shape.isMarkedObject tests' = true := by
    rw [Shape.isMarkedObject_perm h, hmarked]
  have hother := not_mem_connectives hname
  rw [buildPart_field hother, buildCondition_marked hmarked] at hbuild
  obtain ⟨condition, hcondition, hc⟩ := Result.bind_eq_ok.mp hbuild
  obtain ⟨ts, hts, hcondition⟩ := Result.bind_eq_ok.mp hcondition
  cases hcondition
  cases hc
  obtain ⟨ts', hts', hperm⟩ := Result.mapM_perm h hts
  refine ⟨.field name (.tests ts'), ?_, .field_tests name hperm⟩
  rw [buildPart_field hother, buildCondition_marked hmarked', buildTest_perm hdistinct h, hts']
  rfl

section

variable [Pattern.Names]

mutual

/-- **A reordered document asks the same**, as one that passes the checks. -/
theorem Reorders.builds : ∀ {v v' : Value}, Reorders v v' → Checked ps Shape.IsQuery v →
    ∀ {c : Criteria}, build ps v.normalize = .ok c →
      ∃ c', build ps v'.normalize = .ok c' ∧ Agrees c c'
  | _, _, .refl _, _, c, hbuild => ⟨c, hbuild, .refl c⟩
  | _, _, .trans h h', hchecked, _, hbuild => by
      obtain ⟨middle, hmiddle, hagrees⟩ := h.builds hchecked hbuild
      obtain ⟨c', hc', hagrees'⟩ := h'.builds (h.checked hchecked) hmiddle
      exact ⟨c', hc', hagrees.trans hagrees'⟩
  | _, _, .members h, _, _, hbuild => by
      rw [build_normalize_object] at hbuild ⊢
      obtain ⟨parts, hparts, hc⟩ := Result.bind_eq_ok.mp hbuild
      cases hc
      obtain ⟨parts', hparts', hperm⟩ := Result.mapM_perm h hparts
      exact ⟨_, Result.bind_eq_ok.mpr ⟨parts', hparts', rfl⟩, .every_perm hperm⟩
  | _, _, @Reorders.part name v v' _ _ h, hchecked, _, hbuild => by
      rw [build_normalize_object] at hbuild ⊢
      obtain ⟨parts, hparts, hc⟩ := Result.bind_eq_ok.mp hbuild
      cases hc
      obtain ⟨front, part, back, hfront, hpart, hback, rfl⟩ :=
        Result.mapM_append_cons_eq_ok.mp hparts
      obtain ⟨-, hv⟩ := (checked_object_iff.mp hchecked).2 (name, v)
        (List.mem_append_right _ List.mem_cons_self)
      obtain ⟨part', hpart', hagrees⟩ := h.builds hv hpart
      have hparts' := (Result.mapM_append_cons_eq_ok (a := (name, v'))).mpr
        ⟨front, part', back, hfront, hpart', hback, rfl⟩
      exact ⟨_, Result.bind_eq_ok.mpr ⟨_, hparts', rfl⟩, .every_part hagrees⟩

/-- By induction on the reordering, the criteria that are built agree. -/
theorem ReordersPart.builds : ∀ {name : String} {v v' : Value}, ReordersPart name v v' →
    Checked ps (Shape.IsPart name) v → ∀ {c : Criteria}, buildPart ps name v.normalize = .ok c →
      ∃ c', buildPart ps name v'.normalize = .ok c' ∧ Agrees c c'
  | _, _, _, .items hname h, _, _, hbuild => by
      rw [buildPart_list hname] at hbuild ⊢
      obtain ⟨cs, hcs, hc⟩ := Result.bind_eq_ok.mp hbuild
      cases hc
      obtain ⟨cs', hcs', hperm⟩ := Result.mapM_perm h hcs
      exact ⟨_, Result.bind_eq_ok.mpr ⟨cs', hcs', rfl⟩, .combine_perm hperm⟩
  | _, _, _, .item (v := v) hname h, hchecked, _, hbuild => by
      rw [buildPart_list hname] at hbuild ⊢
      obtain ⟨cs, hcs, hc⟩ := Result.bind_eq_ok.mp hbuild
      cases hc
      obtain ⟨front, part, back, hfront, hpart, hback, rfl⟩ :=
        Result.mapM_append_cons_eq_ok.mp hcs
      have hv := ((checked_list_iff hname).mp hchecked).2 v
        (List.mem_append_right _ List.mem_cons_self)
      obtain ⟨part', hpart', hagrees⟩ := h.builds hv hpart
      have hcs' := Result.mapM_append_cons_eq_ok.mpr
        ⟨front, part', back, hfront, hpart', hback, rfl⟩
      exact ⟨_, Result.bind_eq_ok.mpr ⟨_, hcs', rfl⟩, .combine_part hagrees⟩
  | _, _, _, .negated h, hchecked, _, hbuild => by
      rw [buildPart_not] at hbuild ⊢
      obtain ⟨part, hpart, hc⟩ := Result.bind_eq_ok.mp hbuild
      cases hc
      obtain ⟨part', hpart', hagrees⟩ := h.builds (checked_negated_iff.mp hchecked) hpart
      exact ⟨_, Result.bind_eq_ok.mpr ⟨part', hpart', rfl⟩, hagrees.not⟩
  | _, _, _, .operators hname hmarked h, hchecked, _, hbuild => by
      -- criteria are built from the normal form, which has the same names
      have hdistinct := hchecked.names.1
      rw [Value.normalizeMembers_eq_map] at hdistinct
      rw [Value.normalize, Value.normalizeMembers_eq_map] at hbuild ⊢
      refine buildPart_operators_perm hname ?_ hdistinct (h.map _) hbuild
      have hlike := Shape.isOperatorLike_normalize.mpr (Shape.isOperatorLike_iff.mpr hmarked)
      rw [← Value.normalizeMembers_eq_map]
      exact Shape.isOperatorLike_iff.mp hlike

end

/-! ### Texts -/

variable [Shape.Report]

/-- **A reordered text is read**, to criteria that agree. -/
theorem read_reordered (hdocument : document text = .ok raw) (hread : read limit text = .ok c)
    {raw' : Value} (hdocument' : document text' = .ok raw') (h : Reorders raw raw') :
    ∃ c', read limit text' = .ok c' ∧ Agrees c c' := by
  obtain ⟨ps, hacceptable, hbuild⟩ := acceptable_of_read hdocument hread
  have hchecked : Checked ps Shape.IsQuery raw :=
    ⟨hacceptable.shape, document_wellFormed hdocument,
      ⟨ps, hacceptable.patterns_eq, List.Subset.refl ps⟩⟩
  have hchecked' := h.checked hchecked
  obtain ⟨ps', hps', hsub⟩ := hchecked'.patterns
  have hacceptable' : Acceptable limit raw' ps' :=
    ⟨Nat.le_trans h.depth_le hacceptable.depth_le, hchecked'.shape, hps'⟩
  obtain ⟨c', hread'⟩ := exists_read_iff.mpr ⟨raw', ps', hacceptable'.accepts hdocument'⟩
  -- both texts are built from the patterns of the first
  obtain ⟨c'', hbuild'', hagrees⟩ := h.builds hchecked hbuild
  have hbuild' : build ps' raw'.normalize = .ok c' := by
    rw [← (hacceptable'.accepts hdocument').read_eq, hread']
  have hmono := build_mono hacceptable.isRead hsub raw'.normalize c' hbuild'
  obtain rfl : c' = c'' := Except.ok.inj (hmono.symm.trans hbuild'')
  exact ⟨c', hread', hagrees⟩

/-- **Matching is Boolean, and the order does not count.**  If no comparison and no lookup of the
criteria of a text fails for an object, matching has an answer.  It is the same for every text with
the document in another order, the opposite for the negated document, and the same for a document
that denies, with negations and "every", that all alternatives fail. -/
theorem matches_boolean (hdocument : document text = .ok raw) (hread : read limit text = .ok c)
    {members : List (String × Value)} (hanswered : Answered members c) :
    ∃ answer, c.matches? (.object members) = .ok answer ∧
      (∀ text' raw', document text' = .ok raw' → Reorders raw raw' →
        ∃ c', read limit text' = .ok c' ∧ c'.matches? (.object members) = .ok answer) ∧
      (∀ text', document text' = .ok (under "$not" raw) →
        ∃ c', read (limit + 1) text' = .ok c' ∧ c'.matches? (.object members) = .ok !answer) ∧
      ∀ parts text', raw = under "$or" (.array parts) → document text' = .ok (denied parts) →
        ∃ c', read (limit + 2) text' = .ok c' ∧ c'.matches? (.object members) = .ok answer := by
  obtain ⟨answer, hanswer, -⟩ := holds_decides hanswered
  have hagreed {c' : Criteria} (h : Agrees c c') : c'.matches? (.object members) = .ok answer := by
    rw [matches?, h.holds_eq hanswered, hanswer]
  refine ⟨answer, hanswer, fun text' raw' hdocument' h => ?_, fun text' hdocument' => ?_, ?_⟩
  · obtain ⟨c', hread', hagrees⟩ := read_reordered hdocument hread hdocument' h
    exact ⟨c', hread', hagreed hagrees⟩
  · refine ⟨_, read_negated hdocument hread hdocument', ?_⟩
    rw [matches?, holds, everyHolds_singleton, holds, hanswer]
    rfl
  · rintro parts text' rfl hdocument'
    obtain ⟨c', hread', hagrees⟩ := read_deMorgan hdocument hread hdocument'
    exact ⟨c', hread', hagreed hagrees⟩

end

/-- Two alternatives, a value to compare with and two operators. -/
theorem matches_boolean_alternatives :
    let _ : Pattern.Names := default
    let _ : Shape.Report := default
    let text := "\x7b\"$or\": [\x7b\"a\": 1\x7d, \x7b\"b\": \x7b\"$gt\": 2, \"$lt\": 5\x7d\x7d]\x7d"
    let members : List (String × Value) := [("a", .number (.int 3)), ("b", .number (.int 3))]
    ∃ raw c, document text = .ok raw ∧ read 4 text = .ok c ∧ Answered members c ∧
      ∃ answer, c.matches? (.object members) = .ok answer ∧
        (∀ text' raw', document text' = .ok raw' → Reorders raw raw' →
          ∃ c', read 4 text' = .ok c' ∧ c'.matches? (.object members) = .ok answer) ∧
        (∀ text', document text' = .ok (under "$not" raw) →
          ∃ c', read 5 text' = .ok c' ∧ c'.matches? (.object members) = .ok !answer) ∧
        ∀ parts text', raw = under "$or" (.array parts) → document text' = .ok (denied parts) →
          ∃ c', read 6 text' = .ok c' ∧ c'.matches? (.object members) = .ok answer := by
  intro _ _ text members
  have hall : (match read 4 text with
      | .ok c => decide (Answered members c)
      | .error _ => false) = true := by
    decide +kernel
  split at hall
  · rename_i c hread
    have hanswered := of_decide_eq_true hall
    obtain ⟨raw, hdocument, -⟩ := Result.bind_eq_ok.mp hread
    exact ⟨raw, c, hdocument, hread, hanswered, matches_boolean hdocument hread hanswered⟩
  · cases hall

end Criteria

end Quarry
