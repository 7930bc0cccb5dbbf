import Quarry.Criteria.Shape
import Quarry.Proofs.Values

/-!
# Schema — the shape of criteria, keyword by keyword

`IsQuery` is the schema that a document of criteria has to satisfy: which names it may have, what
stands under a connective, and that a condition is a list of operators or not like one.  The
check goes through a document, and it succeeds exactly if the schema is satisfied (`accepts_iff`).
Whatever is reported of other documents, nothing is reported of these (`misfit?_eq_none_iff`).

The schema looks at names and kinds only, so a document in normal form still satisfies it
(`IsQuery.normalize`).
-/

namespace Quarry.Shape

/-! ### The schema -/

/-- An operator with an operand that it takes. -/
inductive IsOperator : String → Value → Prop where
  | any {name : String} (hname : name ∈ ["$eq", "$ne", "$gt", "$gte", "$lt", "$lte", "$exists"])
      (operand : Value) : IsOperator name operand
  | array {name : String} (hname : name ∈ ["$in", "$nin"]) (items : List Value) :
      IsOperator name (.array items)
  | pattern (s : String) : IsOperator "$regex" (.string s)
  | options {s : String} (hs : areOptions s = true) : IsOperator "$options" (.string s)

/-- A list of operators, in which options depend on a pattern. -/
structure AreOperators (members : List (String × Value)) : Prop where
  nonempty : members ≠ []
  each : ∀ m ∈ members, IsOperator m.1 m.2
  dependent : Members.has members "$options" = true → Members.has members "$regex" = true

/-- An object that is not empty and has only marked names. -/
def IsOperatorLike : Value → Prop
  | .object members => members ≠ [] ∧ ∀ m ∈ members, isMarked m.1 = true
  | _ => False

/-- What may stand under the name of a field. -/
def IsCondition (v : Value) : Prop :=
  (∃ members, v = .object members ∧ AreOperators members) ∨ ¬ IsOperatorLike v

mutual

/-- A document of criteria. -/
inductive IsQuery : Value → Prop where
  | object {members : List (String × Value)}
      (names : ∀ m ∈ members, isMarked m.1 = true → m.1 ∈ connectives)
      (parts : ∀ m ∈ members, IsPart m.1 m.2) : IsQuery (.object members)

/-- What may stand under a name in a document of criteria. -/
inductive IsPart : String → Value → Prop where
  | list {name : String} {items : List Value} (hname : name = "$and" ∨ name = "$or")
      (hne : items ≠ []) (h : ∀ v ∈ items, IsQuery v) : IsPart name (.array items)
  | negated {v : Value} (h : IsQuery v) : IsPart "$not" v
  | field {name : String} {v : Value} (hname : name ∉ connectives) (h : IsCondition v) :
      IsPart name v

end

/-! ### Conditions -/

/-- The schema for one operator is membership in the list of operators, and the test of its
operand. -/
theorem isOperator_iff {name : String} {operand : Value} :
    IsOperator name operand ↔
      (name ∈ operators ∨ name = "$options") ∧ fits name operand = true := by
  constructor
  · intro h
    cases h with
    | any hname =>
        simp only [List.mem_cons, List.not_mem_nil, or_false] at hname
        rcases hname with rfl | rfl | rfl | rfl | rfl | rfl | rfl <;> exact ⟨.inl (by decide), rfl⟩
    | array hname =>
        simp only [List.mem_cons, List.not_mem_nil, or_false] at hname
        rcases hname with rfl | rfl <;> exact ⟨.inl (by decide), rfl⟩
    | pattern s => exact ⟨.inl (by decide), rfl⟩
    | options hs => exact ⟨.inr rfl, hs⟩
  · rintro ⟨hname, hfits⟩
    simp only [operators, List.mem_cons, List.not_mem_nil, or_false] at hname
    rcases hname with (rfl | rfl | rfl | rfl | rfl | rfl | rfl | rfl | rfl | rfl) | rfl
    iterate 6 exact .any (by decide) operand
    · cases operand with
      | array items => exact .array (by decide) items
      | _ => cases hfits
    · cases operand with
      | array items => exact .array (by decide) items
      | _ => cases hfits
    · exact .any (by decide) operand
    · cases operand with
      | string s => exact .pattern s
      | _ => cases hfits
    · cases operand with
      | string s => exact .options hfits
      | _ => cases hfits

/-- A value is like a list of operators if it is an object, not empty, and all its names are
marked. -/
theorem isOperatorLike_iff {members : List (String × Value)} :
    IsOperatorLike (.object members) ↔ isMarkedObject members = true := by
  simp [IsOperatorLike, isMarkedObject]

/-- For a list of operators, the schema is checked one member after the other and then as a whole,
since options need a pattern beside them. -/
theorem areOperators_iff {members : List (String × Value)} :
    AreOperators members ↔
      members ≠ [] ∧ (∀ m ∈ members, fits m.1 m.2 = true) ∧ areTests members = true := by
  have htests : areTests members = true ↔
      (∀ m ∈ members, m.1 ∈ operators ∨ m.1 = "$options") ∧
        (Members.has members "$options" = true → Members.has members "$regex" = true) := by
    rw [areTests, Bool.and_eq_true, decide_eq_true_eq, List.all_eq_true]
    simp
  rw [htests]
  constructor
  · intro h
    exact ⟨h.nonempty, fun m hm => (isOperator_iff.mp (h.each m hm)).2,
      fun m hm => (isOperator_iff.mp (h.each m hm)).1, h.dependent⟩
  · rintro ⟨hne, hfits, hknown, hdependent⟩
    exact ⟨hne, fun m hm => isOperator_iff.mpr ⟨hknown m hm, hfits m hm⟩, hdependent⟩

/-- Under the name of a field stands a list of operators exactly if the names are all marked. -/
theorem IsCondition.areOperators {members : List (String × Value)}
    (h : IsCondition (.object members)) (hmarked : isMarkedObject members = true) :
    AreOperators members := by
  rcases h with ⟨_, heq, h⟩ | h
  · exact Value.object.inj heq ▸ h
  · exact absurd (isOperatorLike_iff.mpr hmarked) h

/-- **The check of a condition.** -/
theorem isCondition_iff {v : Value} : isCondition v = true ↔ IsCondition v := by
  cases v with
  | object members =>
      cases hmarked : isMarkedObject members with
      | false =>
          have hlike : ¬ IsOperatorLike (.object members) := fun h =>
            ne_true_of_eq_false hmarked (isOperatorLike_iff.mp h)
          exact iff_of_true (by rw [isCondition, hmarked]; rfl) (.inr hlike)
      | true =>
          have hne : members ≠ [] := by
            rintro rfl
            cases hmarked
          have hcondition : IsCondition (.object members) ↔ AreOperators members :=
            ⟨fun h => h.areOperators hmarked, fun h => .inl ⟨members, rfl, h⟩⟩
          rw [hcondition, areOperators_iff, isCondition, hmarked, Bool.not_true, Bool.false_or,
            Bool.and_eq_true, List.all_eq_true]
          exact ⟨fun h => ⟨hne, h⟩, And.right⟩
  | _ => exact iff_of_true rfl (.inr id)

/-! ### Documents -/

/-- The check of what stands under a name. -/
def acceptsPart (name : String) (v : Value) : Bool :=
  if name = "$and" || name = "$or" then
    match v with
    | .array items => !items.isEmpty && acceptsItems items
    | _ => false
  else if name = "$not" then accepts v
  else isCondition v

/-- The check goes from member to member, -/
theorem acceptsMembers_iff {members : List (String × Value)} :
    acceptsMembers members = true ↔ ∀ m ∈ members, acceptsPart m.1 m.2 = true := by
  induction members with
  | nil => exact iff_of_true rfl (List.forall_mem_nil _)
  | cons m members ih =>
      have hcons : acceptsMembers (m :: members) =
          (acceptsPart m.1 m.2 && acceptsMembers members) := by
        rw [acceptsMembers.eq_def]
        rfl
      rw [hcons, Bool.and_eq_true, ih, List.forall_mem_cons]

/-- and from item to item. -/
theorem acceptsItems_iff {items : List Value} :
    acceptsItems items = true ↔ ∀ v ∈ items, accepts v = true := by
  induction items with
  | nil => exact iff_of_true rfl (List.forall_mem_nil _)
  | cons v items ih => rw [acceptsItems, Bool.and_eq_true, ih, List.forall_mem_cons]

/-- The check of a value agrees with the schema. -/
def Checks (v : Value) : Prop :=
  accepts v = true ↔ IsQuery v

/-- Under a connective for lists stands a list of documents. -/
theorem isPart_list_iff {name : String} {v : Value} (hname : name = "$and" ∨ name = "$or") :
    IsPart name v ↔ ∃ items, v = .array items ∧ items ≠ [] ∧ ∀ w ∈ items, IsQuery w := by
  constructor
  · intro h
    cases h with
    | list _ hne h => exact ⟨_, rfl, hne, h⟩
    | negated h => exact absurd hname (by decide)
    | field hother h =>
        exact absurd (by rcases hname with rfl | rfl <;> decide) hother
  · rintro ⟨items, rfl, hne, h⟩
    exact .list hname hne h

/-- Under `$not` there is a document again, -/
theorem isPart_negated_iff {v : Value} : IsPart "$not" v ↔ IsQuery v := by
  refine ⟨fun h => ?_, .negated⟩
  generalize hname : "$not" = name at h
  cases h with
  | list h => exact absurd (hname ▸ h) (by decide)
  | negated h => exact h
  | field h => exact absurd (hname ▸ by decide) h

/-- and under a name of a field there is a condition. -/
theorem isPart_field_iff {name : String} {v : Value} (hname : name ∉ connectives) :
    IsPart name v ↔ IsCondition v := by
  refine ⟨fun h => ?_, .field hname⟩
  cases h with
  | list h => exact absurd (by rcases h with rfl | rfl <;> decide) hname
  | negated h => exact absurd (by decide) hname
  | field _ h => exact h

/-- **One member is checked as the schema says**, if the documents inside it are. -/
theorem acceptsPart_iff {name : String} {v : Value} (hv : Checks v)
    (hitems : ∀ items, v = .array items → ∀ w ∈ items, Checks w) :
    acceptsPart name v = true ↔ IsPart name v := by
  unfold acceptsPart
  split
  · rename_i hname
    replace hname : name = "$and" ∨ name = "$or" := by simpa using hname
    rw [isPart_list_iff hname]
    split
    · rename_i items
      rw [Bool.and_eq_true, Bool.not_eq_true', List.isEmpty_eq_false_iff, acceptsItems_iff,
        forall₂_congr (hitems items rfl)]
      exact ⟨fun h => ⟨items, rfl, h⟩, fun ⟨_, heq, h⟩ => Value.array.inj heq ▸ h⟩
    · rename_i hnone
      exact iff_of_false Bool.false_ne_true fun ⟨items, heq, _⟩ => hnone items heq
  · rename_i hname
    split
    · rename_i hnot
      subst hnot
      exact hv.trans isPart_negated_iff.symm
    · rename_i hnot
      rw [isCondition_iff, isPart_field_iff]
      simpa [connectives, hnot] using hname

/-- **The check is that of the schema.** -/
theorem accepts_iff (v : Value) : accepts v = true ↔ IsQuery v := by
  -- under a connective stand items, so those of an array are checked along with it
  suffices Checks v ∧ ∀ items, v = .array items → ∀ w ∈ items, Checks w from this.1
  have hother {v : Value} (h : ∀ members, v ≠ .object members) (hrefused : accepts v = false) :
      Checks v :=
    iff_of_false (ne_true_of_eq_false hrefused) fun hquery => by
      cases hquery
      exact h _ rfl
  induction v with
  | object members ih =>
      refine ⟨?_, nofun⟩
      have hnames : (members.all fun m => !isMarked m.1 || connectives.contains m.1) = true ↔
          ∀ m ∈ members, isMarked m.1 = true → m.1 ∈ connectives := by
        have hname (m : String × Value) : (!isMarked m.1 || connectives.contains m.1) = true ↔
            (isMarked m.1 = true → m.1 ∈ connectives) := by
          cases isMarked m.1 <;> simp
        simp only [List.all_eq_true, hname]
      have hparts : acceptsMembers members = true ↔ ∀ m ∈ members, IsPart m.1 m.2 := by
        rw [acceptsMembers_iff]
        exact forall₂_congr fun m hm => acceptsPart_iff (ih m hm).1 (ih m hm).2
      rw [Checks, accepts, Bool.and_eq_true, hnames, hparts]
      refine ⟨fun h => .object h.1 h.2, fun h => ?_⟩
      cases h with
      | object names parts => exact ⟨names, parts⟩
  | array items ih =>
      refine ⟨hother nofun rfl, ?_⟩
      rintro _ ⟨⟩ w hw
      exact (ih w hw).1
  | _ => exact ⟨hother nofun rfl, nofun⟩

/-- **Documents of which nothing is reported** are those of the schema. -/
theorem misfit?_eq_none_iff [Report] {v : Value} : misfit? v = none ↔ IsQuery v := by
  rw [misfit?, ← accepts_iff]
  cases accepts v with
  | true => exact iff_of_true rfl rfl
  | false => exact iff_of_false nofun nofun

/-! ### Normal forms -/

/-- In normal form an operand keeps its kind and so is still taken by its operator. -/
theorem IsOperator.normalize {name : String} {operand : Value} (h : IsOperator name operand) :
    IsOperator name operand.normalize := by
  cases h with
  | any hname => exact .any hname _
  | array hname items => exact .array hname _
  | pattern s => exact .pattern s
  | options hs => exact .options hs

/-- Names and kinds stay, so a list of operators stays one, -/
theorem AreOperators.normalize {members : List (String × Value)} (h : AreOperators members) :
    AreOperators (Value.normalizeMembers members) := by
  have hhas (name : String) :
      Members.has (Value.normalizeMembers members) name = Members.has members name := by
    simp [Members.has, Value.normalizeMembers_eq_map, List.any_map, Function.comp_def]
  refine ⟨?_, ?_, ?_⟩
  · simpa [Value.normalizeMembers_eq_map] using h.nonempty
  · rw [Value.normalizeMembers_eq_map]
    exact List.forall_mem_map.mpr fun m hm => (h.each m hm).normalize
  · rw [hhas, hhas]
    exact h.dependent

/-- and nothing else becomes like one. -/
theorem isOperatorLike_normalize {v : Value} : IsOperatorLike v.normalize ↔ IsOperatorLike v := by
  cases v with
  | number n =>
      rw [Value.normalize]
      split <;> exact Iff.rfl
  | object members =>
      rw [Value.normalize, isOperatorLike_iff, isOperatorLike_iff, Value.normalizeMembers_eq_map]
      simp [isMarkedObject, List.all_map, Function.comp_def]
  | _ => exact Iff.rfl

/-- So a condition is still one in normal form, -/
theorem IsCondition.normalize {v : Value} (h : IsCondition v) : IsCondition v.normalize := by
  rcases h with ⟨members, rfl, h⟩ | h
  · exact .inl ⟨_, rfl, h.normalize⟩
  · exact .inr (mt isOperatorLike_normalize.mp h)

mutual

/-- **The normal form of a document of criteria is one.** -/
theorem IsQuery.normalize : ∀ {v : Value}, IsQuery v → IsQuery v.normalize
  | _, .object names parts => by
      rw [Value.normalize, Value.normalizeMembers_eq_map]
      exact .object (List.forall_mem_map.mpr names)
        (List.forall_mem_map.mpr fun m hm => (parts m hm).normalize)

/-- and by induction on the schema so are the parts of a document. -/
theorem IsPart.normalize : ∀ {name : String} {v : Value}, IsPart name v → IsPart name v.normalize
  | _, _, .list hname hne h => by
      rw [Value.normalize, Value.normalizeItems_eq_map]
      exact .list hname (by simpa using hne)
        (List.forall_mem_map.mpr fun v hv => (h v hv).normalize)
  | _, _, .negated h => .negated h.normalize
  | _, _, .field hname h => .field hname h.normalize

end

end Quarry.Shape
