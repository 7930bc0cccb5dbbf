import Quarry.Proofs.Schema
import Quarry.Proofs.Selections

/-!
# Acceptance — criteria that pass the checks do not fail by their form

Three passes go over a document of criteria, each with its own idea of which object is a list of
tests: the schema and the collection of patterns go over the document as it was written, and the
criteria are built from its normal form.  They agree.  The normal form satisfies the schema and
has no other patterns (`patterns_normalize`), so each test finds an operator that is known, an
operand of its kind and a pattern that was read (`build_asks`, by induction on the schema).

`Asks` says what the criteria of a document are, part by part, without a case for failure.  A text
is read exactly if it passes the checks (`exists_read_iff`), and then to criteria that the
document asks for (`accepted_asks`).
-/

namespace Quarry

/-- The normal form has the same names, and under each the normal form of what was there. -/
theorem Members.find?_normalize (members : List (String × Value)) (name : String) :
    find? (Value.normalizeMembers members) name = (find? members name).map Value.normalize := by
  induction members with
  | nil => rfl
  | cons member members ih =>
      obtain ⟨other, v⟩ := member
      rw [Value.normalizeMembers, find?, find?]
      split
      · rfl
      · exact ih

namespace Criteria

/-! ### Building part by part -/

/-- The part of criteria that a member of a document writes. -/
def buildPart (read : List ReadPattern) (name : String) (v : Value) : Except Fault Criteria :=
  if name = "$and" then
    match v with
    | .array items => do return .every (← buildItems read items)
    | _ => .ok never
  else if name = "$or" then
    match v with
    | .array items => do return .some (← buildItems read items)
    | _ => .ok never
  else if name = "$not" then do return .not (← build read v)
  else do return .field name (← buildCondition read v)

/-- Under a name that is no connective there is a condition on a field. -/
theorem buildPart_field {name : String} (hname : name ∉ Shape.connectives)
    (read : List ReadPattern) (v : Value) :
    buildPart read name v = do return .field name (← buildCondition read v) := by
  simp only [Shape.connectives, List.mem_cons, List.not_mem_nil, or_false, not_or] at hname
  simp only [buildPart.eq_def, hname, if_false]

/-- Members are built one by one, -/
theorem buildMembers_eq_mapM (read : List ReadPattern) (members : List (String × Value)) :
    buildMembers read members = members.mapM fun m => buildPart read m.1 m.2 := by
  induction members with
  | nil => rw [buildMembers, List.mapM_nil, Result.pure_eq_ok]
  | cons m members ih =>
      obtain ⟨name, v⟩ := m
      rw [buildMembers.eq_def, List.mapM_cons, ← ih, buildPart.eq_def]
      dsimp only
      split
      · cases v with
        | array items =>
            dsimp only
            cases buildItems read items <;> rfl
        | _ => rfl
      · split
        · cases v with
          | array items =>
              dsimp only
              cases buildItems read items <;> rfl
          | _ => rfl
        · split
          · cases build read v <;> rfl
          · cases buildCondition read v <;> rfl

/-- and so are items. -/
theorem buildItems_eq_mapM (read : List ReadPattern) (items : List Value) :
    buildItems read items = items.mapM (build read) := by
  induction items with
  | nil => rw [buildItems, List.mapM_nil, Result.pure_eq_ok]
  | cons v items ih => rw [buildItems, List.mapM_cons, ← ih]

/-! ### Documents and searches -/

/-- A document has no repeated names, and its normal form is well formed. -/
theorem document_wellFormed {text : String} {raw : Value} (h : document text = .ok raw) :
    raw.normalize.WellFormed := by
  rw [document] at h
  split at h
  · cases h
    exact ⟨List.nodup_nil, trivial⟩
  · cases hread : Json.read true text.toList with
    | error cause =>
        rw [hread] at h
        cases h
    | ok v =>
        rw [hread] at h
        cases h
        exact Json.read_gives Value.invariant_wellFormed true _ _ hread

/-- What ends with a fault of numbers, if with any, has no fault of criteria. -/
theorem ne_of_ends {α : Type} {q : α → Prop} {x : Except Fault α}
    (h : Ends Fault.OfNumber q x) (cause : CriteriaFault) :
    x ≠ .error (.query (.criteria cause)) := by
  rintro rfl
  cases h with
  | fault h => exact h
  | limit h => exact h

/-- A search succeeds, and every pattern that it gives is among `ps`. -/
abbrev FindsIn (ps : List ReadPattern) (x : Except Fault (List ReadPattern)) : Prop :=
  Result.Yields (· ⊆ ps) x

/-- Patterns of two parts are found if those of each are. -/
theorem findsIn_append {ps : List ReadPattern} {x y : Except Fault (List ReadPattern)} :
    FindsIn ps (do return (← x) ++ (← y)) ↔ FindsIn ps x ∧ FindsIn ps y := by
  constructor
  · rintro ⟨both, h, hboth⟩
    obtain ⟨front, hx, h⟩ := Result.bind_eq_ok.mp h
    obtain ⟨back, hy, h⟩ := Result.bind_eq_ok.mp h
    cases h
    rw [List.append_subset] at hboth
    exact ⟨⟨front, hx, hboth.1⟩, ⟨back, hy, hboth.2⟩⟩
  · rintro ⟨⟨front, rfl, hfront⟩, ⟨back, rfl, hback⟩⟩
    exact ⟨_, rfl, List.append_subset.mpr ⟨hfront, hback⟩⟩

section

variable [Pattern.Names] {ps : List ReadPattern}

/-! ### Patterns that were read -/

/-- Reading the text of the pattern with its options gives the pattern. -/
def ReadPattern.IsRead (p : ReadPattern) : Prop :=
  readPattern p.text (.string p.options) = .ok p

/-- A pattern is kept under its text and that of its options. -/
theorem readPattern_ok {text : String} {options : Value} {p : ReadPattern}
    (h : readPattern text options = .ok p) :
    p.text = text ∧ options = .string p.options ∧ p.IsRead := by
  have hkept : p.text = text ∧ options = .string p.options := by
    rw [readPattern] at h
    obtain ⟨letters, -, h⟩ := Result.bind_eq_ok.mp h
    dsimp only at h
    split at h
    · cases h
    · cases h
    · cases h
      exact ⟨rfl, rfl⟩
    · cases h
  obtain ⟨rfl, rfl⟩ := hkept
  exact ⟨rfl, rfl, h⟩

/-- Every pattern that a search gives was read. -/
abbrev GivesRead (x : Except Fault (List ReadPattern)) : Prop :=
  Result.Gives (fun found => ∀ p ∈ found, p.IsRead) x

/-- An object's own pattern is read from its text and options, -/
theorem ownPattern_givesRead (members : List (String × Value)) :
    GivesRead (ownPattern members) := by
  rw [ownPattern.eq_def]
  split
  · intro own h
    obtain ⟨p, hp, h⟩ := Result.bind_eq_ok.mp h
    cases h
    exact List.forall_mem_singleton.mpr (readPattern_ok hp).2.2
  · exact .ok (List.forall_mem_nil _)

theorem GivesRead.append {x y : Except Fault (List ReadPattern)} (hx : GivesRead x)
    (hy : GivesRead y) : GivesRead (do return (← x) ++ (← y)) :=
  hx.bind fun _ hfront => hy.bind fun _ hback =>
    .ok (List.forall_mem_append.mpr ⟨hfront, hback⟩)

mutual

/-- so by induction all patterns that are collected were read. -/
theorem patterns_givesRead : ∀ v : Value, GivesRead (patterns v)
  | .array items => by
      rw [patterns]
      exact patternsInItems_givesRead items
  | .object members => by
      rw [patterns]
      exact (ownPattern_givesRead members).append (patternsInMembers_givesRead members)
  | .null | .bool _ | .number _ | .string _ => .ok (List.forall_mem_nil _)

theorem patternsInItems_givesRead : ∀ items, GivesRead (patternsInItems items)
  | [] => .ok (List.forall_mem_nil _)
  | v :: items => by
      rw [patternsInItems]
      exact (patterns_givesRead v).append (patternsInItems_givesRead items)

theorem patternsInMembers_givesRead : ∀ members, GivesRead (patternsInMembers members)
  | [] => .ok (List.forall_mem_nil _)
  | (_, v) :: members => by
      rw [patternsInMembers]
      exact (patterns_givesRead v).append (patternsInMembers_givesRead members)

end

/-! ### Patterns of a normal form -/

theorem patternsInItems_findsIn {items : List Value} :
    FindsIn ps (patternsInItems items) ↔ ∀ v ∈ items, FindsIn ps (patterns v) := by
  induction items with
  | nil => exact iff_of_true (.ok (List.nil_subset _)) (List.forall_mem_nil _)
  | cons v items ih => rw [patternsInItems, findsIn_append, ih, List.forall_mem_cons]

theorem patternsInMembers_findsIn {members : List (String × Value)} :
    FindsIn ps (patternsInMembers members) ↔ ∀ m ∈ members, FindsIn ps (patterns m.2) := by
  induction members with
  | nil => exact iff_of_true (.ok (List.nil_subset _)) (List.forall_mem_nil _)
  | cons m members ih => rw [patternsInMembers, findsIn_append, ih, List.forall_mem_cons]

/-- The patterns of a document are its own and those of its members. -/
theorem patterns_findsIn_object {members : List (String × Value)} :
    FindsIn ps (patterns (.object members)) ↔
      FindsIn ps (ownPattern members) ∧ ∀ m ∈ members, FindsIn ps (patterns m.2) := by
  rw [patterns, findsIn_append, patternsInMembers_findsIn]

/-- The normal form of an object has the same pattern, since texts are left as they are. -/
theorem ownPattern_normalize {members : List (String × Value)}
    (h : FindsIn ps (ownPattern members)) :
    FindsIn ps (ownPattern (Value.normalizeMembers members)) := by
  rw [ownPattern, Members.find?_normalize, Members.find?_normalize]
  rw [ownPattern] at h
  cases hregex : Members.find? members "$regex" with
  | none => exact .ok (List.nil_subset _)
  | some v =>
      rw [hregex] at h
      cases v with
      | number n =>
          rw [Option.map_some, Value.normalize]
          cases n.isFinite <;> exact .ok (List.nil_subset _)
      | string text =>
          obtain ⟨own, h, hown⟩ := h
          obtain ⟨p, hp, h⟩ := Result.bind_eq_ok.mp h
          cases h
          have hoptions := (readPattern_ok hp).2.1
          -- options are a text, and that is in normal form
          have hnormal : ((Members.find? members "$options").map Value.normalize).getD
              (.string "") = .string p.options := by
            cases hfound : Members.find? members "$options" with
            | none => rwa [hfound] at hoptions
            | some v =>
                rw [hfound, Option.getD_some] at hoptions
                rw [hoptions]
                rfl
          rw [hoptions] at hp
          refine ⟨[p], ?_, hown⟩
          simp only [Option.map_some, Value.normalize, hnormal, hp]
          rfl
      | _ => exact .ok (List.nil_subset _)

/-- **A document in normal form has no other patterns.** -/
theorem patterns_normalize {v : Value} (h : FindsIn ps (patterns v)) :
    FindsIn ps (patterns v.normalize) := by
  induction v with
  | array items ih =>
      rw [patterns, patternsInItems_findsIn] at h
      rw [Value.normalize, Value.normalizeItems_eq_map, patterns, patternsInItems_findsIn]
      exact List.forall_mem_map.mpr fun v hv => ih v hv (h v hv)
  | object members ih =>
      obtain ⟨hown, hmembers⟩ := patterns_findsIn_object.mp h
      rw [Value.normalize, patterns_findsIn_object]
      refine ⟨ownPattern_normalize hown, ?_⟩
      rw [Value.normalizeMembers_eq_map]
      exact List.forall_mem_map.mpr fun m hm => ih m hm (hmembers m hm)
  | number n =>
      rw [Value.normalize]
      cases n.isFinite <;> exact .ok (List.nil_subset _)
  | _ => exact h

/-- A pattern that was read is found under its text and options. -/
theorem findPattern_of_mem (hread : ∀ p ∈ ps, p.IsRead) {p : ReadPattern} (hp : p ∈ ps) :
    findPattern ps p.text p.options = .ok p.node := by
  have hsome : (ps.find? fun q => q.text = p.text && q.options = p.options).isSome := by
    rw [List.find?_isSome]
    exact ⟨p, hp, by simp⟩
  obtain ⟨q, hq⟩ := Option.isSome_iff_exists.mp hsome
  have hkeys := List.find?_some hq
  rw [Bool.and_eq_true, decide_eq_true_eq, decide_eq_true_eq] at hkeys
  -- two patterns with the same text and options are one
  have hqread := hread q (List.mem_of_find?_eq_some hq)
  rw [ReadPattern.IsRead, hkeys.1, hkeys.2, hread p hp] at hqread
  cases hqread
  rw [findPattern, hq]

/-! ### What criteria ask -/

/-- The test that an operator asks for, with an operand of its kind, among the `tests` of a field.
A pattern is one that was read, from the operand and the options beside it. -/
inductive AsksTest (read : List ReadPattern) (tests : List (String × Value)) :
    String × Value → FieldTest → Prop where
  | relation {operator : String} {r : Relation} (h : relationOf? operator = Option.some r)
      (operand : Value) : AsksTest read tests (operator, operand) (.relation r operand)
  | among (candidates : List Value) :
      AsksTest read tests ("$in", .array candidates) (.among false candidates)
  | notAmong (candidates : List Value) :
      AsksTest read tests ("$nin", .array candidates) (.among true candidates)
  | present (operand : Value) :
      AsksTest read tests ("$exists", operand) (.present operand.holds)
  | pattern {p : ReadPattern} (hp : p ∈ read) (hread : p.IsRead)
      (hoptions : p.options = textUnder tests "$options") :
      AsksTest read tests ("$regex", .string p.text) (.pattern p.node)
  | options {s : String} (hs : Shape.areOptions s = true)
      (hregex : Members.has tests "$regex" = true) :
      AsksTest read tests ("$options", .string s) .options

/-- The condition that stands under the name of a field: tests, if the value is an object that is
not empty and has only marked names, and a value to compare with otherwise. -/
inductive AsksField (read : List ReadPattern) : Value → FieldCondition → Prop where
  | tests {members : List (String × Value)} {ts : List FieldTest}
      (hmarked : Shape.IsOperatorLike (.object members))
      (h : List.Forall₂ (AsksTest read members) members ts) :
      AsksField read (.object members) (.tests ts)
  | literal {v : Value} (h : ¬ Shape.IsOperatorLike v) : AsksField read v (.equal v)

/-- What a member of a document asks, `asks` saying it of the documents inside. -/
inductive AsksMember (read : List ReadPattern) (asks : Value → Criteria → Prop) :
    String × Value → Criteria → Prop where
  | every {items : List Value} {parts : List Criteria} (hne : items ≠ [])
      (h : List.Forall₂ asks items parts) :
      AsksMember read asks ("$and", .array items) (.every parts)
  | some {items : List Value} {parts : List Criteria} (hne : items ≠ [])
      (h : List.Forall₂ asks items parts) :
      AsksMember read asks ("$or", .array items) (.some parts)
  | not {v : Value} {c : Criteria} (h : asks v c) : AsksMember read asks ("$not", v) (.not c)
  | field {name : String} {v : Value} {condition : FieldCondition}
      (hname : Shape.isMarked name = false) (h : AsksField read v condition) :
      AsksMember read asks (name, v) (.field name condition)

/-- What a document asks: everything that its members ask. -/
inductive Asks (read : List ReadPattern) : Value → Criteria → Prop where
  | document {members : List (String × Value)} {parts : List Criteria}
      (h : List.Forall₂ (AsksMember read (Asks read)) members parts) :
      Asks read (.object members) (.every parts)

/-! ### Building -/

/-- **One test.**  An operator of a list makes the test that it asks for. -/
theorem buildTest_asks (hread : ∀ p ∈ ps, p.IsRead) {tests : List (String × Value)}
    (htests : Shape.AreOperators tests) (hdistinct : Members.Distinct tests)
    (hpattern : FindsIn ps (ownPattern tests)) {name : String} {operand : Value}
    (hm : (name, operand) ∈ tests) :
    Result.Yields (AsksTest ps tests (name, operand)) (buildTest ps tests name operand) := by
  cases htests.each _ hm with
  | any hname =>
      simp only [List.mem_cons, List.not_mem_nil, or_false] at hname
      rcases hname with rfl | rfl | rfl | rfl | rfl | rfl | rfl
      iterate 6 exact .ok (.relation rfl operand)
      exact .ok (.present operand)
  | array hname items =>
      simp only [List.mem_cons, List.not_mem_nil, or_false] at hname
      rcases hname with rfl | rfl
      · exact .ok (.among items)
      · exact .ok (.notAmong items)
  | pattern text =>
      -- the pattern of the list is the one whose text and options stand beside each other here
      have hfound := Members.find?_of_mem hdistinct hm
      obtain ⟨own, hown, hmem⟩ := hpattern
      rw [ownPattern, hfound] at hown
      obtain ⟨p, hp, hown⟩ := Result.bind_eq_ok.mp hown
      cases hown
      obtain ⟨rfl, hoptions, hpread⟩ := readPattern_ok hp
      have hps : p ∈ ps := hmem List.mem_cons_self
      have htext : textUnder tests "$regex" = p.text := by
        rw [textUnder, hfound]
      have hunder : p.options = textUnder tests "$options" := by
        rw [textUnder]
        cases hoption : Members.find? tests "$options" with
        | none =>
            rw [hoption] at hoptions
            exact (Value.string.inj hoptions).symm
        | some v =>
            rw [hoption, Option.getD_some] at hoptions
            rw [hoptions]
      have hnode := findPattern_of_mem hread hps
      rw [hunder, ← htext] at hnode
      refine ⟨.pattern p.node, ?_, .pattern hps hpread hunder⟩
      change (do return FieldTest.pattern (← findPattern ps (textUnder tests "$regex")
        (textUnder tests "$options"))) = _
      rw [hnode]
      rfl
  | options hs =>
      have hoptions : Members.has tests "$options" = true :=
        List.any_eq_true.mpr ⟨_, hm, decide_eq_true rfl⟩
      exact .ok (.options hs (htests.dependent hoptions))

/-- **One condition.** -/
theorem buildCondition_asks (hread : ∀ p ∈ ps, p.IsRead) {v : Value}
    (hshape : Shape.IsCondition v) (hv : v.WellFormed) (hpatterns : FindsIn ps (patterns v)) :
    Result.Yields (AsksField ps v) (buildCondition ps v) := by
  rw [buildCondition.eq_def]
  split
  · rename_i members
    split
    · rename_i hmarked
      have htests := hshape.areOperators hmarked
      have hown := (patterns_findsIn_object.mp hpatterns).1
      refine Result.Yields.map (Result.Yields.mapM_forall₂ fun m hm => ?_) fun ts hts =>
        .tests (Shape.isOperatorLike_iff.mpr hmarked) hts
      exact buildTest_asks hread htests hv.1 hown hm
    · rename_i hmarked
      exact .ok (.literal fun h => hmarked (Shape.isOperatorLike_iff.mp h))
  · rename_i hobject
    refine .ok (.literal fun h => ?_)
    cases v with
    | object members => exact hobject members rfl
    | _ => exact h

mutual

/-- **A document that satisfies the schema**, and of which all patterns were read, makes what it
asks. -/
theorem build_asks (hread : ∀ p ∈ ps, p.IsRead) : ∀ {v : Value}, Shape.IsQuery v →
    v.WellFormed → FindsIn ps (patterns v) → Result.Yields (Asks ps v) (build ps v)
  | _, .object names parts, hv, hpatterns => by
      have hmembers := (patterns_findsIn_object.mp hpatterns).2
      rw [build, buildMembers_eq_mapM]
      refine Result.Yields.map (Result.Yields.mapM_forall₂ fun m hm => ?_) fun _ => .document
      exact buildPart_asks hread (parts m hm) (names m hm)
        (Value.wellFormedMembers_iff.mp hv.2 m hm) (hmembers m hm)

/-- A part that passes the checks is built into criteria that ask for what it says, by induction on
the schema. -/
theorem buildPart_asks (hread : ∀ p ∈ ps, p.IsRead) : ∀ {name : String} {v : Value},
    Shape.IsPart name v → (Shape.isMarked name = true → name ∈ Shape.connectives) →
    v.WellFormed → FindsIn ps (patterns v) →
    Result.Yields (AsksMember ps (Asks ps) (name, v)) (buildPart ps name v)
  | _, .array items, .list hname hne h, _, hv, hpatterns => by
      rw [patterns, patternsInItems_findsIn] at hpatterns
      have hitems : Result.Yields (List.Forall₂ (Asks ps) items) (buildItems ps items) := by
        rw [buildItems_eq_mapM]
        exact .mapM_forall₂ fun v hmem => build_asks hread (h v hmem)
          (Value.wellFormedItems_iff.mp hv v hmem) (hpatterns v hmem)
      rcases hname with rfl | rfl
      · exact hitems.map fun _ => .every hne
      · exact hitems.map fun _ => .some hne
  | _, _, .negated h, _, hv, hpatterns => (build_asks hread h hv hpatterns).map fun _ => .not
  | name, v, .field hname h, hmarked, hv, hpatterns => by
      have hunmarked : Shape.isMarked name = false :=
        Bool.eq_false_iff.mpr fun hmark => hname (hmarked hmark)
      rw [buildPart_field hname]
      exact (buildCondition_asks hread h hv hpatterns).map fun _ => .field hunmarked

end

/-! ### Accepted texts -/

/-- A text passes every check that is made before criteria are built from it: it is a document that
is nested at most `limit` deep and satisfies the schema, and all its patterns can be read. -/
structure Accepts (limit : Nat) (text : String) (raw : Value) (read : List ReadPattern) : Prop where
  document_eq : document text = .ok raw
  depth_le : raw.depth ≤ limit
  shape : Shape.IsQuery raw
  patterns_eq : patterns raw = .ok read

variable [Shape.Report] {limit : Nat} {text : String} {raw : Value}

/-- Of an accepted text nothing is left but to build criteria from its normal form. -/
theorem Accepts.read_eq (h : Accepts limit text raw ps) :
    read limit text = build ps raw.normalize := by
  have haccept : raw.accept limit = .ok raw.normalize := if_pos h.depth_le
  simp only [read, h.document_eq, haccept, Shape.misfit?_eq_none_iff.mpr h.shape,
    h.patterns_eq, Result.bind_ok]

/-- So a text that passes the checks is read as such criteria. -/
theorem Accepts.read_asks (h : Accepts limit text raw ps) :
    Result.Yields (Asks ps raw.normalize) (read limit text) := by
  have hread : ∀ p ∈ ps, p.IsRead := patterns_givesRead raw ps h.patterns_eq
  have hpatterns : FindsIn ps (patterns raw.normalize) :=
    patterns_normalize ⟨ps, h.patterns_eq, List.Subset.refl ps⟩
  rw [h.read_eq]
  exact build_asks hread h.shape.normalize (document_wellFormed h.document_eq) hpatterns

/-- **Texts are read exactly if they are accepted**: nothing is refused after the checks. -/
theorem exists_read_iff :
    (∃ c, read limit text = .ok c) ↔ ∃ raw ps, Accepts limit text raw ps := by
  constructor
  · rintro ⟨c, h⟩
    obtain ⟨raw, hdocument, h⟩ := Result.bind_eq_ok.mp h
    obtain ⟨accepted, haccept, h⟩ := Result.bind_eq_ok.mp h
    have hdepth : raw.depth ≤ limit := by
      by_contra hdeep
      rw [Value.accept, if_neg hdeep] at haccept
      cases haccept
    split at h
    · cases h
    · rename_i hshape
      obtain ⟨ps, hpatterns, -⟩ := Result.bind_eq_ok.mp h
      exact ⟨raw, ps, hdocument, hdepth, Shape.misfit?_eq_none_iff.mp hshape, hpatterns⟩
  · rintro ⟨raw, ps, h⟩
    obtain ⟨c, hc, -⟩ := h.read_asks
    exact ⟨c, hc⟩

/-- **Accepted criteria do not fail by their form.**  They are built, and ask what the document in
normal form says: an object whose names are all marked asks for tests by known operators with
operands of their kinds and patterns that were read before; everything else under the name of a
field is compared with as it is.  Neither matching nor selecting fails by the criteria then. -/
theorem accepted_asks (h : Accepts limit text raw ps) :
    ∃ c, read limit text = .ok c ∧ Asks ps raw.normalize c ∧
      (∀ v cause, c.matches? v ≠ .error (.query (.criteria cause))) ∧
      ∀ v cause, evaluate limit text v ≠ .error (.query (.criteria cause)) := by
  obtain ⟨c, hc, hasks⟩ := h.read_asks
  refine ⟨c, hc, hasks, fun v => ne_of_ends (c.matches?_ends v), fun v => ?_⟩
  rw [evaluate, hc, Result.bind_ok]
  exact ne_of_ends (c.select_ends Value.invariant_any trivial)

end

/-- A pattern with options in a connective, and one in a value that is compared with. -/
theorem accepted_asks_nested :
    let _ : Pattern.Names := default
    let _ : Shape.Report := default
    let text := "\x7b\"$or\": [\x7b\"a.b\": \x7b\"$regex\": \"x\", \"$options\": \"i\"\x7d\x7d, " ++
      "\x7b\"$not\": \x7b\"c\": \x7b\"$in\": [1, null]\x7d\x7d\x7d], " ++
      "\"d\": \x7b\"$regex\": \"y\", \"e\": 1\x7d\x7d"
    ∃ raw ps c, Accepts 6 text raw ps ∧ read 6 text = .ok c ∧ Asks ps raw.normalize c := by
  intro _ _ text
  have hread : (read 6 text).isOk = true := by decide +kernel
  obtain ⟨raw, ps, h⟩ := exists_read_iff.mp (Result.exists_of_isOk hread)
  obtain ⟨c, hc, hasks, -⟩ := accepted_asks h
  exact ⟨raw, ps, c, h, hc, hasks⟩

end Criteria

end Quarry
