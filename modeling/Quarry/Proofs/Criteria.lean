import Quarry.Criteria.Reader
import Quarry.Proofs.Conditions

/-!
# Criteria — a document with one condition

The document `{"path": {"$op": literal}}` asks one thing of one field.  It has the shape of
criteria because neither a path nor a letter of an identifier is marked with a dollar sign, and
it holds no pattern but those of its literal; so it is built into one test of one field, and its
numbers are in normal form by then.
-/

namespace Quarry

/-- The operator of criteria for a relation. -/
def Relation.operator : Relation → String
  | .eq => "$eq"
  | .ne => "$ne"
  | .ge => "$gte"
  | .le => "$lte"
  | .gt => "$gt"
  | .lt => "$lt"

/-! ### Objects with one member -/

/-- An object with one member is read if the value of the member is. -/
theorem Json.readValue_single {constants : Bool} (layout : Layout) (name : String) {v : Value}
    {n : Nat} {s s' rest : List Char}
    (hread : readValue constants n (skipSpace s) = .ok (v, s'))
    (hend : skipSpace s' = '\x7d' :: rest) :
    readValue constants (n + 2) ('\x7b' :: (Text.quoted name.toList ++ (layout.colon ++ s))) =
      .ok (.object [(name, v)], rest) := by
  have hquote : skipSpace (Text.quoted name.toList ++ (layout.colon ++ s)) =
      Text.quoted name.toList ++ (layout.colon ++ s) := skipSpace_cons (by decide)
  have hpairs : readPairs constants (n + 1) (Text.quoted name.toList ++ (layout.colon ++ s)) =
      .ok ([(name, v)], rest) :=
    readPairs_last (readsQuoted_quoted name) hread hend
  rw [readValue_object, hquote, hpairs]
  · rfl
  · rw [hquote]
    exact stops_cons.mpr rfl

namespace Criteria

variable (q : Selector)

/-- The text of the condition, up to the end of the document. -/
def conditionText : List Char :=
  '\x7b' :: (Text.quoted q.relation.operator.toList ++ ([':', ' '] ++
    (q.literalText ++ ['\x7d', '\x7d'])))

/-- The text of the document. -/
def text : List Char :=
  '\x7b' :: (Text.quoted (String.ofList q.path).toList ++ ([':', ' '] ++ conditionText q))

/-- The document, with its literal as written. -/
def single (literal : Value) : Value :=
  .object [(String.ofList q.path, .object [(q.relation.operator, literal)])]

/-- The text is read. -/
theorem document_text : document (String.ofList (text q)) = .ok (single q q.literal) := by
  have hback := Json.readsBack_scalar q.scalar q.finite q.literal_isWritable true .compact
  have hskip : Json.skipSpace (q.literalText ++ ['\x7d', '\x7d']) =
      q.literalText ++ ['\x7d', '\x7d'] := hback.skipSpace_write_self _
  -- from the inside out: the literal, the condition, the document
  have hliteral : Json.readValue true (2 * (text q).length - 2)
      (Json.skipSpace (q.literalText ++ ['\x7d', '\x7d'])) = .ok (q.literal, ['\x7d', '\x7d']) := by
    rw [hskip]
    refine hback.reads 0 _ _ ?_ (stops_cons.mpr rfl)
    change 2 * q.literalText.length ≤ _
    simp only [text, conditionText, List.length_cons, List.length_append]
    omega
  have hcondition : Json.readValue true (2 * (text q).length)
      (Json.skipSpace (conditionText q)) =
      .ok (.object [(q.relation.operator, q.literal)], ['\x7d']) := by
    have hlength : 2 * (text q).length = 2 * (text q).length - 2 + 2 := by
      simp only [text, List.length_cons]
      omega
    rw [hlength]
    exact Json.readValue_single (.lines 0) q.relation.operator hliteral rfl
  have hread : Json.read true (text q) = .ok (single q q.literal) :=
    Json.read_of_readValue (by decide) (by decide)
      (Json.readValue_single (.lines 0) (String.ofList q.path) hcondition rfl)
  have htrim : Text.trim (text q) = text q := Text.trim_of_trimmed <| by
    have := Text.trimmed_between (c := '\x7b') (d := '\x7d') (by decide) (by decide)
      (Text.quoted (String.ofList q.path).toList ++ ([':', ' '] ++
        ('\x7b' :: (Text.quoted q.relation.operator.toList ++ ([':', ' '] ++
          (q.literalText ++ ['\x7d']))))))
    simpa [text, conditionText] using this
  rw [document, String.toList_ofList, htrim, hread, if_neg (by exact Bool.false_ne_true)]
  rfl

/-- Neither the path nor the operator has a character to escape. -/
theorem text_eq :
    text q = ['\x7b', '"'] ++ q.path ++ ['"', ':', ' ', '\x7b', '"'] ++
      q.relation.operator.toList ++ ['"', ':', ' '] ++ q.literalText ++ ['\x7d', '\x7d'] := by
  have hpath : Text.quoted q.path = '"' :: (q.path ++ ['"']) :=
    Text.quoted_of_forall (q.path_forall (by decide))
  have hoperator : Text.quoted q.relation.operator.toList =
      '"' :: (q.relation.operator.toList ++ ['"']) := by
    refine Text.quoted_of_forall (chars_forall ?_)
    cases q.relation <;> decide
  rw [text, conditionText, String.toList_ofList, hpath, hoperator]
  simp

/-! ### What the document asks -/

/-- A path is not the name of an operator. -/
theorem isMarked_path : Shape.isMarked (String.ofList q.path) = false := by
  obtain ⟨c, s, hcons, hc⟩ := q.path_cons
  have hdollar : c ≠ '$' := by
    rintro rfl
    cases hc
  rw [Shape.isMarked, String.toList_ofList, hcons, List.head?_cons, decide_eq_false_iff_not,
    Option.some.injEq]
  exact hdollar

theorem path_ne {name : String} (h : Shape.isMarked name = true) : String.ofList q.path ≠ name := by
  intro heq
  have hpath := isMarked_path q
  rw [heq, h] at hpath
  cases hpath

theorem isMarkedObject_operator (r : Relation) (literal : Value) :
    Shape.isMarkedObject [(r.operator, literal)] = true := by
  have hmarked : Shape.isMarked r.operator = true := by
    cases r <;> decide
  rw [Shape.isMarkedObject, List.all_cons, hmarked]
  rfl

/-- Any literal is compared with. -/
theorem isCondition_operator (r : Relation) (literal : Value) :
    Shape.isCondition (.object [(r.operator, literal)]) = true := by
  have hfits : Shape.fits r.operator literal = true := by
    cases r <;> rfl
  have htests : Shape.areTests [(r.operator, literal)] = true := by
    cases r <;> rfl
  rw [Shape.isCondition, isMarkedObject_operator, htests, List.all_cons, hfits]
  rfl

/-- The document has the shape of criteria. -/
theorem misfit?_single [Shape.Report] (literal : Value) :
    Shape.misfit? (single q literal) = none := by
  refine if_pos ?_
  simp [single, Shape.accepts, Shape.acceptsMembers, isMarked_path,
    path_ne q (by decide : Shape.isMarked "$and" = true),
    path_ne q (by decide : Shape.isMarked "$or" = true),
    path_ne q (by decide : Shape.isMarked "$not" = true), isCondition_operator]

theorem patterns_of_isScalar [Pattern.Names] {v : Value} (h : v.IsScalar) :
    patterns v = .ok [] := by
  cases v with
  | array _ => exact h.elim
  | object _ => exact h.elim
  | _ => rfl

/-- The document holds the patterns of its literal. -/
theorem patterns_single [Pattern.Names] (literal : Value) :
    patterns (single q literal) = patterns literal := by
  have hpath : ownPattern [(String.ofList q.path, Value.object [(q.relation.operator, literal)])]
      = .ok [] := by
    rw [ownPattern, Members.find?, if_neg (path_ne q (by decide))]
    rfl
  have hoperator : ownPattern [(q.relation.operator, literal)] = .ok [] := by
    cases q.relation <;> rfl
  simp only [single, patterns, patternsInMembers, hpath, hoperator, Result.bind_ok,
    List.nil_append]
  cases patterns literal with
  | error fault => rfl
  | ok found => exact congrArg Except.ok (by simp only [List.append_nil])

/-- The document asks for one test of one field, whatever patterns were read. -/
theorem build_single (ps : List ReadPattern) (literal : Value) :
    build ps (single q literal) =
      .ok (.every [.field (String.ofList q.path) (.tests [.relation q.relation literal])]) := by
  have htest : buildTest ps [(q.relation.operator, literal)] q.relation.operator literal =
      .ok (.relation q.relation literal) := by
    cases q.relation <;> rfl
  have hcondition : buildCondition ps (.object [(q.relation.operator, literal)]) =
      .ok (.tests [.relation q.relation literal]) := by
    simp only [buildCondition, isMarkedObject_operator, ↓reduceIte, List.mapM_cons, List.mapM_nil,
      htest, Result.bind_ok, Result.pure_eq_ok]
  rw [single, build, buildMembers,
    if_neg (path_ne q (by decide : Shape.isMarked "$and" = true)),
    if_neg (path_ne q (by decide : Shape.isMarked "$or" = true)),
    if_neg (path_ne q (by decide : Shape.isMarked "$not" = true)), hcondition, buildMembers]
  · rfl
  · rintro _ ⟨⟩

/-- The document is nested two deeper than its literal. -/
theorem accept_single {limit : Nat} {literal : Value} (hlimit : literal.depth + 2 ≤ limit) :
    (single q literal).accept limit = .ok (single q literal.normalize) := by
  have hdepth : (single q literal).depth ≤ limit := by
    simp only [single, Value.depth, Value.depthMembers]
    omega
  rw [Value.accept, if_pos hdepth]
  rfl

/-- The text is read. -/
theorem read_text [Pattern.Names] [Shape.Report] {limit : Nat} (hlimit : 2 ≤ limit) :
    read limit (String.ofList (text q)) =
      .ok (.every [.field (String.ofList q.path)
        (.tests [.relation q.relation q.literal.normalize])]) := by
  have hdepth : q.literal.depth + 2 ≤ limit := by
    rwa [q.scalar.depth_eq_zero, Nat.zero_add]
  simp only [read, document_text, accept_single q hdepth, misfit?_single, patterns_single,
    patterns_of_isScalar q.scalar, build_single, Result.bind_ok]

/-! ### Matching -/

theorem passesAll_singleton (a : Operand) (t : FieldTest) : passesAll a [t] = t.holds a := by
  rw [passesAll]
  cases t.holds a with
  | error e => rfl
  | ok answer => cases answer <;> rfl

theorem everyHolds_singleton (members : List (String × Value)) (c : Criteria) :
    everyHolds members [c] = holds members c := by
  rw [everyHolds]
  cases holds members c with
  | error e => rfl
  | ok answer => cases answer <;> rfl

/-- One test of one field. -/
theorem matches?_single (name : String) (r : Relation) (literal : Value)
    (members : List (String × Value)) :
    matches? (.every [.field name (.tests [.relation r literal])]) (.object members) =
      (do r.compare (← Field.find members name) (Option.some literal)) := by
  rw [matches?, holds, everyHolds_singleton, holds]
  cases Field.find members name with
  | error e => rfl
  | ok found =>
      rw [Result.bind_ok, Result.bind_ok, FieldCondition.holds, passesAll_singleton]
      rfl

/-- **Criteria keep the items that pass**, if those are objects in which no member has a dotted
path for its name. -/
theorem evaluate_text [Pattern.Names] [Shape.Report] {limit : Nat} (hlimit : 2 ≤ limit)
    {items : List Value} {passes : Value → Bool}
    (h : ∀ item ∈ items, q.test item = .ok (passes item))
    (hobjects : ∀ item ∈ items, ∃ members, item = .object members ∧
      (1 < q.names.length → Members.find? members (String.ofList q.path) = none)) :
    evaluate limit (String.ofList (text q)) (.array items) =
      .ok (.array (items.filter passes)) := by
  have hkeep : Items.keep (matches? (.every [.field (String.ofList q.path)
      (.tests [.relation q.relation q.literal.normalize])])) items =
      .ok (items.filter passes) := by
    refine Items.keep_eq_filter fun item hitem => ?_
    obtain ⟨members, rfl, hliteral⟩ := hobjects item hitem
    have hfield : Field.find members (String.ofList q.path) = .ok (q.found (.object members)) :=
      Field.find_dotted q.names_ne q.identifiers hliteral
    rw [matches?_single, hfield, Result.bind_ok, q.compare_normalize, h _ hitem]
  rw [evaluate, read_text q hlimit, Result.bind_ok, select, hkeep]
  rfl

end Criteria

end Quarry
