import Quarry.Filter.Reader
import Quarry.Navigation.Eval
import Quarry.Proofs.Criteria
import Quarry.Step.Basic

/-!
# Dialects — four ways to say the same condition

A condition can be said as a `select` stage of a filter, as criteria, as a navigation with a
condition in brackets and as the configuration of a filter step.  Each text is read by a reader
of its own, and each reader finds the path, the relation and the literal of the condition.  So
all four keep the items that pass it (`dialects_agree`).
-/

namespace Quarry

/-! ### Signs -/

/-- The characters of the sign of a relation. -/
def Relation.sign : Relation → List Char
  | .eq => ['=', '=']
  | .ne => ['!', '=']
  | .ge => ['>', '=']
  | .le => ['<', '=']
  | .gt => ['>']
  | .lt => ['<']

theorem Relation.symbol_toList (r : Relation) : r.symbol.toList = r.sign := by
  cases r <;> rfl

theorem Relation.sign_plain (r : Relation) :
    ∀ c ∈ r.sign, Text.isPlain c = true ∧ c ≠ ',' := by
  refine chars_forall ?_
  cases r <;> decide

/-! ### Filters -/

namespace Filter

/-- No builtin has an opening parenthesis, a dot or an opening brace in its name. -/
theorem builtin?_eq_none {c : Char} {s : List Char} (hc : c ∈ ['(', '.', '\x7b']) (h : c ∈ s) :
    builtin? s = none := by
  have hne : ∀ t : List Char, (∀ d ∈ ['(', '.', '\x7b'], d ∉ t) → s ≠ t := by
    rintro t ht rfl
    exact ht c hc h
  have hname : ∀ b : Builtin, ∀ d ∈ ['(', '.', '\x7b'], d ∉ b.name.toList := by
    intro b
    cases b <;> exact chars_forall (by decide)
  rw [builtin?, if_neg (hne _ (chars_forall (by decide))),
    if_neg (hne _ (chars_forall (by decide))), Builtin.ofName?, List.find?_eq_none]
  intro b _ hb
  have heq : b.name = String.ofList s := of_decide_eq_true hb
  exact hne _ (hname b) (by rw [heq, String.toList_ofList])

/-- The text of a select stage. -/
def selecting (inner : List Char) : List Char :=
  ['s', 'e', 'l', 'e', 'c', 't'] ++ ['('] ++ (inner ++ [')'])

theorem trim_selecting (inner : List Char) : Text.trim (selecting inner) = selecting inner :=
  Text.trim_of_trimmed (Text.trimmed_between (c := 's') (d := ')') (by decide) (by decide)
    (['e', 'l', 'e', 'c', 't'] ++ ['('] ++ inner))

/-- The text is a stage if the brackets in it belong together. -/
theorem readStage_selecting (reader : List Char → Except Fault Filter) (inner : List Char) :
    readStage reader (selecting inner) =
      if Text.isBalanced inner then (do return .select (← readCondition inner))
      else .error (.query (.filter (.unknownStage (String.ofList (selecting inner))))) := by
  have hbuiltin : builtin? (selecting inner) = none :=
    builtin?_eq_none (c := '(') (by decide) (by simp [selecting])
  have hindex : indexText? (selecting inner) = none := rfl
  have hslice : sliceText? (selecting inner) = none := rfl
  have hmap : Text.callArgument? ['m', 'a', 'p'] (selecting inner) = none := by
    rw [Text.callArgument?]
    rfl
  have hselect : Text.callArgument? ['s', 'e', 'l', 'e', 'c', 't'] (selecting inner) =
      if Text.isBalanced inner then some inner else none := Text.callArgument?_call _ inner
  rw [readStage, if_neg (by simp [selecting]), hbuiltin]
  by_cases h : Text.isBalanced inner = true
  · simp only [hindex, hslice, hmap, hselect, if_pos h]
  · simp only [hindex, hslice, hmap, hselect, if_neg h]
    rw [if_neg (by simp [selecting])]

/-- A select stage keeps the items that pass its condition. -/
theorem evaluate_of_read {limit : Nat} {text : String} {condition : Condition}
    (h : read limit text = .ok [.select condition]) (items : List Value) :
    evaluate limit text (.array items) = (do
      return .array (← Items.keep condition.holds items)) := by
  rw [evaluate, h, Result.bind_ok, run, Stage.applyAll, Stage.apply]
  cases Items.keep condition.holds items <;> rfl

variable (q : Selector)

/-- The text of a stage that keeps the items that pass. -/
def selectText : List Char :=
  ['s', 'e', 'l', 'e', 'c', 't'] ++ ['('] ++ ('.' :: q.text q.relation.sign ++ [')'])

theorem relationAt?_sign (r : Relation) (s : List Char) :
    relationAt? (r.sign ++ ' ' :: s) = some (r, ' ' :: s) := by
  cases r <;> rfl

theorem comparison?_text :
    comparison? ('.' :: q.text q.relation.sign) =
      some ('.' :: q.path, q.relation, q.literalText) := by
  have hpath : ∀ c ∈ '.' :: q.path, (!endsPath c) = true := by
    intro c hc
    rcases List.mem_cons.mp hc with rfl | hc
    · rfl
    · exact q.path_forall (p := fun c => (!endsPath c) = true) (by decide) c hc
  have hblank : Stops (fun c => !endsPath c)
      (' ' :: (q.relation.sign ++ ' ' :: q.literalText)) := stops_cons.mpr (by decide)
  have hspan := span_append_of_stops hpath hblank
  have hsign : Stops Text.isBlank (q.relation.sign ++ ' ' :: q.literalText) := by
    cases q.relation <;> exact stops_cons.mpr (by decide)
  have hrelation : (' ' :: (q.relation.sign ++ ' ' :: q.literalText)).dropWhile Text.isBlank =
      q.relation.sign ++ ' ' :: q.literalText :=
    Text.dropWhile_blank hsign
  have hliteral : (' ' :: q.literalText).dropWhile Text.isBlank = q.literalText :=
    Text.dropWhile_blank q.literalText_trimmed.2.1
  rw [List.cons_append] at hspan
  rw [Selector.text, comparison?, hspan]
  simp only [hrelation, relationAt?_sign, Option.map_some, hliteral]

theorem readCondition_text :
    readCondition ('.' :: q.text q.relation.sign) =
      .ok ⟨Path.fields q.names, some (q.relation, q.literal.normalize)⟩ := by
  have htrim : Text.trim ('.' :: q.text q.relation.sign) = '.' :: q.text q.relation.sign :=
    Text.trim_of_trimmed (Text.Trimmed.append (s := ['.']) ⟨stops_cons.mpr rfl, stops_cons.mpr rfl⟩
      (q.text_trimmed _) (List.cons_ne_nil _ _) (q.text_ne _) [])
  have hpath : readPath ('.' :: q.path) = .ok (Path.fields q.names) := by
    rw [readPath, List.drop_one, List.tail_cons, Selector.path,
      Path.read_dotted q.names_ne q.identifiers]
  simp only [readCondition, htrim, comparison?_text, hpath, q.read_literalText, Result.bind_ok,
    Result.pure_eq_ok]

/-- The stage is read. -/
theorem readStage_selectText (chain : List Char → Except Fault Filter) :
    readStage chain (selectText q) =
      .ok (.select ⟨Path.fields q.names, some (q.relation, q.literal.normalize)⟩) := by
  have hdot : Text.Passes ',' false ['.'] := Text.passes_plain (by decide) (.inr (by decide))
  have hbalanced : Text.isBalanced ('.' :: q.text q.relation.sign) = true :=
    (hdot.append (q.passes_text (.inr rfl) q.relation.sign_plain)).isBalanced
  have hstage := readStage_selecting chain ('.' :: q.text q.relation.sign)
  rwa [if_pos hbalanced, readCondition_text] at hstage

/-- The text is a filter of one stage. -/
theorem read_selectText (limit : Nat) :
    read limit (String.ofList (selectText q)) =
      .ok [.select ⟨Path.fields q.names, some (q.relation, q.literal.normalize)⟩] := by
  have htrim : Text.trim (selectText q) = selectText q := trim_selecting _
  have hname : Text.Passes '|' false ['s', 'e', 'l', 'e', 'c', 't'] :=
    Text.passes_of_forall (chars_forall (by decide))
  have hdot : Text.Passes '|' true ['.'] := Text.passes_plain (by decide) (.inl rfl)
  have hinner : Text.Passes '|' true ('.' :: q.text q.relation.sign) :=
    hdot.append (q.passes_text (.inl rfl) q.relation.sign_plain)
  have hcut : Text.cutOutside ['|'] (selectText q) = .ok [selectText q] :=
    (hname.append (hinner.brackets ⟨by decide, by decide⟩
      ⟨by decide, by decide, by decide⟩)).cutOutside_eq
  rw [read, String.toList_ofList, if_neg (by rw [htrim]; exact Bool.false_ne_true), readChain,
    hcut, Result.bind_ok, List.mapM_cons, List.mapM_nil, htrim]
  split
  · contradiction
  · rw [readStage_selectText]
    rfl

/-- **A `select` stage** keeps the items that pass, and fails where the test of an item does. -/
theorem evaluate_select (limit : Nat) (items : List Value) :
    evaluate limit (String.ofList (selectText q)) (.array items) = (do
      return .array (← Items.keep q.test items)) := by
  have hholds : Condition.holds ⟨Path.fields q.names, some (q.relation, q.literal.normalize)⟩ =
      q.test := by
    funext item
    rw [← q.compare_normalize, Condition.holds, Path.resolve_fields]
    rfl
  rw [evaluate_of_read (read_selectText q limit), hholds]

/-- **A `select` stage keeps the items that pass.** -/
theorem evaluate_selectText (limit : Nat) {items : List Value} {passes : Value → Bool}
    (h : ∀ item ∈ items, q.test item = .ok (passes item)) :
    evaluate limit (String.ofList (selectText q)) (.array items) =
      .ok (.array (items.filter passes)) := by
  rw [evaluate_select, Items.keep_eq_filter h]
  rfl

end Filter

/-! ### Navigation -/

/-- The sign of a relation in navigation texts. -/
def Relation.navigationSign : Relation → List Char
  | .eq => ['=']
  | r => r.sign

theorem Relation.navigationSign_plain (r : Relation) :
    ∀ c ∈ r.navigationSign, Text.isPlain c = true ∧ c ≠ ',' := by
  refine chars_forall ?_
  cases r <;> decide

namespace Navigation

variable (q : Selector)

/-- The text of the root with a condition. -/
def rootText : List Char :=
  '$' :: ('[' :: q.text q.relation.navigationSign ++ [']'])

theorem comparison?_text :
    comparison? (q.text q.relation.navigationSign) =
      some ⟨String.ofList q.path, q.relation, q.literalText⟩ := by
  have hpath : ∀ c ∈ q.path, isPathChar c = true := q.path_forall (by decide)
  have hspan : (q.text q.relation.navigationSign).span isPathChar =
      (q.path, ' ' :: (q.relation.navigationSign ++ ' ' :: q.literalText)) :=
    span_append_of_stops hpath (stops_cons.mpr (by decide))
  have hsign : Stops Text.isBlank (q.relation.navigationSign ++ ' ' :: q.literalText) := by
    cases q.relation <;> exact stops_cons.mpr (by decide)
  have hrelation : Text.trimLeft (' ' :: (q.relation.navigationSign ++ ' ' :: q.literalText)) =
      q.relation.navigationSign ++ ' ' :: q.literalText :=
    Text.dropWhile_blank hsign
  have hliteral : Text.trimLeft (' ' :: q.literalText) = q.literalText :=
    Text.dropWhile_blank q.literalText_trimmed.2.1
  obtain ⟨c, s, hcons, -⟩ := q.path_cons
  rw [hcons] at hspan
  rw [comparison?, hspan]
  simp only [hrelation, hcons]
  cases q.relation <;> simp [relations, Relation.navigationSign, Relation.sign,
    List.isPrefixOf?, hliteral]

/-- The condition is no index. -/
theorem isIndex_text : isIndex (q.text q.relation.navigationSign) = false := by
  obtain ⟨c, s, hcons, hc⟩ := q.path_cons
  have hminus : c ≠ '-' := by
    rintro rfl
    cases hc
  rw [isIndex, Selector.text, hcons, List.cons_append, Text.dropLeading, if_neg hminus]
  simp [Text.isNumeral, isDigit_of_isNameStart hc]

/-- The condition is found in its brackets. -/
theorem constraint?_rootText :
    constraint? (rootText q) = some (['$'], q.text q.relation.navigationSign) := by
  have hspan : (rootText q).span (fun c => c ≠ '[' && c ≠ ']') =
      (['$'], '[' :: q.text q.relation.navigationSign ++ [']']) :=
    span_append_of_stops (s := ['$']) (chars_forall (by decide)) (stops_cons.mpr (by decide))
  have hroot : Text.trim ['$'] = ['$'] := by decide
  rw [constraint?, hspan]
  simp [q.text_ne, hroot, Text.trim_of_trimmed (q.text_trimmed _)]

/-- **A navigation keeps the items that pass.** -/
theorem resolve_rootText {items : List Value} {passes : Value → Bool}
    (h : ∀ item ∈ items, q.test item = .ok (passes item))
    (hobjects : ∀ item ∈ items, ∃ members, item = .object members) :
    resolve (String.ofList (rootText q)) (.array items) =
      .ok (some (.array (items.filter passes))) := by
  have htrim : Text.trim (rootText q) = rootText q :=
    Text.trim_of_trimmed (Text.trimmed_between (by decide) (by decide) _)
  have hroot : Text.Passes '.' false ['$'] := Text.passes_plain (by decide) (.inr (by decide))
  have hinner : Text.Passes '.' true (q.text q.relation.navigationSign) :=
    q.passes_text (.inl rfl) q.relation.navigationSign_plain
  have hcut : Text.cutOutside ['.'] (rootText q) = .ok [rootText q] :=
    (hroot.append (hinner.brackets ⟨by decide, by decide⟩
      ⟨by decide, by decide, by decide⟩)).cutOutside_eq
  have hkeep : Items.keep (Navigation.passes ⟨String.ofList q.path, q.relation, q.literalText⟩
      q.literal.normalize) items = .ok (items.filter passes) := by
    refine Items.keep_eq_filter fun item hitem => ?_
    obtain ⟨members, rfl⟩ := hobjects item hitem
    rw [← h _ hitem, ← q.compare_normalize, Navigation.passes, Selector.path,
      Path.resolveText_dotted q.names_ne q.identifiers]
    rfl
  have hconstrained : constrained (q.text q.relation.navigationSign) (.array items) =
      .ok (some (.array (items.filter passes))) := by
    simp only [constrained, isIndex_text, comparison?_text, q.read_literalText, hkeep,
      Bool.false_eq_true, ↓reduceIte, Result.bind_ok, Result.pure_eq_ok]
  have hfollow : follow (rootText q) (.array items) =
      .ok (some (.array (items.filter passes))) := by
    have hstar : rootText q ≠ ['*'] := fun h => absurd (List.cons.inj h).1 (by decide)
    have hisRoot : isRoot ['$'] = true := rfl
    simp only [follow, if_neg hstar, constraint?_rootText, hisRoot, ↓reduceIte, hconstrained]
  have hsegments : withoutRoot [rootText q] = [rootText q] := by
    have hisRoot : isRoot (rootText q) = false := rfl
    rw [withoutRoot, hisRoot, if_neg Bool.false_ne_true]
  rw [resolve, String.toList_ofList, htrim, hcut, Result.bind_ok, List.map_cons, List.map_nil,
    htrim, hsegments, followAll, if_neg (by exact Bool.false_ne_true), hfollow, Result.bind_ok]
  rfl

end Navigation

/-! ### Filter steps -/

namespace Filtering

variable (q : Selector)

/-- The characters of signs. -/
def signs : List Char :=
  ['<', '>', '=', '!']

/-- Every operator that is tried before a relation has a character that its sign lacks. -/
theorem operators_split (r : Relation) :
    ∃ before after, operators = before ++ .relation r :: after ∧
      ∀ o ∈ before, (o.symbol.toList.any fun c => c ∈ signs ∧ c ∉ r.sign) = true := by
  cases r with
  | ge => exact ⟨[], _, rfl, nofun⟩
  | le => exact ⟨[.relation .ge], _, rfl, by decide⟩
  | ne => exact ⟨[.relation .ge, .relation .le], _, rfl, by decide⟩
  | eq => exact ⟨[.relation .ge, .relation .le, .relation .ne], _, rfl, by decide⟩
  | gt =>
      exact ⟨[.relation .ge, .relation .le, .relation .ne, .relation .eq], _, rfl, by decide⟩
  | lt =>
      exact ⟨[.relation .ge, .relation .le, .relation .ne, .relation .eq, .relation .gt], _, rfl,
        by decide⟩

theorem path_notMem {c : Char} (hc : c ∈ signs) : c ∉ q.path := by
  intro hmem
  exact q.path_forall (p := fun c => c ∉ signs) (by decide) c hmem hc

/-- The first operator that is found is that of the relation. -/
theorem findSome?_operators (hliteral : ∀ c ∈ q.literalText, c ∉ signs) :
    (operators.findSome? fun o =>
      (Text.cutFirst? o.symbol.toList (q.text q.relation.sign)).map (o, ·)) =
      some (.relation q.relation, q.path ++ [' '], ' ' :: q.literalText) := by
  obtain ⟨before, after, hsplit, hbefore⟩ := operators_split q.relation
  -- the operators before it have a sign that occurs nowhere in the text
  have hnone : ∀ o ∈ before, Text.cutFirst? o.symbol.toList (q.text q.relation.sign) = none := by
    intro o ho
    obtain ⟨c, hc, hmem⟩ := List.any_eq_true.mp (hbefore o ho)
    obtain ⟨hsign, hne⟩ := of_decide_eq_true hmem
    have hblank : c ≠ ' ' := by
      rintro rfl
      exact absurd hsign (by decide)
    refine Text.cutFirst?_eq_none hc fun hmem => ?_
    simp only [Selector.text, List.mem_append, List.mem_cons] at hmem
    rcases hmem with hmem | hmem | hmem | hmem | hmem
    · exact path_notMem q hsign hmem
    · exact hblank hmem
    · exact hne hmem
    · exact hblank hmem
    · exact hliteral c hmem hsign
  have hfound : Text.cutFirst? q.relation.symbol.toList (q.text q.relation.sign) =
      some (q.path ++ [' '], ' ' :: q.literalText) := by
    obtain ⟨c, s, hcons, hc⟩ : ∃ c s, q.relation.sign = c :: s ∧ c ∈ signs := by
      cases q.relation <;> exact ⟨_, _, rfl, by decide⟩
    have hnotMem : c ∉ q.path ++ [' '] := by
      rw [List.mem_append, List.mem_singleton, not_or]
      refine ⟨path_notMem q hc, ?_⟩
      rintro rfl
      exact absurd hc (by decide)
    have hcut := Text.cutFirst?_append hnotMem s (' ' :: q.literalText)
    rw [Relation.symbol_toList, Selector.text, hcons]
    simpa using hcut
  rw [hsplit, List.findSome?_append, List.findSome?_eq_none_iff.mpr, List.findSome?_cons]
  · simp [Operator.symbol, hfound]
  · intro o ho
    rw [hnone o ho, Option.map_none]

theorem read_text (hliteral : ∀ c ∈ q.literalText, c ∉ signs) :
    read (String.ofList (q.text q.relation.sign)) =
      .ok (some ⟨String.ofList q.path, .relation q.relation, q.literal.normalize⟩) := by
  have hread : Literal.read (String.ofList (' ' :: q.literalText)) = .ok q.literal.normalize :=
    q.read_literal (by
      rw [String.toList_ofList]
      exact (Text.trim_blank_append (s := [' ']) (chars_forall (by decide))).trans
        (Text.trim_of_trimmed q.literalText_trimmed.2))
  obtain ⟨c, s, hcons, hc⟩ := q.path_cons
  have htrim : Text.trim (q.path ++ [' ']) = q.path :=
    (Text.trim_append_blank (chars_forall (by decide))).trans (Text.trim_of_trimmed q.path_trimmed)
  have hdot : Text.dropLeading '.' q.path = q.path := by
    rw [hcons, Text.dropLeading, if_neg]
    rintro rfl
    cases hc
  simp only [read, String.toList_ofList, findSome?_operators q hliteral, hread, htrim, hdot,
    Result.bind_ok, Result.pure_eq_ok]

/-- **A filter step keeps the items that pass.** -/
theorem apply_text (hliteral : ∀ c ∈ q.literalText, c ∉ signs) {items : List Value}
    {passes : Value → Bool} (h : ∀ item ∈ items, q.test item = .ok (passes item)) :
    apply (String.ofList (q.text q.relation.sign)) items = .ok (items.filter passes) := by
  have hkeep : Items.keep (Filtering.passes (Path.fields q.names) (.relation q.relation)
      q.literal.normalize) items = .ok (items.filter passes) := by
    refine Items.keep_eq_filter fun item hitem => ?_
    rw [← h item hitem, ← q.compare_normalize, Filtering.passes, Path.resolve_fields]
    rfl
  have hpath : Path.read (String.ofList q.path) = .ok (Path.fields q.names) :=
    Path.read_dotted q.names_ne q.identifiers
  simp only [apply, read_text q hliteral, hpath, hkeep, Result.bind_ok]

end Filtering

/-! ### All four -/

/-- The sign of a relation in navigation texts, as a text. -/
def Relation.navigationSymbol : Relation → String
  | .eq => "="
  | r => r.symbol

theorem Relation.navigationSymbol_toList (r : Relation) :
    r.navigationSymbol.toList = r.navigationSign := by
  cases r <;> rfl

/-- **All dialects keep the same items**: those of which the relation holds between what is at
the path and the literal.  Items are objects and numbers have nearest doubles; a path with dots is
no member's name. -/
theorem dialects_agree [Pattern.Names] [Shape.Report] {names : List String} (hnames : names ≠ [])
    (hidentifiers : ∀ name ∈ names, IsIdentifier name.toList) (r : Relation) {literal : Value}
    (hscalar : literal.IsScalar) (hfinite : literal.IsFinite)
    (hliteral : literal.Representable) {items : List Value}
    (hobjects : ∀ item ∈ items, ∃ members, item = .object members ∧
      (1 < names.length → Members.find? members (".".intercalate names) = none))
    (hitems : ∀ item ∈ items, item.Representable) {limit : Nat} (hlimit : 2 ≤ limit)
    (settings : Settings) :
    let path := ".".intercalate names
    ∃ text passes, Json.render (.ofIndent 0) literal = .ok text ∧
      (∀ item ∈ items, (do r.compare (← Path.resolveText path item) (some literal)) =
        .ok (passes item)) ∧
      Filter.evaluate limit ("select(." ++ path ++ " " ++ r.symbol ++ " " ++ text ++ ")")
        (.array items) = .ok (.array (items.filter passes)) ∧
      Criteria.evaluate limit
        ("\x7b\"" ++ path ++ "\": \x7b\"" ++ r.operator ++ "\": " ++ text ++ "\x7d\x7d")
        (.array items) = .ok (.array (items.filter passes)) ∧
      Navigation.resolve ("$[" ++ path ++ " " ++ r.navigationSymbol ++ " " ++ text ++ "]")
        (.array items) = .ok (some (.array (items.filter passes))) ∧
      ((∀ c ∈ text.toList, c ∉ ['<', '>', '=', '!']) →
        ∀ step : Step, step.kind = .filter →
          step.config = path ++ " " ++ r.symbol ++ " " ++ text →
            step.run settings (.array items) = .ok (.array (items.filter passes))) := by
  intro path
  let q : Selector :=
    { names := names.map String.toList
      relation := r
      literal := literal
      names_ne := by simpa using hnames
      identifiers := by simpa using hidentifiers
      scalar := hscalar
      finite := hfinite
      representable := hliteral }
  have hpath : path.toList = q.path := by
    rw [String.toList_intercalate]
    rfl
  have hitem : ∀ item ∈ items, q.test item = .ok (q.passes item) := fun item hmem =>
    q.test_eq_passes (hitems item hmem)
  have hobject : ∀ item ∈ items, ∃ members, item = .object members ∧
      (1 < q.names.length → Members.find? members (String.ofList q.path) = none) := by
    rw [← hpath, String.ofList_toList, List.length_map]
    exact hobjects
  -- each syntax passes the items that `q` does; what is left is that each text is one of `q`
  refine ⟨String.ofList q.literalText, q.passes, if_pos q.literal_isWritable, ?_, ?_, ?_, ?_, ?_⟩
  · rw [← String.ofList_toList (s := path), hpath]
    exact hitem
  · have htext : "select(." ++ path ++ " " ++ r.symbol ++ " " ++ String.ofList q.literalText ++
        ")" = String.ofList (Filter.selectText q) := by
      rw [← String.toList_inj]
      simp [Filter.selectText, Selector.text, Relation.symbol_toList, hpath, q]
    rw [htext, Filter.evaluate_selectText q limit hitem]
  · have htext : "\x7b\"" ++ path ++ "\": \x7b\"" ++ r.operator ++ "\": " ++
        String.ofList q.literalText ++ "\x7d\x7d" = String.ofList (Criteria.text q) := by
      rw [← String.toList_inj]
      simp [Criteria.text_eq, hpath, q]
    rw [htext, Criteria.evaluate_text q hlimit hitem hobject]
  · have htext : "$[" ++ path ++ " " ++ r.navigationSymbol ++ " " ++ String.ofList q.literalText ++
        "]" = String.ofList (Navigation.rootText q) := by
      rw [← String.toList_inj]
      simp [Navigation.rootText, Selector.text, Relation.navigationSymbol_toList, hpath, q]
    rw [htext, Navigation.resolve_rootText q hitem fun item hmem =>
      (hobject item hmem).imp fun _ h => h.1]
  · intro hsigns step hkind hconfig
    have htext : step.config = String.ofList (q.text q.relation.sign) := by
      rw [hconfig, ← String.toList_inj]
      simp [Selector.text, Relation.symbol_toList, hpath, q]
    rw [String.toList_ofList] at hsigns
    have happly : Filtering.apply step.config items = .ok (items.filter q.passes) := by
      rw [htext, Filtering.apply_text q hsigns hitem]
    simp only [Step.run, hkind, Step.arrayItems, happly, Result.bind_ok, Result.pure_eq_ok]

/-- A literal of a bracket and a quote. -/
theorem dialects_agree_quoted :
    let _ : Pattern.Names := default
    let _ : Shape.Report := default
    let literal : Value := .string "]|\""
    let kept : Value := .object [("a", .object [("b", literal)])]
    let items : List Value := [kept, .object [("a", .null)]]
    Filter.evaluate 512 "select(.a.b == \"]|\\\"\")" (.array items) = .ok (.array [kept]) ∧
      Criteria.evaluate 512 "\x7b\"a.b\": \x7b\"$eq\": \"]|\\\"\"\x7d\x7d" (.array items) =
        .ok (.array [kept]) ∧
      Navigation.resolve "$[a.b = \"]|\\\"\"]" (.array items) = .ok (some (.array [kept])) ∧
      ∀ step : Step, step.kind = .filter → step.config = "a.b == \"]|\\\"\"" →
        step.run {} (.array items) = .ok (.array [kept]) := by
  intro _ _ literal kept items
  have hidentifiers : ∀ name ∈ ["a", "b"], IsIdentifier name.toList := by
    simp [IsIdentifier, isNameStart, isNamePart, Stops]
  have hobjects : ∀ item ∈ items, ∃ members, item = .object members ∧
      (1 < ["a", "b"].length → Members.find? members (".".intercalate ["a", "b"]) = none) := by
    simp [items, kept, Members.find?]
  have hitems : ∀ item ∈ items, item.Representable := by
    simp [items, kept, literal]
  have hscalar : literal.IsScalar := trivial
  obtain ⟨text, passes, htext, hpasses, hfilter, hcriteria, hnavigation, hstep⟩ :=
    dialects_agree (List.cons_ne_nil "a" ["b"]) hidentifiers .eq hscalar
      (Value.everyNumber_string _) (Value.everyNumber_string _) hobjects hitems
      (by decide : 2 ≤ 512) {}
  have hrender : Json.render (.ofIndent 0) literal = .ok "\"]|\\\"\"" := rfl
  obtain rfl : text = "\"]|\\\"\"" := by
    rw [hrender] at htext
    exact (Except.ok.inj htext).symm
  have hkept : passes kept = true := by
    have := hpasses kept List.mem_cons_self
    exact (Except.ok.inj this).symm
  have hdropped : passes (.object [("a", .null)]) = false := by
    have := hpasses (.object [("a", .null)]) (List.mem_cons_of_mem _ List.mem_cons_self)
    exact (Except.ok.inj this).symm
  have hitems : items.filter passes = [kept] := by
    simp [items, hkept, hdropped]
  rw [hitems] at hfilter hcriteria hnavigation hstep
  exact ⟨hfilter, hcriteria, hnavigation, hstep (chars_forall (by decide))⟩

end Quarry
