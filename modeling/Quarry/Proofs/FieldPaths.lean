import Mathlib.Data.List.Induction
import Quarry.Proofs.Costs
import Quarry.Proofs.Dialects
import Quarry.Proofs.Pipelines
import Quarry.Proofs.Precedence

/-!
# Field paths — three ways along names

Names with dots between them lead to a member of a member in filters, in expressions and in
navigations.  A filter looks the whole path up at once, and what does not exist is null at the end.
An expression goes one name at a time and starts again at null where there is nothing.  Both end at
the same value (`foldl_fieldOrNull`).  A navigation goes like a filter, but takes the arrays that
it collects apart; where there are none to take apart it agrees with the others (`Path.Flat`).
-/

namespace Quarry

/-! ### Filters -/

namespace Filter

variable {names : List (List Char)}

theorem dot_passes (h : ∀ name ∈ names, IsIdentifier name) :
    Text.Passes '|' false ('.' :: dotted names) := by
  refine Text.passes_of_forall fun c hc => ?_
  have hpart : isDottedPart c = true := by
    rcases List.mem_cons.mp hc with rfl | hc
    · rfl
    · exact dotted_forall h c hc
  exact dottedPart_forall (p := fun c => Text.isPlain c = true ∧ (false = true ∨ c ≠ '|'))
    (by decide) hpart

theorem dropTrailing?_brackets (h : ∀ name ∈ names, IsIdentifier name) :
    Text.dropTrailing? ['[', ']'] ('.' :: dotted names) = none := by
  rw [Text.dropTrailing?, Option.map_eq_none_iff, ← Option.not_isSome_iff_eq_none]
  intro hsome
  obtain ⟨rest, hrest⟩ := Option.isSome_iff_exists.mp hsome
  rw [List.isPrefixOf?_eq_some_iff_append_eq] at hrest
  have hmem : ']' ∈ ('.' :: dotted names).reverse := by
    rw [← hrest]
    exact List.mem_cons_self
  rcases List.mem_cons.mp (List.mem_reverse.mp hmem) with hdot | hmem
  · cases hdot
  · exact absurd (dotted_forall h ']' hmem) (by decide)

/-- A path is read as a stage of its own. -/
theorem readStage_path (chain : List Char → Except Fault Filter) (hne : names ≠ [])
    (h : ∀ name ∈ names, IsIdentifier name) :
    readStage chain ('.' :: dotted names) = .ok (.path (Path.fields names) false) := by
  obtain ⟨c, s, hcons, hc⟩ := dotted_cons hne h
  have hbracket : afterBracket? ('.' :: dotted names) = none := by
    rw [hcons, afterBracket?.eq_def]
    split
    · rename_i heq
      cases heq
      cases hc
    · rename_i heq
      cases heq
    · rfl
  have hidentity : '.' :: dotted names ≠ ['.'] := by
    rw [hcons]
    rintro ⟨⟩
  have hmap : Text.callArgument? ['m', 'a', 'p'] ('.' :: dotted names) = none := by
    rw [Text.callArgument?]
    rfl
  have hselect :
      Text.callArgument? ['s', 'e', 'l', 'e', 'c', 't'] ('.' :: dotted names) = none := by
    rw [Text.callArgument?]
    rfl
  have hpath : readPath ('.' :: dotted names) = .ok (Path.fields names) := by
    rw [readPath, List.drop_one, List.tail_cons, Path.read_dotted hne h]
  rw [readStage, if_neg hidentity, builtin?_eq_none (by decide) List.mem_cons_self]
  simp only [indexText?, sliceText?, hbracket, hmap, hselect, List.head?_cons, ↓reduceIte,
    readPathStage, dropTrailing?_brackets h, hpath, Result.bind_ok, Result.pure_eq_ok]

theorem read_path (limit : Nat) (hne : names ≠ []) (h : ∀ name ∈ names, IsIdentifier name) :
    read limit (String.ofList ('.' :: dotted names)) = .ok [.path (Path.fields names) false] := by
  have htrim : Text.trim ('.' :: dotted names) = '.' :: dotted names := by
    refine Text.trim_of_trimmed (Text.trimmed_of_forall fun c hc => ?_)
    rcases List.mem_cons.mp hc with rfl | hc
    · decide
    · exact dottedPart_forall (p := fun c => Text.isBlank c = false) (by decide)
        (dotted_forall h c hc)
  rw [read, String.toList_ofList, if_neg (by rw [htrim]; exact Bool.false_ne_true), readChain,
    (dot_passes h).cutOutside_eq, Result.bind_ok, List.mapM_cons, List.mapM_nil, htrim]
  split
  · contradiction
  · rw [readStage_path _ hne h]
    rfl

/-- **A path stage** leads where its names lead, and to null where they lead nowhere. -/
theorem evaluate_path (limit : Nat) (hne : names ≠ []) (h : ∀ name ∈ names, IsIdentifier name)
    {v : Value} (hv : (∃ items, v = .array items) ∨ ∃ members, v = .object members) :
    evaluate limit (String.ofList ('.' :: dotted names)) v =
      .ok (((Path.fields names).follow true v).getD .null) := by
  have hlook : Stage.lookUp (Path.fields names) false v =
      ((Path.fields names).follow true v).getD .null := by
    have hresolve := Path.resolve_fields names v true
    rcases hv with ⟨items, rfl⟩ | ⟨members, rfl⟩
    all_goals
      rw [Stage.lookUp, hresolve]
      split <;> rename_i hfound <;> rw [hfound] <;> rfl
  rw [evaluate, read_path limit hne h, Result.bind_ok, run, Stage.applyAll, Stage.apply, hlook,
    Result.bind_ok, Stage.applyAll]

end Filter

/-! ### Expressions -/

/-- What is under a name, null if there is nothing. -/
def Value.fieldOrNull (v : Value) (name : String) : Value :=
  ((Segment.field name).follow true v).getD .null

/-- There is only null under null. -/
theorem Value.foldl_null (names : List String) : names.foldl fieldOrNull .null = .null := by
  induction names with
  | nil => rfl
  | cons name names ih => exact ih

/-- Starting again at null wherever there is nothing leads where the whole path leads. -/
theorem foldl_fieldOrNull (names : List String) (v : Value) :
    names.foldl Value.fieldOrNull v =
      ((Path.fields (names.map String.toList)).follow true v).getD .null := by
  induction names generalizing v with
  | nil => rfl
  | cons name names ih =>
      rw [List.foldl_cons, Value.fieldOrNull]
      simp only [Path.fields, List.map_cons, String.ofList_toList, Path.follow]
      cases (Segment.field name).follow true v with
      | some w => exact ih w
      | none => exact Value.foldl_null names

namespace Expr

/-- The expression of a path of names. -/
def fieldChain (names : List String) : Expr :=
  names.foldl field identity

theorem fieldChain_concat (names : List String) (name : String) :
    fieldChain (names ++ [name]) = .field (fieldChain names) name := by
  rw [fieldChain, List.foldl_append]
  rfl

theorem fieldChain_writable (names : List String) : (fieldChain names).Writable := by
  induction names using List.reverseRecOn with
  | nil => trivial
  | append_singleton names name ih =>
      rw [fieldChain_concat]
      exact ih

/-- Going along names costs a step for each, and one for the start. -/
theorem costs_fieldChain {limit budget levels : Nat} (names : List String)
    (hlevels : names.length < levels) (v : Value) :
    Costs (names.length + 1) (eval limit budget levels (fieldChain names) v)
      (.ok (names.foldl Value.fieldOrNull v)) := by
  obtain ⟨levels, rfl⟩ := Nat.exists_eq_add_one.mpr (Nat.zero_lt_of_lt hlevels)
  induction names using List.reverseRecOn generalizing levels with
  | nil => exact costs_identity
  | append_singleton names name ih =>
      rw [List.length_append, List.length_singleton] at hlevels ⊢
      obtain ⟨levels, rfl⟩ := Nat.exists_eq_add_one.mpr (show 0 < levels by omega)
      rw [fieldChain_concat, List.foldl_append]
      exact costs_field name (ih levels (by omega))

/-- A member is its own source without parentheses. -/
theorem source_field (source : Expr) (name : String) (own : List Lexeme) :
    Manner.source (.field source name) own = own := by
  have hplace : ¬ (Expr.field source name).place.rank < Place.path.rank := Nat.lt_irrefl _
  rw [Manner.source, enclosed, if_neg hplace]
  intro h
  cases h

theorem source_fieldChain {names : List String} (h : ∀ name ∈ names, IsIdentifier name.toList) :
    Manner.source (fieldChain names) (words .bareNames (fieldChain names)) =
      names.map .dotted := by
  induction names using List.reverseRecOn with
  | nil => rfl
  | append_singleton names name ih =>
      have hname : Manner.bareNames.bare name = true :=
        decide_eq_true (h name (by simp))
      have hsource := ih fun other hother => h other (by simp [hother])
      have hwords : words .bareNames (.field (fieldChain names) name) =
          (names ++ [name]).map .dotted := by
        rw [words, hsource, Manner.member, if_pos hname, List.map_append, List.map_singleton]
      rw [fieldChain_concat, source_field, hwords]

/-- The words of a path of names are the names with their dots. -/
theorem words_fieldChain {names : List String} (hne : names ≠ [])
    (h : ∀ name ∈ names, IsIdentifier name.toList) :
    words .bareNames (fieldChain names) = names.map .dotted := by
  have hsource := source_fieldChain h
  obtain ⟨front, last, rfl⟩ := (List.eq_nil_or_concat names).resolve_left hne
  rwa [List.concat_eq_append, fieldChain_concat, source_field] at *

theorem spells_dotted (names : List String) :
    Spells (names.map .dotted) (names.flatMap fun name => '.' :: name.toList) := by
  induction names with
  | nil => exact .nil
  | cons name names ih =>
      rw [List.map_cons, List.flatMap_cons]
      refine .cons (l := .dotted name) ih ?_
      cases names with
      | nil => rfl
      | cons name names => rfl

theorem dotted_eq_flatMap {names : List (List Char)} (hne : names ≠ []) :
    '.' :: dotted names = names.flatMap ('.' :: ·) := by
  induction names with
  | nil => exact absurd rfl hne
  | cons name names ih =>
      cases names with
      | nil => simp [dotted]
      | cons name' names =>
          rw [dotted, List.intercalate_cons_cons, List.flatMap_cons, ← ih (List.cons_ne_nil _ _)]
          simp

/-- **A path of names as an expression** starts again at null where there is nothing. -/
theorem evaluate_path {limit budget : Nat} {names : List String} (hne : names ≠ [])
    (h : ∀ name ∈ names, IsIdentifier name.toList) (hlimit : names.length ≤ limit)
    (hbudget : names.length < budget) (v : Value) :
    evaluate limit budget (String.ofList ('.' :: dotted (names.map String.toList))) v =
      .ok (names.foldl Value.fieldOrNull v) := by
  have hwords := words_fieldChain hne h
  have hspells : Spells (words .bareNames (fieldChain names))
      (String.ofList ('.' :: dotted (names.map String.toList))).toList := by
    rw [hwords, String.toList_ofList, dotted_eq_flatMap (by simpa using hne), List.flatMap_map]
    exact spells_dotted names
  have hlength : (words .bareNames (fieldChain names)).length ≤ limit := by
    rwa [hwords, List.length_map]
  have hread := read_of_spells .bareNames (fieldChain_writable names) hlength hspells
  have hcosts : Costs _ (eval limit budget (limit + 1) (fieldChain names) v) _ :=
    costs_fieldChain names (Nat.lt_succ_of_le hlimit) v
  rw [evaluate, hread, Result.bind_ok, value_of_costs hcosts hbudget]

end Expr

/-! ### Navigations -/

/-- Wherever the way meets an array, no object in it holds an array under the next name. -/
def Path.Flat : List String → Value → Prop
  | [], _ => True
  | name :: names, v =>
      (∀ items, v = .array items → ∀ item ∈ items, ∀ inner,
        item.member? name ≠ some (.array inner)) ∧
        ∀ w, (Segment.field name).follow true v = some w → Path.Flat names w

namespace Navigation

theorem bareName_identifier {name : List Char} (h : IsIdentifier name) :
    bareName name = String.ofList name := by
  obtain ⟨c, s, rfl, hc⟩ := h.exists_cons
  rw [bareName.eq_def]
  split
  · rename_i heq
    cases heq
    cases hc
  · rfl

/-- What one item adds, if it holds no array. -/
theorem collected_eq {name : String} {item : Value}
    (h : ∀ inner, item.member? name ≠ some (.array inner)) :
    collected name item = (item.member? name).toList := by
  rw [collected]
  split
  · exact absurd ‹_› (h _)
  · rename_i heq
    rw [heq]
    rfl
  · rename_i heq
    rw [heq]
    rfl

/-- A name leads where a segment of a path leads, if there are no arrays to take apart. -/
theorem member_eq_follow {name : String} (hname : IsIdentifier name.toList) {v : Value}
    (h : ∀ items, v = .array items → ∀ item ∈ items, ∀ inner,
      item.member? name ≠ some (.array inner)) :
    member name.toList v = (Segment.field name).follow true v := by
  have hbare : bareName name.toList = name := by
    rw [bareName_identifier hname, String.ofList_toList]
  cases v with
  | object members => rw [member, hbare, Segment.follow]
  | array items =>
      have hcollected : items.flatMap (collected name) = items.filterMap (·.member? name) := by
        rw [List.filterMap_eq_flatMap_toList]
        exact List.flatMap_congr fun item hitem => collected_eq (h items rfl item hitem)
      rw [member, hbare, Segment.follow, hcollected, if_pos rfl]
  | _ => rfl

theorem follow_identifier {name : List Char} (h : IsIdentifier name) (v : Value) :
    follow name v = .ok (member name v) := by
  have hstar : name ≠ ['*'] := by
    rintro rfl
    exact absurd (h.2.2 '*' List.mem_cons_self) (by decide)
  have hspan : name.span (fun c => c ≠ '[' && c ≠ ']') = (name, []) := by
    have hname : ∀ c ∈ name, (decide (c ≠ '[') && decide (c ≠ ']')) = true := fun c hc =>
      dottedPart_forall (p := fun c => (decide (c ≠ '[') && decide (c ≠ ']')) = true)
        (by decide) (h.dottedPart c hc)
    have := span_append_of_stops hname stops_nil
    rwa [List.append_nil] at this
  simp only [follow, if_neg hstar, constraint?, hspan]

theorem isRoot_identifier {name : List Char} (h : IsIdentifier name) : isRoot name = false := by
  obtain ⟨c, s, rfl, hc⟩ := h.exists_cons
  have hsign : c ≠ '$' := by
    rintro rfl
    cases hc
  simp [isRoot, hsign]

theorem followAll_flat (path : String) {names : List String}
    (h : ∀ name ∈ names, IsIdentifier name.toList) {v : Value} (hflat : Path.Flat names v) :
    followAll path (names.map String.toList) v =
      .ok ((Path.fields (names.map String.toList)).follow true v) := by
  induction names generalizing v with
  | nil => rfl
  | cons name names ih =>
      have hname := h name List.mem_cons_self
      have hne : name.toList.isEmpty = false := List.isEmpty_eq_false_iff.mpr hname.2.1
      simp only [List.map_cons, followAll, hne, Bool.false_eq_true, ↓reduceIte,
        follow_identifier hname, member_eq_follow hname hflat.1, Result.bind_ok, Path.fields,
        Path.follow, String.ofList_toList]
      cases hfound : (Segment.field name).follow true v with
      | none => rfl
      | some w =>
          exact ih (fun other hother => h other (List.mem_cons_of_mem _ hother)) (hflat.2 w hfound)

theorem cutOutside_dotted {names : List (List Char)} (hne : names ≠ [])
    (h : ∀ name ∈ names, IsIdentifier name) :
    Text.cutOutside ['.'] (dotted names) = .ok names := by
  have hname (name : List Char) (h : IsIdentifier name) :
      Text.cutOutside ['.'] name = .ok [name] := by
    refine Text.Passes.cutOutside_eq (Text.passes_of_forall fun c hc => ?_)
    exact dottedPart_forall
      (p := fun c => isNamePart c = true → Text.isPlain c = true ∧ (false = true ∨ c ≠ '.'))
      (by decide) (h.dottedPart c hc) (h.2.2 c hc)
  induction names with
  | nil => exact absurd rfl hne
  | cons name names ih =>
      have hfirst := hname name (h name List.mem_cons_self)
      cases names with
      | nil => rwa [dotted, List.intercalate_singleton]
      | cons name' names =>
          have hrest := ih (List.cons_ne_nil _ _) fun n hn => h n (List.mem_cons_of_mem name hn)
          rw [dotted, List.intercalate_cons_cons, List.append_assoc, List.singleton_append]
          exact Text.cutOutside_append (by decide) hfirst hrest

/-- **A navigation along names** leads where their path leads, if there are no arrays to take
apart. -/
theorem resolve_path {names : List String} (hne : names ≠ [])
    (h : ∀ name ∈ names, IsIdentifier name.toList) {v : Value} (hflat : Path.Flat names v) :
    resolve (String.ofList (dotted (names.map String.toList))) v =
      .ok ((Path.fields (names.map String.toList)).follow true v) := by
  have hne' : names.map String.toList ≠ [] := by simpa using hne
  have h' : ∀ name ∈ names.map String.toList, IsIdentifier name := by simpa using h
  have hblank : ∀ name : List Char, (∀ c ∈ name, isDottedPart c = true) → Text.trim name = name :=
    fun name hname => Text.trim_of_trimmed (Text.trimmed_of_forall fun c hc =>
      dottedPart_forall (p := fun c => Text.isBlank c = false) (by decide) (hname c hc))
  have htrim : (names.map String.toList).map Text.trim = names.map String.toList :=
    (List.map_congr_left fun name hname => hblank name (h' name hname).dottedPart).trans
      (List.map_id _)
  have hroot : withoutRoot (names.map String.toList) = names.map String.toList := by
    obtain ⟨name, names, rfl⟩ := List.exists_cons_of_ne_nil hne
    rw [List.map_cons, withoutRoot, isRoot_identifier (h name List.mem_cons_self),
      if_neg Bool.false_ne_true]
  rw [resolve, String.toList_ofList, hblank _ (dotted_forall h'), cutOutside_dotted hne' h',
    Result.bind_ok, htrim, hroot, followAll_flat _ h hflat]

end Navigation

/-! ### All three -/

/-- **Filters, expressions and navigations agree on paths of names**: in an array or an object, a
filter and an expression find the same value, and so does a navigation, with null for nothing,
wherever it has no arrays to take apart. -/
theorem paths_agree {names : List String} (hnames : names ≠ [])
    (hidentifiers : ∀ name ∈ names, IsIdentifier name.toList) {v : Value}
    (hv : (∃ items, v = .array items) ∨ ∃ members, v = .object members) {limit budget : Nat}
    (hlimit : names.length ≤ limit) (hbudget : names.length < budget) :
    let path := ".".intercalate names
    ∃ w, Filter.evaluate limit ("." ++ path) v = .ok w ∧
      Expr.evaluate limit budget ("." ++ path) v = .ok w ∧
      (Path.Flat names v → ∃ found, Navigation.resolve path v = .ok found ∧
        found.getD .null = w) := by
  intro path
  have hpath : path = String.ofList (dotted (names.map String.toList)) := by
    rw [← String.toList_inj, String.toList_intercalate]
    exact String.toList_ofList.symm
  have htext : "." ++ path = String.ofList ('.' :: dotted (names.map String.toList)) := by
    rw [← String.toList_inj, hpath]
    simp
  have hnames' : names.map String.toList ≠ [] := by simpa using hnames
  have hidentifiers' : ∀ name ∈ names.map String.toList, IsIdentifier name := by
    simpa using hidentifiers
  have hfilter := Filter.evaluate_path limit hnames' hidentifiers' hv
  have hexpr := Expr.evaluate_path hnames hidentifiers hlimit hbudget v
  rw [foldl_fieldOrNull] at hexpr
  rw [htext, hpath]
  exact ⟨_, hfilter, hexpr, fun hflat =>
    ⟨_, Navigation.resolve_path hnames hidentifiers hflat, rfl⟩⟩

/-- An array of an object, an item without the name, and a name that is missing at the end. -/
theorem paths_agree_missing :
    let v : Value := .array [.object [("a", .object [("b", .number (.int 1))])], .null,
      .object [("a", .object [])]]
    let w : Value := .array [.number (.int 1)]
    Filter.evaluate 2 ".a.b" v = .ok w ∧ Expr.evaluate 2 3 ".a.b" v = .ok w ∧
      Navigation.resolve "a.b" v = .ok (some w) := by
  intro v w
  have hidentifiers : ∀ name ∈ ["a", "b"], IsIdentifier name.toList := by
    simp only [List.mem_cons, List.not_mem_nil, or_false]
    rintro name (rfl | rfl) <;> decide
  have hflat : Path.Flat ["a", "b"] v := by
    simp [Path.Flat, v, Value.member?, Members.find?, Segment.follow]
  obtain ⟨u, hfilter, hexpr, hnavigation⟩ := paths_agree (List.cons_ne_nil "a" ["b"])
    hidentifiers (.inl ⟨_, rfl⟩ : (∃ items, v = .array items) ∨ ∃ members, v = .object members)
    (Nat.le_refl 2) (Nat.lt_succ_self 2)
  have hvalue : Filter.evaluate 2 ".a.b" v = .ok w :=
    Filter.evaluate_path 2 (show [['a'], ['b']] ≠ [] by decide) (by decide) (.inl ⟨_, rfl⟩)
  have hu : u = w := Except.ok.inj (hfilter.symm.trans hvalue)
  obtain ⟨found, hresolve, hfound⟩ := hnavigation hflat
  subst hu
  cases found with
  | none => simp [w] at hfound
  | some found => exact ⟨hfilter, hexpr, hresolve.trans (congrArg (Except.ok ∘ some) hfound)⟩

end Quarry
