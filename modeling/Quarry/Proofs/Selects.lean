import Quarry.Proofs.FieldPaths

/-!
# Selects — one text as an expression and as a filter

`select` with a condition is an expression as well as a stage of a filter.  Its text spells the same
condition for both, whatever the scalar that it compares with; a number with a sign is a minus and a
number to the reader of expressions, and comes to the same value (`Number.neg_normalize_neg`).

Both go through the items with one test each.  The tests differ in what they compare where a member
is missing: an expression has null there, a filter has nothing.  `selects_agree_iff` says when that
makes a difference.
-/

namespace Quarry

/-! ### Numbers with a sign -/

namespace Number

variable {n : Number}

theorem isNegative_neg (h : n.isNegative = true) : n.neg.isNegative = false := by
  cases n with
  | int n =>
      have hn : n < 0 := of_decide_eq_true h
      exact decide_eq_false (by omega)
  | float x =>
      cases x with
      | nan => cases h
      | _ => exact congrArg (!·) h

theorem isWritable_neg (n : Number) : n.neg.isWritable = n.isWritable := by
  cases n with
  | int n => rw [neg, isWritable, isWritable, Int.natAbs_neg]
  | float x => rfl

/-- A number with a sign is written as a minus before the number without it. -/
theorem writeNumber_of_isNegative (h : n.isNegative = true) (hfinite : n.isFinite = true) :
    Json.writeNumber n = '-' :: Json.writeNumber n.neg := by
  cases n with
  | int n =>
      have hn : n < 0 := of_decide_eq_true h
      have hneg : ¬ -n < 0 := by omega
      simp only [Json.writeNumber, neg, textWith, intText, if_pos hn, if_neg hneg, Int.natAbs_neg]
  | float x =>
      cases x with
      | finite x =>
          have hx : x.negative = true := h
          obtain ⟨negative, significand, shift, hcanonical⟩ := x
          subst hx
          rfl
      | _ => cases hfinite

/-- A double with the other sign is an integer where the double is one. -/
theorem toInt?_neg {x y : Binary64.Finite} (h : (Binary64.finite x).neg = .finite y) :
    y.toInt? = x.toInt?.map (-·) := by
  have hmagnitude : y.magnitude = x.magnitude := by
    cases h
    rfl
  have hunits : y.units = -x.units := by
    cases h
    obtain ⟨negative, significand, shift, hcanonical⟩ := x
    cases negative
    · rfl
    · exact (Int.neg_neg _).symm
  rw [Binary64.Finite.toInt?, Binary64.Finite.toInt?, hmagnitude, hunits]
  split
  · rename_i hmod
    have hdvd : (Binary64.unitsPerOne : Int) ∣ x.units :=
      Binary64.Finite.dvd_units_iff.mpr
        (Int.natCast_dvd_natCast.mpr (Nat.dvd_of_mod_eq_zero hmod))
    rw [Option.map_some, Int.neg_ediv_of_dvd hdvd]
  · rfl

/-- Changing the sign twice, with normal forms between, is the normal form. -/
theorem neg_normalize_neg (hfinite : n.isFinite = true) :
    n.neg.normalize.neg.normalize = n.normalize := by
  cases n with
  | int n => simp only [neg, normalize, Int.neg_neg]
  | float x =>
      cases x with
      | finite x =>
          obtain ⟨y, hy, hyx⟩ : ∃ y : Binary64.Finite, (Binary64.finite x).neg = .finite y ∧
              (Binary64.finite y).neg = .finite x :=
            ⟨_, rfl, by simp only [Binary64.neg, Bool.not_not]⟩
          have hfloat : (float (.finite y)).neg.normalize = (float (.finite x)).normalize := by
            rw [neg, hyx]
          have hnormal : (float (.finite y)).normalize = ofFloat (.finite y) := rfl
          rw [neg, hy, hnormal, ofFloat, toInt?_neg hy]
          cases hx : x.toInt? with
          | none => simpa only [Option.map_none] using hfloat
          | some m =>
              simp only [Option.map_some, Int.natAbs_neg]
              split
              · rename_i hsmall
                simp only [neg, normalize, ofFloat, hx, if_pos hsmall, Int.neg_neg]
              · exact hfloat
      | _ => cases hfinite

end Number

/-! ### Expressions -/

namespace Expr

/-- The words of a scalar; a minus stands before a number with a sign. -/
def scalarWords : Value → List Lexeme
  | .number n => if n.isNegative then [.sign .minus, .number n.neg] else [.number n]
  | v => constantWords v

/-- What the words of a scalar are read as. -/
def scalarExpr : Value → Expr
  | .number n =>
      if n.isNegative then .negate (.literal (.number n.neg.normalize))
      else .literal (.number n.normalize)
  | v => .literal v

variable {v : Value} {name : String} {limit budget : Nat}

theorem allSound_scalarWords (hscalar : v.IsScalar) (hfinite : v.IsFinite) :
    AllSound (scalarWords v) := by
  cases v with
  | number n =>
      have hn := Value.everyNumber_number.mp hfinite
      rw [scalarWords]
      split
      · rename_i hsign
        exact allSound_cons.mpr ⟨List.cons_ne_nil _ _, allSound_cons.mpr
          ⟨⟨Number.isFinite_neg hn, Number.isNegative_neg hsign⟩, allSound_nil⟩⟩
      · rename_i hsign
        exact allSound_cons.mpr ⟨⟨hn, Bool.eq_false_iff.mpr hsign⟩, allSound_nil⟩
  | array _ => exact hscalar.elim
  | object _ => exact hscalar.elim
  | null => exact allSound_constantWords (v := .null) trivial
  | bool b => exact allSound_constantWords (v := .bool b) trivial
  | string s => exact allSound_constantWords (v := .string s) trivial

/-- The text of a scalar spells its words, before a closing parenthesis. -/
theorem spells_scalar (hscalar : v.IsScalar) (hfinite : v.IsFinite) {ls : List Lexeme}
    {s : List Char} (h : Spells ls (')' :: s)) :
    Spells (scalarWords v ++ ls) (Json.write .compact 0 v ++ ')' :: s) := by
  cases v with
  | null => exact .cons (l := .word "null") h rfl
  | bool b =>
      cases b
      · exact .cons (l := .word "false") h rfl
      · exact .cons (l := .word "true") h rfl
  | number n =>
      have hn := Value.everyNumber_number.mp hfinite
      rw [scalarWords, Json.write]
      split
      · rename_i hsign
        rw [Number.writeNumber_of_isNegative hsign hn]
        exact .cons (l := .sign .minus) (.cons (l := .number n.neg) h rfl) rfl
      · exact .cons (l := .number n) h rfl
  | string s => exact .cons (l := .quoted s) h rfl
  | array _ => exact hscalar.elim
  | object _ => exact hscalar.elim

/-- The words of a scalar stand where an operand of a comparison does. -/
theorem scalarWords_settles {enter : Except Fault Level} (hscalar : v.IsScalar)
    (hfinite : v.IsFinite) (hwritable : v.isWritable = true) :
    Settles (.ok (.around enter)) .sum (scalarWords v) (scalarExpr v) := by
  cases v with
  | number n =>
      have hn := Value.everyNumber_number.mp hfinite
      have hsettles {enter : Except Fault Level} {n : Number} (hn : n.isFinite = true)
          (hwritable : n.isWritable = true) (hsign : n.isNegative = false) :
          Settles enter .unary [.number n] (.literal (.number n.normalize)) :=
        .loosen (.of_primary (opens_of_kind rfl rfl)
          (.number (numberValue_writeNumber hn hwritable hsign)))
      rw [scalarWords, scalarExpr]
      split
      · rename_i hsign
        have hread : Reads 10 (Level.around enter).unary _ _ :=
          (hsettles (Number.isFinite_neg hn) ((Number.isWritable_neg n).trans hwritable)
            (Number.isNegative_neg hsign)).plain
        exact (Settles.negative hread).climb .sum (by decide)
      · rename_i hsign
        exact (hsettles hn hwritable (Bool.eq_false_iff.mpr hsign)).climb .sum (by decide)
  | array _ => exact hscalar.elim
  | object _ => exact hscalar.elim
  | null => exact (literal_settles (v := .null) trivial).climb .sum (by decide)
  | bool b => exact (literal_settles (v := .bool b) trivial).climb .sum (by decide)
  | string s => exact (literal_settles (v := .string s) trivial).climb .sum (by decide)

/-- The words of a `select` with a condition. -/
def selectWords (name : String) (r : Relation) (v : Value) : List Lexeme :=
  .word "select" :: parenthesised (.dotted name :: .sign r.kind :: scalarWords v)

/-- A `select` with a condition. -/
def selectExpr (name : String) (r : Relation) (v : Value) : Expr :=
  .argument .select (.binary (.relation r) (.field .identity name) (scalarExpr v))

theorem spells_select (r : Relation) (hscalar : v.IsScalar) (hfinite : v.IsFinite) :
    Spells (selectWords name r v)
      ("select(.".toList ++ (name.toList ++ ' ' :: (r.sign ++ ' ' ::
        (Json.write .compact 0 v ++ [')'])))) := by
  have hclose : Spells [.sign .rightParen] [')'] := .cons .nil rfl
  have hrelation : Spells (.sign r.kind :: (scalarWords v ++ [.sign .rightParen]))
      (r.sign ++ ' ' :: (Json.write .compact 0 v ++ [')'])) := by
    have hsign : r.sign = (Lexeme.sign r.kind).text := by
      cases r <;> rfl
    rw [hsign]
    exact .cons (.blank (by decide) (spells_scalar hscalar hfinite hclose))
      (Lexeme.goesOn_blank _ _)
  exact .cons (l := .word "select") (.cons (l := .sign .leftParen) (.cons (l := .dotted name)
    (.blank (by decide) hrelation) (Lexeme.goesOn_blank _ _)) rfl) rfl

theorem read_select (hname : IsIdentifier name.toList) (r : Relation) (hscalar : v.IsScalar)
    (hfinite : v.IsFinite) (hwritable : v.isWritable = true) (hlimit : 2 ≤ limit) {text : String}
    (htext : Spells (selectWords name r v) text.toList) :
    read limit text = .ok (selectExpr name r v) := by
  have hrelation : relation? (Lexeme.sign r.kind).kind = some r := by
    cases r <;> rfl
  have hfield {enter : Except Fault Level} :
      Settles enter .path [.dotted name] (.field .identity name) :=
    .of_primary (opens_of_kind rfl rfl) (.dotted name)
  have hcondition {enter : Except Fault Level} : Settles (.ok (.around enter)) .comparison _ _ :=
    .comparison hrelation (hfield.climb .sum (by decide))
      (scalarWords_settles hscalar hfinite hwritable)
  have hcall {enter : Except Fault Level} : Settles (.ok (.around (.ok (.around enter)))) .path
      (selectWords name r v) (selectExpr name r v) :=
    .of_primary (opens_name (f := .argument .select) nofun _)
      (.callArgument .select (hcondition.climb .pipe (by decide)).readsPart)
  have hsound : AllSound (selectWords name r v) := by
    have hsign : (Lexeme.sign r.kind).Sound := by
      cases r <;> exact List.cons_ne_nil _ _
    exact allSound_cons.mpr ⟨functionName_identifier (.argument .select), allSound_parenthesised
      (allSound_cons.mpr ⟨hname, allSound_cons.mpr ⟨hsign, allSound_scalarWords hscalar hfinite⟩⟩)⟩
  obtain ⟨levels, rfl⟩ := Nat.exists_eq_add_of_le' hlimit
  refine read_of_reads htext (List.cons_ne_nil _ _) hsound ?_
  rw [at_eq_around, enterAt, at_eq_around, enterAt, at_eq_around]
  exact (hcall.climb .pipe (by decide)).plain

/-- A scalar is found in at most two steps, in normal form. -/
theorem costs_scalar (limit budget : Nat) (hscalar : v.IsScalar) (hfinite : v.IsFinite) :
    ∃ n ≤ 2, ∀ levels item,
      Costs n (eval limit budget (levels + 2) (scalarExpr v) item) (.ok v.normalize) := by
  cases v with
  | number n =>
      have hn := Value.everyNumber_number.mp hfinite
      rw [scalarExpr, Value.normalize, if_pos hn]
      split
      · refine ⟨2, Nat.le_refl _, fun levels item => ?_⟩
        have hliteral : Costs 1 (eval limit budget (levels + 1)
            (.literal (.number n.neg.normalize)) item) (.ok (.number n.neg.normalize)) :=
          costs_literal
        have hcosts := costs_negate hliteral
        rwa [Number.neg_normalize_neg hn] at hcosts
      · exact ⟨1, by decide, fun _ _ => costs_literal⟩
  | array _ => exact hscalar.elim
  | object _ => exact hscalar.elim
  | _ => exact ⟨1, by decide, fun _ _ => costs_literal⟩

/-- **A `select` as an expression** keeps the items that pass, null standing for a member that is
missing. -/
theorem evaluate_select (hname : IsIdentifier name.toList) (r : Relation) (hscalar : v.IsScalar)
    (hfinite : v.IsFinite) (hwritable : v.isWritable = true) {items : List Value}
    (hlimit : 3 ≤ limit) (hbudget : 5 * items.length < budget) {text : String}
    (htext : Spells (selectWords name r v) text.toList) :
    evaluate limit budget text (.array items) = (do
      return .array (← Items.keep
        (fun item => r.compare (some (item.fieldOrNull name)) (some v)) items)) := by
  have hread := read_select hname r hscalar hfinite hwritable (Nat.le_of_succ_le hlimit) htext
  obtain ⟨levels, rfl⟩ := Nat.exists_eq_add_of_le' hlimit
  obtain ⟨n, hn, hcosts⟩ := costs_scalar (levels + 3) budget hscalar hfinite
  have hitem : ∀ item ∈ items, Costs (2 + n + 1) (eval (levels + 3) budget (levels + 3)
      (.binary (.relation r) (.field .identity name) (scalarExpr v)) item)
      (do return .bool (← r.compare (some (item.fieldOrNull name)) (some v))) := by
    intro item _
    rw [← Relation.compare_normalize r _ hscalar hfinite]
    exact costs_relation r (costs_field name costs_identity) (hcosts levels item)
  have hmul : items.length * (2 + n + 1) ≤ items.length * 5 := Nat.mul_le_mul_left _ (by omega)
  rw [evaluate, hread, Result.bind_ok]
  exact value_of_costs (costs_select hitem) (by omega)

end Expr

/-! ### Both -/

/-- With one name the path leads to a member. -/
theorem Selector.found_member (q : Selector) {name : String} (hname : q.names = [name.toList])
    (members : List (String × Value)) :
    q.found (.object members) = (Value.object members).member? name := by
  rw [found, hname]
  simp only [Path.fields, List.map_cons, List.map_nil, Path.follow, Segment.follow,
    String.ofList_toList, Value.member?]
  cases Members.find? members name <;> rfl

/-- What is kept is the same whether null or nothing stands for a member that is missing, if a
comparison fails for both, or if null passes like nothing wherever it is compared. -/
theorem Relation.keep_orNull_eq_iff (r : Relation) {literal : Value}
    (hliteral : literal.Representable) (name : String) (items : List Value) :
    let compared (a : Operand) := r.compare a (some literal)
    Items.keep (fun item => compared (some (Operand.orNull (item.member? name)))) items =
        Items.keep (fun item => compared (item.member? name)) items ↔
      (∃ item ∈ items, ∃ fault, compared (item.member? name) = .error fault) ∨
        ∀ item ∈ items, (item.member? name).isSome = true ∨
          compared (some .null) = .ok (decide (r = .ne)) := by
  intro compared
  have hnull : ∃ answer, compared (some .null) = .ok answer :=
    r.compare_isOk (by simp) (by simpa using hliteral)
  have hnothing : compared none = .ok (decide (r = .ne)) := r.compare_nothing hliteral
  rw [Items.keep_eq_iff]
  · refine or_congr_right (forall₂_congr fun item _ => ?_)
    cases item.member? name with
    | some w => simp [Operand.orNull]
    | none => simp [Operand.orNull, hnothing]
  · -- neither null nor nothing makes a comparison fail
    intro item _ fault
    cases item.member? name with
    | some w => rfl
    | none =>
        obtain ⟨answer, hanswer⟩ := hnull
        rw [Operand.orNull, Option.getD_none, hanswer, hnothing]
        simp

/-- **A `select` as an expression and as a filter.**  On an array of objects both keep the items
that pass, in order.  An expression takes a member that is missing for null, and a filter compares
nothing.  So they agree exactly if a comparison fails, or if every item has the member or null
passes like nothing, which passes for `!=` only. -/
theorem selects_agree_iff {name : String} (hname : IsIdentifier name.toList) (r : Relation)
    {literal : Value} (hscalar : literal.IsScalar) (hfinite : literal.IsFinite)
    (hliteral : literal.Representable) {items : List Value}
    (hobjects : ∀ item ∈ items, ∃ members, item = .object members) {limit budget : Nat}
    (hlimit : 3 ≤ limit) (hbudget : 5 * items.length < budget) :
    ∃ text, Json.render (.ofIndent 0) literal = .ok text ∧
      let query := "select(." ++ name ++ " " ++ r.symbol ++ " " ++ text ++ ")"
      let asExpr := Expr.evaluate limit budget query (.array items)
      let asFilter := Filter.evaluate limit query (.array items)
      let compared (a : Operand) := r.compare a (some literal)
      asExpr = (do return .array (← Items.keep
        (fun item => compared (some (Operand.orNull (item.member? name)))) items)) ∧
      asFilter = (do return .array (← Items.keep
        (fun item => compared (item.member? name)) items)) ∧
      (asExpr = asFilter ↔
        (∃ item ∈ items, ∃ fault, compared (item.member? name) = .error fault) ∨
        ∀ item ∈ items, (item.member? name).isSome = true ∨
          compared (some .null) = .ok (decide (r = .ne))) := by
  let q : Selector :=
    { names := [name.toList]
      relation := r
      literal := literal
      names_ne := List.cons_ne_nil _ _
      identifiers := by simpa using hname
      scalar := hscalar
      finite := hfinite
      representable := hliteral }
  have hrender : Json.render (.ofIndent 0) literal = .ok (String.ofList q.literalText) :=
    if_pos q.literal_isWritable
  refine ⟨_, hrender, ?_⟩
  intro query asExpr asFilter compared
  have hexpr : asExpr = (do return .array (← Items.keep
      (fun item => compared (some (Operand.orNull (item.member? name)))) items)) := by
    have hspells : Expr.Spells (Expr.selectWords name r literal) query.toList := by
      have htext : Expr.Spells (Expr.selectWords name r literal) _ :=
        Expr.spells_select r hscalar hfinite
      simpa [query, Relation.symbol_toList, Selector.literalText, q] using htext
    have hevaluate := Expr.evaluate_select hname r hscalar hfinite q.literal_isWritable hlimit
      hbudget hspells
    rw [Items.keep_congr fun item hitem => ?_] at hevaluate
    · exact hevaluate
    · obtain ⟨members, rfl⟩ := hobjects item hitem
      rfl
  have hfilter : asFilter = (do return .array (← Items.keep
      (fun item => compared (item.member? name)) items)) := by
    have hquery : query = String.ofList (Filter.selectText q) := by
      rw [← String.toList_inj]
      simp [query, Filter.selectText, Selector.text, Selector.path, dotted,
        Relation.symbol_toList, q]
    have hevaluate := Filter.evaluate_select q limit items
    rw [← hquery, Items.keep_congr fun item hitem => ?_] at hevaluate
    · exact hevaluate
    · obtain ⟨members, rfl⟩ := hobjects item hitem
      rw [q.test_eq, q.found_member rfl]
  -- both keep items by a comparison, and the comparisons differ only where the member is missing
  refine ⟨hexpr, hfilter, ?_⟩
  rw [hexpr, hfilter, Result.map_inj Value.array.inj]
  exact r.keep_orNull_eq_iff hliteral name items

/-- A negative literal, the member and no member. -/
theorem selects_agree_iff_negative :
    let items : List Value := [.object [("f", .number (.int (-2)))], .object []]
    Expr.evaluate 3 11 "select(.f != -2)" (.array items) = .ok (.array [.object []]) ∧
      Filter.evaluate 3 "select(.f != -2)" (.array items) = .ok (.array [.object []]) := by
  intro items
  have hname : IsIdentifier "f".toList := by decide
  have hscalar : (Value.number (.int (-2))).IsScalar := trivial
  have hliteral : (Value.number (.int (-2))).Representable :=
    Value.everyNumber_number.mpr (Number.toFloat_isOk (show (-2 : Int).natAbs < 2 ^ 2 by decide)
      (by decide))
  have hobjects : ∀ item ∈ items, ∃ members, item = .object members := by
    simp [items]
  obtain ⟨text, htext, hexpr, hfilter, -⟩ := selects_agree_iff hname .ne hscalar
    (Value.everyNumber_number.mpr rfl) hliteral hobjects (Nat.le_refl 3) (show 5 * 2 < 11 by decide)
  have hrender : Json.render (.ofIndent 0) (.number (.int (-2))) = .ok "-2" := by
    rw [Json.render, if_pos (Value.isWritable_of_representable hliteral)]
    rfl
  obtain rfl : text = "-2" := Except.ok.inj (htext.symm.trans hrender)
  exact ⟨hexpr, hfilter⟩

/-- With null a missing member passes in an expression only, and an infinite literal is written as a
word, which no expression is. -/
theorem selects_differ_missing :
    (Json.render (.ofIndent 0) .null = .ok "null" ∧
      Expr.evaluate 512 10000 "select(.f == null)" (.array [.object []]) =
        .ok (.array [.object []]) ∧
      Filter.evaluate 512 "select(.f == null)" (.array [.object []]) = .ok (.array [])) ∧
    Json.render (.ofIndent 0) (.number (.float (.infinite false))) = .ok "Infinity" ∧
      (Expr.evaluate 512 10000 "select(.f == Infinity)" (.array [])).isOk = false ∧
      (Filter.evaluate 512 "select(.f == Infinity)" (.array [])).isOk = true := by
  have hname : IsIdentifier "f".toList := by decide
  have hscalar : Value.null.IsScalar := trivial
  let q : Selector := ⟨[['f']], .eq, .null, List.cons_ne_nil _ _, by simpa using hname, trivial,
    Value.everyNumber_null, Value.everyNumber_null⟩
  have hspells : Expr.Spells (Expr.selectWords "f" .eq .null) "select(.f == null)".toList :=
    Expr.spells_select .eq hscalar Value.everyNumber_null
  have hexpr : Expr.evaluate 512 10000 "select(.f == null)" (.array [.object []]) = _ :=
    Expr.evaluate_select hname .eq hscalar Value.everyNumber_null rfl (by decide) (by decide)
      hspells
  have htext : "select(.f == null)" = String.ofList (Filter.selectText q) := rfl
  have htest : q.test (.object []) = .ok false := by
    have hnames : q.names = ["f".toList] := rfl
    rw [q.test_eq, q.found_member hnames]
    rfl
  have hfilter : Filter.evaluate 512 "select(.f == null)" (.array [.object []]) =
      .ok (.array []) := by
    rw [htext, Filter.evaluate_select q 512 [.object []], Items.keep, htest]
    rfl
  exact ⟨⟨rfl, hexpr, hfilter⟩, rfl, by decide +kernel, by decide +kernel⟩

end Quarry
