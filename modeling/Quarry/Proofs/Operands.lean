import Quarry.Proofs.Conjunctions
import Quarry.Proofs.Refusals

/-!
# Operands — what stands behind an operator is compared with

Behind the operator of an equality any JSON text may stand, as it is or with blanks around it
(`document_equalityText`).  The schema does not look into it, and what is built asks whether the
field is loosely equal to the value of that text, in normal form, whatever names there are inside
it.  But the patterns of a document are collected from everything in it, and so from what is only
compared with: an object inside it that looks like a pattern is read as one.  So the text is read
exactly if every such object can be read (`ReadsPatterns`), and matches by equality then
(`read_equalityText`).
-/

namespace Quarry.Criteria

/-! ### The text of an equality -/

/-- The document that asks for a field to be loosely equal to what `literal` writes. -/
def equalityText (name : List Char) (literal : String) : String :=
  "\x7b\"" ++ String.ofList name ++ "\": \x7b\"$eq\": " ++ literal ++ "\x7d\x7d"

variable {name : List Char} {literal : String} {raw : Value} {limit : Nat}

/-- The same condition with null for its literal, which says what field and relation there are. -/
def nullEquality (hname : IsIdentifier name) : Selector where
  names := [name]
  relation := .eq
  literal := .null
  names_ne := List.cons_ne_nil _ _
  identifiers := List.forall_mem_singleton.mpr hname
  scalar := trivial
  finite := nofun
  representable := nofun

theorem path_nullEquality (hname : IsIdentifier name) : (nullEquality hname).path = name :=
  List.intercalate_singleton

/-- The text, up to the literal. -/
theorem toList_equalityText (hname : IsIdentifier name) (literal : String) :
    (equalityText name literal).toList =
      '\x7b' :: (Text.quoted (String.ofList name).toList ++ ((Json.Layout.lines 0).colon ++
        ('\x7b' :: (Text.quoted "$eq".toList ++ ((Json.Layout.lines 0).colon ++
          (literal.toList ++ ['\x7d', '\x7d'])))))) := by
  have hquoted : Text.quoted name = '"' :: (name ++ ['"']) := by
    have h := Text.quoted_of_forall ((nullEquality hname).path_forall (by decide))
    rwa [path_nullEquality] at h
  have hoperator : Text.quoted "$eq".toList = '"' :: ("$eq".toList ++ ['"']) := by decide
  rw [String.toList_ofList, hquoted, hoperator]
  simp only [equalityText, String.toList_append, String.toList_ofList, Json.Layout.colon,
    List.append_assoc, List.cons_append, List.nil_append]
  rfl

/-- **Any JSON text** may be compared with. -/
theorem document_equalityText (hname : IsIdentifier name)
    (hraw : Json.read true literal.toList = .ok raw) :
    document (equalityText name literal) = .ok (single (nullEquality hname) raw) := by
  have htext := toList_equalityText hname literal
  have hlong : 2 * literal.toList.length + 4 ≤ 2 * (equalityText name literal).toList.length := by
    rw [htext]
    simp only [List.length_cons, List.length_append]
    omega
  obtain ⟨fuel, hfuel⟩ := Nat.exists_eq_add_of_le' (Nat.le_of_add_left_le hlong : 2 ≤ _)
  -- from the inside out: the literal, the condition, the document
  obtain ⟨rest, hliteral, hend⟩ := Json.readValue_append ['\x7d', '\x7d']
    (.inr (.inr rfl)) hraw (by omega : _ ≤ fuel)
  have hcondition : Json.readValue true (fuel + 2) (Json.skipSpace ('\x7b' ::
      (Text.quoted "$eq".toList ++ ((Json.Layout.lines 0).colon ++
        (literal.toList ++ ['\x7d', '\x7d']))))) = .ok (.object [("$eq", raw)], ['\x7d']) :=
    Json.readValue_single (.lines 0) "$eq" hliteral hend
  have hread : Json.read true (equalityText name literal).toList =
      .ok (single (nullEquality hname) raw) := by
    rw [htext]
    refine Json.read_of_readValue (by decide) (by decide) ?_
    rw [← htext, hfuel, single, path_nullEquality, htext]
    exact Json.readValue_single (.lines 0) (String.ofList name) hcondition rfl
  have hne : (Text.trim (equalityText name literal).toList).isEmpty = false := by
    rw [List.isEmpty_eq_false_iff, htext]
    intro hnil
    have hbrace := Text.trim_eq_nil_iff.mp hnil '\x7b' List.mem_cons_self
    cases hbrace
  rw [document, hne, hread]
  rfl

/-! ### What the text asks -/

theorem find_identifier (hname : IsIdentifier name) (members : List (String × Value)) :
    Field.find members (String.ofList name) = .ok (Members.find? members (String.ofList name)) := by
  rw [Field.find, String.toList_ofList, Text.cutAll_eq_splitOn,
    List.splitOn_eq_singleton hname.dot_notMem]
  cases Members.find? members (String.ofList name) <;> rfl

/-- Patterns are read first, and then the text is read whatever they are. -/
theorem read_equalityText [Pattern.Names] [Shape.Report] (hname : IsIdentifier name)
    (hraw : Json.read true literal.toList = .ok raw) (hdepth : raw.depth + 2 ≤ limit) :
    read limit (equalityText name literal) = (do
      let _ ← patterns raw
      return .every [.field (String.ofList name) (.tests [.relation .eq raw.normalize])]) := by
  have hbuild (ps : List ReadPattern) := build_single (nullEquality hname) ps raw.normalize
  rw [path_nullEquality] at hbuild
  simp only [read, document_equalityText hname hraw, accept_single _ hdepth, misfit?_single,
    patterns_single, Result.bind_ok, hbuild]
  rfl

/-- **A literal is data**, once its patterns are read.  Reading an equality fails exactly if an
object inside the literal looks like a pattern and cannot be read as one, and with the fault of the
first of these.  Otherwise the text is read, and an object matches exactly if the member under the
name, or nothing if there is none, is loosely equal to the literal. -/
theorem equality_asks [Pattern.Names] [Shape.Report] (hname : IsIdentifier name)
    (hraw : Json.read true literal.toList = .ok raw) (hdepth : raw.depth + 2 ≤ limit) :
    (∀ fault, read limit (equalityText name literal) = .error fault ↔
      ∃ before members after, objects raw = before ++ members :: after ∧
        (∀ o ∈ before, ∃ found, ownPattern o = .ok found) ∧ ownPattern members = .error fault) ∧
    ((∀ o ∈ objects raw, ∃ found, ownPattern o = .ok found) →
      ∃ c, read limit (equalityText name literal) = .ok c ∧ ∀ members,
        c.matches? (.object members) =
          Operand.looselySame (Members.find? members (String.ofList name))
            (Option.some raw.normalize)) := by
  rw [read_equalityText hname hraw hdepth]
  constructor
  · intro fault
    rw [← patterns_eq_error_iff]
    cases patterns raw with
    | ok found => exact iff_of_false nofun nofun
    | error cause => rw [Result.bind_error, Except.error.injEq, Except.error.injEq]
  · intro hread
    obtain ⟨found, hfound⟩ := Result.mapM_isOk hread
    rw [patterns_eq, patternsOf, hfound]
    refine ⟨_, rfl, fun members => ?_⟩
    rw [matches?_single, find_identifier hname]
    rfl

/-- A literal with an operator in it, and an object that looks like a pattern. -/
theorem equality_asks_pattern :
    let _ : Pattern.Names := default
    let _ : Shape.Report := default
    let literal := " \x7b\"$gt\": [\x7b\"$regex\": \"a\", \"$options\": \"i\"\x7d]\x7d "
    ∃ raw c, Json.read true literal.toList = .ok raw ∧
      read 5 (equalityText ['f'] literal) = .ok c ∧ ∀ members, c.matches? (.object members) =
        Operand.looselySame (Members.find? members "f") (Option.some raw.normalize) := by
  intro _ _ literal
  have hname : IsIdentifier ['f'] := by
    simp [IsIdentifier, isNameStart, isNamePart, Stops]
  obtain ⟨raw, hraw⟩ : ∃ raw, Json.read true literal.toList = .ok raw :=
    Result.exists_of_isOk (by decide +kernel)
  have hchecks : ((Json.read true literal.toList).toOption.any fun raw =>
      decide (raw.depth + 2 ≤ 5) && (objects raw).all fun o => (ownPattern o).isOk) = true := by
    decide +kernel
  rw [hraw, Except.toOption, Option.any_some, Bool.and_eq_true, decide_eq_true_eq,
    List.all_eq_true] at hchecks
  obtain ⟨c, hc, hmatches⟩ := (equality_asks hname hraw hchecks.1).2
    fun o ho => Result.exists_of_isOk (hchecks.2 o ho)
  exact ⟨raw, c, hraw, hc, hmatches⟩

/-- A pattern inside a literal is read, though nothing is matched with it: a text that does not ask
for a pattern is refused for its pattern. -/
theorem equality_refused :
    let _ : Pattern.Names := default
    let _ : Shape.Report := default
    let literal := "\x7b\"$regex\": \"(\"\x7d"
    (∃ raw, Json.read true literal.toList = .ok raw ∧ raw.depth = 1) ∧
      read 100 (equalityText ['a'] literal) = .error (.query (.criteria (.badPattern "("))) := by
  intro _ _ literal
  obtain ⟨raw, hraw⟩ : ∃ raw, Json.read true literal.toList = .ok raw :=
    Result.exists_of_isOk (by decide +kernel)
  have hdepth : ((Json.read true literal.toList).toOption.any fun raw => raw.depth = 1) = true := by
    decide +kernel
  have hfault : Result.fault? (read 100 (equalityText ['a'] literal)) =
      Option.some (.query (.criteria (.badPattern "("))) := by decide +kernel
  rw [hraw, Except.toOption, Option.any_some, decide_eq_true_eq] at hdepth
  exact ⟨⟨raw, hraw, hdepth⟩, Result.eq_error_of_fault? hfault⟩

end Quarry.Criteria
