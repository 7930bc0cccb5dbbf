import Quarry.Proofs.Acceptance

/-!
# Refusals — how reading criteria fails

Reading criteria should fail only because the text is no document of criteria, because a pattern
in it is wrong, or because it is nested too deep (`IsRefusal`).  The schema does not go far enough
for that: it lets a line break stand behind the letters of options, and does not look into values
that are compared with.  The patterns of a document are read in the order of its objects
(`patterns_eq`), so the first object whose pattern cannot be read decides how reading fails.  It
fails in another way exactly if the document passes the checks and this object has options that
are not letters, or a pattern beyond the matcher (`read_escapes_iff`).
-/

namespace Quarry

theorem Result.mapM_eq_error_iff {ε α β : Type} {f : α → Except ε β} {as : List α} {e : ε} :
    as.mapM f = .error e ↔ ∃ before a after, as = before ++ a :: after ∧
      (∀ b ∈ before, ∃ c, f b = .ok c) ∧ f a = .error e := by
  induction as with
  | nil =>
      refine iff_of_false nofun ?_
      rintro ⟨before, a, after, h, -⟩
      cases before <;> cases h
  | cons a as ih =>
      rw [List.mapM_cons]
      -- an error ends the list, so the items in front of it succeeded
      constructor
      · intro h
        cases ha : f a with
        | error e' =>
            rw [ha] at h
            cases h
            exact ⟨[], a, as, rfl, List.forall_mem_nil _, ha⟩
        | ok c =>
            rw [ha, bind_ok] at h
            cases has : as.mapM f with
            | ok cs =>
                rw [has] at h
                cases h
            | error e' =>
                rw [has] at h
                cases h
                obtain ⟨before, b, after, rfl, hbefore, hb⟩ := ih.mp has
                exact ⟨a :: before, b, after, rfl, List.forall_mem_cons.mpr ⟨⟨c, ha⟩, hbefore⟩, hb⟩
      · rintro ⟨before, b, after, hsplit, hbefore, hb⟩
        cases before with
        | nil =>
            cases hsplit
            rw [hb, bind_error]
        | cons b' before =>
            obtain ⟨rfl, rfl⟩ := List.cons.inj hsplit
            obtain ⟨⟨c, hc⟩, hbefore⟩ := List.forall_mem_cons.mp hbefore
            rw [hc, bind_ok, ih.mpr ⟨before, b, after, rfl, hbefore, hb⟩, bind_error]

namespace Criteria

/-! ### Objects in order -/

mutual

/-- The objects in a document, each before those inside it. -/
def objects : Value → List (List (String × Value))
  | .array items => objectsInItems items
  | .object members => members :: objectsInMembers members
  | _ => []

/-- The objects in a list of values. -/
def objectsInItems : List Value → List (List (String × Value))
  | [] => []
  | v :: vs => objects v ++ objectsInItems vs

/-- The objects in the values of members. -/
def objectsInMembers : List (String × Value) → List (List (String × Value))
  | [] => []
  | (_, v) :: vs => objects v ++ objectsInMembers vs

end

section

variable [Pattern.Names]

/-- The patterns of a list of objects. -/
def patternsOf (objects : List (List (String × Value))) : Except Fault (List ReadPattern) := do
  return (← objects.mapM ownPattern).flatten

/-- Patterns are collected from one object after the other. -/
theorem patternsOf_append (front back : List (List (String × Value))) :
    patternsOf (front ++ back) = do return (← patternsOf front) ++ (← patternsOf back) := by
  rw [patternsOf, patternsOf, patternsOf, List.mapM_append]
  cases front.mapM ownPattern with
  | error fault => rfl
  | ok found =>
      cases back.mapM ownPattern with
      | error fault => rfl
      | ok others => exact congrArg Except.ok List.flatten_append

theorem patternsOf_cons (members : List (String × Value)) (back : List (List (String × Value))) :
    patternsOf (members :: back) = do return (← ownPattern members) ++ (← patternsOf back) := by
  rw [patternsOf, patternsOf, List.mapM_cons]
  cases ownPattern members with
  | error fault => rfl
  | ok found => cases back.mapM ownPattern <;> rfl

mutual

/-- The patterns of a document are those of its objects, one after another. -/
theorem patterns_eq : ∀ v : Value, patterns v = patternsOf (objects v)
  | .array items => by rw [patterns, objects, patternsInItems_eq]
  | .object members => by rw [patterns, objects, patternsOf_cons, patternsInMembers_eq]
  | .null | .bool _ | .number _ | .string _ => rfl

theorem patternsInItems_eq : ∀ items, patternsInItems items = patternsOf (objectsInItems items)
  | [] => rfl
  | v :: items => by
      rw [patternsInItems, objectsInItems, patternsOf_append, patterns_eq, patternsInItems_eq]

theorem patternsInMembers_eq :
    ∀ members, patternsInMembers members = patternsOf (objectsInMembers members)
  | [] => rfl
  | (_, v) :: members => by
      rw [patternsInMembers, objectsInMembers, patternsOf_append, patterns_eq,
        patternsInMembers_eq]

end

/-- So collecting fails at the first object whose pattern cannot be read. -/
theorem patterns_eq_error_iff {v : Value} {fault : Fault} :
    patterns v = .error fault ↔ ∃ before members after, objects v = before ++ members :: after ∧
      (∀ o ∈ before, ∃ found, ownPattern o = .ok found) ∧ ownPattern members = .error fault := by
  rw [patterns_eq, ← Result.mapM_eq_error_iff, patternsOf]
  cases (objects v).mapM ownPattern with
  | ok found => exact iff_of_false nofun nofun
  | error cause => rw [Result.bind_error, Except.error.injEq, Except.error.injEq]

end

/-! ### Options -/

/-- A character that stands for an option. -/
def IsOption (c : Char) : Prop :=
  c ∈ ['i', 'm', 's', 'x']

/-- A character is an option if it is one of the four letters. -/
theorem optionLetter_singleton (c : Char) :
    (IsOption c → optionLetter (.string (String.singleton c)) = .ok c) ∧
      (¬ IsOption c → optionLetter (.string (String.singleton c)) =
        .error (.option (.unknownLetter (String.singleton c)))) := by
  have hletter : optionLetter (.string (String.singleton c)) =
      if ['i', 'm', 's', 'x'].contains c then .ok c
      else .error (.option (.unknownLetter (String.singleton c))) := by
    simp [optionLetter]
  rw [hletter, IsOption]
  constructor <;> intro h <;> simp [h]

/-- Options that are a text fail at its first character that stands for none. -/
theorem optionLetters_string_eq_error_iff {s : String} {fault : Fault} :
    optionLetters (.string s) = .error fault ↔ ∃ front c back, s.toList = front ++ c :: back ∧
      (∀ d ∈ front, IsOption d) ∧ ¬ IsOption c ∧
        fault = .option (.unknownLetter (String.singleton c)) := by
  rw [optionLetters, Result.mapM_eq_error_iff]
  have hok (c : Char) : (∃ d, optionLetter (.string (String.singleton c)) = .ok d) ↔
      IsOption c := by
    constructor
    · rintro ⟨d, hd⟩
      by_contra hc
      rw [(optionLetter_singleton c).2 hc] at hd
      cases hd
    · exact fun hc => ⟨c, (optionLetter_singleton c).1 hc⟩
  have herror (c : Char) : optionLetter (.string (String.singleton c)) = .error fault ↔
      ¬ IsOption c ∧ fault = .option (.unknownLetter (String.singleton c)) := by
    by_cases hc : IsOption c
    · rw [(optionLetter_singleton c).1 hc]
      exact iff_of_false nofun fun h => h.1 hc
    · rw [(optionLetter_singleton c).2 hc, Except.error.injEq]
      exact ⟨fun h => ⟨hc, h.symm⟩, fun h => h.2.symm⟩
  simp only [hok, herror]

/-- What is wrong with options is told as a fault of options. -/
theorem optionLetter_error {entry : Value} {fault : Fault} (h : optionLetter entry = .error fault) :
    ∃ cause, fault = .option cause := by
  rw [optionLetter.eq_def] at h
  split at h
  · cases h
    exact ⟨_, rfl⟩
  · cases h
    exact ⟨_, rfl⟩
  · split at h
    · split at h
      · cases h
      · cases h
        exact ⟨_, rfl⟩
    · cases h
      exact ⟨_, rfl⟩
  · cases h
    exact ⟨_, rfl⟩

theorem optionLetters_error {options : Value} {fault : Fault}
    (h : optionLetters options = .error fault) : ∃ cause, fault = .option cause := by
  have hall {α : Type} (entry : α → Value) {as : List α}
      (h : (as.mapM fun a => optionLetter (entry a)) = .error fault) :
      ∃ cause, fault = .option cause := by
    obtain ⟨before, a, after, -, -, ha⟩ := Result.mapM_eq_error_iff.mp h
    exact optionLetter_error ha
  cases options with
  | string s => exact hall (fun c => .string (String.singleton c)) h
  | array entries => exact hall id h
  | object members => exact hall (fun m : String × Value => .string m.1) h
  | _ =>
      cases h
      exact ⟨_, rfl⟩

/-- What options leave after their letters is a line break. -/
theorem eq_lineBreak_of_areOptions {s : String} {front back : List Char} {c : Char}
    (h : Shape.areOptions s = true) (hs : s.toList = front ++ c :: back) (hc : ¬ IsOption c) :
    c = '\n' := by
  have hletters {letters : List Char} (hall : letters.all ['i', 'm', 's', 'x'].contains = true) :
      c ∉ letters := by
    intro hmem
    have hcontains := List.all_eq_true.mp hall c hmem
    exact hc (List.contains_iff_mem.mp hcontains)
  rw [Shape.areOptions, hs] at h
  by_cases hlast : (front ++ c :: back).getLast? = Option.some '\n'
  · rw [if_pos hlast] at h
    cases back with
    | nil =>
        rw [List.getLast?_concat] at hlast
        exact Option.some.inj hlast
    | cons d back =>
        refine absurd ?_ (hletters h)
        rw [List.dropLast_append_of_ne_nil (List.cons_ne_nil _ _), List.dropLast_cons_cons]
        exact List.mem_append_right _ List.mem_cons_self
  · rw [if_neg hlast] at h
    exact absurd (List.mem_append_right _ List.mem_cons_self) (hletters h)

/-! ### Ways to fail -/

/-- Reading criteria is refused in one of the ways that are meant. -/
inductive IsRefusal (limit : Nat) : Fault → Prop where
  | criteria (cause : CriteriaFault) : IsRefusal limit (.query (.criteria cause))
  | tooDeep : IsRefusal limit (.tooDeep limit)

section

variable [Pattern.Names]

/-- Reading a pattern with the text `regex` and with options fails in another way. -/
inductive Escapes (regex : String) : (options : Value) → Fault → Prop where
  /-- Of a text of options the first character that stands for none is not found. -/
  | letter {s : String} {front back : List Char} {c : Char} (hs : s.toList = front ++ c :: back)
      (hfront : ∀ d ∈ front, IsOption d) (hc : ¬ IsOption c) :
      Escapes regex (.string s) (.option (.unknownLetter (String.singleton c)))
  /-- Options that are no text cannot be gone through, or not be remembered. -/
  | other {options : Value} {cause : OptionFault} (htext : ∀ s, options ≠ .string s)
      (h : readPattern regex options = .error (.option cause)) :
      Escapes regex options (.option cause)
  /-- The options are letters, and the pattern is beyond the matcher. -/
  | pattern {options : Value} {letters : List Char} {cause : PatternFault}
      (hletters : optionLetters options = .ok letters)
      (h : Pattern.read (({} : Pattern.Mode).change letters []) regex.toList =
        .error (.excessive cause)) : Escapes regex options (.pattern cause)

variable {limit : Nat} {regex text : String} {options raw : Value} {fault : Fault}
  {members : List (String × Value)}

/-- Options that are no letters, and patterns beyond the matcher, fail in a way that is no
refusal, -/
theorem Escapes.readPattern_eq (h : Escapes regex options fault) :
    readPattern regex options = .error fault := by
  cases h with
  | letter hs hfront hc =>
      rw [readPattern, optionLetters_string_eq_error_iff.mpr ⟨_, _, _, hs, hfront, hc, rfl⟩]
      rfl
  | other _ h => exact h
  | pattern hletters h =>
      rw [readPattern, hletters, Result.bind_ok]
      dsimp only
      rw [h]
      rfl

/-- and nothing else does, -/
theorem escapes_of_readPattern (hfail : readPattern regex options = .error fault)
    (hrefusal : ¬ IsRefusal limit fault) : Escapes regex options fault := by
  have h := hfail
  rw [readPattern] at h
  cases hletters : optionLetters options with
  | error cause =>
      rw [hletters] at h
      cases h
      by_cases htext : ∃ s, options = .string s
      · obtain ⟨s, rfl⟩ := htext
        obtain ⟨front, c, back, hs, hfront, hc, rfl⟩ :=
          optionLetters_string_eq_error_iff.mp hletters
        exact .letter hs hfront hc
      · obtain ⟨cause, rfl⟩ := optionLetters_error hletters
        exact .other (fun s hs => htext ⟨s, hs⟩) hfail
  | ok letters =>
      rw [hletters, Result.bind_ok] at h
      dsimp only at h
      split at h
      · cases h
        exact absurd (.criteria _) hrefusal
      · rename_i cause hread
        cases h
        exact .pattern hletters hread
      · cases h
      · rename_i node hread hnone
        cases h
        exact .other hnone hfail

/-- since refusals are told as errors of the query. -/
theorem Escapes.not_isRefusal (h : Escapes regex options fault) : ¬ IsRefusal limit fault := by
  cases h <;> exact nofun

/-- In a list of operators only a line break at the end of the options goes wrong. -/
theorem Escapes.eq_lineBreak {cause : OptionFault} (htests : Shape.AreOperators members)
    (h : Escapes regex ((Members.find? members "$options").getD (.string "")) (.option cause)) :
    cause = .unknownLetter "\n" := by
  obtain ⟨s, hs, hletters⟩ : ∃ s, (Members.find? members "$options").getD (.string "") = .string s ∧
      Shape.areOptions s = true := by
    cases hfound : Members.find? members "$options" with
    | none => exact ⟨"", rfl, rfl⟩
    | some v =>
        have hfits := (Shape.isOperator_iff.mp (htests.each _ (Members.mem_of_find? hfound))).2
        cases v with
        | string s => exact ⟨s, rfl, hfits⟩
        | _ => cases hfits
  rw [hs] at h
  cases h with
  | letter htext hfront hc =>
      rw [eq_lineBreak_of_areOptions hletters htext hc]
      rfl
  | other htext _ => exact absurd rfl (htext s)

/-- An object's pattern fails as reading it does, with the options beside it. -/
theorem ownPattern_eq_error_iff :
    ownPattern members = .error fault ↔ ∃ regex,
      Members.find? members "$regex" = Option.some (.string regex) ∧
        readPattern regex ((Members.find? members "$options").getD (.string "")) =
          .error fault := by
  rw [ownPattern.eq_def]
  split
  · rename_i regex hregex
    cases hread : readPattern regex ((Members.find? members "$options").getD (.string "")) with
    | ok p =>
        refine iff_of_false (fun h => by cases h) ?_
        rintro ⟨other, hother, h⟩
        cases hregex.symm.trans hother
        rw [hread] at h
        cases h
    | error cause =>
        rw [Result.bind_error, Except.error.injEq]
        constructor
        · rintro rfl
          exact ⟨regex, hregex, hread⟩
        · rintro ⟨other, hother, h⟩
          cases hregex.symm.trans hother
          exact Except.error.inj (hread.symm.trans h)
  · rename_i hnone
    refine iff_of_false (fun h => by cases h) ?_
    rintro ⟨regex, hregex, -⟩
    exact hnone regex hregex

/-! ### Reading -/

/-- A text passes the checks that are made before its patterns are read. -/
structure PassesChecks (limit : Nat) (text : String) (raw : Value) : Prop where
  document_eq : document text = .ok raw
  depth_le : raw.depth ≤ limit
  shape : Shape.IsQuery raw

variable [Shape.Report]

/-- A text that fails a check is refused. -/
theorem refused_or_passesChecks (limit : Nat) (text : String) :
    (∃ fault, read limit text = .error fault ∧ IsRefusal limit fault) ∨
      ∃ raw, PassesChecks limit text raw := by
  have hdocument : (∃ cause, document text = .error (.query (.criteria cause))) ∨
      ∃ raw, document text = .ok raw := by
    rw [document]
    split
    · exact .inr ⟨_, rfl⟩
    · cases Json.read true text.toList with
      | error cause => exact .inl ⟨.notJson cause, rfl⟩
      | ok raw => exact .inr ⟨raw, rfl⟩
  rcases hdocument with ⟨cause, h⟩ | ⟨raw, h⟩
  · exact .inl ⟨_, by rw [read, h, Result.bind_error], .criteria cause⟩
  · rw [read, h, Result.bind_ok, Value.accept]
    by_cases hdepth : raw.depth ≤ limit
    · rw [if_pos hdepth, Result.bind_ok]
      cases hshape : Shape.misfit? raw with
      | some place => exact .inl ⟨_, rfl, .criteria _⟩
      | none => exact .inr ⟨raw, h, hdepth, Shape.misfit?_eq_none_iff.mp hshape⟩
    · rw [if_neg hdepth]
      exact .inl ⟨_, rfl, .tooDeep⟩

/-- A text that passes the checks fails like its patterns. -/
theorem PassesChecks.read_eq_error_iff (h : PassesChecks limit text raw) :
    read limit text = .error fault ↔ patterns raw = .error fault := by
  cases hpatterns : patterns raw with
  | ok ps =>
      obtain ⟨c, hc⟩ := exists_read_iff.mpr
        ⟨raw, ps, h.document_eq, h.depth_le, h.shape, hpatterns⟩
      rw [hc]
      exact iff_of_false nofun nofun
  | error cause =>
      rw [read, h.document_eq, Result.bind_ok, Value.accept, if_pos h.depth_le, Result.bind_ok,
        Shape.misfit?_eq_none_iff.mpr h.shape, hpatterns]
      simp only [Result.bind_error, Except.error.injEq]

/-- **Reading is refused in the ways that are meant, with one exception.**  It ends with another
fault exactly if the text passes the checks and in the first object whose pattern cannot be read
this is because of options that are not made of the four letters, or because the pattern is beyond
the matcher.  If that object is a list of operators as the schema has it, all that can be wrong
with its options is a line break at their end. -/
theorem read_escapes_iff (limit : Nat) (text : String) (fault : Fault) :
    (read limit text = .error fault ∧ ¬ IsRefusal limit fault) ↔
      ∃ raw before members after regex, PassesChecks limit text raw ∧
        objects raw = before ++ members :: after ∧
        (∀ o ∈ before, ∃ found, ownPattern o = .ok found) ∧
        Members.find? members "$regex" = Option.some (.string regex) ∧
        Escapes regex ((Members.find? members "$options").getD (.string "")) fault ∧
        (Shape.AreOperators members →
          ∀ cause, fault = .option cause → cause = .unknownLetter "\n") := by
  constructor
  · rintro ⟨h, hrefusal⟩
    rcases refused_or_passesChecks limit text with ⟨fault', h', hrefusal'⟩ | ⟨raw, hchecks⟩
    · cases h.symm.trans h'
      exact absurd hrefusal' hrefusal
    · obtain ⟨before, members, after, hobjects, hbefore, hown⟩ :=
        patterns_eq_error_iff.mp (hchecks.read_eq_error_iff.mp h)
      obtain ⟨regex, hregex, hread⟩ := ownPattern_eq_error_iff.mp hown
      have hescapes := escapes_of_readPattern hread hrefusal
      refine ⟨raw, before, members, after, regex, hchecks, hobjects, hbefore, hregex, hescapes, ?_⟩
      rintro htests cause rfl
      exact hescapes.eq_lineBreak htests
  · rintro ⟨raw, before, members, after, regex, hchecks, hobjects, hbefore, hregex, hescapes, -⟩
    have hown := ownPattern_eq_error_iff.mpr ⟨regex, hregex, hescapes.readPattern_eq⟩
    have hpatterns := patterns_eq_error_iff.mpr ⟨before, members, after, hobjects, hbefore, hown⟩
    exact ⟨hchecks.read_eq_error_iff.mpr hpatterns, hescapes.not_isRefusal⟩

end

/-- A line break behind the letters of options passes the checks and stands for no option. -/
theorem read_lineBreakOption :
    let _ : Pattern.Names := default
    let _ : Shape.Report := default
    let text := "\x7b\"a\": \x7b\"$regex\": \"x\", \"$options\": \"i\\n\"\x7d\x7d"
    ∃ fault, read 512 text = .error fault ∧ ¬ IsRefusal 512 fault := by
  intro _ _ text
  have hfault : Result.fault? (read 512 text) = Option.some (.option (.unknownLetter "\n")) := by
    decide +kernel
  exact ⟨_, Result.eq_error_of_fault? hfault, nofun⟩

end Criteria

end Quarry
