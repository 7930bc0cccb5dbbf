import Quarry.Proofs.RoundTrip
import Quarry.Proofs.Steps

/-!
# Answers — what a request leads to

Two questions about the texts and faults that leave the engine.

**Texts** (`answers_read_back`).  A value that was written is read back exactly if it has no
infinite number.  Documents have none and nothing makes one, with two exceptions: a sum in a
navigation, and a numeral with a large exponent in an expression.  Their texts are no JSON
(`runWorkflow_infinite`).

**Faults** (`answers_or_escapes`).  A fault that the engine counts as its own becomes part of the
response.  What is left are numbers out of range and, in criteria, options and patterns beyond the
matcher; these leave a request without a response (`runQuery_unknownOption`).
-/

namespace Quarry

theorem Fault.IsLimit.isOwn {fault : Fault} (h : fault.IsLimit) : fault.isOwn = true := by
  cases fault with
  | tooDeep limit => rfl
  | query cause => rfl
  | _ => cases h

theorem Fault.OfDocument.isOwn {fault : Fault} (h : fault.OfDocument) : fault.isOwn = true := by
  cases fault with
  | document cause => rfl
  | _ => cases h

namespace Gateway

variable {settings : Settings}

/-! ### Texts -/

/-- The text is read as the value, if the limit allows its nesting. -/
def ReadsAs (text : String) (v : Value) : Prop :=
  ∀ limit, v.depth ≤ limit → Json.parse limit text = .ok v

theorem parse_write {v : Value} (hv : v.WellFormed) (hfinite : v.IsFinite)
    (hwritable : v.isWritable = true) (layout : Json.Layout) :
    ReadsAs (String.ofList (Json.write layout 0 v)) v := by
  intro limit hlimit
  have hread := Json.read_write (Json.readsBack hv hfinite hwritable false layout)
  rw [Json.parse, String.toList_ofList, hread]
  change v.accept limit = _
  rw [Value.accept, if_pos hlimit, Value.normalize_of_wellFormed hv hfinite]

/-- A written value is read back exactly if it has no infinite number. -/
theorem readsAs_iff {v : Value} {text : String} (hv : v.WellFormed)
    (h : render settings v = .ok text) : ReadsAs text v ↔ v.IsFinite := by
  constructor
  · intro hread
    exact (Json.parse_endsAlike Value.invariant_isFinite (Nat.le_refl _) text).gives v
      (hread v.depth (Nat.le_refl _))
  · intro hfinite
    rw [render, Json.render] at h
    split at h
    · rename_i hwritable
      cases h
      exact parse_write hv hfinite hwritable _
    · cases h

/-- The texts of a response are those of the outputs of the run. -/
theorem describeRun_texts {r : Workflow.Run} {response : WorkflowResponse}
    (h : describeRun settings r = .ok response) :
    List.Forall₂ (fun e s => render settings e.output = .ok s.output) r.trace response.steps ∧
      render settings r.final = .ok response.final := by
  rw [describeRun, Result.bind_eq_ok] at h
  obtain ⟨steps, hm, h⟩ := h
  rw [Result.bind_eq_ok] at h
  obtain ⟨text, htext, h⟩ := h
  cases h
  refine ⟨(Result.forall₂_of_mapM hm).imp fun e s hs => ?_, htext⟩
  obtain ⟨output, houtput, hs⟩ := Result.bind_eq_ok.mp hs
  cases hs
  exact houtput

/-- A request for a run that is answered without an error has a document. -/
theorem runWorkflow_document {r : WorkflowRequest} {response : WorkflowResponse}
    (h : (runWorkflow settings r).response = .ok response) (herror : response.error = none) :
    ∃ v, parse settings r.document = .ok v ∧
      describeRun settings (Workflow.run settings r.steps v) = .ok response := by
  rw [runWorkflow] at h
  split at h
  · rename_i v hv
    exact ⟨v, hv, h⟩
  · split at h <;> cases h
    cases herror

section

variable [Pattern.Names] [Shape.Report] [Navigation.Grammar]

/-- What a query finds is well formed, and finite unless it is a sum. -/
theorem evaluate_ends (settings : Settings) (dialect : Dialect) (query : String) {v : Value}
    (hv : v.WellFormed) (hfinite : v.IsFinite) :
    Ends Any (fun w => w.WellFormed ∧ (w.IsFinite ∨
      dialect = .jsonata ∧ Navigation.CallsSum query ∧ Navigation.IsInfinity w))
      (evaluate settings dialect query v) := by
  have hp := Value.invariant_wellFormed.and Value.invariant_isFinite
  have hboth {x : Except Fault Value} (h : Ends Any (fun w => w.WellFormed ∧ w.IsFinite) x) :
      Ends Any (fun w => w.WellFormed ∧ (w.IsFinite ∨
        dialect = .jsonata ∧ Navigation.CallsSum query ∧ Navigation.IsInfinity w)) x :=
    h.mono (fun _ => id) fun w hw => ⟨hw.1, .inl hw.2⟩
  cases dialect with
  | jq => exact hboth (Filter.evaluate_endsAlike hp (Nat.le_refl _) query ⟨hv, hfinite⟩).anyFault
  | mongodb =>
      exact hboth (Criteria.evaluate_endsAlike hp (Nat.le_refl _) query ⟨hv, hfinite⟩).anyFault
  | jsonata =>
      refine (Navigation.evaluate_ends hp query ⟨hv, hfinite⟩).anyFault.map fun a ha => ?_
      cases a with
      | none => exact ⟨trivial, .inl Value.everyNumber_null⟩
      | some w =>
          rcases ha w rfl with ⟨hw, hwfinite⟩ | ⟨hsum, hinfinite⟩
          · exact ⟨hw, .inl hwfinite⟩
          · refine ⟨?_, .inr ⟨rfl, hsum, hinfinite⟩⟩
            obtain ⟨negative, rfl⟩ := hinfinite
            exact Number.isNormal_ofFloat (by rintro ⟨⟩)

/-- A query that is answered without an error has a result. -/
theorem runQuery_result {r : QueryRequest} {response : QueryResponse}
    (h : (runQuery settings r).response = .ok response) (herror : response.error = none) :
    answerQuery settings r = .ok response.result := by
  rw [runQuery] at h
  cases hanswer : answerQuery settings r with
  | ok text =>
      rw [hanswer] at h
      cases h
      rfl
  | error fault =>
      rw [hanswer] at h
      dsimp only at h
      split at h <;> cases h
      cases herror

/-- **Texts read back.**  The result of a query that was answered without an error, and every output
of a run that was, is read as the value that was written, exactly if that value has no infinite
number.  A result has none unless it is a sum in a navigation, and an output has none if the
literals of the steps have none. -/
theorem answers_read_back (settings : Settings) :
    (∀ (r : QueryRequest) (response : QueryResponse),
      (runQuery settings r).response = .ok response → response.error = none →
      ∃ v w, parse settings r.document = .ok v ∧
        evaluate settings r.dialect r.query v = .ok w ∧
        render settings w = .ok response.result ∧
        (ReadsAs response.result w ↔ w.IsFinite) ∧
        (w.IsFinite ∨
          r.dialect = .jsonata ∧ Navigation.CallsSum r.query ∧ Navigation.IsInfinity w)) ∧
    (∀ (r : WorkflowRequest) (response : WorkflowResponse),
      (runWorkflow settings r).response = .ok response → response.error = none →
      ∃ v, parse settings r.document = .ok v ∧
        let run := Workflow.run settings r.steps v
        List.Forall₂ (fun e s => render settings e.output = .ok s.output ∧
          (ReadsAs s.output e.output ↔ e.output.IsFinite)) run.trace response.steps ∧
        render settings run.final = .ok response.final ∧
        (ReadsAs response.final run.final ↔ run.final.IsFinite) ∧
        ((∀ step ∈ r.steps, step.enabled = true → step.EveryLiteral settings Value.IsFinite) →
          (∀ e ∈ run.trace, e.output.IsFinite) ∧ run.final.IsFinite)) := by
  -- what is read is well formed and finite, and only the second can be lost on the way
  have hp := Value.invariant_wellFormed.and Value.invariant_isFinite
  constructor
  · intro r response h herror
    obtain ⟨v, hv, hw⟩ := Result.bind_eq_ok.mp (runQuery_result h herror)
    obtain ⟨w, hw, hrender⟩ := Result.bind_eq_ok.mp hw
    obtain ⟨hvwell, hvfinite⟩ := (Json.parse_endsAlike hp (Nat.le_refl _) _).gives v hv
    obtain ⟨hwell, hfinite⟩ := (evaluate_ends settings _ _ hvwell hvfinite).gives w hw
    exact ⟨v, w, hv, hw, hrender, readsAs_iff hwell hrender, hfinite⟩
  · intro r response h herror
    obtain ⟨v, hv, hdescribe⟩ := runWorkflow_document h herror
    obtain ⟨htexts, hfinal⟩ := describeRun_texts hdescribe
    obtain ⟨hvwell, hvfinite⟩ := (Json.parse_endsAlike hp (Nat.le_refl _) _).gives v hv
    obtain ⟨houtputs, hfinalWell⟩ := Workflow.run_invariant Value.invariant_wellFormed
      (fun step (_ : step ∈ r.steps) _ => step.everyLiteral_wellFormed settings) hvwell
    refine ⟨v, hv, ?_, hfinal, readsAs_iff hfinalWell hfinal, fun hliterals => ?_⟩
    · exact ((List.forall₂_and_left _ _).mpr ⟨houtputs, htexts⟩).imp fun e s hs =>
        ⟨hs.2, readsAs_iff hs.1 hs.2⟩
    · exact Workflow.run_invariant Value.invariant_isFinite hliterals hvfinite

end

/-- A document through an identity filter, and through a step that leaves nothing out. -/
theorem answers_read_back_null :
    let _ : Pattern.Names := default
    let _ : Shape.Report := default
    let _ : Navigation.Grammar := default
    (∃ response w, (runQuery {} ⟨.jq, "[null]", "."⟩).response = .ok response ∧
      response.error = none ∧ render {} w = .ok response.result ∧
      (ReadsAs response.result w ↔ w.IsFinite)) ∧
    ∃ response, (runWorkflow {} ⟨"null", [{ id := "a", kind := .omit }]⟩).response = .ok response ∧
      response.error = none ∧ response.steps.length = 1 ∧
      ∀ s ∈ response.steps, ReadsAs s.output .null := by
  intro _ _ _
  constructor
  · obtain ⟨response, hresponse⟩ : ∃ response,
        (runQuery {} ⟨.jq, "[null]", "."⟩).response = .ok response := ⟨_, rfl⟩
    have herror : response.error = none := by
      cases hresponse
      rfl
    obtain ⟨-, w, -, -, hrender, hreads, -⟩ := (answers_read_back {}).1 _ response hresponse herror
    exact ⟨response, w, hresponse, herror, hrender, hreads⟩
  · obtain ⟨response, hresponse, herror⟩ : ∃ response,
        (runWorkflow {} ⟨"null", [{ id := "a", kind := .omit }]⟩).response = .ok response ∧
          response.error = none := ⟨_, rfl, rfl⟩
    obtain ⟨v, hv, htexts, -⟩ := (answers_read_back {}).2 _ response hresponse herror
    cases hv.symm.trans (show parse {} "null" = .ok .null from rfl)
    have hrun : (Workflow.run {} [{ id := "a", kind := .omit }] .null).trace =
        [⟨{ id := "a", kind := .omit }, .null, none⟩] := rfl
    rw [hrun] at htexts
    obtain ⟨s, rest, ⟨-, hs⟩, hrest, heq⟩ := List.forall₂_cons_left_iff.mp htexts
    cases List.forall₂_nil_left_iff.mp hrest
    refine ⟨response, hresponse, herror, by rw [heq]; rfl, ?_⟩
    rw [heq]
    exact List.forall_mem_singleton.mpr (hs.mpr Value.everyNumber_null)

/-- A numeral with a large exponent is infinite, and its text is no JSON. -/
theorem runWorkflow_infinite :
    ∃ response,
      (runWorkflow {} ⟨"null", [{ id := "a", kind := .custom, config := "1e999" }]⟩).response =
        .ok response ∧ response.error = none ∧
      ∀ limit v, Json.parse limit response.final ≠ .ok v := by
  refine ⟨_, rfl, rfl, fun limit v h => ?_⟩
  cases h

/-! ### Faults -/

/-- The faults that leave a query without a response. -/
def Escapes : Dialect → Fault → Prop
  | .mongodb, .number _ | .mongodb, .option _ | .mongodb, .pattern _ => True
  | .mongodb, _ => False
  | _, fault => fault.OfNumber

/-- Unless it ends with a value, a computation ends with a fault of the engine's own or with one of
the class that is known. -/
theorem own_or {α : Type} {p : Fault → Prop} {q : α → Prop} {x : Except Fault α}
    (h : Ends p q x) {fault : Fault} (hx : x = .error fault) : fault.isOwn = true ∨ p fault :=
  (h.of_error hx).imp Fault.IsLimit.isOwn And.right

/-- A fault that is not the engine's own is one of those that escape. -/
theorem escapes_of_not_own {α : Type} {e : Fault → Prop} {q : α → Prop} {x : Except Fault α}
    (h : Ends (fun fault => fault.isOwn = true ∨ e fault) q x) {fault : Fault}
    (hx : x = .error fault) (hown : ¬ fault.isOwn = true) : e fault :=
  ((own_or h hx).resolve_left hown).resolve_left hown

/-- Places are found, or an index has too many digits, or the fault is the engine's own. -/
theorem answerExplore_ends (settings : Settings) (r : ExploreRequest) :
    Ends (fun fault => fault.isOwn = true ∨ ∃ digits, fault = .number (.longNumeral digits)) Any
      (answerExplore settings r) := by
  have hpath {α : Type} {q : α → Prop} {x : Except Fault α} (h : Ends Fault.OfPath q x) :
      Ends (fun fault => fault.isOwn = true ∨ ∃ digits, fault = .number (.longNumeral digits))
        q x := by
    refine h.mono (fun fault h => ?_) fun _ => id
    cases fault with
    | query cause => exact .inl rfl
    | number cause =>
        cases cause with
        | longNumeral digits => exact .inr ⟨digits, rfl⟩
        | _ => cases h
    | _ => cases h
  refine ((Json.parse_endsAlike Value.invariant_any (Nat.le_refl _) r.document).mono
    (fun _ h => .inl h.isOwn) fun _ => id).bind fun v _ => ?_
  rw [Explore.search.eq_def]
  dsimp only
  split
  · exact .ok trivial
  · split
    · exact .fault (.inl rfl)
    · exact (hpath (Path.read_ends _)).map fun _ _ => trivial
  · refine (hpath (Path.read_ends _)).bind fun path _ => ?_
    split <;> exact .ok trivial
  · exact .ok trivial

/-- A run is described, unless one of its values has an integer that is too long to be written. -/
theorem describeRun_cases (settings : Settings) (run : Workflow.Run) :
    (∃ response, describeRun settings run = .ok response ∧
      response.error = run.errorMessage?) ∨
    describeRun settings run = .error (.number .longInteger) ∧
      ∃ v, (v = run.final ∨ ∃ e ∈ run.trace, v = e.output) ∧ v.isWritable = false := by
  have hrender (v : Value) : (∃ text, render settings v = .ok text) ∨
      render settings v = .error (.number .longInteger) ∧ v.isWritable = false := by
    rw [render, Json.render]
    cases v.isWritable with
    | true => exact .inl ⟨_, rfl⟩
    | false => exact .inr ⟨rfl, rfl⟩
  rw [describeRun]
  rcases Result.mapM_cases (fun entry : Workflow.Entry => do
    return (⟨entry.step.id, ← render settings entry.output, entry.error⟩ : StepResponse))
    run.trace with ⟨steps, hsteps⟩ | ⟨e, he, fault, hfault, herror⟩
  · rw [hsteps]
    rcases hrender run.final with ⟨text, htext⟩ | ⟨hfinal, hwritable⟩
    · refine .inl ⟨⟨steps, text, run.errorMessage?⟩, ?_, rfl⟩
      rw [htext]
      rfl
    · refine .inr ⟨?_, run.final, .inl rfl, hwritable⟩
      rw [hfinal]
      rfl
  · rw [herror]
    rcases hrender e.output with ⟨text, htext⟩ | ⟨houtput, hwritable⟩
    · rw [htext] at hfault
      cases hfault
    · rw [houtput] at hfault
      cases hfault
      exact .inr ⟨rfl, e.output, .inr ⟨e, he, rfl⟩, hwritable⟩

section

variable [Pattern.Names] [Shape.Report] [Navigation.Grammar]

/-- A query is answered with a text, or fails with a fault of the engine's own or one that
escapes. -/
theorem answerQuery_ends (settings : Settings) (r : QueryRequest) :
    Ends (fun fault => fault.isOwn = true ∨ Escapes r.dialect fault) Any
      (answerQuery settings r) := by
  obtain ⟨dialect, document, query⟩ := r
  have hp := Value.invariant_any
  have hnumber : ∀ fault : Fault, fault.OfNumber →
      fault.isOwn = true ∨ Escapes dialect fault := by
    intro fault h
    cases fault with
    | number cause => cases dialect <;> exact .inr trivial
    | _ => cases h
  have hquery : ∀ fault : Fault, fault.OfQuery →
      fault.isOwn = true ∨ Escapes dialect fault := by
    intro fault h
    cases fault with
    | query cause => exact .inl rfl
    | number cause => exact hnumber _ trivial
    | _ => cases h
  -- the three stages in turn: reading the document, the query, and writing its value
  refine ((Json.parse_endsAlike hp (Nat.le_refl _) document).mono
    (fun _ h => .inl h.isOwn) fun _ => id).bind fun v _ => ?_
  refine EndsAlike.bind (q := Any) ?_ fun w _ => ?_
  · cases dialect with
    | jq =>
        exact (Filter.evaluate_endsAlike hp (Nat.le_refl _) query trivial).mono hquery
          fun _ _ => trivial
    | jsonata =>
        exact ((Navigation.evaluate_ends hp query trivial).mono hquery fun _ => id).map
          fun _ _ => trivial
    | mongodb =>
        refine (Criteria.evaluate_endsAlike hp (Nat.le_refl _) query trivial).mono
          (fun fault h => ?_) fun _ _ => trivial
        cases fault with
        | query cause => exact .inl rfl
        | number cause => exact .inr trivial
        | option cause => exact .inr trivial
        | pattern cause => exact .inr trivial
        | _ => cases h
  · exact (Json.render_ends _ w).mono hnumber fun _ _ => trivial

/-- **Every fault is told, or known to escape.**  A request has a response with the answer or with
the message of the fault.  The exceptions are: for a query, a number out of range, and for criteria
also an option or a pattern; for a run, a value with an integer that is too long to be written; and
for an exploration, an index with too many digits. -/
theorem answers_or_escapes (settings : Settings) :
    (∀ r : QueryRequest,
      (∃ response, (runQuery settings r).response = .ok response ∧
        match answerQuery settings r with
        | .ok text => response = ⟨text, none⟩
        | .error fault => response = ⟨"", some fault.message⟩) ∨
      ∃ fault, (runQuery settings r).response = .error fault ∧ Escapes r.dialect fault) ∧
    (∀ r : WorkflowRequest,
      (∃ response, (runWorkflow settings r).response = .ok response ∧
        match parse settings r.document with
        | .ok v => response.error = (Workflow.run settings r.steps v).errorMessage?
        | .error fault => response = ⟨[], "", some fault.message⟩) ∨
      (runWorkflow settings r).response = .error (.number .longInteger) ∧
        ∃ v w, parse settings r.document = .ok v ∧ w.isWritable = false ∧
          let run := Workflow.run settings r.steps v
          w = run.final ∨ ∃ e ∈ run.trace, w = e.output) ∧
    ∀ r : ExploreRequest,
      (∃ response, (runExplore settings r).response = .ok response ∧
        match answerExplore settings r with
        | .ok found => response = ⟨found, none⟩
        | .error fault => response = ⟨[], some fault.message⟩) ∨
      ∃ digits, (runExplore settings r).response = .error (.number (.longNumeral digits)) := by
  refine ⟨fun r => ?_, fun r => ?_, fun r => ?_⟩
  · rw [runQuery]
    cases hanswer : answerQuery settings r with
    | ok text => exact .inl ⟨_, rfl, rfl⟩
    | error fault =>
        dsimp only
        by_cases hown : fault.isOwn = true
        · rw [if_pos hown]
          exact .inl ⟨_, rfl, rfl⟩
        · rw [if_neg hown]
          exact .inr ⟨fault, rfl, escapes_of_not_own (answerQuery_ends settings r) hanswer hown⟩
  · rw [runWorkflow]
    cases hparse : parse settings r.document with
    | ok v =>
        rcases describeRun_cases settings (Workflow.run settings r.steps v) with
          ⟨response, hresponse, herror⟩ | ⟨hescape, w, hw, hwritable⟩
        · exact .inl ⟨response, hresponse, herror⟩
        · exact .inr ⟨hescape, v, w, rfl, hwritable, hw⟩
    | error fault =>
        -- a document that cannot be read is always told
        have hown : fault.isOwn = true := by
          rcases own_or (Json.parse_endsAlike Value.invariant_any (Nat.le_refl _) _) hparse with
            hown | hdocument
          · exact hown
          · exact Fault.OfDocument.isOwn hdocument
        dsimp only
        rw [if_pos hown]
        exact .inl ⟨_, rfl, rfl⟩
  · rw [runExplore]
    cases hanswer : answerExplore settings r with
    | ok found => exact .inl ⟨_, rfl, rfl⟩
    | error fault =>
        dsimp only
        by_cases hown : fault.isOwn = true
        · rw [if_pos hown]
          exact .inl ⟨_, rfl, rfl⟩
        · rw [if_neg hown]
          obtain ⟨digits, rfl⟩ :=
            escapes_of_not_own (answerExplore_ends settings r) hanswer hown
          exact .inr ⟨digits, rfl⟩

end

/-- A pattern that stands where a value is compared, with an option that is therefore not checked:
there is no response. -/
theorem runQuery_unknownOption :
    let _ : Pattern.Names := default
    let _ : Shape.Report := default
    let _ : Navigation.Grammar := default
    let query := "\x7b\"a\": \x7b\"$eq\": \x7b\"$regex\": \"x\", \"$options\": \"z\"\x7d\x7d\x7d"
    ¬ ∃ response, (runQuery {} ⟨.mongodb, "\x7b\x7d", query⟩).response = .ok response := by
  rintro _ _ _ query ⟨response, h⟩
  have hnone : (runQuery {} ⟨.mongodb, "\x7b\x7d", query⟩).response.toOption.isNone = true := by
    decide +kernel
  rw [h] at hnone
  cases hnone

end Gateway

end Quarry
