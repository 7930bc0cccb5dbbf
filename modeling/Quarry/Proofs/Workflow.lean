import Quarry.Gateway
import Quarry.Proofs.Result

/-!
# Runs — how the run of a list of steps is made up

Three equations say what the first step does to a run: a step that is switched off leaves it to
the others, a step that succeeds puts its entry in front of theirs, and a step that fails ends the
run with the value it met.  Everything else follows by induction on the steps.

**Composition** (`run_append`).  The run of two lists one after the other is the run of the first
and, unless that one halted, the run of the second on what the first one left.

**The trace** (`run_trace`).  A run goes through the enabled steps in order.  It ends after the
last of them, or at the first that fails; `Chained` says that every entry holds what its step
makes of the output before it, and that a failed step passes that output on.  The response to a
request has an error exactly when the last of its steps has one.
-/

namespace Quarry.Workflow

variable {settings : Settings} {step : Step} {steps : List Step} {v w : Value} {fault : Fault}

/-! ### The first step -/

theorem loop_disabled (h : step.enabled = false) (p : Progress) :
    loop settings (step :: steps) p = loop settings steps p := by
  simp [loop, h]

theorem loop_ok {p : Progress} (h : step.enabled = true)
    (hw : step.run settings p.current = .ok w) :
    loop settings (step :: steps) p =
      loop settings steps (((p.logged (.stepStart step.id step.kind.name)).entered
        ⟨step, w, none⟩).logged (.stepComplete step.id)) := by
  have hw' : step.run settings (p.logged (.stepStart step.id step.kind.name)).current = .ok w := hw
  simp [loop, h, hw']

theorem loop_error {p : Progress} (h : step.enabled = true)
    (hf : step.run settings p.current = .error fault) :
    loop settings (step :: steps) p =
      (((p.logged (.stepStart step.id step.kind.name)).entered
        ⟨step, p.current, some (reason fault)⟩).logged
          (.stepError step.id (reason fault))).ended .halted := by
  have hf' : step.run settings (p.logged (.stepStart step.id step.kind.name)).current =
    .error fault := hf
  simp only [loop, h, hf']
  rfl

/-- A run under way ends as the run of the steps that are left, behind the trace so far. -/
theorem loop_run (settings : Settings) (steps : List Step) (p : Progress) :
    (loop settings steps p).1 =
      ⟨(run settings steps p.current).status, p.trace ++ (run settings steps p.current).trace,
        (run settings steps p.current).final⟩ := by
  induction steps generalizing p with
  | nil => simp [run, loop, Progress.ended]
  | cons step steps ih =>
      cases he : step.enabled with
      | false =>
          rw [run, loop_disabled he, loop_disabled he]
          exact ih p
      | true =>
          cases hr : step.run settings p.current with
          | ok w =>
              rw [run, loop_ok he hr, loop_ok he (p := { current := p.current }) hr, ih, ih]
              simp [Progress.logged, Progress.entered]
          | error fault =>
              rw [run, loop_error he hr, loop_error he (p := { current := p.current }) hr]
              simp [Progress.logged, Progress.entered, Progress.ended]

@[simp] theorem run_nil : run settings [] v = ⟨.completed, [], v⟩ := rfl

theorem run_disabled (h : step.enabled = false) :
    run settings (step :: steps) v = run settings steps v := by
  rw [run, run, loop_disabled h]

theorem run_ok (h : step.enabled = true) (hw : step.run settings v = .ok w) :
    run settings (step :: steps) v =
      ⟨(run settings steps w).status, ⟨step, w, none⟩ :: (run settings steps w).trace,
        (run settings steps w).final⟩ := by
  rw [run, loop_ok h hw, loop_run]
  rfl

theorem run_error (h : step.enabled = true) (hf : step.run settings v = .error fault) :
    run settings (step :: steps) v = ⟨.halted, [⟨step, v, some (reason fault)⟩], v⟩ := by
  rw [run, loop_error h hf]
  rfl

/-- What a step can do at the front of a run: nothing, an entry of its own, or the end. -/
theorem run_cons_cases (settings : Settings) (step : Step) (v : Value) :
    (step.enabled = false ∧
      ∀ steps, run settings (step :: steps) v = run settings steps v) ∨
    (∃ w, step.enabled = true ∧ step.run settings v = .ok w ∧
      ∀ steps, run settings (step :: steps) v =
        ⟨(run settings steps w).status, ⟨step, w, none⟩ :: (run settings steps w).trace,
          (run settings steps w).final⟩) ∨
    (∃ fault, step.enabled = true ∧ step.run settings v = .error fault ∧
      ∀ steps, run settings (step :: steps) v =
        ⟨.halted, [⟨step, v, some (reason fault)⟩], v⟩) := by
  cases he : step.enabled with
  | false => exact .inl ⟨rfl, fun _ => run_disabled he⟩
  | true =>
      cases hr : step.run settings v with
      | ok w => exact .inr (.inl ⟨w, rfl, rfl, fun _ => run_ok he hr⟩)
      | error fault => exact .inr (.inr ⟨fault, rfl, rfl, fun _ => run_error he hr⟩)

/-! ### Runs one after another -/

/-- A run followed by another one on what it left; nothing follows a run that halted. -/
def Run.andThen (r : Run) (next : Value → Run) : Run :=
  match r.status with
  | .halted => r
  | .completed =>
      ⟨(next r.final).status, r.trace ++ (next r.final).trace, (next r.final).final⟩

/-- An entry in front of a run stays in front of whatever follows it. -/
theorem andThen_entry (r : Run) (e : Entry) (next : Value → Run) :
    Run.andThen ⟨r.status, e :: r.trace, r.final⟩ next =
      ⟨(r.andThen next).status, e :: (r.andThen next).trace, (r.andThen next).final⟩ := by
  cases r with
  | mk status trace final => cases status <;> rfl

theorem run_append_eq (settings : Settings) (first second : List Step) (v : Value) :
    run settings (first ++ second) v = (run settings first v).andThen (run settings second) := by
  induction first generalizing v with
  | nil => simp [Run.andThen]
  | cons step first ih =>
      -- the first step is switched off, succeeds or fails
      rcases run_cons_cases settings step v with ⟨-, h⟩ | ⟨w, -, -, h⟩ | ⟨fault, -, -, h⟩
      · rw [List.cons_append, h, h, ih]
      · rw [List.cons_append, h, h, ih, andThen_entry]
      · rw [List.cons_append, h, h]
        rfl

/-- A step that is switched off can be left out anywhere. -/
theorem run_without_disabled (h : step.enabled = false) (first second : List Step) (v : Value) :
    run settings (first ++ step :: second) v = run settings (first ++ second) v := by
  rw [run_append_eq, run_append_eq]
  congr 1
  funext w
  exact run_disabled h

/-- **Runs compose.**  If the run of the first steps halts, it is the run of all; otherwise the
second steps go on from what it left.  A step that is switched off changes nothing. -/
theorem run_append (settings : Settings) (first second : List Step) (v : Value) :
    ((run settings first v).status = .halted →
      run settings (first ++ second) v = run settings first v) ∧
    ((run settings first v).status ≠ .halted →
      let r₁ := run settings first v
      let r₂ := run settings second r₁.final
      run settings (first ++ second) v = ⟨r₂.status, r₁.trace ++ r₂.trace, r₂.final⟩) ∧
    ∀ step : Step, step.enabled = false →
      run settings (first ++ step :: second) v = run settings (first ++ second) v := by
  refine ⟨fun h => ?_, fun h => ?_, fun step h => run_without_disabled h first second v⟩
  · rw [run_append_eq, Run.andThen, h]
  · have hc : (run settings first v).status = .completed := by
      cases hs : (run settings first v).status with
      | completed => rfl
      | halted => exact absurd hs h
    rw [run_append_eq, Run.andThen, hc]

/-- A run that halts, one that is taken up by a second one, and a step that is switched off, on
null: nothing is left out of it, and it cannot be sorted. -/
theorem run_append_leave_sort :
    let leave : Step := { id := "a", kind := .omit }
    let sort : Step := { id := "b", kind := .sort }
    run {} ([leave, sort] ++ [leave]) .null = run {} [leave, sort] .null ∧
      run {} ([leave] ++ [sort]) .null =
        ⟨.halted, [⟨leave, .null, none⟩] ++ (run {} [sort] .null).trace, .null⟩ ∧
      run {} ([leave] ++ { sort with enabled := false } :: [leave]) .null =
        run {} ([leave] ++ [leave]) .null :=
  ⟨(run_append {} _ _ .null).1 rfl, (run_append {} _ _ .null).2.1 (by decide),
    (run_append {} _ _ .null).2.2 _ rfl⟩

/-! ### The trace -/

/-- An entry holds what its step makes of a value; if the step failed, the value and the reason. -/
def Entry.Records (settings : Settings) (v : Value) (e : Entry) : Prop :=
  match e.error with
  | none => e.step.run settings v = .ok e.output
  | some message =>
      e.output = v ∧ ∃ fault, e.step.run settings v = .error fault ∧ message = reason fault

/-- Each entry records what its step makes of the output before it, the first one of `v`. -/
def Chained (settings : Settings) : Value → List Entry → Prop
  | _, [] => True
  | v, e :: es => e.Records settings v ∧ Chained settings e.output es

/-- A run of these steps went through all of them without an error, or it went through the first
few and exactly the last one that was carried out has an error, which is that of the run. -/
def Run.Ends (enabled : List Step) (r : Run) : Prop :=
  (r.status = .completed ∧ r.trace.map Entry.step = enabled ∧
    (∀ e ∈ r.trace, e.error = none) ∧ r.error? = none) ∨
  (∃ before last message, r.status = .halted ∧ r.trace = before ++ [last] ∧
    r.trace.map Entry.step <+: enabled ∧ (∀ e ∈ before, e.error = none) ∧
    last.error = some message ∧ r.error? = some (last.step.id, message))

/-- An entry without an error in front of a run. -/
theorem Run.Ends.cons {enabled : List Step} {r : Run} {e : Entry} (h : r.Ends enabled)
    (he : e.error = none) : Run.Ends (e.step :: enabled) ⟨r.status, e :: r.trace, r.final⟩ := by
  rcases h with ⟨hs, hm, hn, -⟩ | ⟨before, last, message, hs, ht, hp, hn, hl, -⟩
  · refine .inl ⟨hs, by simp [hm], ?_, by simp [Run.error?, hs]⟩
    intro x hx
    rcases List.mem_cons.mp hx with rfl | hx
    · exact he
    · exact hn x hx
  · refine .inr ⟨e :: before, last, message, hs, by simp [ht], ?_, ?_, hl, ?_⟩
    · simpa using (List.prefix_cons_inj e.step).mpr hp
    · intro x hx
      rcases List.mem_cons.mp hx with rfl | hx
      · exact he
      · exact hn x hx
    · simp only [Run.error?, hs, ht, ← List.cons_append, List.getLast?_append,
        List.getLast?_singleton, Option.some_or, hl, Option.map_some]

theorem run_ends (settings : Settings) (steps : List Step) (v : Value) :
    (run settings steps v).Ends (steps.filter (·.enabled)) := by
  induction steps generalizing v with
  | nil => exact .inl ⟨rfl, rfl, by simp, rfl⟩
  | cons step steps ih =>
      rcases run_cons_cases settings step v with ⟨he, h⟩ | ⟨w, he, -, h⟩ | ⟨fault, he, -, h⟩
      · rw [h, List.filter_cons_of_neg (by simp [he])]
        exact ih v
      · rw [h, List.filter_cons_of_pos he]
        exact (ih w).cons rfl
      · rw [h, List.filter_cons_of_pos he]
        exact .inr ⟨[], _, _, rfl, rfl, by simp, by simp, rfl, rfl⟩

theorem run_chained (settings : Settings) (steps : List Step) (v : Value) :
    Chained settings v (run settings steps v).trace := by
  induction steps generalizing v with
  | nil => trivial
  | cons step steps ih =>
      rcases run_cons_cases settings step v with ⟨-, h⟩ | ⟨w, -, hw, h⟩ | ⟨fault, -, hf, h⟩
      · rw [h]
        exact ih v
      · rw [h]
        exact ⟨hw, ih w⟩
      · rw [h]
        exact ⟨⟨rfl, fault, hf, rfl⟩, trivial⟩

/-- A run ends with the output of its last entry, and with `v` if it has none. -/
theorem run_final (settings : Settings) (steps : List Step) (v : Value) :
    (run settings steps v).final =
      ((run settings steps v).trace.getLast?.map Entry.output).getD v := by
  induction steps generalizing v with
  | nil => rfl
  | cons step steps ih =>
      rcases run_cons_cases settings step v with ⟨-, h⟩ | ⟨w, -, -, h⟩ | ⟨fault, -, -, h⟩
      · rw [h]
        exact ih v
      · rw [h, List.getLast?_cons, Option.map_some, Option.getD_some, ih w]
        cases (run settings steps w).trace.getLast? with
        | none => rfl
        | some e => rfl
      · rw [h]
        rfl

/-- The error of a run is that of its last entry, told with the step. -/
theorem Run.Ends.errorMessage? {enabled : List Step} {r : Run} (h : r.Ends enabled) :
    r.errorMessage? =
      r.trace.getLast?.bind fun e => e.error.map fun message => stepFailure e.step.id message := by
  rcases h with ⟨-, -, hn, he⟩ | ⟨before, last, message, -, ht, -, -, hl, he⟩
  · rw [Run.errorMessage?, he, Option.map_none]
    cases hg : r.trace.getLast? with
    | none => rfl
    | some e => simp [hn e (List.mem_of_getLast? hg)]
  · simp [Run.errorMessage?, he, ht, hl]

end Quarry.Workflow

namespace Quarry.Gateway
open Workflow (Run)

/-- The steps of a response are the entries of the run, and its error is that of the run. -/
theorem describeRun_eq_ok {settings : Settings} {r : Run} {response : WorkflowResponse}
    (h : describeRun settings r = .ok response) :
    response.steps.map (fun s => (s.id, s.error)) =
        r.trace.map (fun e => (e.step.id, e.error)) ∧
      response.error = r.errorMessage? := by
  rw [describeRun, Result.bind_eq_ok] at h
  obtain ⟨outcomes, hm, h⟩ := h
  rw [Result.bind_eq_ok] at h
  obtain ⟨text, -, h⟩ := h
  simp only [Result.pure_eq_ok, Except.ok.injEq] at h
  subst h
  refine ⟨Result.map_eq_of_mapM (fun e s he => ?_) hm, rfl⟩
  rw [Result.bind_eq_ok] at he
  obtain ⟨output, -, he⟩ := he
  simp only [Result.pure_eq_ok, Except.ok.injEq] at he
  rw [← he]

/-- **The trace of a run.**  A run goes through the enabled steps up to the first that fails; every
entry holds what its step makes of the output before it, a failed one that output unchanged; and
the run ends with the last output.  The response to a request for it has the steps of the trace,
and an error exactly when the last of them has one. -/
theorem runWorkflow_trace (settings : Settings) (steps : List Step) (v : Value) :
    let r := Workflow.run settings steps v
    r.Ends (steps.filter (·.enabled)) ∧
      Workflow.Chained settings v r.trace ∧
      r.final = (r.trace.getLast?.map Workflow.Entry.output).getD v ∧
      ∀ document response, parse settings document = .ok v →
        (runWorkflow settings ⟨document, steps⟩).response = .ok response →
        response.steps.map (fun s => (s.id, s.error)) =
            r.trace.map (fun e => (e.step.id, e.error)) ∧
          response.error = response.steps.getLast?.bind fun s =>
            s.error.map fun message => "Step '" ++ s.id ++ "' failed: " ++ message := by
  intro r
  have hr : r.Ends (steps.filter (·.enabled)) := Workflow.run_ends settings steps v
  refine ⟨hr, Workflow.run_chained settings steps v, Workflow.run_final settings steps v, ?_⟩
  intro document response hv hresponse
  simp only [runWorkflow, hv] at hresponse
  obtain ⟨hsteps, herror⟩ := describeRun_eq_ok hresponse
  refine ⟨hsteps, ?_⟩
  -- the last step of the response is the last entry of the trace
  have hlast := congrArg List.getLast? hsteps
  rw [List.getLast?_map, List.getLast?_map] at hlast
  rw [herror, hr.errorMessage?]
  cases hs : response.steps.getLast? with
  | none =>
      rw [hs, Option.map_none, eq_comm, Option.map_eq_none_iff] at hlast
      rw [hlast]
      rfl
  | some s =>
      rw [hs, Option.map_some, eq_comm, Option.map_eq_some_iff] at hlast
      obtain ⟨e, he, hes⟩ := hlast
      obtain ⟨hid, hmessage⟩ := Prod.mk.inj hes
      rw [he, Option.bind_some, Option.bind_some, hid, hmessage]
      rfl

/-- Null, from which nothing is left out and which cannot be sorted: the run halts at the second
step, and the response says so. -/
theorem runWorkflow_trace_null :
    ∃ response,
      parse {} "null" = .ok .null ∧
      (runWorkflow {} ⟨"null", [{ id := "a", kind := .omit }, { id := "b", kind := .sort },
        { id := "c", kind := .omit }]⟩).response = .ok response ∧
      response.error = some "Step 'b' failed: sort requires an array, got null" ∧
      response.error = response.steps.getLast?.bind fun s =>
        s.error.map fun message => "Step '" ++ s.id ++ "' failed: " ++ message := by
  have hv : parse {} "null" = .ok .null := rfl
  have hr : (runWorkflow {} ⟨"null", [{ id := "a", kind := .omit }, { id := "b", kind := .sort },
      { id := "c", kind := .omit }]⟩).response =
      let null := String.ofList ['n', 'u', 'l', 'l']
      let cause := Workflow.reason (.query (.step (.arrayRequired "sort" .null)))
      .ok ⟨[⟨"a", null, none⟩, ⟨"b", null, some cause⟩], null, some (stepFailure "b" cause)⟩ := rfl
  exact ⟨_, hv, hr, by decide, ((runWorkflow_trace {} _ .null).2.2.2 "null" _ hv hr).2⟩

end Quarry.Gateway
