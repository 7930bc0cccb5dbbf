import Quarry.Proofs.Workflow

/-!
# Logs — what is logged is what happened

The loop of a run keeps two records and writes them at different places: a start is logged before
its step, the entry of the step goes into the trace, and then the outcome is logged.
`Progress.Agrees` says that the log so far tells of the trace so far.  Every round of the loop keeps
it, whether the step succeeds or fails (`Progress.Agrees.round`), so the log of a whole run is told
by its trace, however early the run ends (`Workflow.log_eq`).

`Gateway.Logs` says what handling one message adds to the log, by what became of the message.  The
log of many messages is made up of these parts, one after another (`Gateway.log_agrees`).
-/

namespace Quarry

/-! ### Runs -/

namespace Workflow

/-- What is logged of a step that was carried out: its start, and what came of it. -/
def Entry.events (e : Entry) : List Event :=
  [.stepStart e.step.id e.step.kind.name,
    match e.error with
    | none => .stepComplete e.step.id
    | some message => .stepError e.step.id message]

/-- What is logged of a run: its entries in order, and at last how it ended and how many there
are. -/
def Run.events (r : Run) : List Event :=
  r.trace.flatMap Entry.events ++ [.workflowComplete r.status.name r.trace.length]

namespace Progress

variable {p : Progress}

/-- The log so far tells of the trace so far. -/
def Agrees (p : Progress) : Prop :=
  p.log = p.trace.flatMap Entry.events

/-- **One round**: a start, an entry and its outcome. -/
theorem Agrees.round (h : p.Agrees) {e : Entry} {start outcome : Event}
    (he : e.events = [start, outcome]) :
    (((p.logged start).entered e).logged outcome).Agrees := by
  have hlog : (((p.logged start).entered e).logged outcome).log = p.log ++ [start, outcome] :=
    List.append_assoc _ _ _
  have htrace : (((p.logged start).entered e).logged outcome).trace = p.trace ++ [e] := rfl
  rw [Agrees, hlog, htrace, List.flatMap_append, List.flatMap_singleton, he, ← h]

theorem Agrees.ended (h : p.Agrees) (status : Status) :
    (p.ended status).2 = (p.ended status).1.events :=
  congrArg (· ++ [Event.workflowComplete status.name p.trace.length]) h

end Progress

/-- **All rounds**: what agrees so far does at the end of the run. -/
theorem loop_agrees (settings : Settings) (steps : List Step) {p : Progress} (h : p.Agrees) :
    (loop settings steps p).2 = (loop settings steps p).1.events := by
  induction steps generalizing p with
  | nil => exact h.ended .completed
  | cons step steps ih =>
      cases he : step.enabled with
      | false =>
          rw [loop_disabled he]
          exact ih h
      | true =>
          cases hr : step.run settings p.current with
          | ok w =>
              rw [loop_ok he hr]
              exact ih (h.round rfl)
          | error fault =>
              rw [loop_error he hr]
              exact (h.round rfl).ended .halted

/-- The log of a run tells of its trace. -/
theorem log_eq (settings : Settings) (steps : List Step) (v : Value) :
    log settings steps v = (run settings steps v).events :=
  loop_agrees settings steps rfl

end Workflow

namespace Gateway

/-! ### Outcomes -/

theorem refusal_eq (fault : Fault) : ∃ text, refusal fault = .refused text := by
  cases fault <;> exact ⟨_, rfl⟩

/-- An exploration is logged if and only if it succeeds. -/
theorem runExplore_cases (settings : Settings) (r : ExploreRequest) :
    (∃ response : ExploreResponse, response.error = none ∧ runExplore settings r =
      ⟨.ok response, [.explore r.expression response.found.length]⟩) ∨
    (∃ response : ExploreResponse, response.error ≠ none ∧
      runExplore settings r = ⟨.ok response, []⟩) ∨
    ∃ fault, runExplore settings r = ⟨.error fault, []⟩ := by
  rw [runExplore]
  cases answerExplore settings r with
  | ok found => exact .inl ⟨_, rfl, rfl⟩
  | error fault =>
      cases hown : fault.isOwn with
      | true => exact .inr (.inl ⟨⟨[], some fault.message⟩, nofun, by simp [hown]⟩)
      | false => exact .inr (.inr ⟨fault, by simp [hown]⟩)

/-- A workflow logs its run, and nothing if the document is not read. -/
theorem runWorkflow_events (settings : Settings) (r : WorkflowRequest) :
    (∃ v, parse settings r.document = .ok v ∧
      (runWorkflow settings r).events = (Workflow.run settings r.steps v).events) ∨
    (∃ fault, parse settings r.document = .error fault) ∧
      (runWorkflow settings r).events = [] := by
  rw [runWorkflow]
  cases parse settings r.document with
  | ok v => exact .inl ⟨v, rfl, Workflow.log_eq settings r.steps v⟩
  | error fault => cases hown : fault.isOwn <;> exact .inr ⟨⟨fault, rfl⟩, by simp [hown]⟩

/-- What is settled is the response or a refusal, and keeps its events. -/
theorem settle_cases {α : Type} (wrap : α → Response) (o : Outcome α) :
    (o.settle wrap).2 = o.events ∧
      ((∃ r, (o.settle wrap).1 = wrap r) ∨ ∃ text, (o.settle wrap).1 = .refused text) := by
  rw [Outcome.settle]
  cases o.response with
  | ok r => exact ⟨rfl, .inl ⟨r, rfl⟩⟩
  | error fault => exact ⟨rfl, .inr (refusal_eq fault)⟩

/-- What is not accepted is refused. -/
theorem answer_error {α β : Type} {checked : Checked α} {fault : Fault}
    (h : Request.accepted checked = .error fault) (run : α → Outcome β) (wrap : β → Response) :
    ∃ text, answer checked run wrap = (.refused text, []) := by
  obtain ⟨text, htext⟩ := refusal_eq fault
  exact ⟨text, by rw [answer, h, ← htext]⟩

theorem answer_ok {α β : Type} {checked : Checked α} {r : α}
    (h : Request.accepted checked = .ok r) (run : α → Outcome β) (wrap : β → Response) :
    answer checked run wrap = (run r).settle wrap := by
  rw [answer, h]

theorem settle_error {α : Type} (wrap : α → Response) (fault : Fault) (events : List Event) :
    ∃ text, Outcome.settle wrap ⟨.error fault, events⟩ = (.refused text, events) := by
  obtain ⟨text, htext⟩ := refusal_eq fault
  exact ⟨text, by rw [Outcome.settle, ← htext]⟩

variable [Pattern.Names] [Shape.Report] [Navigation.Grammar]

/-- A query is logged if and only if it is answered. -/
theorem runQuery_cases (settings : Settings) (r : QueryRequest) :
    (∃ response, runQuery settings r =
      ⟨.ok response, [.query r.dialect.name r.query response.error]⟩) ∨
    ∃ fault, runQuery settings r = ⟨.error fault, []⟩ := by
  rw [runQuery]
  cases answerQuery settings r with
  | ok result => exact .inl ⟨_, rfl⟩
  | error fault =>
      cases hown : fault.isOwn with
      | true => exact .inl ⟨⟨"", some fault.message⟩, by simp [hown]⟩
      | false => exact .inr ⟨fault, by simp [hown]⟩

/-! ### Messages -/

variable [Request.Validation] {settings : Settings} {message : Value}

/-- A message gets as far as the run of its steps: it does not ask for a query, it is accepted as
a request for a workflow, and its document is read. -/
def ReachesRun (settings : Settings) (message : Value) (r : WorkflowRequest) (v : Value) : Prop :=
  ∃ members, message = .object members ∧ Members.has members "dialect" = false ∧
    Members.has members "steps" = true ∧
    Request.accepted (Request.Validation.workflow message) = .ok r ∧
    parse settings r.document = .ok v

/-- Neither a query that was answered nor an exploration that succeeded. -/
def Response.IsQuiet : Response → Prop
  | .query _ => False
  | .explore r => r.error ≠ none
  | .workflow _ | .refused _ => True

/-- What handling a message logs: one event for a query that is answered, the events of the run
for a workflow that gets as far as that, one event for an exploration that succeeds, and else
nothing. -/
inductive Logs (settings : Settings) (message : Value) : List Event → Prop where
  | query {r : QueryRequest} {response : QueryResponse}
      (hrequest : Request.accepted (Request.Validation.query message) = .ok r)
      (hanswer : (handle settings message).1 = .query response) :
      Logs settings message [.query r.dialect.name r.query response.error]
  | workflow {r : WorkflowRequest} {v : Value} (h : ReachesRun settings message r v) :
      Logs settings message (Workflow.run settings r.steps v).events
  | explore {r : ExploreRequest} {response : ExploreResponse}
      (hrequest : Request.accepted (Request.Validation.explore message) = .ok r)
      (hanswer : (handle settings message).1 = .explore response)
      (hsuccess : response.error = none) :
      Logs settings message [.explore r.expression response.found.length]
  | nothing (hquiet : (handle settings message).1.IsQuiet)
      (hrun : ∀ r v, ¬ ReachesRun settings message r v) : Logs settings message []

/-- A message that is refused and runs no steps logs nothing. -/
theorem logs_refused {text : String} (h : handle settings message = (.refused text, []))
    (hrun : ∀ r v, ¬ ReachesRun settings message r v) :
    Logs settings message (handle settings message).2 := by
  rw [h]
  refine .nothing ?_ hrun
  rw [h]
  trivial

theorem logs_query
    (h : handle settings message = answer (Request.Validation.query message)
      (runQuery settings) .query)
    (hrun : ∀ r v, ¬ ReachesRun settings message r v) :
    Logs settings message (handle settings message).2 := by
  cases hr : Request.accepted (Request.Validation.query message) with
  | error fault =>
      obtain ⟨text, htext⟩ := answer_error hr (runQuery settings) .query
      exact logs_refused (h.trans htext) hrun
  | ok r =>
      rw [answer_ok hr] at h
      rcases runQuery_cases settings r with ⟨response, hresponse⟩ | ⟨fault, hfault⟩
      · rw [hresponse] at h
        rw [h]
        exact .query hr (congrArg Prod.fst h)
      · rw [hfault] at h
        obtain ⟨text, htext⟩ := settle_error .query fault []
        exact logs_refused (h.trans htext) hrun

theorem logs_explore
    (h : handle settings message =
      answer (Request.Validation.explore message) (runExplore settings) .explore)
    (hrun : ∀ r v, ¬ ReachesRun settings message r v) :
    Logs settings message (handle settings message).2 := by
  cases hr : Request.accepted (Request.Validation.explore message) with
  | error fault =>
      obtain ⟨text, htext⟩ := answer_error hr (runExplore settings) .explore
      exact logs_refused (h.trans htext) hrun
  | ok r =>
      rw [answer_ok hr] at h
      rcases runExplore_cases settings r with
        ⟨response, hsuccess, hresponse⟩ | ⟨response, hfailure, hresponse⟩ | ⟨fault, hfault⟩
      · rw [hresponse] at h
        rw [h]
        exact .explore hr (congrArg Prod.fst h) hsuccess
      · rw [hresponse] at h
        rw [h]
        refine .nothing ?_ hrun
        rw [h]
        exact hfailure
      · rw [hfault] at h
        obtain ⟨text, htext⟩ := settle_error .explore fault []
        exact logs_refused (h.trans htext) hrun

theorem logs_workflow {members : List (String × Value)}
    (hdialect : Members.has members "dialect" = false)
    (hsteps : Members.has members "steps" = true)
    (h : handle settings (.object members) =
      answer (Request.Validation.workflow (.object members)) (runWorkflow settings) .workflow) :
    Logs settings (.object members) (handle settings (.object members)).2 := by
  cases hr : Request.accepted (Request.Validation.workflow (.object members)) with
  | error fault =>
      obtain ⟨text, htext⟩ := answer_error hr (runWorkflow settings) .workflow
      refine logs_refused (h.trans htext) ?_
      rintro r v ⟨_, -, -, -, haccepted, -⟩
      rw [hr] at haccepted
      cases haccepted
  | ok r =>
      rw [answer_ok hr] at h
      obtain ⟨hevents, hresponse⟩ := settle_cases .workflow (runWorkflow settings r)
      rw [h, hevents]
      rcases runWorkflow_events settings r with ⟨v, hv, hlog⟩ | ⟨⟨fault, hfault⟩, hlog⟩
      · rw [hlog]
        exact .workflow ⟨members, rfl, hdialect, hsteps, hr, hv⟩
      · rw [hlog]
        refine .nothing ?_ ?_
        · rw [h]
          rcases hresponse with ⟨_, hresponse⟩ | ⟨_, hresponse⟩ <;> rw [hresponse] <;> trivial
        · rintro r' v ⟨_, -, -, -, haccepted, hv⟩
          rw [hr] at haccepted
          cases haccepted
          rw [hfault] at hv
          cases hv

/-- Every message is handled in one of these ways. -/
theorem logs_handle (settings : Settings) (message : Value) :
    Logs settings message (handle settings message).2 := by
  cases message with
  | object members =>
      cases hdialect : Members.has members "dialect" with
      | true =>
          refine logs_query (by rw [handle, if_pos hdialect]) ?_
          rintro r v ⟨_, ⟨⟩, hno, -⟩
          rw [hdialect] at hno
          cases hno
      | false =>
          have hquery := ne_true_of_eq_false hdialect
          cases hsteps : Members.has members "steps" with
          | true =>
              exact logs_workflow hdialect hsteps (by rw [handle, if_neg hquery, if_pos hsteps])
          | false =>
              have hworkflow := ne_true_of_eq_false hsteps
              have hrun : ∀ r v, ¬ ReachesRun settings (.object members) r v := by
                rintro r v ⟨_, ⟨⟩, -, hyes, -⟩
                exact hworkflow hyes
              by_cases hexplore : Members.has members "expression" = true
              · exact logs_explore
                  (by rw [handle, if_neg hquery, if_neg hworkflow, if_pos hexplore]) hrun
              · exact logs_refused
                  (by rw [handle, if_neg hquery, if_neg hworkflow, if_neg hexplore]) hrun
  | _ =>
      refine logs_refused rfl ?_
      rintro r v ⟨_, ⟨⟩, -⟩

/-- **The log and the traces agree.**  Whatever messages are handled one after another, the events
that are reported from the level of debugging on are made up of one part for each message, in order:
the event of a query that was answered, with the error of the response; of a workflow that was run,
the start and the outcome of each entry of its trace and then its status and the number of entries;
the event of an exploration that succeeded, with the number of its results; and nothing else. -/
theorem log_agrees (settings : Settings) (messages : List Value) :
    ∃ parts, List.Forall₂ (Logs settings) messages parts ∧
      (eventsOf settings messages).filter (Event.isReported .debug) = parts.flatten := by
  refine ⟨messages.map fun message => (handle settings message).2, ?_, ?_⟩
  · rw [List.forall₂_map_right_iff, List.forall₂_same]
    exact fun message _ => logs_handle settings message
  · rw [eventsOf, List.flatMap_def]
    exact List.filter_eq_self.mpr fun e _ => decide_eq_true (Nat.zero_le _)

end Gateway

end Quarry
