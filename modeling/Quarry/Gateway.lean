import Quarry.Criteria.Reader
import Quarry.Explore
import Quarry.Filter.Reader
import Quarry.Navigation.Eval
import Quarry.Request.Basic
import Quarry.Workflow

/-!
# Gateway — requests in, responses and events out

A message names what it asks for by one of its fields.  Everything that can go wrong in reading a
document or carrying out what is asked is part of the response; a fault that the engine does not
count as its own leaves a request without a response, and the message is then answered by a
refusal that names the fault.  Along with each response come the events of the work behind it.

Four things come from outside: the names of characters, the choice of what is reported about a
document that is no criteria, the grammar of navigations, and the validation of requests.  The
engine takes them as they are.
-/

namespace Quarry

/-- The engine counts a fault as its own and reports it in the response. -/
def Fault.isOwn : Fault → Bool
  | .document _ | .query _ | .tooDeep _ | .unknownStep _ _ | .settings _ => true
  | _ => false

namespace Gateway

variable [Pattern.Names] [Shape.Report] [Navigation.Grammar]

/-! ### Queries -/

/-- What a query finds in a value; what it does not find is null. -/
def evaluate (settings : Settings) (dialect : Dialect) (query : String) (v : Value) :
    Except Fault Value :=
  match dialect with
  | .jq => Filter.evaluate settings.maxDepth query v
  | .jsonata => do return (← Navigation.evaluate query v).orNull
  | .mongodb => Criteria.evaluate settings.maxDepth query v

/-- What a query in a language of a given name finds in a value. -/
def evaluateNamed (settings : Settings) (dialect query : String) (v : Value) :
    Except Fault Value :=
  match Dialect.ofName? dialect with
  | some d => evaluate settings d query v
  | none => .error (.query (.unknownDialect dialect))

/-! ### Responses -/

/-- The result of a query, or an empty text and what went wrong. -/
structure QueryResponse where
  result : String
  error : Option String := none

/-- The output of a step that was carried out. -/
structure StepResponse where
  id : String
  output : String
  error : Option String

/-- The outputs of the steps of a workflow, and the last one. -/
structure WorkflowResponse where
  steps : List StepResponse
  final : String
  error : Option String := none

/-- The places that were found. -/
structure ExploreResponse where
  found : List Explore.Found
  error : Option String := none

/-- What a message is answered with. -/
inductive Response where
  | query (r : QueryResponse)
  | workflow (r : WorkflowResponse)
  | explore (r : ExploreResponse)
  | refused (message : String)

/-- What a request leads to: a response, or a fault that the engine does not count as its own,
and the events on the way. -/
structure Outcome (α : Type) where
  response : Except Fault α
  events : List Event

/-- The document of a request. -/
def parse (settings : Settings) (document : String) : Except Fault Value :=
  Json.parse settings.maxDepth document

/-- How values are written in responses. -/
def render (settings : Settings) (v : Value) : Except Fault String :=
  Json.render (.ofIndent settings.indent) v

/-! ### Requests -/

/-- The result of a query as text. -/
def answerQuery (settings : Settings) (r : QueryRequest) : Except Fault String := do
  let v ← parse settings r.document
  render settings (← evaluate settings r.dialect r.query v)

/-- A query is one event, unless there is no response. -/
def runQuery (settings : Settings) (r : QueryRequest) : Outcome QueryResponse :=
  let respond := fun (response : QueryResponse) =>
    { response := .ok response, events := [.query r.dialect.name r.query response.error] }
  match answerQuery settings r with
  | .ok result => respond { result }
  | .error fault =>
      if fault.isOwn then respond { result := "", error := some fault.message }
      else { response := .error fault, events := [] }

/-- The response to a run. -/
def describeRun (settings : Settings) (run : Workflow.Run) : Except Fault WorkflowResponse := do
  let steps ← run.trace.mapM fun entry => do
    return (⟨entry.step.id, ← render settings entry.output, entry.error⟩ : StepResponse)
  return { steps, final := ← render settings run.final, error := run.errorMessage? }

/-- A workflow has the events that its run logs. -/
def runWorkflow (settings : Settings) (r : WorkflowRequest) : Outcome WorkflowResponse :=
  match parse settings r.document with
  | .ok v =>
      let run := Workflow.run settings r.steps v
      { response := describeRun settings run, events := Workflow.log settings r.steps v }
  | .error fault =>
      if fault.isOwn then
        { response := .ok { steps := [], final := "", error := some fault.message }, events := [] }
      else { response := .error fault, events := [] }

/-- The places that a request asks for. -/
def answerExplore (settings : Settings) (r : ExploreRequest) :
    Except Fault (List Explore.Found) := do
  Explore.search r.expression (← parse settings r.document)

/-- An exploration is an event if it succeeds. -/
def runExplore (settings : Settings) (r : ExploreRequest) : Outcome ExploreResponse :=
  match answerExplore settings r with
  | .ok found =>
      { response := .ok { found }, events := [.explore r.expression found.length] }
  | .error fault =>
      if fault.isOwn then
        { response := .ok { found := [], error := some fault.message }, events := [] }
      else { response := .error fault, events := [] }

/-! ### Messages -/

/-- The refusal that a fault leads to. -/
def refusal (fault : Fault) : Response :=
  match fault with
  | .request _ => .refused fault.message
  | _ => .refused ("Internal error: " ++ fault.category ++ ": " ++ fault.message)

/-- The response and the events of an outcome. -/
def Outcome.settle {α : Type} (wrap : α → Response) (o : Outcome α) : Response × List Event :=
  match o.response with
  | .ok r => (wrap r, o.events)
  | .error fault => (refusal fault, o.events)

/-- The response and the events of a checked request. -/
def answer {α β : Type} (checked : Checked α) (run : α → Outcome β)
    (wrap : β → Response) : Response × List Event :=
  match Request.accepted checked with
  | .ok r => (run r).settle wrap
  | .error fault => (refusal fault, [])

variable [Request.Validation]

/-- The response to a message, and the events of the work behind it. -/
def handle (settings : Settings) (message : Value) : Response × List Event :=
  match message with
  | .object members =>
      if Members.has members "dialect" then
        answer (Request.Validation.query message) (runQuery settings) .query
      else if Members.has members "steps" then
        answer (Request.Validation.workflow message) (runWorkflow settings) .workflow
      else if Members.has members "expression" then
        answer (Request.Validation.explore message) (runExplore settings) .explore
      else
        (.refused "Unrecognised request: expected 'dialect', 'steps' or 'expression'", [])
  | _ => (.refused "Request must be a JSON object", [])

/-- The events of messages handled one after another. -/
def eventsOf (settings : Settings) (messages : List Value) : List Event :=
  messages.flatMap fun message => (handle settings message).2

end Gateway

end Quarry
