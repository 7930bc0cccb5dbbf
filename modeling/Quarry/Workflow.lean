import Quarry.Event
import Quarry.Message
import Quarry.Step.Basic

/-!
# Workflows — steps one after another

A run carries out the enabled steps in order, each on what the one before left.  It stops at the
first failure; the value then stays what it was.  The trace has an entry for every step that was
carried out.  The log says when a step starts and what came of it, and how the run ended.
-/

namespace Quarry.Workflow

/-- How a run ended. -/
inductive Status where
  | completed | halted
deriving DecidableEq

def Status.name : Status → String
  | .completed => "completed"
  | .halted => "halted"

/-- A step that was carried out, the value after it, and why it failed if it did. -/
structure Entry where
  step : Step
  output : Value
  error : Option String

/-- The outcome of a run. -/
structure Run where
  status : Status
  trace : List Entry
  final : Value

/-- What is said of a failed step. -/
def reason (fault : Fault) : String :=
  match fault with
  | .unknownStep _ kind => "Unknown step kind: " ++ kind
  | fault => if fault.message.isEmpty then fault.category else fault.message

/-! ### The loop

Two records are kept while a run is under way: the trace, which is returned, and the log. -/

/-- A run under way: the value so far, the trace and the log. -/
structure Progress where
  current : Value
  trace : List Entry := []
  log : List Event := []

namespace Progress

/-- An event is logged. -/
def logged (p : Progress) (e : Event) : Progress :=
  { p with log := p.log ++ [e] }

/-- An entry is made, and its output is the value from there on. -/
def entered (p : Progress) (e : Entry) : Progress :=
  { p with current := e.output, trace := p.trace ++ [e] }

/-- The run and its whole log, once it has ended. -/
def ended (p : Progress) (status : Status) : Run × List Event :=
  (⟨status, p.trace, p.current⟩,
    (p.logged (.workflowComplete status.name p.trace.length)).log)

end Progress

/-- The rest of a run under way. -/
def loop (settings : Settings) : List Step → Progress → Run × List Event
  | [], p => p.ended .completed
  | step :: steps, p =>
      if step.enabled then
        let p := p.logged (.stepStart step.id step.kind.name)
        match step.run settings p.current with
        | .ok w =>
            loop settings steps ((p.entered ⟨step, w, none⟩).logged (.stepComplete step.id))
        | .error fault =>
            let p := p.entered ⟨step, p.current, some (reason fault)⟩
            (p.logged (.stepError step.id (reason fault))).ended .halted
      else loop settings steps p

/-- The run of a list of steps on a value. -/
def run (settings : Settings) (steps : List Step) (v : Value) : Run :=
  (loop settings steps { current := v }).1

/-- What the run of a list of steps on a value logs. -/
def log (settings : Settings) (steps : List Step) (v : Value) : List Event :=
  (loop settings steps { current := v }).2

/-- The step that halted a run, with the reason. -/
def Run.error? (r : Run) : Option (String × String) :=
  match r.status, r.trace.getLast? with
  | .halted, some entry => entry.error.map (entry.step.id, ·)
  | _, _ => none

/-- What a run says about the step that halted it. -/
def Run.errorMessage? (r : Run) : Option String :=
  r.error?.map fun (id, message) => stepFailure id message

end Quarry.Workflow
