import Quarry.Expr.Eval
import Quarry.Settings.Basic
import Quarry.Step.Filtering
import Quarry.Step.Reshaping
import Quarry.Step.Sorting

/-!
# Steps — the eight operations of a workflow
-/

namespace Quarry

/-- What a step does. -/
inductive StepKind where
  | map | filter | sort | pick | omit | rename | jq | custom
deriving DecidableEq

def StepKind.name : StepKind → String
  | .map => "map"
  | .filter => "filter"
  | .sort => "sort"
  | .pick => "pick"
  | .omit => "omit"
  | .rename => "rename"
  | .jq => "jq"
  | .custom => "custom"

/-- Every kind of step. -/
def StepKind.all : List StepKind :=
  [.map, .filter, .sort, .pick, .omit, .rename, .jq, .custom]

/-- The kind of a given name. -/
def StepKind.ofName? (s : String) : Option StepKind :=
  all.find? (·.name = s)

/-- A step of a workflow: what it does, the text that says how, and whether it is carried out. -/
structure Step where
  id : String
  kind : StepKind
  config : String := ""
  name : String := ""
  enabled : Bool := true

namespace Step

/-- The items of a value that has to be an array. -/
def arrayItems (kind : StepKind) : Value → Except Fault (List Value)
  | .array items => .ok items
  | v => .error (.query (.step (.arrayRequired kind.name v.kind)))

/-- A simple path is looked up; any other text is a filter. -/
def lookUp (settings : Settings) (config : String) (v : Value) : Except Fault Value := do
  let text := String.ofList (Text.trim config.toList)
  if ← Path.isPlainText text then
    return (← Path.resolveText (String.ofList (text.toList.drop 1)) v).orNull
  else Filter.evaluate settings.maxDepth text v

/-- What a step makes of a value. -/
def run (settings : Settings) (step : Step) (v : Value) : Except Fault Value :=
  match step.kind with
  | .map => do
      let items ← arrayItems .map v
      return .array (← Reshaping.project settings.maxDepth step.config items)
  | .filter => do return .array (← Filtering.apply step.config (← arrayItems .filter v))
  | .sort => do return .array (← Sorting.apply step.config (← arrayItems .sort v))
  | .pick => Reshaping.pick step.config v
  | .omit => Reshaping.omitted step.config v
  | .rename => Reshaping.rename step.config v
  | .jq => lookUp settings step.config v
  | .custom => Expr.evaluate settings.maxDepth settings.budget step.config v

/-- The id of the `n`th step, counted from zero, of those named after a common stem. -/
def idFrom (stem : String) (n : Nat) : String :=
  stem ++ "-" ++ toString (n + 1)

end Step

end Quarry
