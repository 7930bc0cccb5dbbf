import Quarry.Request.Basic
import Quarry.Text.Cited

/-!
# Requests from records

A record is checked field by field, in the order in which the fields are declared, and every
complaint is kept with its place.  A text has to be a text; a truth value may also be given as
zero, one or one of a few words.  Fields that nobody asked for do not matter.

This is the check that the engine has when it runs; nothing else depends on it.
-/

namespace Quarry.Request
open Checked (complain within both)

/-- A text. -/
def checkText : Value → Checked String
  | .string s => .ok s
  | _ => complain "Input should be a valid string"

/-- The words for a truth value, in lower case. -/
def truthWord? (s : String) : Option Bool :=
  if ["0", "off", "f", "false", "n", "no"].contains s then some false
  else if ["1", "on", "t", "true", "y", "yes"].contains s then some true
  else none

/-- The truth value that a number stands for; one beyond the machine integers stands for none. -/
def truthOfInt (n : Int) : Checked Bool :=
  if n < -Number.machineBound || Number.machineBound ≤ n then
    complain "Input should be a valid boolean"
  else if n = 0 then .ok false
  else if n = 1 then .ok true
  else complain "Input should be a valid boolean, unable to interpret input"

/-- A truth value. -/
def checkBool : Value → Checked Bool
  | .bool b => .ok b
  | .string s =>
      match truthWord? (String.ofList (s.toList.map Char.toLower)) with
      | some b => .ok b
      | none => complain "Input should be a valid boolean, unable to interpret input"
  | .number (.int n) => truthOfInt n
  | .number (.float (.finite x)) =>
      match x.toInt? with
      | some n =>
          if n = -Number.machineBound then complain "Input should be a valid boolean"
          else truthOfInt n
      | none => complain "Input should be a valid boolean"
  | _ => complain "Input should be a valid boolean"

/-- A query language. -/
def checkDialect (v : Value) : Checked Dialect :=
  match v with
  | .string s =>
      match Dialect.ofName? s with
      | some d => .ok d
      | none => complain "Input should be 'jq', 'jsonata' or 'mongodb'"
  | _ => complain "Input should be 'jq', 'jsonata' or 'mongodb'"

/-- A field that has to be there. -/
def required {α : Type} (members : List (String × Value)) (name : String)
    (check : Value → Checked α) : Checked α :=
  match Members.find? members name with
  | some v => within name (check v)
  | none => within name (complain "Field required")

/-- A field with a default. -/
def optional {α : Type} (members : List (String × Value)) (name : String) (default : α)
    (check : Value → Checked α) : Checked α :=
  match Members.find? members name with
  | some v => within name (check v)
  | none => .ok default

/-- The document, under either of its names. -/
def documentField (members : List (String × Value)) : Checked String :=
  match Members.find? members "json", Members.find? members "document" with
  | none, some v => within "document" (checkText v)
  | _, _ => required members "json" checkText

/-- The members of a record that stands for a `type`. -/
def record (type : String) : Value → Checked (List (String × Value))
  | .object members => .ok members
  | _ => complain ("Input should be a valid dictionary or instance of " ++ type)

/-! ### Steps -/

/-- A step of a kind that is already known. -/
def checkFields (kind : StepKind) (members : List (String × Value)) : Checked Step :=
  let texts := both Prod.mk (required members "id" checkText)
    (both Prod.mk (optional members "name" "" checkText) (optional members "config" "" checkText))
  both (fun (id, name, config) enabled => { id, kind, name, config, enabled })
    texts (optional members "enabled" true checkBool)

/-- The kinds of steps in a complaint. -/
def kindList : String :=
  ", ".intercalate (StepKind.all.map fun kind => "'" ++ kind.name ++ "'")

/-- A step. -/
def checkStep : Value → Checked Step
  | .object members =>
      match Members.find? members "kind" with
      | none => complain "Unable to extract tag using discriminator 'kind'"
      | some tag =>
          let kind := match tag with
            | .string s => StepKind.ofName? s
            | _ => none
          match kind with
          | some kind => within kind.name (checkFields kind members)
          | none =>
              complain ("Input tag '" ++ Text.cited tag
                ++ "' found using 'kind' does not match any of the expected tags: " ++ kindList)
  | _ => complain "Input should be a valid dictionary or object to extract fields from"

/-- Steps, the first of which has index `n`. -/
def checkStepsFrom (n : Nat) : List Value → Checked (List Step)
  | [] => .ok []
  | v :: vs => both (· :: ·) (within (toString n) (checkStep v)) (checkStepsFrom (n + 1) vs)

/-- A list of steps. -/
def checkSteps : Value → Checked (List Step)
  | .array items => checkStepsFrom 0 items
  | _ => complain "Input should be a valid list"

/-! ### Requests -/

def checkQuery (v : Value) : Checked QueryRequest := do
  let members ← record "QueryRequest" v
  both (fun dialect (document, query) => ⟨dialect, document, query⟩)
    (required members "dialect" checkDialect)
    (both Prod.mk (documentField members) (optional members "query" "" checkText))

def checkWorkflow (v : Value) : Checked WorkflowRequest := do
  let members ← record "WorkflowRequest" v
  both WorkflowRequest.mk (documentField members) (required members "steps" checkSteps)

def checkExplore (v : Value) : Checked ExploreRequest := do
  let members ← record "PathExplorerRequest" v
  both ExploreRequest.mk (documentField members) (optional members "expression" "" checkText)

instance : Validation where
  query := checkQuery
  workflow := checkWorkflow
  explore := checkExplore

/-- A step for a single run; one of an unknown kind fails as a step does. -/
def readStep (v : Value) : Except Fault Step :=
  let known := match v.member? "kind" with
    | some (.string s) => (StepKind.ofName? s).isSome
    | _ => false
  let cite := fun name => ((v.member? name).map Text.cited).getD "unknown"
  if known then accepted (checkStep v) else .error (.unknownStep (cite "id") (cite "kind"))

/-! ### Records from requests -/

def stepRecord (s : Step) : Value :=
  .object [("id", .string s.id), ("name", .string s.name), ("config", .string s.config),
    ("enabled", .bool s.enabled), ("kind", .string s.kind.name)]

def queryRecord (r : QueryRequest) : Value :=
  .object [("dialect", .string r.dialect.name), ("json", .string r.document),
    ("query", .string r.query)]

def workflowRecord (r : WorkflowRequest) : Value :=
  .object [("json", .string r.document), ("steps", .array (r.steps.map stepRecord))]

def exploreRecord (r : ExploreRequest) : Value :=
  .object [("json", .string r.document), ("expression", .string r.expression)]

end Quarry.Request
