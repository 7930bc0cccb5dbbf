import Quarry.Step.Basic

/-!
# Requests — what a caller can ask for

A request comes as a record.  Which records are requests, and which fields they may leave out, is
decided before the engine sees them, by a `Validation` that comes from outside.
-/

namespace Quarry

/-- The query languages. -/
inductive Dialect where
  | jq | jsonata | mongodb
deriving DecidableEq

def Dialect.name : Dialect → String
  | .jq => "jq"
  | .jsonata => "jsonata"
  | .mongodb => "mongodb"

def Dialect.all : List Dialect :=
  [.jq, .jsonata, .mongodb]

/-- The query language of a given name. -/
def Dialect.ofName? (s : String) : Option Dialect :=
  all.find? (·.name = s)

/-- A query against a document. -/
structure QueryRequest where
  dialect : Dialect
  document : String
  query : String

/-- Steps to run on a document. -/
structure WorkflowRequest where
  document : String
  steps : List Step

/-- Places to look for in a document. -/
structure ExploreRequest where
  document : String
  expression : String

namespace Request

/-- The check of records: each is a request of the kind, or everything is listed that is wrong with
it. -/
class Validation where
  query : Value → Checked QueryRequest
  workflow : Value → Checked WorkflowRequest
  explore : Value → Checked ExploreRequest

/-- A checked record, all complaints making one fault. -/
def accepted {α : Type} (a : Checked α) : Except Fault α :=
  a.mapError Fault.request

end Request

end Quarry
