import Quarry.Json.Writer

/-!
# Events — what the engine reports about its work

An event is written as one line: a JSON object in printable ASCII, with a blank after each comma
and colon.  Texts of queries are cut to their first two hundred characters.  Some events come with
a duration in milliseconds, which is rounded to two places.
-/

namespace Quarry

/-- Something that happened, apart from how long it took. -/
inductive Event where
  | query (dialect query : String) (error : Option String)
  | stepStart (id kind : String)
  | stepComplete (id : String)
  | stepError (id error : String)
  | workflowComplete (status : String) (steps : Nat)
  | explore (expression : String) (found : Nat)
deriving DecidableEq

namespace Event

/-- How urgent an event is. -/
inductive Level where
  | debug | info | warning | error | critical
deriving DecidableEq

def Level.name : Level → String
  | .debug => "DEBUG"
  | .info => "INFO"
  | .warning => "WARNING"
  | .error => "ERROR"
  | .critical => "CRITICAL"

/-- Every level, the least urgent first. -/
def Level.all : List Level :=
  [.debug, .info, .warning, .error, .critical]

/-- The level of a given name. -/
def Level.ofName? (s : String) : Option Level :=
  all.find? (·.name = s)

/-- The place of a level in the order of urgency. -/
def Level.rank : Level → Nat
  | .debug => 0
  | .info => 1
  | .warning => 2
  | .error => 3
  | .critical => 4

/-- A failed step is a warning, everything else is information. -/
def level : Event → Level
  | stepError _ _ => .warning
  | _ => .info

/-- An event is reported if it is at least as urgent as a threshold. -/
def isReported (threshold : Level) (e : Event) : Bool :=
  threshold.rank ≤ e.level.rank

/-- The first two hundred characters. -/
def excerpt (s : String) : Value :=
  .string (String.ofList (s.toList.take 200))

/-- A duration rounded to hundredths; one that is given as an integer stays one. -/
def roundHundredths : Number → Number
  | .int n => .int n
  | .float (.finite x) =>
      let hundredths := Binary64.roundDiv (x.magnitude * 100) Binary64.unitsPerOne
      .float (.ofDecimal x.negative hundredths (-2))
  | .float x => .float x

/-- The member for a duration, if it is known. -/
def durationMember (duration : Option Number) : List (String × Value) :=
  match duration with
  | some d => [("duration_ms", .number (roundHundredths d))]
  | none => []

/-- The members of an event's record. -/
def members (duration : Option Number) : Event → List (String × Value)
  | query dialect text error =>
      [("event", .string "query"), ("dialect", .string dialect), ("query", excerpt text)]
        ++ durationMember duration
        ++ [("error", match error with | some e => .string e | none => .null)]
  | stepStart id kind =>
      [("event", .string "step_start"), ("step_id", .string id), ("step_kind", .string kind)]
  | stepComplete id =>
      [("event", .string "step_complete"), ("step_id", .string id)] ++ durationMember duration
  | stepError id error =>
      [("event", .string "step_error"), ("step_id", .string id), ("error", .string error)]
  | workflowComplete status steps =>
      [("event", .string "workflow_complete"), ("status", .string status),
        ("steps_run", .ofNat steps)] ++ durationMember duration
  | explore expression found =>
      [("event", .string "explore"), ("expression", excerpt expression),
        ("matches", .ofNat found)] ++ durationMember duration

/-- The text of a value in a line; records hold texts, numbers and null. -/
def writeScalar : Value → List Char
  | .string s => Text.quotedAscii s.toList
  | .number n => Json.writeNumber n
  | _ => ['n', 'u', 'l', 'l']

/-- The text of a member in a line. -/
def writeMember (m : String × Value) : List Char :=
  Text.quotedAscii m.1.toList ++ [':', ' '] ++ writeScalar m.2

/-- The line of an event. -/
def line (duration : Option Number) (e : Event) : String :=
  String.ofList
    ('\x7b' :: [',', ' '].intercalate ((e.members duration).map writeMember) ++ ['\x7d'])

end Event

end Quarry
