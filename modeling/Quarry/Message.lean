import Quarry.Fault
import Quarry.Text.Cited

/-!
# Messages — the wording of every fault

Each type of causes has one function that words it; `Fault.message` joins them.

Where a text is refused by a library, the library's own words stand behind a colon at the end of the
message.  They are left out here: for a navigation (`notJsonata`), a pattern (`badPattern`), a
document of the wrong shape (`badShape`), and settings that cannot be read or hold a wrong value
(`SettingsFault.notYaml`, `SettingsFault.invalid`).
-/

namespace Quarry

/-- The wording of a break of the JSON grammar. -/
def JsonCause.message : JsonCause → String
  | .byteOrderMark => "Unexpected UTF-8 BOM (decode using utf-8-sig)"
  | .valueExpected => "Expecting value"
  | .nameExpected => "Expecting property name enclosed in double quotes"
  | .colonExpected => "Expecting ':' delimiter"
  | .commaExpected => "Expecting ',' delimiter"
  | .extraData => "Extra data"
  | .unterminatedString => "Unterminated string starting at"
  | .controlCharacter => "Invalid control character at"
  | .badEscape => "Invalid \\escape"
  | .badUnicodeEscape => "Invalid \\uXXXX escape"

/-- The wording of the limit on decimal digits; `found` is how many there are, if known. -/
def digitLimitMessage (found : Option Nat) : String :=
  "Exceeds the limit (4300 digits) for integer string conversion"
    ++ (match found with
        | some n => ": value has " ++ toString n ++ " digits"
        | none => "")
    ++ "; use sys.set_int_max_str_digits() to increase the limit"

/-- The wording of a refused document. -/
def JsonFault.documentMessage : JsonFault → String
  | .malformed cause place =>
      cause.message ++ " at line " ++ toString place.line ++ ", column " ++ toString place.column
        ++ " (position " ++ toString place.offset ++ ")"
  | .constant name => name ++ " is not a valid JSON value"
  | .longInteger digits => digitLimitMessage (some digits)

/-- The wording of a refused JSON text that is not the document. -/
def JsonFault.message : JsonFault → String
  | .malformed cause place =>
      cause.message ++ ": line " ++ toString place.line ++ " column " ++ toString place.column
        ++ " (char " ++ toString place.offset ++ ")"
  | .constant name => name ++ " is not a valid JSON value"
  | .longInteger digits => digitLimitMessage (some digits)

def NumberFault.message : NumberFault → String
  | .integerTooLarge => "int too large to convert to float"
  | .quotientTooLarge => "integer division result too large for a float"
  | .sumOverflow => "intermediate overflow in fsum"
  | .oppositeInfinities => "-inf + inf in fsum"
  | .infiniteFloor => "cannot convert float infinity to integer"
  | .remainderOfInfinity => "math domain error"
  | .longNumeral digits => digitLimitMessage (some digits)
  | .longInteger => digitLimitMessage none

def NestingFault.message : NestingFault → String
  | .unbalanced closer offset =>
      "Unbalanced '" ++ String.singleton closer ++ "' at position " ++ toString offset
  | .openString text => "Unterminated string literal in '" ++ text ++ "'"
  | .unclosed opener text => "Unclosed '" ++ String.singleton opener ++ "' in '" ++ text ++ "'"

def PathFault.message : PathFault → String
  | .unexpected char offset text =>
      "Unexpected '" ++ String.singleton char ++ "' at position " ++ toString offset
        ++ " in path '" ++ text ++ "'"
  | .emptyBrackets text => "Empty brackets in path '" ++ text ++ "'"
  | .negativeIndex inner text =>
      "Negative index [" ++ inner ++ "] is not supported in path '" ++ text ++ "'"
  | .slice inner text => "Slice [" ++ inner ++ "] is not supported in path '" ++ text ++ "'"
  | .badIndex inner text => "Invalid index [" ++ inner ++ "] in path '" ++ text ++ "'"
  | .emptySegment text => "Empty segment in path '" ++ text ++ "'"
  | .missingDot token text => "Missing '.' before '" ++ token ++ "' in path '" ++ text ++ "'"
  | .trailingDot text => "Path '" ++ text ++ "' ends with '.'"

def FilterFault.message : FilterFault → String
  | .badPath text cause => "Invalid path '" ++ text ++ "': " ++ cause.message
  | .unsupportedCondition text => "Unsupported select condition: '" ++ text ++ "'"
  | .unknownStage text => "Unknown jq stage: '" ++ text ++ "'"
  | .emptyStage text => "Empty stage in jq filter '" ++ text ++ "'"
  | .unknownBuiltin name => "Unknown jq builtin: '" ++ name ++ "'"

def NavigationFault.message : NavigationFault → String
  | .notJsonata text => "Invalid JSONata expression '" ++ text ++ "'"
  | .unsupportedPredicate inner => "Unsupported predicate: '[" ++ inner ++ "]'"
  | .emptySegment path => "Empty segment in JSONata path '" ++ path ++ "'"

def CriteriaFault.message : CriteriaFault → String
  | .notJson cause => "Invalid MongoDB query: " ++ cause.message
  | .badShape location =>
      "Invalid MongoDB query at "
        ++ (match location with
            | [] => "query"
            | [""] => "query"
            | parts => "/".intercalate parts)
  | .badPattern pattern => "Invalid MongoDB query: bad $regex '" ++ pattern ++ "'"
  | .unknownOperator name => "Unknown MongoDB operator: " ++ name
  | .missingPattern pattern => "Unknown $regex '" ++ pattern ++ "'"

def ExprFault.message : ExprFault → String
  | .unexpectedCharacter offset char =>
      "Unexpected character at position " ++ toString offset ++ ": "
        ++ Text.shown (String.singleton char)
  | .expected type offset got =>
      "Expected " ++ type ++ " at position " ++ toString offset ++ ", got " ++ Text.shown got
  | .expectedKeyword word offset got =>
      "Expected '" ++ word ++ "' at position " ++ toString offset ++ ", got " ++ Text.shown got
  | .unexpected got offset =>
      "Unexpected " ++ Text.shown got ++ " at position " ++ toString offset
  | .keyExpected offset => "Expected an object key at position " ++ toString offset
  | .computedKeyAlone offset => "Computed key needs a value at position " ++ toString offset
  | .unexpectedKeyword word offset =>
      "Unexpected keyword '" ++ word ++ "' at position " ++ toString offset
  | .unknownFunction name offset =>
      "Unknown function '" ++ name ++ "' at position " ++ toString offset
  | .argumentCount name allowed got =>
      "Function '" ++ name ++ "' takes " ++ " or ".intercalate (allowed.map toString)
        ++ " argument(s), got " ++ toString got
  | .notFinite => "Arithmetic result is not a finite number"
  | .divisionByZero operator => "Division by zero in '" ++ operator ++ "'"
  | .cannotApply operator left right =>
      "Cannot apply '" ++ operator ++ "' to " ++ left.name ++ " and " ++ right.name
  | .overBudget budget =>
      "Expression exceeded its budget of " ++ toString budget ++ " evaluation steps"
  | .cannotNegate kind => "Cannot negate " ++ kind.name
  | .keyNotString kind => "Object keys must be strings, got " ++ kind.name
  | .cannotIndex target index => "Cannot index " ++ target.name ++ " with " ++ index.name
  | .cannotCheck target key => "Cannot check " ++ target.name ++ " for a " ++ key.name ++ " key"
  | .badJoin => "join expects an array input and a string separator"
  | .badSum => "sum expects numbers"
  | .cannotConvert kind => "Cannot convert " ++ kind.name ++ " to a number"
  | .cannotRound kind => "Cannot round " ++ kind.name

def StepFault.message : StepFault → String
  | .arrayRequired kind got => kind ++ " requires an array, got " ++ got.name
  | .badRename entry => "Invalid rename '" ++ entry ++ "', expected old:new"
  | .badProjection entry => "Invalid map entry '" ++ entry ++ "', expected source[:target]"
  | .badDirection word => "Unknown sort direction '" ++ word ++ "', expected asc or desc"

def QueryFault.message : QueryFault → String
  | .nesting cause => cause.message
  | .path cause => cause.message
  | .filter cause => cause.message
  | .navigation cause => cause.message
  | .criteria cause => cause.message
  | .expression cause => cause.message
  | .step cause => cause.message
  | .recursiveDescent text => "Recursive descent is not supported: '" ++ text ++ "'"
  | .unknownDialect name => "Unknown query dialect: " ++ name

def OptionFault.message : OptionFault → String
  | .unknownLetter letter => Text.shown letter
  | .unknownEntry shown => shown
  | .notSequence type => "'" ++ type ++ "' object is not iterable"
  | .notComparable type => "unhashable type: '" ++ type ++ "'"

def PatternFault.message : PatternFault → String
  | .repetitionTooLarge => "the repetition number is too large"
  | .longCount digits => digitLimitMessage (some digits)
  | .codeTooLarge => "Python int too large to convert to C int"
  | .mixedAlphabets => "ASCII and UNICODE flags are incompatible"

/-- Complaints one after another, each with its place. -/
def Complaint.list (complaints : List Complaint) (whole : String) : List String :=
  complaints.map fun c =>
    (if c.location.isEmpty then whole else ".".intercalate c.location) ++ ": " ++ c.text

def ScalarFault.message : ScalarFault → String
  | .notInteger text base =>
      "invalid literal for int() with base " ++ toString base ++ ": " ++ Text.shown text
  | .notFloat text => "could not convert string to float: " ++ Text.shown text
  | .notTruth text => Text.shown text
  | .noNumber => "string index out of range"
  | .notTime => "'NoneType' object has no attribute 'groupdict'"
  | .yearOutOfRange year => "year " ++ toString year ++ " is out of range"
  | .monthOutOfRange => "month must be in 1..12"
  | .dayOutOfRange => "day is out of range for month"
  | .hourOutOfRange => "hour must be in 0..23"
  | .minuteOutOfRange => "minute must be in 0..59"
  | .secondOutOfRange => "second must be in 0..59"
  | .offsetOutOfRange minutes =>
      "offset must be a timedelta strictly between -timedelta(hours=24) and "
        ++ "timedelta(hours=24), not " ++ Text.citedSpan minutes ++ "."
  | .codeTooLarge => "Python int too large to convert to C int"
  | .notCodePoint => "chr() arg not in range(0x110000)"

def SettingsFault.message : SettingsFault → String
  | .missing => "Settings file not found: settings.yaml"
  | .notYaml => "Invalid YAML in settings.yaml"
  | .notMapping type => "Settings YAML must be a mapping, got " ++ type
  | .invalid _ => "Settings invalid"
  | .scalar cause => cause.message

/-- The wording of a step's failure. -/
def stepFailure (id message : String) : String :=
  "Step '" ++ id ++ "' failed: " ++ message

/-- The wording of a fault. -/
def Fault.message : Fault → String
  | .document cause => cause.documentMessage
  | .query cause => cause.message
  | .tooDeep limit => "Maximum nesting depth of " ++ toString limit ++ " exceeded"
  | .number cause => cause.message
  | .option cause => cause.message
  | .pattern cause => cause.message
  | .quotedText cause => cause.message
  | .unknownStep id kind => stepFailure id ("Unknown step kind: " ++ kind)
  | .request complaints =>
      "Invalid request: " ++ "; ".intercalate (Complaint.list complaints "request")
  | .settings cause => cause.message
  | .repeatedName => "JsonObject keys must be unique"
  | .unknownRelation name => "Unknown comparison operator: " ++ name

/-- The category of a number that left its range. -/
def NumberFault.category : NumberFault → String
  | .integerTooLarge | .quotientTooLarge | .sumOverflow | .infiniteFloor => "OverflowError"
  | .oppositeInfinities | .remainderOfInfinity | .longNumeral _ | .longInteger => "ValueError"

/-- The category of a fault in pattern options. -/
def OptionFault.category : OptionFault → String
  | .unknownLetter _ | .unknownEntry _ => "KeyError"
  | .notSequence _ | .notComparable _ => "TypeError"

/-- The category of a pattern beyond the limits. -/
def PatternFault.category : PatternFault → String
  | .repetitionTooLarge | .codeTooLarge => "OverflowError"
  | .longCount _ | .mixedAlphabets => "ValueError"

/-- The category of a scalar that does not keep its announcement. -/
def ScalarFault.category : ScalarFault → String
  | .notTruth _ => "KeyError"
  | .noNumber => "IndexError"
  | .notTime => "AttributeError"
  | .codeTooLarge => "OverflowError"
  | _ => "ValueError"

/-- The category under which a fault is reported. -/
def Fault.category : Fault → String
  | .document _ => "ParseError"
  | .query _ => "QueryError"
  | .tooDeep _ => "DepthExceeded"
  | .number cause => cause.category
  | .option cause => cause.category
  | .pattern cause => cause.category
  | .quotedText (.malformed _ _) => "JSONDecodeError"
  | .quotedText _ => "ValueError"
  | .unknownStep _ _ => "StepError"
  | .request _ => "ValidationError"
  | .settings (.scalar cause) => cause.category
  | .settings _ => "ConfigError"
  | .repeatedName => "ValueError"
  | .unknownRelation _ => "ValueError"

end Quarry
