/-!
# Faults — everything that can go wrong, by cause

Each capability has its own type of causes; `Fault` is their sum, sorted the way a caller sees
them: a document that cannot be read, a query that is wrong, a limit that was passed, a number
that left its range, a step that failed, settings that were refused.  The wording is in
`Quarry.Message`.

A record is checked part by part.  Where one part is wrong the others are checked all the same, so
that one answer lists all complaints, each with its place (`Checked`).
-/

namespace Quarry

/-- The six kinds of value. -/
inductive Kind where
  | null | bool | number | string | array | object
deriving DecidableEq

def Kind.name : Kind → String
  | .null => "null"
  | .bool => "bool"
  | .number => "number"
  | .string => "string"
  | .array => "array"
  | .object => "object"

/-- A place in a text: code points from its start, and line and column counted from one. -/
structure Position where
  offset : Nat
  line : Nat
  column : Nat
deriving DecidableEq

/-- The place that follows the first `offset` characters of `text`. -/
def Position.after (text : List Char) (offset : Nat) : Position :=
  let before := text.take offset
  ⟨offset, before.count '\n' + 1, (before.reverse.takeWhile (· ≠ '\n')).length + 1⟩

/-- What a JSON text can break. -/
inductive JsonCause where
  | byteOrderMark
  | valueExpected
  | nameExpected
  | colonExpected
  | commaExpected
  | extraData
  | unterminatedString
  | controlCharacter
  | badEscape
  | badUnicodeEscape
deriving DecidableEq

/-- Why a JSON text was refused. -/
inductive JsonFault where
  | malformed (cause : JsonCause) (place : Position)
  | constant (name : String)
  | longInteger (digits : Nat)
deriving DecidableEq

/-- Numbers that leave their range. -/
inductive NumberFault where
  /-- An integer beyond every double. -/
  | integerTooLarge
  /-- A quotient of integers beyond every double. -/
  | quotientTooLarge
  /-- A partial sum beyond every double. -/
  | sumOverflow
  /-- A sum of both infinities. -/
  | oppositeInfinities
  /-- The whole part of an infinity. -/
  | infiniteFloor
  /-- The remainder of an infinity. -/
  | remainderOfInfinity
  /-- An integer with too many digits to be read. -/
  | longNumeral (digits : Nat)
  /-- An integer with too many digits to be written. -/
  | longInteger
deriving DecidableEq

/-- What balanced cutting can find wrong. -/
inductive NestingFault where
  | unbalanced (closer : Char) (offset : Nat)
  | openString (text : String)
  | unclosed (opener : Char) (text : String)
deriving DecidableEq

/-- What path text can break. -/
inductive PathFault where
  | unexpected (char : Char) (offset : Nat) (text : String)
  | emptyBrackets (text : String)
  | negativeIndex (inner text : String)
  | slice (inner text : String)
  | badIndex (inner text : String)
  | emptySegment (text : String)
  | missingDot (token text : String)
  | trailingDot (text : String)
deriving DecidableEq

/-- Causes of a refused filter. -/
inductive FilterFault where
  | badPath (text : String) (cause : PathFault)
  | unsupportedCondition (text : String)
  | unknownStage (text : String)
  | emptyStage (text : String)
  | unknownBuiltin (name : String)
deriving DecidableEq

/-- Causes of a refused navigation. -/
inductive NavigationFault where
  | notJsonata (text : String)
  | unsupportedPredicate (inner : String)
  | emptySegment (path : String)
deriving DecidableEq

/-- Causes of a refused match document. -/
inductive CriteriaFault where
  | notJson (cause : JsonFault)
  | badShape (location : List String)
  | badPattern (pattern : String)
  | unknownOperator (name : String)
  | missingPattern (pattern : String)
deriving DecidableEq

/-- Causes of a refused or failed expression. -/
inductive ExprFault where
  | unexpectedCharacter (offset : Nat) (char : Char)
  | expected (type : String) (offset : Nat) (got : String)
  | expectedKeyword (word : String) (offset : Nat) (got : String)
  | unexpected (got : String) (offset : Nat)
  | keyExpected (offset : Nat)
  | computedKeyAlone (offset : Nat)
  | unexpectedKeyword (word : String) (offset : Nat)
  | unknownFunction (name : String) (offset : Nat)
  | argumentCount (name : String) (allowed : List Nat) (got : Nat)
  | notFinite
  | divisionByZero (operator : String)
  | cannotApply (operator : String) (left right : Kind)
  | overBudget (budget : Nat)
  | cannotNegate (kind : Kind)
  | keyNotString (kind : Kind)
  | cannotIndex (target index : Kind)
  | cannotCheck (target key : Kind)
  | badJoin
  | badSum
  | cannotConvert (kind : Kind)
  | cannotRound (kind : Kind)
deriving DecidableEq

/-- Causes of a step that cannot be carried out. -/
inductive StepFault where
  | arrayRequired (kind : String) (got : Kind)
  | badRename (entry : String)
  | badProjection (entry : String)
  | badDirection (word : String)
deriving DecidableEq

/-- A query that is wrong in itself or for the value it meets. -/
inductive QueryFault where
  | nesting (cause : NestingFault)
  | path (cause : PathFault)
  | filter (cause : FilterFault)
  | navigation (cause : NavigationFault)
  | criteria (cause : CriteriaFault)
  | expression (cause : ExprFault)
  | step (cause : StepFault)
  | recursiveDescent (text : String)
  | unknownDialect (name : String)
deriving DecidableEq

/-- Faults in the options that accompany a text pattern. -/
inductive OptionFault where
  /-- A letter, or a text in the place of a letter, that names no option. -/
  | unknownLetter (letter : String)
  /-- An entry in the place of a letter that has no text, given as it is written. -/
  | unknownEntry (shown : String)
  /-- Options held by a value without parts; the text names its type. -/
  | notSequence (type : String)
  /-- Options that cannot be remembered; the text names their type. -/
  | notComparable (type : String)
deriving DecidableEq

/-- Text patterns that are beyond the limits of the matcher. -/
inductive PatternFault where
  /-- A part is to be repeated more often than can be counted. -/
  | repetitionTooLarge
  /-- A count with too many digits to be read. -/
  | longCount (digits : Nat)
  /-- The number of a character is beyond every machine integer. -/
  | codeTooLarge
  /-- Both the small and the large alphabet are asked for. -/
  | mixedAlphabets
deriving DecidableEq

/-- A refused entry of a structured record: where it is and what is wrong with it. -/
structure Complaint where
  location : List String
  text : String
deriving DecidableEq

/-- A checked part of a record, or everything that is wrong with it. -/
abbrev Checked := Except (List Complaint)

namespace Checked

/-- A single complaint about the part itself. -/
def complain {α : Type} (text : String) : Checked α :=
  .error [⟨[], text⟩]

/-- The complaints of a part seen from outside. -/
def within {α : Type} (place : String) (a : Checked α) : Checked α :=
  a.mapError fun complaints => complaints.map fun c => { c with location := place :: c.location }

/-- Both parts; all complaints count. -/
def both {α β γ : Type} (f : α → β → γ) (a : Checked α) (b : Checked β) : Checked γ :=
  match a, b with
  | .ok x, .ok y => .ok (f x y)
  | .error c, .ok _ => .error c
  | .ok _, .error d => .error d
  | .error c, .error d => .error (c ++ d)

end Checked

/-- Scalars of a settings text that do not write a value of the type they announce. -/
inductive ScalarFault where
  | notInteger (text : String) (base : Nat)
  | notFloat (text : String)
  | notTruth (text : String)
  /-- Nothing stands where a number is announced. -/
  | noNumber
  | notTime
  | yearOutOfRange (year : Nat)
  | monthOutOfRange
  | dayOutOfRange
  | hourOutOfRange
  | minuteOutOfRange
  | secondOutOfRange
  /-- A clock that is a day or more away from the common one. -/
  | offsetOutOfRange (minutes : Int)
  /-- An escape with a number beyond every machine integer. -/
  | codeTooLarge
  /-- An escape with a number beyond every code point. -/
  | notCodePoint
deriving DecidableEq

/-- Why settings were refused. -/
inductive SettingsFault where
  | missing
  | notYaml
  | notMapping (type : String)
  | invalid (complaints : List Complaint)
  | scalar (cause : ScalarFault)
deriving DecidableEq

/-- Everything that can go wrong. -/
inductive Fault where
  | document (cause : JsonFault)
  | query (cause : QueryFault)
  | tooDeep (limit : Nat)
  | number (cause : NumberFault)
  | option (cause : OptionFault)
  | pattern (cause : PatternFault)
  /-- A quoted text of an expression with a wrong escape. -/
  | quotedText (cause : JsonFault)
  /-- A step of a kind that does not exist. -/
  | unknownStep (id kind : String)
  | request (complaints : List Complaint)
  | settings (cause : SettingsFault)
  /-- An object built from members with a repeated name. -/
  | repeatedName
  /-- A comparison by a relation that does not exist. -/
  | unknownRelation (name : String)
deriving DecidableEq

end Quarry
