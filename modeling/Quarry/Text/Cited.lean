import Quarry.Text.Quoted
import Quarry.Text.Visible
import Quarry.Value.Basic

/-!
# Citations — how a message cites texts, spans of time and values

A cited text stands between single quotes, or between double quotes if it holds a single quote
and no double one.  What is not visible is written as an escape of two, four or eight digits.

A span of time is a number of minutes, cited as whole days and the seconds beyond them.

In a cited value texts stand in quotes, except where a text is cited alone; the constants are
`None`, `True` and `False`; items and members follow each other with a comma and a blank.
-/

namespace Quarry.Text

/-! ### Texts -/

/-- The form of a character inside the quotes `quote`. -/
def shownChar (quote c : Char) : List Char :=
  if c = quote || c = '\\' then ['\\', c]
  else if c = '\t' then ['\\', 't']
  else if c = '\n' then ['\\', 'n']
  else if c = '\r' then ['\\', 'r']
  else if isVisible c then [c]
  else if c.toNat < 0x100 then '\\' :: 'x' :: hex c.toNat 2
  else if c.toNat < 0x10000 then '\\' :: 'u' :: hex c.toNat 4
  else '\\' :: 'U' :: hex c.toNat 8

/-- A text as a message cites it. -/
def shown (s : String) : String :=
  let cs := s.toList
  let quote := if cs.contains '\x27' && !cs.contains '"' then '"' else '\x27'
  String.ofList (quote :: cs.flatMap (shownChar quote) ++ [quote])

/-! ### Spans of time -/

/-- A span of time in a message. -/
def citedSpan (minutes : Int) : String :=
  let days := minutes / 1440
  let seconds := minutes % 1440 * 60
  let parts :=
    (if days = 0 then [] else ["days=" ++ toString days])
      ++ (if seconds = 0 then [] else ["seconds=" ++ toString seconds])
  "datetime.timedelta(" ++ (if parts.isEmpty then "0" else ", ".intercalate parts) ++ ")"

/-! ### Values -/

mutual

/-- A value inside a citation. -/
def listed : Value → String
  | .null => "None"
  | .bool b => if b then "True" else "False"
  | .number n => String.ofList (n.textWith "inf" "nan")
  | .string s => shown s
  | .array items => "[" ++ ", ".intercalate (listedItems items) ++ "]"
  | .object members => "\x7b" ++ ", ".intercalate (listedMembers members) ++ "\x7d"

/-- Items inside a citation. -/
def listedItems : List Value → List String
  | [] => []
  | v :: vs => listed v :: listedItems vs

/-- Members inside a citation. -/
def listedMembers : List (String × Value) → List String
  | [] => []
  | (name, v) :: vs => (shown name ++ ": " ++ listed v) :: listedMembers vs

end

/-- A value cited alone. -/
def cited : Value → String
  | .string s => s
  | v => listed v

end Quarry.Text
