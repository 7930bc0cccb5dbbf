import Quarry.Fault
import Quarry.Text.Cited
import Quarry.Text.Numeral

/-!
# Instants — days, and moments of a day

A day is year, month and day with hyphens between them.  A moment adds hours, minutes and seconds
with colons, perhaps a fraction, and perhaps the distance of its clock from the common one, or
the letter `Z` for no distance.
-/

namespace Quarry.Yaml

structure Day where
  year : Nat
  month : Nat
  day : Nat
deriving DecidableEq

structure Clock where
  hour : Nat
  minute : Nat
  second : Nat
  microsecond : Nat := 0
  /-- The minutes by which the clock is ahead of the common one. -/
  ahead : Option Int := none
deriving DecidableEq

inductive Instant where
  | day (d : Day)
  | moment (d : Day) (c : Clock)
deriving DecidableEq

/-! ### The calendar -/

def isLeapYear (year : Nat) : Bool :=
  year % 4 = 0 && (year % 100 ≠ 0 || year % 400 = 0)

def daysIn (year month : Nat) : Nat :=
  if month = 2 then (if isLeapYear year then 29 else 28)
  else if [4, 6, 9, 11].contains month then 30
  else 31

/-- What is wrong with a day. -/
def Day.fault? (d : Day) : Option ScalarFault :=
  if d.year = 0 then some (.yearOutOfRange 0)
  else if d.month = 0 || 12 < d.month then some .monthOutOfRange
  else if d.day = 0 || daysIn d.year d.month < d.day then some .dayOutOfRange
  else none

/-- What is wrong with the distance of a clock from the common one. -/
def Clock.aheadFault? (c : Clock) : Option ScalarFault :=
  match c.ahead with
  | some minutes => if 1440 ≤ minutes.natAbs then some (.offsetOutOfRange minutes) else none
  | none => none

/-- What is wrong with the time of a clock. -/
def Clock.timeFault? (c : Clock) : Option ScalarFault :=
  if 23 < c.hour then some .hourOutOfRange
  else if 59 < c.minute then some .minuteOutOfRange
  else if 59 < c.second then some .secondOutOfRange
  else none

/-- What is wrong with an instant. -/
def Instant.fault? : Instant → Option ScalarFault
  | .day d => d.fault?
  | .moment d c => c.aheadFault? <|> d.fault? <|> c.timeFault?

/-! ### Reading -/

def isDecimal (c : Char) : Bool :=
  '0' ≤ c && c ≤ '9'

/-- A number of `least` to `most` digits, all that there are. -/
def digits? (least most : Nat) (s : List Char) : Option (Nat × List Char) :=
  let (digits, rest) := s.span isDecimal
  if least ≤ digits.length && digits.length ≤ most then some (Text.naturalOf digits, rest)
  else none

/-- What comes after the character `c`. -/
def after? (c : Char) : List Char → Option (List Char)
  | d :: s => if d = c then some s else none
  | [] => none

def skipBlanks (s : List Char) : List Char :=
  s.dropWhile fun c => c = ' ' || c = '\t'

/-- A day, whose month and day have `least` digits or two. -/
def day? (least : Nat) (s : List Char) : Option (Day × List Char) := do
  let (year, s) ← digits? 4 4 s
  let (month, s) ← digits? least 2 (← after? '-' s)
  let (day, s) ← digits? least 2 (← after? '-' s)
  return (⟨year, month, day⟩, s)

/-- The microseconds of the fraction that may follow, and what comes after it. -/
def microseconds : List Char → Nat × List Char
  | '.' :: s =>
      let (digits, rest) := s.span isDecimal
      (Text.naturalOf ((digits ++ List.replicate 6 '0').take 6), rest)
  | s => (0, s)

/-- The distance from the common clock that fills `s`; an empty `s` tells none. -/
def ahead? (s : List Char) : Option (Option Int) :=
  if s.isEmpty then some none
  else
    match skipBlanks s with
    | ['Z'] => some (some 0)
    | c :: s => do
        guard (c = '+' || c = '-')
        let (hours, s) ← digits? 1 2 s
        let minutes ← match s with
          | [] => some 0
          | _ => do
              let (minutes, s) ← digits? 2 2 (← after? ':' s)
              guard s.isEmpty
              some minutes
        let distance : Int := (60 * hours + minutes : Nat)
        return some (if c = '-' then -distance else distance)
    | [] => none

/-- What separates the time from the day. -/
def timeAfter? : List Char → Option (List Char)
  | c :: s =>
      if c = 'T' || c = 't' then some s
      else if c = ' ' || c = '\t' then some (skipBlanks s)
      else none
  | [] => none

/-- The time that fills `s`. -/
def clock? (s : List Char) : Option Clock := do
  let (hour, s) ← digits? 1 2 s
  let (minute, s) ← digits? 2 2 (← after? ':' s)
  let (second, s) ← digits? 2 2 (← after? ':' s)
  let (microsecond, s) := microseconds s
  let ahead ← ahead? s
  return { hour, minute, second, microsecond, ahead }

/-- The instant that fills `s`; the month and the day of a day alone have `least` digits or two. -/
def instant? (least : Nat) (s : List Char) : Option Instant := do
  let (d, rest) ← day? 1 s
  match rest with
  | [] => return .day (← day? least s).1
  | _ => return .moment d (← clock? (← timeAfter? rest))

/-! ### Citing -/

/-- The citation of the distance of a clock from the common one. -/
def citedAhead (minutes : Int) : String :=
  if minutes = 0 then "datetime.timezone.utc"
  else "datetime.timezone(" ++ Text.citedSpan minutes ++ ")"

/-- An instant in a message; trailing parts that are zero are left out after the minutes. -/
def Instant.cited : Instant → String
  | .day d =>
      "datetime.date(" ++ ", ".intercalate ([d.year, d.month, d.day].map toString) ++ ")"
  | .moment d c =>
      let seconds :=
        if c.microsecond ≠ 0 then [c.second, c.microsecond]
        else if c.second ≠ 0 then [c.second]
        else []
      let parts := ([d.year, d.month, d.day, c.hour, c.minute] ++ seconds).map toString
      let zone := match c.ahead with
        | some minutes => ["tzinfo=" ++ citedAhead minutes]
        | none => []
      "datetime.datetime(" ++ ", ".intercalate (parts ++ zone) ++ ")"

end Quarry.Yaml
