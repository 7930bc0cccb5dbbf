import Quarry.Criteria.Complaints
import Quarry.Navigation.Check
import Quarry.Pattern.Named
import Quarry.Request.Reader
import Quarry.Settings.Basic
import Quarry.Yaml.Datum

/-!
# Settings from text — the limits that a file sets

A settings text is a mapping from the names of settings to integers; a text that stands for
nothing sets none of them.  An integer may also be given as a truth value, as a double without
fraction, or as a text in decimal notation.  Other names are refused.

This is where the engine has its settings from when it runs, and with it come the other parts that
the engine then takes from outside: names, reports, a grammar and a validation.  No definition of
the engine and no statement about it depends on any of them.
-/

namespace Quarry.Settings
open Checked (complain within both)
open Yaml (Datum)

/-! ### Integers -/

/-- A text without the blanks at its ends; the information separators are no blanks here. -/
def trimmed (s : List Char) : List Char :=
  let isBlank := fun c => Text.isBlank c && !('\x1c' ≤ c && c ≤ '\x1f')
  ((s.dropWhile isBlank).reverse.dropWhile isBlank).reverse

/-- The text without leading zeros, of which the last one stays where nothing else would stand
for the number.  Underscores may stand among the zeros. -/
def dropZeros? : List Char → Option (List Char)
  | '0' :: s => some (afterZeros '0' s)
  | c :: s => if c = '-' || ('1' ≤ c && c ≤ '9') then some (c :: s) else none
  | [] => none
where
  /-- What is left after `last`, a zero or an underscore. -/
  afterZeros (last : Char) : List Char → List Char
    | [] => [last]
    | c :: s =>
        if c = '0' || c = '_' then afterZeros c s
        else if c = '.' then last :: c :: s
        else c :: s

/-- The text without a fraction of zeros. -/
def dropFraction (s : List Char) : List Char :=
  match s.span (· ≠ '.') with
  | (whole, '.' :: zeros) => if zeros.all (· = '0') then whole else s
  | _ => s

/-- The text without underscores, where each stands between two other characters. -/
def dropUnderscores (s : List Char) : List Char :=
  if s.head? = some '_' || s.getLast? = some '_' || Text.occurs ['_', '_'] s then s
  else s.filter (· ≠ '_')

/-- Decimal digits of which the first is a zero only if it is the last. -/
def isPlainNumeral : List Char → Bool
  | ['0'] => true
  | c :: s => '1' ≤ c && c ≤ '9' && s.all (fun c => '0' ≤ c && c ≤ '9')
  | [] => false

/-- The digits of an integer in decimal notation, and whether it is negative. -/
def integerDigits? (s : List Char) : Option (Bool × List Char) := do
  let s := trimmed s
  let s ← match s with
    | '+' :: '-' :: _ => none
    | '+' :: s => some s
    | s => some s
  let s := dropUnderscores (dropFraction (← dropZeros? s))
  let (negative, digits) := match s with
    | '-' :: s => (true, s)
    | s => (false, s)
  if isPlainNumeral digits then some (negative, digits) else none

/-- An integer from a text. -/
def checkText (s : String) : Checked Int :=
  match integerDigits? s.toList with
  | none => complain "Input should be a valid integer, unable to parse string as an integer"
  | some (negative, digits) =>
      if Number.digitLimit < digits.length then
        complain "Unable to parse input string as an integer, exceeded maximum size"
      else
        let n : Int := Text.naturalOf digits
        .ok (if negative then -n else n)

/-- An integer from a double. -/
def checkFloat : Binary64 → Checked Int
  | .finite x =>
      match x.toInt? with
      | none => complain "Input should be a valid integer, got a number with a fractional part"
      | some n =>
          if n.natAbs < Number.machineBound then .ok n
          else complain "Unable to parse input string as an integer, exceeded maximum size"
  | _ => complain "Input should be a finite number"

/-- An integer from a datum. -/
def checkInteger : Datum → Checked Int
  | .truth b => .ok (if b then 1 else 0)
  | .number (.int n) => .ok n
  | .number (.float x) => checkFloat x
  | .text s => checkText s
  | _ => complain "Input should be a valid integer"

/-- An integer from `least` to `most`, if there is a greatest. -/
def checkBetween (least : Nat) (most : Option Nat) (d : Datum) : Checked Nat := do
  let n ← checkInteger d
  if most.any fun (m : Nat) => decide ((m : Int) < n) then
    complain ("Input should be less than or equal to " ++ toString (most.getD 0))
  else if n < least then complain ("Input should be greater than or equal to " ++ toString least)
  else return n.toNat

/-! ### Mappings -/

/-- The value of a name in a mapping. -/
def valueOf? (entries : List (Datum × Datum)) (name : String) : Option Datum :=
  (entries.find? fun (k, _) => k.sameKey (.text name)).map Prod.snd

/-- A setting, or its default. -/
def checkSetting (entries : List (Datum × Datum)) (name : String) (default least : Nat)
    (most : Option Nat) : Checked Nat :=
  match valueOf? entries name with
  | some d => within name (checkBetween least most d)
  | none => .ok default

/-- The names of the settings. -/
def names : List String := ["max_depth", "expression_budget", "indent"]

/-- A key of a mapping in the place of a complaint. -/
def citedKey : Datum → String
  | .text s => s
  | .truth b => if b then "1" else "0"
  | .number n => String.ofList (n.textWith "inf" "nan")
  | .instant t => t.cited
  | _ => "None"

/-- The complaint about a key that is not the name of a setting. -/
def keyComplaint? : Datum → Option Complaint
  | .text s => if names.contains s then none else some ⟨[s], "Extra inputs are not permitted"⟩
  | d => some ⟨[citedKey d], "Keys should be strings"⟩

/-- No other names than those of the settings. -/
def checkKeys (entries : List (Datum × Datum)) : Checked Unit :=
  match entries.filterMap fun (k, _) => keyComplaint? k with
  | [] => .ok ()
  | complaints => .error complaints

/-- The settings in a mapping.  Complaints about values come before those about names. -/
def check (entries : List (Datum × Datum)) : Checked Settings :=
  let defaults : Settings := {}
  both (fun settings _ => settings)
    (both (fun maxDepth (budget, indent) => { maxDepth, budget, indent })
      (checkSetting entries "max_depth" defaults.maxDepth 1 (some 10000))
      (both Prod.mk
        (checkSetting entries "expression_budget" defaults.budget 1 none)
        (checkSetting entries "indent" defaults.indent 0 (some 8))))
    (checkKeys entries)

instance : Source where
  Entries := List (Datum × Datum)
  load text := do
    match ← Yaml.read text with
    | .null => return .nothing
    | .mapping entries => return .mapping entries
    | d => return .other d.typeName
  check := check

end Quarry.Settings
