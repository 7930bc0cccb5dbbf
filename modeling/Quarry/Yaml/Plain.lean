import Quarry.Text.Class
import Quarry.Text.Cut
import Quarry.Text.Numeral
import Quarry.Text.Quoted
import Quarry.Yaml.Instant

/-!
# Plain scalars — what unquoted text stands for

A tag says what a node stands for.  A plain scalar is a truth word, a number, an instant or
nothing if its text fits that notation, and a text if it fits none.

Integers are written in base ten, two, eight or sixteen, or in groups of base sixty with colons
between them.  Doubles have a point, and an exponent only with its sign.  Underscores do not
count.
-/

namespace Quarry.Yaml

/-- What a node stands for. -/
inductive Tag where
  | null
  | truth
  | integer
  | float
  | instant
  | text
  | sequence
  | mapping
  | set
  /-- A sequence of entries. -/
  | entries
  /-- The key under which the entries of another mapping are taken over. -/
  | merge
  /-- The key of a default value. -/
  | default
  | unknown
deriving DecidableEq

/-- The usual tags by their names. -/
def Tag.named : List (String × Tag) :=
  [("null", .null), ("bool", .truth), ("int", .integer), ("float", .float),
    ("timestamp", .instant), ("str", .text), ("seq", .sequence), ("map", .mapping),
    ("set", .set), ("omap", .entries), ("pairs", .entries), ("merge", .merge),
    ("value", .default)]

/-- The start of the usual tags. -/
def Tag.usualStart : String := "tag:yaml.org,2002:"

/-- The tag with this text. -/
def Tag.ofText (text : String) : Tag :=
  match Tag.named.find? fun (name, _) => Tag.usualStart ++ name = text with
  | some (_, tag) => tag
  | none => .unknown

/-! ### Notations -/

def truthWords : List String :=
  ["yes", "Yes", "YES", "no", "No", "NO", "true", "True", "TRUE", "false", "False", "FALSE",
    "on", "On", "ON", "off", "Off", "OFF"]

def nullWords : List String := ["", "~", "null", "Null", "NULL"]

def infinityWords : List String := [".inf", ".Inf", ".INF"]

def nanWords : List String := [".nan", ".NaN", ".NAN"]

def isDecimalPart (c : Char) : Bool :=
  isDecimal c || c = '_'

/-- What comes after one group of base sixty with its colon. -/
def dropGroup? : List Char → Option (List Char)
  | ':' :: a :: b :: s =>
      if isDecimal b then (if '0' ≤ a && a ≤ '5' then some s else none)
      else if isDecimal a then some (b :: s)
      else none
  | [':', a] => if isDecimal a then some [] else none
  | _ => none

/-- What comes after all groups of base sixty, of which there is at least one. -/
def dropGroups? : (fuel : Nat) → List Char → Option (List Char)
  | 0, _ => none
  | fuel + 1, s => do
      let rest ← dropGroup? s
      match rest with
      | ':' :: _ => dropGroups? fuel rest
      | _ => return rest

/-- The text writes an integer. -/
def writesInteger (s : List Char) : Bool :=
  match (Text.signed s).2 with
  | '0' :: 'b' :: ds => !ds.isEmpty && ds.all fun c => c = '0' || c = '1' || c = '_'
  | '0' :: 'x' :: ds => !ds.isEmpty && ds.all fun c => (Text.hexValue? c).isSome || c = '_'
  | '0' :: ds => ds.all fun c => ('0' ≤ c && c ≤ '7') || c = '_'
  | c :: ds =>
      isDecimal c
        && (match ds.dropWhile isDecimalPart with
            | [] => true
            | rest => dropGroups? rest.length rest = some [])
  | [] => false

/-- Nothing, or an exponent with its sign. -/
def isExponent : List Char → Bool
  | [] => true
  | e :: sign :: ds =>
      (e = 'e' || e = 'E') && (sign = '+' || sign = '-') && !ds.isEmpty && ds.all isDecimal
  | _ => false

/-- The text writes a double. -/
def writesFloat (s : List Char) : Bool :=
  let body := (Text.signed s).2
  infinityWords.contains (String.ofList body) || nanWords.contains (String.ofList s)
    || match body with
       | '.' :: c :: ds =>
           body.length = s.length && isDecimal c && isExponent (ds.dropWhile isDecimalPart)
       | c :: ds =>
           isDecimal c
             && (match ds.dropWhile isDecimalPart with
                 | '.' :: more => isExponent (more.dropWhile isDecimalPart)
                 | rest =>
                     match dropGroups? rest.length rest with
                     | some ('.' :: more) => more.all isDecimalPart
                     | _ => false)
       | [] => false

/-- The tag of a plain scalar with this text. -/
def Tag.ofPlain (s : List Char) : Tag :=
  let word := String.ofList s
  if truthWords.contains word then .truth
  else if writesFloat s then .float
  else if writesInteger s then .integer
  else if word = "<<" then .merge
  else if nullWords.contains word then .null
  else if (instant? 2 s).isSome then .instant
  else if word = "=" then .default
  else if ["!", "&", "*"].contains word then .unknown
  else .text

/-! ### Values -/

/-- The pieces between colons. -/
def pieces (s : List Char) : List (List Char) :=
  Text.cutAll ':' s

/-- The integer in digits of a base up to sixteen. -/
def readBase (base : Nat) (s : List Char) : Except Fault Nat :=
  let digit? := fun c => (Text.hexValue? c).bind fun d => if d < base then some d else none
  match s, s.mapM digit? with
  | _ :: _, some ds => .ok (ds.foldl (fun n d => base * n + d) 0)
  | _, _ => .error (.settings (.scalar (.notInteger (String.ofList s) base)))

/-- The integer in decimal digits, of which there may be too many. -/
def readDecimal (s : List Char) : Except Fault Nat :=
  let digits := Text.trim s
  if Text.isNumeral digits then
    Int.toNat <$> Number.readInt false (Text.naturalOf digits) digits.length
  else .error (.settings (.scalar (.notInteger (String.ofList s) 10)))

/-- The integer without its sign. -/
def readMagnitude : List Char → Except Fault Nat
  | [] => .error (.settings (.scalar .noNumber))
  | ['0'] => .ok 0
  | '0' :: 'b' :: ds => readBase 2 ds
  | '0' :: 'x' :: ds => readBase 16 ds
  | '0' :: ds => readBase 8 ('0' :: ds)
  | s => (pieces s).foldlM (fun n piece => return 60 * n + (← readDecimal piece)) 0

/-- The integer that a scalar writes. -/
def readInteger (s : List Char) : Except Fault Int := do
  let (negative, body) := Text.signed (s.filter (· ≠ '_'))
  let n ← readMagnitude body
  return if negative then -n else n

/-- The double in decimal notation. -/
def readDouble (s : List Char) : Except Fault Binary64 :=
  match Text.numeral? (Text.trim s) with
  | some n => .ok n.toFloat
  | none => .error (.settings (.scalar (.notFloat (String.ofList s))))

/-- The sum of the pieces, the last of which counts once and each sixty times the one after it. -/
def sumOfGroups (groups : List Binary64) : Binary64 :=
  (groups.reverse.foldl (fun (total, weight) x =>
    (Binary64.add total (Binary64.mul x (.ofInt weight)), 60 * weight))
    (Binary64.zero false, (1 : Int))).1

/-- The double that a scalar writes. -/
def readFloat (s : List Char) : Except Fault Binary64 := do
  let s := (s.filter (· ≠ '_')).map Char.toLower
  if s.isEmpty then throw (.settings (.scalar .noNumber))
  let (negative, body) := Text.signed s
  let word := String.ofList body
  let x ←
    if word = ".inf" then pure (.infinite false)
    else if word = ".nan" then pure .nan
    else if body.contains ':' then sumOfGroups <$> (pieces body).mapM readDouble
    else readDouble body
  return if negative then x.neg else x

/-- The truth value that a word writes. -/
def readTruth (s : List Char) : Except Fault Bool :=
  let word := String.ofList (s.map Char.toLower)
  if ["yes", "true", "on"].contains word then .ok true
  else if ["no", "false", "off"].contains word then .ok false
  else .error (.settings (.scalar (.notTruth word)))

/-- The instant that a scalar writes. -/
def readInstant (s : List Char) : Except Fault Instant :=
  match instant? 1 s with
  | none => .error (.settings (.scalar .notTime))
  | some t =>
      match t.fault? with
      | some cause => .error (.settings (.scalar cause))
      | none => .ok t

end Quarry.Yaml
