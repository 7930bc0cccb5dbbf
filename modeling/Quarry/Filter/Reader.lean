import Quarry.Filter.Basic
import Quarry.Path.Reader
import Quarry.Text.Cut

/-!
# Filter text

Stages stand between bars that are outside all quotes and brackets.  The whole chain is read
before anything runs.  The chain inside `map(…)` is read one level deeper; a chain needs one of
the levels that are left.
-/

namespace Quarry.Filter

/-- A dot is allowed before an opening bracket; the text after both. -/
def afterBracket? : List Char → Option (List Char)
  | '.' :: '[' :: s => some s
  | '[' :: s => some s
  | _ => none

/-- An integer numeral at the front of `s`, with a minus sign or none, and what comes after it. -/
def numeralAt? (s : List Char) : Option (List Char × List Char) :=
  let (sign, s') := match s with
    | '-' :: s' => (['-'], s')
    | _ => ([], s)
  match s'.span Text.isDigit with
  | ([], _) => none
  | (digits, rest) => some (sign ++ digits, rest)

/-- The numeral of an index stage. -/
def indexText? (s : List Char) : Option (List Char) :=
  match afterBracket? s with
  | none => none
  | some s =>
      match numeralAt? (s.dropWhile Text.isBlank) with
      | none => none
      | some (numeral, rest) =>
          if rest.dropWhile Text.isBlank = [']'] then some numeral else none

/-- The numerals of a slice stage, empty where a bound is open. -/
def sliceText? (s : List Char) : Option (List Char × List Char) :=
  match afterBracket? s with
  | none => none
  | some s =>
      let (start, s) := (numeralAt? (s.dropWhile Text.isBlank)).getD ([], s.dropWhile Text.isBlank)
      match s.dropWhile Text.isBlank with
      | ':' :: s =>
          let (stop, s) :=
            (numeralAt? (s.dropWhile Text.isBlank)).getD ([], s.dropWhile Text.isBlank)
          if s.dropWhile Text.isBlank = [']'] then some (start, stop) else none
      | _ => none

/-- A bound of a slice. -/
def readBound (numeral : List Char) : Except Fault (Option Int) :=
  if numeral.isEmpty then .ok none else some <$> Text.integerOf numeral

/-- The path after the dot that starts `text`. -/
def readPath (text : List Char) : Except Fault Path :=
  match Path.read (String.ofList (text.drop 1)) with
  | .error (.query (.path cause)) => .error (.query (.filter (.badPath (String.ofList text) cause)))
  | result => result

/-- The relations in the order in which their symbols are tried. -/
def relations : List Relation :=
  [.eq, .ne, .ge, .le, .gt, .lt]

/-- The relation that starts `s`, with the text after it, which is not empty. -/
def relationAt? (s : List Char) : Option (Relation × List Char) :=
  relations.findSome? fun r =>
    match r.symbol.toList.isPrefixOf? s with
    | some (c :: rest) => some (r, c :: rest)
    | _ => none

/-- A character that ends the path of a comparison. -/
def endsPath (c : Char) : Bool :=
  c = '=' || c = '!' || c = '<' || c = '>' || Text.isBlank c

/-- The path, relation and literal of a comparison. -/
def comparison? (s : List Char) : Option (List Char × Relation × List Char) :=
  match s with
  | '.' :: _ =>
      let (path, rest) := s.span (fun c => !endsPath c)
      (relationAt? (rest.dropWhile Text.isBlank)).map fun (r, literal) =>
        (path, r, literal.dropWhile Text.isBlank)
  | _ => none

/-- The condition of a select stage. -/
def readCondition (text : List Char) : Except Fault Condition :=
  let s := Text.trim text
  match comparison? s with
  | some (path, relation, literal) => do
      let path ← readPath path
      let literal ← Literal.read (String.ofList literal)
      return ⟨path, some (relation, literal)⟩
  | none =>
      match s with
      | '.' :: _ => do return ⟨← readPath s, none⟩
      | _ => .error (.query (.filter (.unsupportedCondition (String.ofList s))))

/-- The builtin that a stage names, `keys` and `values` also with brackets after them. -/
def builtin? (s : List Char) : Option Builtin :=
  if s = ['k', 'e', 'y', 's', '[', ']'] then some .keys
  else if s = ['v', 'a', 'l', 'u', 'e', 's', '[', ']'] then some .values
  else Builtin.ofName? (String.ofList s)

/-- A path stage; brackets at its end ask for the children. -/
def readPathStage (s : List Char) : Except Fault Stage :=
  match Text.dropTrailing? ['[', ']'] s with
  | some s' => return .path (← readPath s') true
  | none => return .path (← readPath s) false

/-- A stage whose body, if it is a map, is read by `chain`. -/
def readStage (chain : List Char → Except Fault Filter) (s : List Char) : Except Fault Stage :=
  if s = ['.'] then .ok .identity
  else
    match builtin? s with
    | some b => .ok (.builtin b)
    | none =>
        match indexText? s with
        | some numeral => return .index (← Text.integerOf numeral)
        | none =>
            match sliceText? s with
            | some (start, stop) => return .slice (← readBound start) (← readBound stop)
            | none =>
                match Text.callArgument? ['m', 'a', 'p'] s with
                | some body => return .map (← chain body)
                | none =>
                    match Text.callArgument? ['s', 'e', 'l', 'e', 'c', 't'] s with
                    | some condition => return .select (← readCondition condition)
                    | none =>
                        if s.head? = some '.' then readPathStage s
                        else .error (.query (.filter (.unknownStage (String.ofList s))))

/-- The stages of a chain, `levels` deep at most. -/
def readChain (limit : Nat) : (levels : Nat) → List Char → Except Fault Filter
  | 0, _ => .error (.tooDeep limit)
  | levels + 1, text => do
      let segments ← Text.cutOutside ['|'] text
      segments.mapM fun segment =>
        match Text.trim segment with
        | [] => .error (.query (.filter (.emptyStage (String.ofList text))))
        | s => readStage (readChain limit levels) s

/-- The filter that a text writes, with maps nested at most `limit` deep.  A blank text is the
identity. -/
def read (limit : Nat) (text : String) : Except Fault Filter :=
  let s := text.toList
  if (Text.trim s).isEmpty then .ok [.identity] else readChain limit (limit + 1) s

/-- What the filter that a text writes makes of a value. -/
def evaluate (limit : Nat) (text : String) (v : Value) : Except Fault Value := do
  (← read limit text).run limit v

end Quarry.Filter
