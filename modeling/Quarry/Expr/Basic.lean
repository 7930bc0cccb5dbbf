import Quarry.Filter.Builtin
import Quarry.Operand.Relation

/-!
# Expressions — computations on the current value

An expression is built from literals and paths by operators, conditionals, constructors of arrays
and objects, and functions.  A function of a subject takes the current value if it has no
argument; `map`, `select`, `has` and `join` always take one.
-/

namespace Quarry

/-- The operators of arithmetic. -/
inductive Arithmetic where
  | add | sub | mul | div | rem
deriving DecidableEq

def Arithmetic.symbol : Arithmetic → String
  | .add => "+"
  | .sub => "-"
  | .mul => "*"
  | .div => "/"
  | .rem => "%"

/-- The binary operators. -/
inductive BinaryOperator where
  | and | or
  | relation (r : Relation)
  | arithmetic (a : Arithmetic)
deriving DecidableEq

def BinaryOperator.symbol : BinaryOperator → String
  | .and => "and"
  | .or => "or"
  | .relation r => r.symbol
  | .arithmetic a => a.symbol

/-- The functions of a subject. -/
inductive SubjectFunction where
  | builtin (b : Builtin)
  | sum | min | max | toNumber | toString | round
deriving DecidableEq

def SubjectFunction.name : SubjectFunction → String
  | .builtin b => b.name
  | .sum => "sum"
  | .min => "min"
  | .max => "max"
  | .toNumber => "tonumber"
  | .toString => "tostring"
  | .round => "round"

/-- The functions that need an argument beside the current value. -/
inductive ArgumentFunction where
  | map | select | has | join
deriving DecidableEq

def ArgumentFunction.name : ArgumentFunction → String
  | .map => "map"
  | .select => "select"
  | .has => "has"
  | .join => "join"

/-- A function by its name. -/
inductive FunctionName where
  | subject (f : SubjectFunction)
  | argument (f : ArgumentFunction)
deriving DecidableEq

/-- The functions that are not builtins. -/
def FunctionName.others : List FunctionName :=
  [.argument .map, .argument .select, .argument .has, .subject .sum, .subject .min, .subject .max,
    .subject .toNumber, .subject .toString, .subject .round, .argument .join]

def FunctionName.name : FunctionName → String
  | .subject f => f.name
  | .argument f => f.name

/-- The function of a given name. -/
def FunctionName.ofName? (s : String) : Option FunctionName :=
  match Builtin.ofName? s with
  | some b => some (.subject (.builtin b))
  | none => others.find? (·.name = s)

/-- How many arguments a function takes. -/
def FunctionName.counts : FunctionName → List Nat
  | .subject _ => [0, 1]
  | .argument _ => [1]

mutual

/-- An expression. -/
inductive Expr where
  | literal (v : Value)
  | identity
  | field (source : Expr) (name : String)
  | index (source index : Expr)
  | pipe (left right : Expr)
  | array (items : List Expr)
  | object (entries : List Entry)
  | not (operand : Expr)
  | negate (operand : Expr)
  | binary (operator : BinaryOperator) (left right : Expr)
  | conditional (branches : List Branch) (otherwise : Expr)
  | subject (f : SubjectFunction) (argument : Option Expr)
  | argument (f : ArgumentFunction) (argument : Expr)

/-- A member of an object constructor, under a fixed or a computed name. -/
inductive Entry where
  | named (name : String) (value : Expr)
  | computed (key value : Expr)

/-- A condition and what counts if it holds. -/
inductive Branch where
  | mk (condition result : Expr)

end

end Quarry
