import Quarry.Operand.Basic

/-!
# Relations — the six comparisons

Two operands are loosely equal if they are the same value, or a number and a text with equal
numeric views.  The four orders compare numeric views if both sides have one, texts if both sides
are texts, and do not hold otherwise.
-/

namespace Quarry

/-- A comparison. -/
inductive Relation where
  | eq | ne | ge | le | gt | lt
deriving DecidableEq

namespace Operand

/-- Loose equality. -/
def looselySame : Operand → Operand → Except Fault Bool
  | none, none => .ok true
  | none, some _ => .ok false
  | some _, none => .ok false
  | some v, some w =>
      if v.same w then .ok true
      else
        match v, w with
        | .number _, .string _ => numericallySame v w
        | .string _, .number _ => numericallySame v w
        | _, _ => .ok false
where
  /-- Equality of the numeric views. -/
  numericallySame (v w : Value) : Except Fault Bool := do
    let a ← v.toFloat
    let b ← w.toFloat
    return a.same b

/-- How two operands stand to each other, if they are comparable. -/
def order? (a b : Operand) : Except Fault (Option Ordering) := do
  let x ← a.toFloat
  let y ← b.toFloat
  match x.order? y, a, b with
  | some o, _, _ => return some o
  | none, some (.string s), some (.string t) => return some (compare s t)
  | none, _, _ => return none

end Operand

namespace Relation

def symbol : Relation → String
  | .eq => "=="
  | .ne => "!="
  | .ge => ">="
  | .le => "<="
  | .gt => ">"
  | .lt => "<"

/-- The relation with a given symbol. -/
def ofSymbol? (s : String) : Option Relation :=
  if s = "==" then some .eq
  else if s = "!=" then some .ne
  else if s = ">=" then some .ge
  else if s = "<=" then some .le
  else if s = ">" then some .gt
  else if s = "<" then some .lt
  else none

/-- An order that two comparable operands stand in. -/
def allows : Relation → Ordering → Bool
  | .eq, o => o.isEq
  | .ne, o => o.isNe
  | .ge, o => o.isGE
  | .le, o => o.isLE
  | .gt, o => o.isGT
  | .lt, o => o.isLT

/-- The relation holds between two operands. -/
def compare (r : Relation) (a b : Operand) : Except Fault Bool :=
  match r with
  | .eq => Operand.looselySame a b
  | .ne => return !(← Operand.looselySame a b)
  | _ => return (← Operand.order? a b).any r.allows

/-- The comparison with a given symbol, a single `=` being equality.  An unknown symbol is
noticed when there is something to compare. -/
def compareBySymbol (symbol : String) (a b : Operand) : Except Fault Bool :=
  if symbol = "=" then Relation.eq.compare a b
  else
    match ofSymbol? symbol with
    | some r => r.compare a b
    | none => do
        match ← Operand.order? a b with
        | some _ => throw (.unknownRelation symbol)
        | none => return false

end Relation

end Quarry
