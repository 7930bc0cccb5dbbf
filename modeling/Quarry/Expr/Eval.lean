import Quarry.Expr.Reader
import Quarry.Operand.Basic
import Quarry.Value.Items

/-!
# Evaluation — the value of an expression

Evaluation takes the current value and spends one step of a budget on every expression that it
visits.  `levels` is how many nested expressions may still be visited, this one included; it
depends on the expression alone.
-/

namespace Quarry.Expr

/-- A computation that spends from a budget. -/
abbrev Eval := StateT Nat (Except Fault)

/-- Failure with a cause. -/
def failWith {α : Type} (cause : ExprFault) : Except Fault α :=
  .error (.query (.expression cause))

/-- Spend one step of a budget that was `budget` at the start. -/
def spend (budget : Nat) : Eval Unit := fun remaining =>
  match remaining with
  | 0 => failWith (.overBudget budget)
  | n + 1 => .ok ((), n)

/-- A result of arithmetic in normal form; it has to be finite. -/
def checked (n : Number) : Except Fault Value :=
  if n.isFinite then .ok (.number n.normalize) else failWith .notFinite

/-- Arithmetic.  Null is neutral in sums; texts, arrays and objects are added by joining them, and
the items of one array are taken away from another. -/
def arithmetic : Arithmetic → Value → Value → Except Fault Value
  | .add, .null, w => .ok w
  | .add, v, .null => .ok v
  | .add, .number m, .number n => do checked (← m.add n)
  | .add, .string s, .string t => .ok (.string (s ++ t))
  | .add, .array xs, .array ys => .ok (.array (xs ++ ys))
  | .add, .object xs, .object ys => .ok (Value.ofPairs (xs ++ ys))
  | .sub, .number m, .number n => do checked (← m.sub n)
  | .sub, .array xs, .array ys => .ok (.array (xs.filter fun x => !ys.any (x.same ·)))
  | .mul, .number m, .number n => do checked (← m.mul n)
  | .div, .number m, .number n =>
      if n.isZero then failWith (.divisionByZero "/") else do checked (← m.div n)
  | .rem, .number m, .number n =>
      if n.isZero then failWith (.divisionByZero "%") else do checked (← m.rem n)
  | a, v, w => failWith (.cannotApply a.symbol v.kind w.kind)

/-- What stands at an index. -/
def indexed : Value → Value → Except Fault Value
  | .array items, .number n => do
      match ← n.toFloat, n with
      | _, .int i => return (Items.at? items i).getD .null
      | .finite x, _ =>
          match x.toInt? with
          | some i => return (Items.at? items i).getD .null
          | none => failWith (.cannotIndex .array .number)
      | _, _ => failWith (.cannotIndex .array .number)
  | .object members, .string name => .ok ((Members.find? members name).getD .null)
  | .null, _ => .ok .null
  | v, w => failWith (.cannotIndex v.kind w.kind)

/-- The value has something under a key. -/
def hasKey : Value → Value → Except Fault Bool
  | .object members, .string name => .ok (Members.has members name)
  | .array items, .number n =>
      .ok ((Number.order? (.int 0) n).any Ordering.isLE
        && (Number.order? n (.int items.length)).any Ordering.isLT)
  | v, w => failWith (.cannotCheck v.kind w.kind)

/-- The texts of items with a separator between them. -/
def joinTexts : Value → Value → Except Fault Value
  | .array items, .string separator => do
      return .string (separator.intercalate (← items.mapM Value.text))
  | _, _ => failWith .badJoin

/-- What a function makes of its subject. -/
def applySubject : SubjectFunction → Value → Except Fault Value
  | .builtin b, v => b.apply v
  | .sum, v => do
      let total ← Value.total v.itemsOrSelf
      if total.isNaN then failWith .badSum else checked (.float total)
  | .min, .array items =>
      .ok (match items with
        | [] => .null
        | v :: vs => Value.least v vs)
  | .max, .array items =>
      .ok (match items with
        | [] => .null
        | v :: vs => Value.greatest v vs)
  | .min, v => .ok v
  | .max, v => .ok v
  | .toNumber, .number n => .ok (.number n)
  | .toNumber, .string s => do
      let x ← (Value.string s).toFloat
      if x.isNaN then failWith (.cannotConvert .string) else checked (.float x)
  | .toNumber, v => failWith (.cannotConvert v.kind)
  | .toString, v => do return .string (← v.text)
  | .round, .number n => do return .number (.int (← n.round))
  | .round, v => failWith (.cannotRound v.kind)

/-- The items for which a computed value holds. -/
def keepHolding (test : Value → Eval Value) : List Value → Eval (List Value)
  | [] => return []
  | v :: vs => do
      let passes ← test v
      let rest ← keepHolding test vs
      return if passes.holds then v :: rest else rest

/-- What a function with an argument makes of the current value; `body` is the argument as a
computation. -/
def applyArgument (f : ArgumentFunction) (body : Value → Eval Value) (v : Value) : Eval Value :=
  match f, v with
  | .map, .array items => do return .array (← items.mapM body)
  | .map, _ => return v
  | .select, .array items => do return .array (← keepHolding body items)
  | .select, _ => do return if (← body v).holds then v else .null
  | .has, _ => do return .bool (← hasKey v (← body v))
  | .join, _ => do joinTexts v (← body v)

mutual

/-- The value of an expression for the current value `v`. -/
def eval (limit budget levels : Nat) : Expr → Value → Eval Value
  | e, v => do
      spend budget
      match levels with
      | 0 => throw (.tooDeep limit)
      | levels' + 1 =>
          match e with
          | .literal w => return w
          | .identity => return v
          | .field source name => do
              let w ← eval limit budget levels' source v
              return ((Segment.field name).follow true w).getD .null
          | .index source position => do
              let w ← eval limit budget levels' source v
              let i ← eval limit budget levels' position v
              indexed w i
          | .pipe left right => do
              eval limit budget levels' right (← eval limit budget levels' left v)
          | .array items => return .array (← evalItems limit budget levels' items v)
          | .object entries => return Value.ofPairs (← evalEntries limit budget levels' entries v)
          | .not operand => return .bool !(← eval limit budget levels' operand v).holds
          | .negate operand => do
              match ← eval limit budget levels' operand v with
              | .number n => return .number n.neg.normalize
              | w => failWith (.cannotNegate w.kind)
          | .binary .and left right => do
              if (← eval limit budget levels' left v).holds then
                return .bool (← eval limit budget levels' right v).holds
              else return .bool false
          | .binary .or left right => do
              if (← eval limit budget levels' left v).holds then return .bool true
              else return .bool (← eval limit budget levels' right v).holds
          | .binary (.relation r) left right => do
              let w ← eval limit budget levels' left v
              let u ← eval limit budget levels' right v
              return .bool (← r.compare (some w) (some u))
          | .binary (.arithmetic a) left right => do
              let w ← eval limit budget levels' left v
              let u ← eval limit budget levels' right v
              arithmetic a w u
          | .conditional branches otherwise => do
              match ← evalBranches limit budget levels' branches v with
              | some w => return w
              | none => eval limit budget levels' otherwise v
          | .subject f none => do applySubject f v
          | .subject f (some inner) => do
              applySubject f (← eval limit budget levels' inner v)
          | .argument f inner => applyArgument f (eval limit budget levels' inner) v

/-- The values of several expressions. -/
def evalItems (limit budget levels : Nat) : List Expr → Value → Eval (List Value)
  | [], _ => return []
  | e :: es, v => do
      let w ← eval limit budget levels e v
      return w :: (← evalItems limit budget levels es v)

/-- The names and values of an object constructor's members. -/
def evalEntries (limit budget levels : Nat) :
    List Entry → Value → Eval (List (String × Value))
  | [], _ => return []
  | .named name e :: es, v => do
      let w ← eval limit budget levels e v
      return (name, w) :: (← evalEntries limit budget levels es v)
  | .computed key e :: es, v => do
      match ← eval limit budget levels key v with
      | .string name =>
          let w ← eval limit budget levels e v
          return (name, w) :: (← evalEntries limit budget levels es v)
      | k => failWith (.keyNotString k.kind)

/-- The value of the first branch whose condition holds. -/
def evalBranches (limit budget levels : Nat) : List Branch → Value → Eval (Option Value)
  | [], _ => return none
  | .mk condition result :: rest, v => do
      if (← eval limit budget levels condition v).holds then
        return some (← eval limit budget levels result v)
      else evalBranches limit budget levels rest v

end

/-- The value of an expression under a budget and a limit on nesting. -/
def value (limit budget : Nat) (e : Expr) (v : Value) : Except Fault Value := do
  return (← (eval limit budget (limit + 1) e v).run budget).1

/-- The value of the expression that a text writes. -/
def evaluate (limit budget : Nat) (text : String) (v : Value) : Except Fault Value := do
  (← read limit text).value limit budget v

end Quarry.Expr
