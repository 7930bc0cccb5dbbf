import Quarry.Navigation.Eval
import Quarry.Navigation.Form

/-!
# Navigation checks — which forms have a meaning

Not every form that can be read can be carried out.  A number or a constant is no step of a path,
a step takes no condition and no second grouping once it is grouped, a name for what is in focus
comes before conditions and orders, and the parent sign has to find the step that it is the
parent of.  `Form.outline` refuses what breaks these rules; of everything else it keeps what the
rules of the forms around it go by.

This is the grammar that the engine asks when it runs; nothing else depends on it.
-/

namespace Quarry.Navigation

/-- What a form is to the forms around it. -/
inductive Role where
  | path | name | wildcard | parent | block | literal | number | string | sort | other
deriving DecidableEq

/-- What the rules go by: the role of a form, the steps of a path or the last part of a block,
what has been applied to it, and how many levels up the parent signs inside it still look, if
there are any. -/
inductive Outline where
  | mk (role : Role) (inner : List Outline) (grouped filtered focused : Bool)
      (seeking : Option (List Int))

namespace Outline

def role : Outline → Role
  | mk r _ _ _ _ _ => r

def inner : Outline → List Outline
  | mk _ i _ _ _ _ => i

def grouped : Outline → Bool
  | mk _ _ g _ _ _ => g

def filtered : Outline → Bool
  | mk _ _ _ f _ _ => f

def focused : Outline → Bool
  | mk _ _ _ _ f _ => f

def seeking : Outline → Option (List Int)
  | mk _ _ _ _ _ s => s

/-- The outline of a form of some role. -/
def plain (role : Role) : Outline :=
  mk role [] false false false none

def withInner (o : Outline) (inner : List Outline) : Outline :=
  mk o.role inner o.grouped o.filtered o.focused o.seeking

def withGroup (o : Outline) : Outline :=
  mk o.role o.inner true o.filtered o.focused o.seeking

def withFilter (o : Outline) : Outline :=
  mk o.role o.inner o.grouped true o.focused o.seeking

def withFocus (o : Outline) : Outline :=
  mk o.role o.inner o.grouped o.filtered true o.seeking

def withSeeking (o : Outline) (seeking : Option (List Int)) : Outline :=
  mk o.role o.inner o.grouped o.filtered o.focused seeking

/-- A path of the given steps. -/
def path (steps : List Outline) : Outline :=
  (plain .path).withInner steps

/-- The levels that the parent signs of a form look up from outside it, if there are any. -/
def levels? (o : Outline) : Option (List Int) :=
  match o.seeking, o.role with
  | some levels, .parent => some (levels ++ [1])
  | none, .parent => some [1]
  | s, _ => s

/-- The outline of a form that has another one inside. -/
def around (o part : Outline) : Outline :=
  match part.levels? with
  | none => o
  | some levels => o.withSeeking (some (o.seeking.getD [] ++ levels))

/-- The outline of a form that has others inside. -/
def aroundAll (o : Outline) (parts : List Outline) : Outline :=
  parts.foldl around o

mutual

/-- How far up a parent sign still looks after it has passed a form. -/
def seek (level : Int) : Outline → Reading Int
  | mk .name _ _ _ _ _ | mk .wildcard _ _ _ _ _ => .ok (level - 1)
  | mk .parent _ _ _ _ _ => .ok (level + 1)
  | mk .block [] _ _ _ _ => .ok level
  | mk .block (o :: _) _ _ _ _ => seek level o
  | mk .path steps _ _ _ _ => do return (← seekBack level steps).2
  | _ => refuse

/-- Passes steps from the last one on while the sign looks up; whether it passed the last one,
and how far up it looks then. -/
def seekBack (level : Int) : List Outline → Reading (Bool × Int)
  | [] => .ok (false, level)
  | o :: os => do
      let (passed, now) ← seekBack level os
      if passed && now ≤ 0 then return (true, now) else return (true, ← seek now o)

end

/-- The step that a condition or a focus applies to: the last one of a path, or the form. -/
def target (o : Outline) : Outline :=
  match o.role, o.inner.getLast? with
  | .path, some step => step
  | _, _ => o

/-- The outline with another one as its target. -/
def withTarget (o target : Outline) : Outline :=
  match o.role, o.inner with
  | .path, _ :: _ => o.withInner (o.inner.dropLast ++ [target])
  | _, _ => target

/-- Passes the steps before the last one, given backwards, for one parent sign; what is left of
it for outside.  Of steps in focus one after another only the first counts. -/
def climb (level : Int) : List Outline → Reading (Option Int)
  | [] => .ok (if level ≤ 0 then none else some level)
  | step :: before =>
      if level ≤ 0 then .ok none
      else if step.focused && before.head?.any focused then climb level before
      else do climb (← seek level step) before

/-- A path whose last step is new: its parent signs find their steps, or look further up. -/
def settle (o : Outline) : Reading Outline :=
  match o.inner.reverse with
  | [] => .ok o
  | last :: before => do
      let found ← (last.levels?.getD []).mapM fun level => climb level before
      match found.filterMap id with
      | [] => return o
      | levels => return o.withSeeking (some (o.seeking.getD [] ++ levels))

/-- The steps that a form is. -/
def steps (o : Outline) : List Outline :=
  if o.role = .path then o.inner else [o]

/-- The path from one form to another. -/
def join (left right : Outline) : Reading Outline :=
  let start :=
    if left.role = .path then left
    else
      let p := path [left]
      if left.role = .parent then p.withSeeking (some [1]) else p
  let all := start.inner ++ right.steps
  if all.any fun o => o.role = .number || o.role = .literal then refuse
  else
    settle (start.withInner (all.map fun o =>
      if o.role = .string then mk .name o.inner o.grouped o.filtered o.focused o.seeking else o))

/-- A parent sign in a condition looks at the step first. -/
def lower (step : Outline) (level : Int) : Reading Int :=
  if level = 1 then seek level step else .ok (level - 1)

/-- A form with a condition. -/
def constrain (left condition : Outline) : Reading Outline :=
  let step := left.target
  if step.grouped then refuse
  else do
    let condition ← match condition.seeking with
      | none => pure condition
      | some levels => do pure (condition.withSeeking (some (← levels.mapM (lower step))))
    let step := if condition.seeking.isSome then step.around condition else step
    return left.withTarget step.withFilter

/-- A form in order of terms. -/
def sorted (left : Outline) (terms : List Outline) : Reading Outline :=
  let start := if left.role = .path then left else path [left]
  settle (start.withInner (start.inner ++ [(plain .sort).aroundAll terms]))

end Outline

mutual

/-- The outline of a form that has a meaning. -/
def Form.outline : Form → Reading Outline
  | .name _ => .ok (.path [.plain .name])
  | .variable => .ok (.plain .other)
  | .string => .ok (.plain .string)
  | .number => .ok (.plain .number)
  | .constant => .ok (.plain .literal)
  | .pattern => .ok (.plain .other)
  | .wildcard => .ok (.plain .wildcard)
  | .descendant => .ok (.plain .other)
  | .parent => .ok (.plain .parent)
  | .open => .ok (.plain .other)
  | .missing => refuse
  | .dot a b => do
      let left ← a.outline
      left.join (← b.outline)
  | .filter a b => do
      let left ← a.outline
      if left.target.grouped then refuse else left.constrain (← b.outline)
  | .group a members => do
      let left ← a.outline
      let _ ← outlines members
      if left.grouped then refuse else return left.withGroup
  | .order a terms => do
      let left ← a.outline
      left.sorted (← outlines terms)
  | .bind a b => do
      let _ ← a.outline
      return (Outline.plain .other).around (← b.outline)
  | .focus a => do
      let left ← a.outline
      if left.target.filtered || left.target.role = .sort then refuse
      else return left.withTarget left.target.withFocus
  | .index a => do
      let left ← a.outline
      return if left.role = .path then left else .path [left]
  | .apply a b => do
      let _ ← a.outline
      let _ ← b.outline
      return .plain .other
  | .binary a b => do
      let left ← a.outline
      return ((Outline.plain .other).around left).around (← b.outline)
  | .negate a => do
      let inner ← a.outline
      return if inner.role = .number then inner else (Outline.plain .other).around inner
  | .array items => do return (Outline.plain .other).aroundAll (← outlines items)
  | .object members => do return (Outline.plain .other).aroundAll (← outlines members)
  | .call f arguments => do
      let found ← outlines arguments
      let _ ← f.outline
      return (Outline.plain .other).aroundAll found
  | .lambda body => do
      let _ ← body.outline
      return .plain .other
  | .block parts => do
      let found ← outlines parts
      return ((Outline.plain .block).withInner found.getLast?.toList).aroundAll found
  | .condition parts => do return (Outline.plain .other).aroundAll (← outlines parts)
  | .transform parts => do
      let _ ← outlines parts
      return .plain .other

/-- The outlines of forms. -/
def outlines : List Form → Reading (List Outline)
  | [] => .ok []
  | f :: fs => do
      let first ← f.outline
      return first :: (← outlines fs)

end

/-- A text is a navigation: it can be read, has a meaning, and no parent sign is left open. -/
def isNavigation (text : List Char) : Bool :=
  match (do (← read text).outline : Reading Outline) with
  | .ok o => o.role ≠ .parent && o.seeking.isNone
  | .error _ => false

instance : Grammar where
  accepts := isNavigation

end Quarry.Navigation
