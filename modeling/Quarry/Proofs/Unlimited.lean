import Quarry.Expr.Eval
import Quarry.Proofs.Outcomes

/-!
# Unlimited — operations that never stop at a limit

Nothing that an expression does with values it already has counts steps or nesting: arithmetic,
comparisons, lookups by index and functions fail because of what the values are.  `Settled` says
so, and it goes through sequences of computations, so each operation gets it from its parts
(`arithmetic_settled`, `applySubject_settled`).
-/

namespace Quarry

variable {α β : Type}

namespace Settled

/-- A value is no stop, -/
theorem ok (a : α) : Settled (.ok a) :=
  fun _ h => nomatch h

/-- and a fault is none if it is not about a limit, -/
theorem fault {cause : Fault} (h : ¬ cause.IsLimit) : Settled (.error cause : Except Fault α) := by
  rintro _ ⟨⟩
  exact h

/-- as those of numbers never are. -/
theorem number (cause : NumberFault) : Settled (.error (.number cause) : Except Fault α) :=
  fault id

/-- **Sequences.**  A sequence of such computations never stops at a limit. -/
theorem bind {x : Except Fault α} {f : α → Except Fault β} (h : Settled x)
    (hf : ∀ a, Settled (f a)) : Settled (x >>= f) := by
  cases x with
  | ok a => exact hf a
  | error cause => exact fault (h cause rfl)

/-- A computation followed by a function of its value. -/
theorem map {x : Except Fault α} (h : Settled x) (f : α → β) : Settled (do return f (← x)) :=
  h.bind fun a => ok (f a)

/-- The same for a computation on each item of a list, -/
theorem mapM {f : α → Except Fault β} (h : ∀ a, Settled (f a)) (as : List α) :
    Settled (as.mapM f) := by
  induction as with
  | nil => exact ok []
  | cons a as ih =>
      rw [List.mapM_cons]
      exact (h a).bind fun b => ih.map (b :: ·)

/-- and for one that goes along a list with a state. -/
theorem foldlM {f : β → α → Except Fault β} (h : ∀ b a, Settled (f b a)) (as : List α) (b : β) :
    Settled (as.foldlM f b) := by
  induction as generalizing b with
  | nil => exact ok b
  | cons a as ih =>
      rw [List.foldlM_cons]
      exact (h b a).bind ih

end Settled

/-! ### Numbers -/

namespace Number

theorem ifFinite_settled (cause : NumberFault) (x : Binary64) : Settled (ifFinite cause x) := by
  cases x with
  | finite x => exact .ok _
  | _ => exact .number cause

/-- The double for an integer may be out of range, which is a fault of numbers. -/
theorem toFloat_settled (n : Number) : Settled n.toFloat := by
  cases n with
  | int n => exact ifFinite_settled _ _
  | float x => exact .ok x

/-- An operation that is done on doubles if a side is one. -/
theorem onFloats_settled (m n : Number) {f : Binary64 → Binary64 → Except Fault Number}
    (hf : ∀ a b, Settled (f a b)) :
    Settled (do
      let a ← m.toFloat
      let b ← n.toFloat
      f a b) :=
  m.toFloat_settled.bind fun a => n.toFloat_settled.bind fun b => hf a b

/-- Sums, differences and products of integers are exact, and all others are made of doubles. -/
theorem combine_settled (onInts : Int → Int → Int) (onFloats : Binary64 → Binary64 → Binary64)
    (m n : Number) : Settled (combine onInts onFloats m n) := by
  rw [combine.eq_def]
  split
  · exact .ok _
  · exact onFloats_settled _ _ fun a b => .ok _

/-- A quotient is a double, -/
theorem div_settled (m n : Number) : Settled (m.div n) := by
  rw [div.eq_def]
  split
  · exact (ifFinite_settled _ _).map _
  · exact onFloats_settled _ _ fun a b => .ok _

/-- and a remainder is, which may have none. -/
theorem rem_settled (m n : Number) : Settled (m.rem n) := by
  refine onFloats_settled m n fun a b => ?_
  split
  · exact .ok _
  · exact .ok _
  · exact .number _
  · exact .ok _
  · exact .ok _

/-- There is no integer near an infinite number. -/
theorem round_settled (n : Number) : Settled n.round := by
  refine n.toFloat_settled.bind fun a => ?_
  split
  · exact .ok _
  · exact .number _

end Number

/-! ### Views of values -/

namespace Value

/-- The numeric view of a value fails where that of its number does, -/
theorem toFloat_settled (v : Value) : Settled v.toFloat := by
  cases v with
  | number n => exact n.toFloat_settled
  | string s =>
      rw [toFloat]
      split
      · exact .ok _
      · split <;> exact .ok _
  | _ => exact .ok _

/-- and its text where an integer has too many digits. -/
theorem text_settled (v : Value) : Settled v.text := by
  have hrender (w : Value) : Settled (Json.render .compact w) := by
    rw [Json.render]
    split
    · exact .ok _
    · exact .number _
  cases v with
  | number n =>
      rw [text]
      split
      · exact .ok _
      · exact .number _
  | array items => exact hrender _
  | object members => exact hrender _
  | _ => exact .ok _

/-- A total fails for a value that has no numeric view, or where it overflows. -/
theorem total_settled (items : List Value) : Settled (total items) := by
  have hinsert (s : Binary64.Sum) (x : Binary64) : Settled (s.insert x) := by
    rw [Binary64.Sum.insert.eq_def]
    split
    · exact .ok _
    · exact .ok _
    · exact .ok _
    · split
      · exact .ok _
      · exact .number _
  have hadd (s : Binary64.Sum) (v : Value) : Settled (do s.insert (← v.toFloat)) :=
    v.toFloat_settled.bind fun x => hinsert s x
  refine (Settled.foldlM hadd items {}).bind fun s => ?_
  rw [Binary64.Sum.total]
  split
  · exact .number _
  · repeat' split
    all_goals exact .ok _

end Value

/-! ### Comparisons -/

/-- Loose equality compares numeric views at most, -/
theorem Operand.looselySame_settled (a b : Operand) : Settled (looselySame a b) := by
  have hviews (v w : Value) : Settled (looselySame.numericallySame v w) :=
    v.toFloat_settled.bind fun x => w.toFloat_settled.map (x.same ·)
  rw [looselySame.eq_def]
  repeat' split
  all_goals first | exact .ok _ | exact hviews _ _

/-- and so does an order, -/
theorem Operand.order?_settled (a b : Operand) : Settled (order? a b) := by
  have hview (a : Operand) : Settled a.toFloat := by
    cases a with
    | none => exact .ok _
    | some v => exact v.toFloat_settled
  refine (hview a).bind fun x => (hview b).bind fun y => ?_
  split <;> exact .ok _

/-- and so do all relations. -/
theorem Relation.compare_settled (r : Relation) (a b : Operand) : Settled (r.compare a b) := by
  cases r with
  | eq => exact Operand.looselySame_settled a b
  | ne => exact (Operand.looselySame_settled a b).map _
  | _ => exact (Operand.order?_settled a b).map _

/-! ### Functions -/

/-- Of the builtins only the two for entries can fail at all, and not for a limit. -/
theorem Builtin.apply_settled (b : Builtin) (v : Value) : Settled (b.apply v) := by
  have hentry (member : String × Value) : Settled (toEntry member) := by
    rw [toEntry, Value.ofMembers]
    split
    · exact .ok _
    · exact .fault id
  have hpair (w : Value) : Settled ( ofEntry? w) := by
    unfold ofEntry?
    split
    · exact (Value.text_settled _).map _
    · exact .ok _
  cases b with
  | toEntries =>
      cases v with
      | object members => exact (Settled.mapM hentry members).map _
      | _ => exact .ok _
  | fromEntries =>
      cases v with
      | array items => exact (Settled.mapM hpair items).map _
      | _ => exact .ok _
  | _ => cases v <;> exact .ok _

namespace Expr

/-- A number that is not finite is refused. -/
theorem checked_settled (n : Number) : Settled (checked n) := by
  rw [checked]
  split
  · exact .ok _
  · exact .fault id

/-- A number that is computed and then checked. -/
theorem bind_checked_settled {x : Except Fault Number} (h : Settled x) :
    Settled (do checked (← x)) :=
  h.bind checked_settled

/-- **Arithmetic** fails for its operands only: for kinds that do not go together, a zero to divide
by, or a number that leaves its range. -/
theorem arithmetic_settled (a : Arithmetic) (v w : Value) : Settled (arithmetic a v w) := by
  rw [arithmetic.eq_def]
  split
  · exact .ok _
  · exact .ok _
  · exact bind_checked_settled (Number.combine_settled _ _ _ _)
  · exact .ok _
  · exact .ok _
  · exact .ok _
  · exact bind_checked_settled (Number.combine_settled _ _ _ _)
  · exact .ok _
  · exact bind_checked_settled (Number.combine_settled _ _ _ _)
  · split
    · exact .fault id
    · exact bind_checked_settled (Number.div_settled _ _)
  · split
    · exact .fault id
    · exact bind_checked_settled (Number.rem_settled _ _)
  · exact .fault id

/-- An index has to be an integer, or a name for an object, -/
theorem indexed_settled (v w : Value) : Settled (indexed v w) := by
  rw [indexed.eq_def]
  split
  · refine (Number.toFloat_settled _).bind fun x => ?_
    repeat' split
    all_goals first | exact .ok _ | exact .fault id
  · exact .ok _
  · exact .ok _
  · exact .fault id

/-- the key of `has` has to be of the right kind, -/
theorem hasKey_settled (v w : Value) : Settled (hasKey v w) := by
  rw [hasKey.eq_def]
  split
  · exact .ok _
  · exact .ok _
  · exact .fault id

/-- and so do the items that are joined. -/
theorem joinTexts_settled (v w : Value) : Settled (joinTexts v w) := by
  rw [joinTexts.eq_def]
  split
  · exact (Settled.mapM Value.text_settled _).map _
  · exact .fault id

/-- **Functions** fail for the kind of their subject, or for a number that leaves its range. -/
theorem applySubject_settled (f : SubjectFunction) (v : Value) : Settled (applySubject f v) := by
  rw [applySubject.eq_def]
  split
  · exact Builtin.apply_settled _ _
  · refine (Value.total_settled _).bind fun total => ?_
    split
    · exact .fault id
    · exact checked_settled _
  · exact .ok _
  · exact .ok _
  · exact .ok _
  · exact .ok _
  · exact .ok _
  · refine (Value.toFloat_settled _).bind fun x => ?_
    split
    · exact .fault id
    · exact checked_settled _
  · exact .fault id
  · exact (Value.text_settled _).map _
  · exact (Number.round_settled _).map _
  · exact .fault id

end Expr

end Quarry
