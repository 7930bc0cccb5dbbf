import Quarry.Proofs.Comparisons
import Quarry.Proofs.Orders

/-!
# Converses — comparisons from the other side

How two operands stand to each other turns round with them, and where they are not comparable, or a
number has no nearest double, it is so from both sides (`Operand.order?_swap`).  Loose equality is
the same from both sides (`Operand.looselySame_comm`).  So every relation has a converse, which
answers or fails on the operands in the other order as the relation does on them
(`Relation.compare_converse`).

The four orders ask one question of two operands: how they stand to each other.  So the answers of
all six comparisons, in both directions, obey the laws that are collected in `Lawful`.
-/

namespace Quarry

/-! ### Numbers -/

/-- Numbers compare the other way round from the other side, -/
theorem Number.order?_swap (m n : Number) : order? n m = (order? m n).map Ordering.swap := by
  -- nan is comparable with nothing, from either side
  have hnan (k : Number) : order? (.float .nan) k = none ∧ order? k (.float .nan) = none := by
    cases k with
    | int k => exact ⟨rfl, rfl⟩
    | float x => cases x <;> exact ⟨rfl, rfl⟩
  by_cases hm : m = .float .nan
  · rw [hm, (hnan n).1, (hnan n).2]
    rfl
  by_cases hn : n = .float .nan
  · rw [hn, (hnan m).1, (hnan m).2]
    rfl
  rw [order?_eq_order hn hm, order?_eq_order hm hn, Option.map_some, order_swap m n]

/-- and are the same from both. -/
theorem Number.same_comm (m n : Number) : n.same m = m.same n := by
  rw [same, same, order?_swap m n]
  cases order? m n with
  | none => rfl
  | some o => cases o <;> rfl

theorem Binary64.order?_swap (x y : Binary64) : order? y x = (order? x y).map Ordering.swap :=
  Number.order?_swap (.float x) (.float y)

theorem Binary64.same_comm (x y : Binary64) : y.same x = x.same y :=
  Number.same_comm (.float x) (.float y)

/-! ### Values -/

namespace Value

/-- Items are compared place by place, -/
theorem sameItems_comm {vs ws : List Value} (h : ∀ v ∈ vs, ∀ w, w.same v = v.same w) :
    sameItems ws vs = sameItems vs ws := by
  induction vs generalizing ws with
  | nil => cases ws <;> rfl
  | cons v vs ih =>
      obtain ⟨hv, hvs⟩ := List.forall_mem_cons.mp h
      cases ws with
      | nil => rfl
      | cons w ws => rw [sameItems, sameItems, hv, ih hvs]

/-- and members in their order, so this goes for containers as well. -/
theorem sameMembers_comm {vs ws : List (String × Value)}
    (h : ∀ member ∈ vs, ∀ w, w.same member.2 = member.2.same w) :
    sameMembers ws vs = sameMembers vs ws := by
  induction vs generalizing ws with
  | nil => cases ws <;> rfl
  | cons member vs ih =>
      obtain ⟨hv, hvs⟩ := List.forall_mem_cons.mp h
      cases ws with
      | nil => rfl
      | cons other ws => rw [sameMembers, sameMembers, hv, ih hvs, Bool.beq_comm]

/-- Equality is the same from both sides. -/
theorem same_comm (v w : Value) : w.same v = v.same w := by
  induction v generalizing w with
  | null => cases w <;> rfl
  | bool b =>
      cases w with
      | bool c => rw [same, same, Bool.beq_comm]
      | _ => rfl
  | number m =>
      cases w with
      | number n => rw [same, same, Number.same_comm]
      | _ => rfl
  | string s =>
      cases w with
      | string t => rw [same, same, Bool.beq_comm]
      | _ => rfl
  | array vs ih =>
      cases w with
      | array ws => rw [same, same, sameItems_comm ih]
      | _ => rfl
  | object vs ih =>
      cases w with
      | object ws => rw [same, same, sameMembers_comm ih]
      | _ => rfl

/-- The numeric view fails in one way only. -/
theorem toFloat_eq_error {v : Value} {fault : Fault} (h : v.toFloat = .error fault) :
    fault = .number .integerTooLarge := by
  cases v with
  | number n =>
      cases n with
      | float x => cases h
      | int n =>
          rw [toFloat, Number.toFloat] at h
          cases hn : Binary64.ofInt n with
          | finite x =>
              rw [hn] at h
              cases h
          | _ =>
              rw [hn] at h
              exact (Except.error.inj h).symm
  | string s =>
      rw [toFloat] at h
      split at h
      · cases h
      · split at h <;> cases h
  | _ => cases h

end Value

/-! ### Operands -/

namespace Operand

theorem toFloat_eq_error {a : Operand} {fault : Fault} (h : toFloat a = .error fault) :
    fault = .number .integerTooLarge := by
  cases a with
  | none => cases h
  | some v => exact Value.toFloat_eq_error h

/-- Loose equality is the same from both sides, failure included. -/
theorem looselySame_comm (a b : Operand) : looselySame b a = looselySame a b := by
  -- two numeric views fail alike, so it does not matter which is taken first
  have hnumeric (v w : Value) :
      looselySame.numericallySame w v = looselySame.numericallySame v w := by
    rw [looselySame.numericallySame, looselySame.numericallySame]
    cases hv : v.toFloat with
    | ok x =>
        cases w.toFloat with
        | ok y => exact congrArg Except.ok (Binary64.same_comm x y)
        | error fault => rfl
    | error fault =>
        cases hw : w.toFloat with
        | ok y => rfl
        | error other =>
            rw [Value.toFloat_eq_error hv, Value.toFloat_eq_error hw]
  cases a with
  | none => cases b <;> rfl
  | some v =>
      cases b with
      | none => rfl
      | some w =>
          rw [looselySame.eq_def, looselySame.eq_def]
          simp only [Value.same_comm v w]
          split
          · rfl
          · cases v <;> cases w <;> first | rfl | exact hnumeric _ _

/-- How two texts stand to each other. -/
def textOrder? : Operand → Operand → Option Ordering
  | some (.string s), some (.string t) => some (compare s t)
  | _, _ => none

/-- Texts compare the other way round too. -/
theorem textOrder?_swap (a b : Operand) : textOrder? b a = (textOrder? a b).map Ordering.swap := by
  rcases a with _ | (_ | _ | _ | s | _ | _)
  case some.string =>
    rcases b with _ | (_ | _ | _ | t | _ | _)
    case some.string => exact congrArg some Std.OrientedCmp.eq_swap
    all_goals rfl
  all_goals rcases b with _ | (_ | _ | _ | _ | _ | _) <;> rfl

/-- Operands go by their numeric views, and where these do not compare as texts. -/
theorem order?_eq {a b : Operand} {x y : Binary64} (ha : toFloat a = .ok x)
    (hb : toFloat b = .ok y) : order? a b = .ok ((x.order? y).or (textOrder? a b)) := by
  rw [order?, ha, Result.bind_ok, hb, Result.bind_ok]
  cases x.order? y with
  | some o => rfl
  | none =>
      rcases a with _ | (_ | _ | _ | s | _ | _)
      case some.string => rcases b with _ | (_ | _ | _ | t | _ | _) <;> rfl
      all_goals rfl

/-- **The operands turned round** stand to each other the other way, or not at all, or fail. -/
theorem order?_swap (a b : Operand) :
    order? b a = (do return (← order? a b).map Ordering.swap) := by
  cases ha : toFloat a with
  | error fault =>
      cases hb : toFloat b with
      | error other =>
          rw [order?, order?, ha, hb, toFloat_eq_error ha, toFloat_eq_error hb]
          rfl
      | ok y =>
          rw [order?, order?, ha, hb]
          rfl
  | ok x =>
      cases hb : toFloat b with
      | error fault =>
          rw [order?, order?, ha, hb]
          rfl
      | ok y =>
          rw [order?_eq ha hb, order?_eq hb ha, Result.bind_ok, Binary64.order?_swap x y,
            textOrder?_swap a b, ← Option.map_or]
          rfl

end Operand

/-! ### Relations -/

namespace Relation

/-- The relation from the other side. -/
def converse : Relation → Relation
  | .eq => .eq
  | .ne => .ne
  | .ge => .le
  | .le => .ge
  | .gt => .lt
  | .lt => .gt

/-- The converse allows an outcome if the relation allows it turned round. -/
theorem allows_converse (r : Relation) (o : Ordering) : r.converse.allows o.swap = r.allows o := by
  cases r <;> cases o <;> rfl

/-- The answer of an order, where the operands are comparable. -/
theorem any_allows_converse (r : Relation) (o : Option Ordering) :
    (o.map Ordering.swap).any r.converse.allows = o.any r.allows := by
  cases o with
  | none => rfl
  | some o => exact allows_converse r o

/-- **The converse of a relation** answers, or fails, on the operands turned round as the relation
does on them. -/
theorem compare_converse (r : Relation) (a b : Operand) :
    r.converse.compare b a = r.compare a b := by
  have horder : (do return (← Operand.order? b a).any r.converse.allows) =
      (do return (← Operand.order? a b).any r.allows) := by
    rw [Operand.order?_swap a b]
    cases Operand.order? a b with
    | error fault => rfl
    | ok o => exact congrArg Except.ok (any_allows_converse r o)
  cases r with
  | eq => exact Operand.looselySame_comm a b
  | ne => rw [converse, compare, compare, Operand.looselySame_comm]
  | _ => exact horder

/-- The laws of the six comparisons of two operands, `forth` being the answers on them in their
order and `back` on them turned round. -/
structure Lawful (forth back : Relation → Bool) : Prop where
  eq_comm : forth .eq = back .eq
  ne_eq : forth .ne = !forth .eq
  lt_comm : forth .lt = back .gt
  le_comm : forth .le = back .ge
  /-- Neither is before the other and after it. -/
  asymm : ¬ (forth .lt = true ∧ back .lt = true)
  /-- Of comparable operands each is up to the other unless it is beyond it. -/
  total : (∀ r ∈ [ge, le, gt, lt], forth r = false) ∨
    (forth .le = !forth .gt ∧ forth .ge = !forth .lt)

/-- The answers to the six comparisons of operands that are equal or not, and stand to one another
or do not. -/
def answerOf (same : Bool) (o : Option Ordering) : Relation → Bool
  | .eq => same
  | .ne => !same
  | r => o.any r.allows

/-- Every relation answers by two questions: whether the operands are the same, and how they stand
to each other. -/
theorem compare_eq_answerOf {a b : Operand} {same : Bool} {o : Option Ordering}
    (hsame : a.looselySame b = .ok same) (ho : a.order? b = .ok o) (r : Relation) :
    compare r a b = .ok (answerOf same o r) := by
  cases r <;> simp only [compare, hsame, ho, Result.bind_ok] <;> rfl

/-- Answers that all come from one equality and one standing obey the laws. -/
theorem answerOf_lawful (same : Bool) (o : Option Ordering) :
    Lawful (answerOf same o) fun r => answerOf same o r.converse where
  eq_comm := rfl
  ne_eq := rfl
  lt_comm := rfl
  le_comm := rfl
  asymm := by
    change ¬ (o.any lt.allows = true ∧ o.any gt.allows = true)
    rcases o with _ | (_ | _ | _) <;> decide
  total := by
    cases o with
    | none =>
        refine .inl fun r hr => ?_
        cases r with
        | eq | ne => simp at hr
        | _ => rfl
    | some o =>
        refine .inr ?_
        cases o <;> exact ⟨rfl, rfl⟩

/-- **The comparisons of two operands** whose numbers have nearest doubles all have answers, in
both directions, and these obey the laws. -/
theorem compare_lawful {a b : Operand} (ha : ∃ x, Operand.toFloat a = .ok x)
    (hb : ∃ y, Operand.toFloat b = .ok y) :
    ∃ forth back : Relation → Bool, (∀ r, compare r a b = .ok (forth r)) ∧
      (∀ r, compare r b a = .ok (back r)) ∧ Lawful forth back := by
  obtain ⟨same, hsame⟩ := Operand.looselySame_isOk ha hb
  obtain ⟨o, ho⟩ := Operand.order?_isOk ha hb
  have hback (r : Relation) : compare r b a = .ok (answerOf same o r.converse) := by
    rw [← compare_eq_answerOf hsame ho r.converse, ← compare_converse r.converse a b]
    cases r <;> rfl
  exact ⟨answerOf same o, _, compare_eq_answerOf hsame ho, hback, answerOf_lawful same o⟩

theorem compare_lawful_numeral : ∃ forth back : Relation → Bool,
    (∀ r, compare r (some (.string " 30 ")) (some (.number (.int 30))) = .ok (forth r)) ∧
      (∀ r, compare r (some (.number (.int 30))) (some (.string " 30 ")) = .ok (back r)) ∧
      Lawful forth back :=
  compare_lawful ⟨Binary64.ofInt 30, by decide +kernel⟩ ⟨Binary64.ofInt 30, by decide +kernel⟩

end Relation

end Quarry
