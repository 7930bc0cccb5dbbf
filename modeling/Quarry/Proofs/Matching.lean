import Quarry.Criteria.Basic
import Quarry.Proofs.Result

/-!
# Matching — criteria as propositions

Matching tries the parts of criteria in order and stops at the first that decides, and it can fail
where a comparison or a lookup does.  `Answered` says that no comparison and no lookup of some
criteria fails for an object, whether it is tried or not, and `Meets` what the criteria say of the
object.  If all is answered, matching answers what the criteria say (`holds_decides`): "every" is
conjunction, "some" disjunction and "not" negation, whatever the order of the parts.  So criteria
that differ only in the order of their parts agree (`Agrees`).
-/

namespace Quarry

/-! ### Answers -/

/-- The computation has an answer, and says yes exactly if `P` holds. -/
def Decides (x : Except Fault Bool) (P : Prop) : Prop :=
  ∃ answer, x = .ok answer ∧ (answer = true ↔ P)

namespace Decides

variable {x y : Except Fault Bool} {P Q : Prop}

theorem yes : Decides (.ok true) True :=
  ⟨true, rfl, iff_of_true rfl trivial⟩

theorem no : Decides (.ok false) False :=
  ⟨false, rfl, iff_of_false Bool.false_ne_true id⟩

/-- A computation with an answer decides whether the answer is yes. -/
theorem of_ok {answer : Bool} (h : x = .ok answer) : Decides x (x = .ok true) :=
  ⟨answer, h, by rw [h, Except.ok.injEq]⟩

/-- What an answer says may be said in other words. -/
theorem congr (h : Decides x P) (hPQ : P ↔ Q) : Decides x Q := by
  obtain ⟨answer, hx, hanswer⟩ := h
  exact ⟨answer, hx, hanswer.trans hPQ⟩

/-- The second part is tried if the first says yes. -/
theorem and (hx : Decides x P) (hy : Decides y Q) :
    Decides (do if ← x then y else return false) (P ∧ Q) := by
  obtain ⟨answer, rfl, hP⟩ := hx
  cases answer with
  | true => exact hy.congr (and_iff_right (hP.mp rfl)).symm
  | false => exact no.congr (iff_of_false id fun h => Bool.false_ne_true (hP.mpr h.1))

/-- The second part is tried if the first says no. -/
theorem or (hx : Decides x P) (hy : Decides y Q) :
    Decides (do if ← x then return true else y) (P ∨ Q) := by
  obtain ⟨answer, rfl, hP⟩ := hx
  cases answer with
  | true => exact yes.congr (iff_of_true trivial (.inl (hP.mp rfl)))
  | false => exact hy.congr (or_iff_right fun h => Bool.false_ne_true (hP.mpr h)).symm

/-- The opposite answer decides the opposite. -/
theorem not (hx : Decides x P) : Decides (do return !(← x)) (¬ P) := by
  obtain ⟨answer, rfl, hP⟩ := hx
  refine ⟨!answer, rfl, ?_⟩
  rw [← hP]
  cases answer <;> simp

/-- Computations that decide the same thing have the same answer. -/
theorem eq (hx : Decides x P) (hy : Decides y Q) (h : P ↔ Q) : x = y := by
  obtain ⟨a, rfl, hP⟩ := hx
  obtain ⟨b, rfl, hQ⟩ := hy
  have hab : a = true ↔ b = true := (hP.trans h).trans hQ.symm
  rw [Bool.eq_iff_iff.mpr hab]

end Decides

/-- It can be found out whether a computation succeeds. -/
instance decidableSucceeds {ε α : Type} (x : Except ε α) : Decidable (∃ a, x = .ok a) :=
  match x with
  | .ok a => .isTrue ⟨a, rfl⟩
  | .error _ => .isFalse nofun

/-! ### Conditions -/

namespace FieldCondition

/-- No comparison of the condition with the operand fails. -/
def Answered (a : Operand) : FieldCondition → Prop
  | equal v => ∃ answer, Operand.looselySame a (some v) = .ok answer
  | tests ts => ∀ t ∈ ts, ∃ answer, t.holds a = .ok answer

instance (a : Operand) : (condition : FieldCondition) → Decidable (condition.Answered a)
  | equal _ => inferInstanceAs (Decidable (∃ answer, _ = Except.ok answer))
  | tests ts => inferInstanceAs (Decidable (∀ t ∈ ts, ∃ answer, t.holds a = .ok answer))

/-- What the condition says of the operand. -/
def Meets (a : Operand) : FieldCondition → Prop
  | equal v => Operand.looselySame a (some v) = .ok true
  | tests ts => ∀ t ∈ ts, t.holds a = .ok true

/-- Under a condition that is answered, matching answers what the condition says of the operand. -/
theorem holds_decides {a : Operand} {condition : FieldCondition} (h : condition.Answered a) :
    Decides (condition.holds a) (condition.Meets a) := by
  cases condition with
  | equal v =>
      obtain ⟨answer, hanswer⟩ := h
      exact .of_ok hanswer
  | tests ts =>
      have hall (ts : List FieldTest) (h : ∀ t ∈ ts, ∃ answer, t.holds a = .ok answer) :
          Decides (passesAll a ts) (∀ t ∈ ts, t.holds a = .ok true) := by
        induction ts with
        | nil => exact Decides.yes.congr (iff_of_true trivial (List.forall_mem_nil _))
        | cons t ts ih =>
            obtain ⟨⟨answer, ht⟩, hts⟩ := List.forall_mem_cons.mp h
            refine ((Decides.of_ok ht).and (ih hts)).congr ?_
            rw [List.forall_mem_cons]
      exact hall ts h

end FieldCondition

/-! ### Criteria -/

namespace Criteria

variable {members : List (String × Value)}

/-- No lookup and no comparison of the criteria fails for an object with the given members. -/
inductive Answered (members : List (String × Value)) : Criteria → Prop where
  | field {name : String} {condition : FieldCondition} {a : Operand}
      (hfind : Field.find members name = .ok a) (h : condition.Answered a) :
      Answered members (.field name condition)
  | every {parts : List Criteria} (h : ∀ p ∈ parts, Answered members p) :
      Answered members (.every parts)
  | some {parts : List Criteria} (h : ∀ p ∈ parts, Answered members p) :
      Answered members (.some parts)
  | not {part : Criteria} (h : Answered members part) : Answered members (.not part)

theorem answered_field_iff {name : String} {condition : FieldCondition} :
    Answered members (.field name condition) ↔
      ∃ a, Field.find members name = .ok a ∧ condition.Answered a :=
  ⟨fun h => by cases h with | field hfind h => exact ⟨_, hfind, h⟩,
    fun ⟨_, hfind, h⟩ => .field hfind h⟩

/-- All parts have to be answered, also those that matching would not come to. -/
theorem answered_every_iff {parts : List Criteria} :
    Answered members (.every parts) ↔ ∀ p ∈ parts, Answered members p :=
  ⟨fun h => by cases h with | every h => exact h, .every⟩

theorem answered_some_iff {parts : List Criteria} :
    Answered members (.some parts) ↔ ∀ p ∈ parts, Answered members p :=
  ⟨fun h => by cases h with | some h => exact h, .some⟩

theorem answered_not_iff {part : Criteria} :
    Answered members (.not part) ↔ Answered members part :=
  ⟨fun h => by cases h with | not h => exact h, .not⟩

mutual

/-- No lookup and no comparison of the criteria fails. -/
def decideAnswered (members : List (String × Value)) :
    (c : Criteria) → Decidable (Answered members c)
  | field name condition =>
      match hfind : Field.find members name with
      | .ok a => decidable_of_iff (condition.Answered a) (by simp [answered_field_iff, hfind])
      | .error _ => .isFalse (by simp [answered_field_iff, hfind])
  | every parts => @decidable_of_iff _ _ answered_every_iff.symm (decideAllAnswered members parts)
  | some parts => @decidable_of_iff _ _ answered_some_iff.symm (decideAllAnswered members parts)
  | not part => @decidable_of_iff _ _ answered_not_iff.symm (decideAnswered members part)

/-- No lookup and no comparison of a list of criteria fails. -/
def decideAllAnswered (members : List (String × Value)) :
    (parts : List Criteria) → Decidable (∀ p ∈ parts, Answered members p)
  | [] => .isTrue (List.forall_mem_nil _)
  | c :: parts =>
      @decidable_of_iff _ _ List.forall_mem_cons.symm
        (@instDecidableAnd _ _ (decideAnswered members c) (decideAllAnswered members parts))

end

instance (c : Criteria) : Decidable (Answered members c) :=
  decideAnswered members c

mutual

/-- What the criteria say of an object with the given members. -/
def Meets (members : List (String × Value)) : Criteria → Prop
  | field name condition => ∃ a, Field.find members name = .ok a ∧ condition.Meets a
  | every parts => MeetsEvery members parts
  | some parts => MeetsSome members parts
  | not part => ¬ Meets members part

/-- All parts say yes. -/
def MeetsEvery (members : List (String × Value)) : List Criteria → Prop
  | [] => True
  | c :: cs => Meets members c ∧ MeetsEvery members cs

/-- Some part says yes. -/
def MeetsSome (members : List (String × Value)) : List Criteria → Prop
  | [] => False
  | c :: cs => Meets members c ∨ MeetsSome members cs

end

/-- "Every" is conjunction, -/
theorem meets_every_iff {parts : List Criteria} :
    Meets members (.every parts) ↔ ∀ p ∈ parts, Meets members p := by
  rw [Meets]
  induction parts with
  | nil => simp [MeetsEvery]
  | cons c parts ih => rw [MeetsEvery, ih, List.forall_mem_cons]

/-- "some" is disjunction, -/
theorem meets_some_iff {parts : List Criteria} :
    Meets members (.some parts) ↔ ∃ p ∈ parts, Meets members p := by
  rw [Meets]
  induction parts with
  | nil => simp [MeetsSome]
  | cons c parts ih => rw [MeetsSome, ih, List.exists_mem_cons_iff]

/-- and "not" is negation. -/
theorem meets_not_iff {part : Criteria} : Meets members (.not part) ↔ ¬ Meets members part := by
  rw [Meets]

mutual

/-- **Matching answers what the criteria say**, if no comparison and no lookup fails. -/
theorem holds_decides : ∀ {c : Criteria}, Answered members c →
    Decides (holds members c) (Meets members c)
  | .field name condition, h => by
      cases h with
      | field hfind h =>
          rw [holds, hfind, Result.bind_ok]
          refine (FieldCondition.holds_decides h).congr ?_
          simp [Meets, hfind]
  | .every parts, h => by
      cases h with
      | every h =>
          rw [holds, Meets]
          exact everyHolds_decides h
  | .some parts, h => by
      cases h with
      | some h =>
          rw [holds, Meets]
          exact someHolds_decides h
  | .not part, h => by
      cases h with
      | not h =>
          rw [holds, Meets]
          exact (holds_decides h).not

/-- Trying parts up to the first that does not hold answers whether all do, by induction on the
parts. -/
theorem everyHolds_decides : ∀ {parts : List Criteria}, (∀ p ∈ parts, Answered members p) →
    Decides (everyHolds members parts) (MeetsEvery members parts)
  | [], _ => by
      rw [everyHolds, MeetsEvery]
      exact .yes
  | c :: parts, h => by
      obtain ⟨hc, hparts⟩ := List.forall_mem_cons.mp h
      rw [everyHolds, MeetsEvery]
      exact (holds_decides hc).and (everyHolds_decides hparts)

/-- Trying parts up to the first that holds answers whether one does. -/
theorem someHolds_decides : ∀ {parts : List Criteria}, (∀ p ∈ parts, Answered members p) →
    Decides (someHolds members parts) (MeetsSome members parts)
  | [], _ => by
      rw [someHolds, MeetsSome]
      exact .no
  | c :: parts, h => by
      obtain ⟨hc, hparts⟩ := List.forall_mem_cons.mp h
      rw [someHolds, MeetsSome]
      exact (holds_decides hc).or (someHolds_decides hparts)

end

/-! ### Agreement -/

/-- Where the first criteria are answered, the second ones are, and they say the same. -/
def Agrees (c c' : Criteria) : Prop :=
  ∀ members, Answered members c → Answered members c' ∧ (Meets members c ↔ Meets members c')

namespace Agrees

variable {c c' c'' : Criteria} {front back parts parts' : List Criteria}

/-- Criteria agree with themselves, -/
theorem refl (c : Criteria) : Agrees c c :=
  fun _ h => ⟨h, Iff.rfl⟩

/-- and agreement goes on from one to the next. -/
theorem trans (h : Agrees c c') (h' : Agrees c' c'') : Agrees c c'' := by
  intro members hanswered
  obtain ⟨hmiddle, hmeets⟩ := h members hanswered
  obtain ⟨hlast, hmeets'⟩ := h' members hmiddle
  exact ⟨hlast, hmeets.trans hmeets'⟩

/-- Criteria that agree give the same answer. -/
theorem holds_eq (h : Agrees c c') (hanswered : Answered members c) :
    holds members c' = holds members c := by
  obtain ⟨hanswered', hmeets⟩ := h members hanswered
  exact (holds_decides hanswered').eq (holds_decides hanswered) hmeets.symm

theorem not (h : Agrees c c') : Agrees (.not c) (.not c') := by
  intro members hanswered
  cases hanswered with
  | not hanswered =>
      obtain ⟨hanswered', hmeets⟩ := h members hanswered
      rw [meets_not_iff, meets_not_iff]
      exact ⟨.not hanswered', not_congr hmeets⟩

/-- The parts of "every" may be put in any order, -/
theorem every_perm (h : parts.Perm parts') : Agrees (.every parts) (.every parts') := by
  intro members hanswered
  cases hanswered with
  | every hanswered =>
      refine ⟨.every fun p hp => hanswered p (h.mem_iff.mpr hp), ?_⟩
      simp only [meets_every_iff, h.mem_iff]

/-- and so may those of "some". -/
theorem some_perm (h : parts.Perm parts') : Agrees (.some parts) (.some parts') := by
  intro members hanswered
  cases hanswered with
  | some hanswered =>
      refine ⟨.some fun p hp => hanswered p (h.mem_iff.mpr hp), ?_⟩
      simp only [meets_some_iff, h.mem_iff]

/-- Another part in the place of one that it agrees with. -/
theorem every_part (h : Agrees c c') :
    Agrees (.every (front ++ c :: back)) (.every (front ++ c' :: back)) := by
  intro members hanswered
  cases hanswered with
  | every hanswered =>
      simp only [List.forall_mem_append, List.forall_mem_cons] at hanswered
      obtain ⟨hfront, hc, hback⟩ := hanswered
      obtain ⟨hc', hmeets⟩ := h members hc
      refine ⟨.every ?_, ?_⟩
      · exact List.forall_mem_append.mpr ⟨hfront, List.forall_mem_cons.mpr ⟨hc', hback⟩⟩
      · simp only [meets_every_iff, List.forall_mem_append, List.forall_mem_cons, hmeets]

/-- A part may be replaced by one that it agrees with. -/
theorem some_part (h : Agrees c c') :
    Agrees (.some (front ++ c :: back)) (.some (front ++ c' :: back)) := by
  intro members hanswered
  cases hanswered with
  | some hanswered =>
      simp only [List.forall_mem_append, List.forall_mem_cons] at hanswered
      obtain ⟨hfront, hc, hback⟩ := hanswered
      obtain ⟨hc', hmeets⟩ := h members hc
      refine ⟨.some ?_, ?_⟩
      · exact List.forall_mem_append.mpr ⟨hfront, List.forall_mem_cons.mpr ⟨hc', hback⟩⟩
      · simp only [meets_some_iff, List.mem_append, List.mem_cons, or_and_right, exists_or,
          exists_eq_left, hmeets]

/-- The tests of a field in another order. -/
theorem field_tests {ts ts' : List FieldTest} (name : String) (h : ts.Perm ts') :
    Agrees (.field name (.tests ts)) (.field name (.tests ts')) := by
  intro members hanswered
  cases hanswered with
  | field hfind hanswered =>
      simp only [FieldCondition.Answered, h.mem_iff] at hanswered
      refine ⟨.field hfind hanswered, ?_⟩
      simp only [Meets, FieldCondition.Meets, h.mem_iff]

end Agrees

end Criteria

end Quarry
