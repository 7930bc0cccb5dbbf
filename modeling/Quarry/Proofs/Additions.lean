import Quarry.Expr.Eval
import Quarry.Proofs.Merging
import Quarry.Proofs.Result

/-!
# Additions — sums of several values

Doubles apart, whether two values have a sum is a matter of their kinds alone: `Adds` says which
do, and what it is (`arithmetic_add_iff`).  The sum has the kind of the parts, and it is the sum
of integers, or the parts one after the other, with the members that come twice merged.  It makes
no difference when they are merged, so three values have one sum however they are grouped
(`arithmetic_add_assoc`).
-/

namespace Quarry

/-- A number that is a double. -/
def Value.IsDouble : Value → Prop
  | .number (.float _) => True
  | _ => False

namespace Expr

variable {a b c v w s t u : Value}

/-- The last of these values is the sum of the others; of numbers, integers alone are added. -/
inductive Adds : Value → Value → Value → Prop
  | null_left (w : Value) : Adds .null w w
  | null_right (v : Value) : Adds v .null v
  | ints (i j : Int) : Adds (.number (.int i)) (.number (.int j)) (.number (.int (i + j)))
  | strings (x y : String) : Adds (.string x) (.string y) (.string (x ++ y))
  | arrays (xs ys : List Value) : Adds (.array xs) (.array ys) (.array (xs ++ ys))
  | objects (xs ys : List (String × Value)) :
      Adds (.object xs) (.object ys) (.object (Members.merge (xs ++ ys)))

/-! ### Two values -/

/-- Null adds nothing, from the right as from the left. -/
theorem arithmetic_add_null (v : Value) : arithmetic .add v .null = .ok v := by
  cases v <;> rfl

theorem Adds.arithmetic_eq (h : Adds v w u) : arithmetic .add v w = .ok u := by
  cases h with
  | null_left => rfl
  | null_right => exact arithmetic_add_null v
  | ints | strings | arrays | objects => rfl

/-- Doubles apart, there is no other sum. -/
theorem adds_of_arithmetic_eq (hv : ¬ v.IsDouble) (hw : ¬ w.IsDouble)
    (h : arithmetic .add v w = .ok u) : Adds v w u := by
  rw [arithmetic.eq_def] at h
  split at h
  case h_1 =>
    obtain rfl := Except.ok.inj h
    exact .null_left _
  case h_2 =>
    obtain rfl := Except.ok.inj h
    exact .null_right _
  case h_3 m n _ =>
    cases m with
    | float => exact absurd trivial hv
    | int i =>
        cases n with
        | float => exact absurd trivial hw
        | int j =>
            obtain rfl := Except.ok.inj h
            exact .ints i j
  case h_4 x y _ =>
    obtain rfl := Except.ok.inj h
    exact .strings x y
  case h_5 xs ys _ =>
    obtain rfl := Except.ok.inj h
    exact .arrays xs ys
  case h_6 xs ys _ =>
    obtain rfl := Except.ok.inj h
    exact .objects xs ys
  case h_12 => nomatch h
  -- the other operators
  all_goals contradiction

theorem arithmetic_add_iff (hv : ¬ v.IsDouble) (hw : ¬ w.IsDouble) :
    arithmetic .add v w = .ok u ↔ Adds v w u :=
  ⟨adds_of_arithmetic_eq hv hw, Adds.arithmetic_eq⟩

/-- Sums of values that are no doubles are none. -/
theorem Adds.not_isDouble (h : Adds v w u) (hv : ¬ v.IsDouble) (hw : ¬ w.IsDouble) :
    ¬ u.IsDouble := by
  cases h with
  | null_left => exact hw
  | null_right => exact hv
  | ints | strings | arrays | objects => exact id

/-! ### Three values -/

/-- Two sums in a row may be grouped to the right: by the kinds of the three values, -/
theorem Adds.regroup_right (hab : Adds a b s) (hsc : Adds s c u) :
    ∃ t, Adds b c t ∧ Adds a t u := by
  cases hab with
  | null_left => exact ⟨u, hsc, .null_left u⟩
  | null_right => exact ⟨c, .null_left c, hsc⟩
  | ints i j =>
      cases hsc with
      | null_right => exact ⟨_, .null_right _, .ints i j⟩
      | ints _ k =>
          rw [Int.add_assoc]
          exact ⟨_, .ints j k, .ints i (j + k)⟩
  | strings x y =>
      cases hsc with
      | null_right => exact ⟨_, .null_right _, .strings x y⟩
      | strings _ z =>
          rw [String.append_assoc]
          exact ⟨_, .strings y z, .strings x (y ++ z)⟩
  | arrays xs ys =>
      cases hsc with
      | null_right => exact ⟨_, .null_right _, .arrays xs ys⟩
      | arrays _ zs =>
          rw [List.append_assoc]
          exact ⟨_, .arrays ys zs, .arrays xs (ys ++ zs)⟩
  | objects xs ys =>
      cases hsc with
      | null_right => exact ⟨_, .null_right _, .objects xs ys⟩
      | objects _ zs =>
          rw [Members.merge_merge_append, List.append_assoc, ← Members.merge_append_merge]
          exact ⟨_, .objects ys zs, .objects xs _⟩

/-- and back to the left. -/
theorem Adds.regroup_left (hbc : Adds b c t) (hat : Adds a t u) :
    ∃ s, Adds a b s ∧ Adds s c u := by
  cases hbc with
  | null_left => exact ⟨a, .null_right a, hat⟩
  | null_right => exact ⟨u, hat, .null_right u⟩
  | ints j k =>
      cases hat with
      | null_left => exact ⟨_, .null_left _, .ints j k⟩
      | ints i =>
          rw [← Int.add_assoc]
          exact ⟨_, .ints i j, .ints (i + j) k⟩
  | strings y z =>
      cases hat with
      | null_left => exact ⟨_, .null_left _, .strings y z⟩
      | strings x =>
          rw [← String.append_assoc]
          exact ⟨_, .strings x y, .strings (x ++ y) z⟩
  | arrays ys zs =>
      cases hat with
      | null_left => exact ⟨_, .null_left _, .arrays ys zs⟩
      | arrays xs =>
          rw [← List.append_assoc]
          exact ⟨_, .arrays xs ys, .arrays (xs ++ ys) zs⟩
  | objects ys zs =>
      cases hat with
      | null_left => exact ⟨_, .null_left _, .objects ys zs⟩
      | objects xs =>
          rw [Members.merge_append_merge, ← List.append_assoc, ← Members.merge_merge_append]
          exact ⟨_, .objects xs ys, .objects _ zs⟩

/-- So three values have a sum in the one grouping if and only if they have it in the other. -/
theorem adds_assoc : (∃ s, Adds a b s ∧ Adds s c u) ↔ ∃ t, Adds b c t ∧ Adds a t u := by
  constructor
  · rintro ⟨s, hab, hsc⟩
    exact hab.regroup_right hsc
  · rintro ⟨t, hbc, hat⟩
    exact hbc.regroup_left hat

/-- Two sums, the first of which is added to on the right. -/
theorem add_add_iff (ha : ¬ a.IsDouble) (hb : ¬ b.IsDouble) (hc : ¬ c.IsDouble) :
    (do arithmetic .add (← arithmetic .add a b) c) = .ok u ↔ ∃ s, Adds a b s ∧ Adds s c u := by
  rw [Result.bind_eq_ok]
  refine exists_congr fun s => ?_
  rw [arithmetic_add_iff ha hb]
  exact and_congr_right fun h => arithmetic_add_iff (h.not_isDouble ha hb) hc

/-- Two sums, the first of which is added to on the left. -/
theorem add_of_add_iff (ha : ¬ a.IsDouble) (hb : ¬ b.IsDouble) (hc : ¬ c.IsDouble) :
    (do arithmetic .add a (← arithmetic .add b c)) = .ok u ↔ ∃ t, Adds b c t ∧ Adds a t u := by
  rw [Result.bind_eq_ok]
  refine exists_congr fun t => ?_
  rw [arithmetic_add_iff hb hc]
  exact and_congr_right fun h => arithmetic_add_iff ha (h.not_isDouble hb hc)

/-- **Sums are associative**, doubles apart, and null is neutral in them: three values have a sum
in one grouping if they have it in the other, members in the same order. -/
theorem arithmetic_add_assoc (ha : ¬ a.IsDouble) (hb : ¬ b.IsDouble) (hc : ¬ c.IsDouble) :
    (∀ u, (do arithmetic .add (← arithmetic .add a b) c) = .ok u ↔
      (do arithmetic .add a (← arithmetic .add b c)) = .ok u) ∧
    arithmetic .add .null a = .ok a ∧ arithmetic .add a .null = .ok a := by
  refine ⟨fun u => ?_, rfl, arithmetic_add_null a⟩
  calc (do arithmetic .add (← arithmetic .add a b) c) = .ok u
    _ ↔ ∃ s, Adds a b s ∧ Adds s c u := add_add_iff ha hb hc
    _ ↔ ∃ t, Adds b c t ∧ Adds a t u := adds_assoc
    _ ↔ (do arithmetic .add a (← arithmetic .add b c)) = .ok u := (add_of_add_iff ha hb hc).symm

/-- Three objects with `x`, two of them with `y`: the first place and the last value of each. -/
theorem arithmetic_add_assoc_objects :
    let one : Value := .object [("x", .ofNat 1)]
    let two : Value := .object [("y", .ofNat 2), ("x", .ofNat 3)]
    let three : Value := .object [("x", .ofNat 4), ("y", .null)]
    (¬ one.IsDouble ∧ ¬ two.IsDouble ∧ ¬ three.IsDouble) ∧
      (do arithmetic .add one (← arithmetic .add two three)) =
        .ok (.object [("x", .ofNat 4), ("y", .null)]) := by
  intro one two three
  have hone : ¬ one.IsDouble := id
  have htwo : ¬ two.IsDouble := id
  have hthree : ¬ three.IsDouble := id
  refine ⟨⟨hone, htwo, hthree⟩, ((arithmetic_add_assoc hone htwo hthree).1 _).mp ?_⟩
  rfl

end Expr
end Quarry
