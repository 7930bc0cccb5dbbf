import Quarry.Proofs.Heights
import Quarry.Proofs.Integers
import Quarry.Proofs.Literals
import Quarry.Proofs.Precedence

/-!
# Conversions — integers by way of doubles

A text is made into a number by way of a double, also where it is the text of an integer
(`Value.toFloat_intText`).  So `tostring | tonumber` gives an integer back if and only if it is a
double, and in its own form only below `2 ^ 53` in magnitude (`Expr.toNumber_toString`).

`round` adds a half and takes the floor.  The sum is a double too, and beyond `2 ^ 52` there are
none between the integers; an odd integer and a half goes to the even one above it, and is rounded
to that (`Expr.round_integer`).
-/

namespace Quarry

-- powers are those of the core library, as in the definitions
attribute [local instance (high)] instPowNat

namespace Binary64

variable {n : Int}

/-! ### Integers as doubles -/

/-- The digits of an integer are read as the double nearest to it. -/
theorem ofDecimal_eq_ofInt (n : Int) : ofDecimal (n < 0) n.natAbs 0 = ofInt n := by
  rcases eq_or_ne n 0 with rfl | hne
  · decide +kernel
  · have hge : ¬ (0 : Int) + (n.natAbs.log2 / 3 + 1 : Nat) < -400 := by omega
    rw [ofDecimal, if_neg (Int.natAbs_ne_zero.mpr hne), if_neg (by decide), if_neg hge, ofInt]
    simp

/-- A double is no fraction of a step away from itself. -/
theorem rounded_magnitude (x : Finite) : rounded x.magnitude = x.magnitude :=
  rounded_of_le x.canonical.1.le x.shift

/-- **An integer is a double itself** if and only if it is not rounded. -/
theorem nearestUnits_eq_iff :
    nearestUnits n = n * unitsPerOne ∧ n.natAbs < Number.floatBound ↔
      ∃ x : Finite, x.units = n * unitsPerOne := by
  constructor
  · rintro ⟨hunits, hlt⟩
    rcases ofInt_cases n with ⟨-, x, -, hx⟩ | ⟨hle, -⟩
    · exact ⟨x, hx.trans hunits⟩
    · exact absurd hlt (Nat.not_lt_of_le hle)
  · rintro ⟨x, hx⟩
    have hmagnitude : n.natAbs * unitsPerOne = x.magnitude := by
      have habs := congrArg Int.natAbs hx
      rw [Int.natAbs_mul, Int.natAbs_natCast, Finite.units] at habs
      rw [← habs]
      split <;> omega
    have hrounded := rounded_magnitude x
    rw [← hmagnitude] at hrounded
    refine ⟨?_, ?_⟩
    · rw [nearestUnits, hrounded, Int.natCast_mul]
      exact signed_mul Iff.rfl
    · rw [← rounded_lt_iff, hrounded, hmagnitude, Finite.magnitude]
      calc x.significand * 2 ^ x.shift < 2 ^ 53 * 2 ^ x.shift :=
            Nat.mul_lt_mul_of_pos_right x.canonical.1 (Nat.two_pow_pos _)
        _ = 2 ^ (53 + x.shift) := (Nat.pow_add 2 53 x.shift).symm
        _ ≤ unitsBound := two_pow_le_unitsBound (by have := x.canonical.2.2; omega)

/-- A double that is equal to an integer. -/
theorem toInt?_of_units {x : Finite} (h : x.units = n * unitsPerOne) : x.toInt? = some n := by
  have hne : (unitsPerOne : Int) ≠ 0 := Int.natCast_ne_zero.mpr unitsPerOne_pos.ne'
  have hdvd : (unitsPerOne : Int) ∣ x.magnitude :=
    Finite.dvd_units_iff.mp (h ▸ Int.dvd_mul_left n unitsPerOne)
  rw [Finite.toInt?, if_pos (Nat.mod_eq_zero_of_dvd (Int.natCast_dvd_natCast.mp hdvd)), h,
    Int.mul_ediv_cancel _ hne]

end Binary64

namespace Number

variable {n : Int}

/-- **The nearest double** of an integer is that integer in normal form if and only if it is a small
one. -/
theorem ofFloat_ofInt_iff : ofFloat (Binary64.ofInt n) = .int n ↔ n.natAbs < safeBound := by
  constructor
  · generalize Binary64.ofInt n = x
    intro h
    rw [ofFloat.eq_def] at h
    split at h
    · split at h
      · split at h
        · cases h
          assumption
        · cases h
      · cases h
    · cases h
  · intro h
    rcases Binary64.ofInt_cases n with ⟨-, x, hx, hunits⟩ | ⟨hle, -⟩
    · rw [Binary64.nearestUnits_of_le h.le] at hunits
      rw [hx, ofFloat, Binary64.toInt?_of_units hunits]
      exact if_pos h
    · exact absurd (h.trans safeBound_lt_floatBound) (Nat.not_lt_of_le hle)

/-- An integer with a nearest double has few enough digits to be written. -/
theorem isWritable_of_lt (h : n.natAbs < floatBound) : (int n).isWritable = true := by
  rcases Binary64.ofInt_cases n with ⟨-, x, hx, -⟩ | ⟨hle, -⟩
  · exact isWritable_of_toFloat (toFloat_int hx)
  · exact absurd h (Nat.not_lt_of_le hle)

/-- An integer is equal to the normal form of a double that has its value. -/
theorem same_ofFloat_iff {x : Binary64.Finite} :
    (int n).same (ofFloat (.finite x)) = true ↔ x.units = n * Binary64.unitsPerOne := by
  rw [same, order?_ofFloat, order?, Binary64.orderInt?, decide_eq_true_eq, Option.some.injEq,
    compare_eq_iff_eq, eq_comm]

end Number

/-! ### Texts of integers -/

/-- **The text of an integer as a number** is the nearest double. -/
theorem Value.toFloat_intText (n : Int) :
    (Value.string (String.ofList (Number.intText n))).toFloat = .ok (Binary64.ofInt n) := by
  have htrimmed : Text.Trimmed (Number.intText n) :=
    (trimmed_scalar (v := .number (.int n)) trivial (Value.everyNumber_number.mpr rfl)).2
  have hnumeral : Text.numeral? (Number.intText n) =
      some ⟨n < 0, Nat.toDigits 10 n.natAbs, [], 0, true⟩ := by
    rw [Number.intText_eq, Text.numeral?_signedText]
    rfl
  have hfloat : Text.Numeral.toFloat ⟨n < 0, Nat.toDigits 10 n.natAbs, [], 0, true⟩ =
      Binary64.ofInt n := by
    rw [Text.Numeral.toFloat, List.append_nil, Text.naturalOf_toDigits]
    exact Binary64.ofDecimal_eq_ofInt n
  rw [Value.toFloat, String.toList_ofList, Text.trim_of_trimmed htrimmed]
  split
  · rename_i hnil
    exact absurd hnil (Number.intText_ne_nil n)
  · rw [hnumeral]
    simp only [hfloat]

namespace Expr

variable {n : Int} {limit budget : Nat}

theorem applySubject_toNumber_intText (n : Int) :
    applySubject .toNumber (.string (String.ofList (Number.intText n))) =
      checked (.float (Binary64.ofInt n)) := by
  have hnumber : (Binary64.ofInt n).isNaN = false := by
    rcases Binary64.ofInt_cases n with ⟨-, x, hx, -⟩ | ⟨-, hx⟩ <;> rw [hx] <;> rfl
  rw [applySubject, Value.toFloat_intText, Result.bind_ok, hnumber, if_neg Bool.false_ne_true]

/-- A double as a result: it has to be finite. -/
theorem checked_ofInt (n : Int) :
    n.natAbs < Number.floatBound ∧ checked (.float (Binary64.ofInt n)) =
        .ok (.number (Number.ofFloat (Binary64.ofInt n))) ∨
      Number.floatBound ≤ n.natAbs ∧
        checked (.float (Binary64.ofInt n)) = failWith .notFinite := by
  rcases Binary64.ofInt_cases n with ⟨hlt, x, hx, -⟩ | ⟨hle, hx⟩
  · rw [hx]
    exact .inl ⟨hlt, rfl⟩
  · rw [hx]
    exact .inr ⟨hle, rfl⟩

/-- An integer is found again, as a number of its value, if and only if it is a double. -/
theorem checked_ofInt_same_iff :
    (∃ v, checked (.float (Binary64.ofInt n)) = .ok v ∧ (Value.number (.int n)).same v = true) ↔
      ∃ x : Binary64.Finite, x.units = n * Binary64.unitsPerOne := by
  rw [← Binary64.nearestUnits_eq_iff]
  rcases Binary64.ofInt_cases n with ⟨hlt, x, hx, hunits⟩ | ⟨hle, hx⟩
  · have hfound : checked (.float (.finite x)) = .ok (.number (Number.ofFloat (.finite x))) := rfl
    have hsame : (Value.number (.int n)).same (.number (Number.ofFloat (.finite x))) = true ↔
        Binary64.nearestUnits n = n * Binary64.unitsPerOne := by
      rw [Value.same, Number.same_ofFloat_iff, hunits]
    rw [hx, hfound, ← hsame]
    constructor
    · rintro ⟨_, ⟨⟩, h⟩
      exact ⟨h, hlt⟩
    · rintro ⟨h, -⟩
      exact ⟨_, rfl, h⟩
  · rw [hx]
    constructor
    · rintro ⟨_, ⟨⟩, -⟩
    · rintro ⟨-, hlt⟩
      exact absurd hlt (Nat.not_lt_of_le hle)

theorem settles_subject {f : SubjectFunction} (hf : f ≠ .builtin .not)
    {enter : Except Fault Level} : Settles enter .path [.word f.name] (.subject f none) :=
  .of_primary (opens_name (f := .subject f) (by simpa using hf) []) (.callAlone f)

theorem allSound_subject (f : SubjectFunction) : AllSound [.word f.name] :=
  allSound_cons.mpr ⟨functionName_identifier (.subject f), allSound_nil⟩

/-- A text that names a function is read, whatever the limit is. -/
theorem read_subject {text : String} {f : SubjectFunction} (hf : f ≠ .builtin .not)
    (htext : Spells [.word f.name] text.toList) (limit : Nat) :
    read limit text = .ok (.subject f none) := by
  refine read_of_reads htext (List.cons_ne_nil _ _) (allSound_subject f) ?_
  rw [at_eq_around]
  exact ((settles_subject hf).climb .pipe (by decide)).plain

/-- A text that names two functions with a bar between them is read, whatever the limit is. -/
theorem read_subject_pipe {text : String} {f g : SubjectFunction} (hf : f ≠ .builtin .not)
    (hg : g ≠ .builtin .not)
    (htext : Spells [.word f.name, .sign .pipe, .word g.name] text.toList) (limit : Nat) :
    read limit text = .ok (.pipe (.subject f none) (.subject g none)) := by
  have hpipe {enter : Except Fault Level} :
      Settles enter .pipe ([.word f.name] ++ .sign .pipe :: [.word g.name])
        (.pipe (.subject f none) (.subject g none)) :=
    .join rfl (fun t ht => by rw [joinPipe, ht.1]; rfl)
      ((settles_subject hf).climb .pipe (by decide))
      ((settles_subject hg).climb .disjunction (by decide))
  have hsound : AllSound [.word f.name, .sign .pipe, .word g.name] :=
    allSound_cons.mpr ⟨functionName_identifier (.subject f), allSound_cons.mpr
      ⟨List.cons_ne_nil _ _, allSound_subject g⟩⟩
  refine read_of_reads htext (List.cons_ne_nil _ _) hsound ?_
  rw [at_eq_around]
  exact hpipe.plain

theorem evaluate_toString_toNumber (hlimit : 1 ≤ limit) (hbudget : 3 ≤ budget)
    (hn : (Number.int n).isWritable = true) :
    evaluate limit budget "tostring | tonumber" (.number (.int n)) =
      checked (.float (Binary64.ofInt n)) := by
  have hspells : Spells [.word "tostring", .sign .pipe, .word "tonumber"]
      "tostring | tonumber".toList :=
    .cons (l := .word "tostring") (.blank (by decide) (.cons (l := .sign .pipe)
      (.blank (by decide) (.cons (l := .word "tonumber") .nil rfl)) rfl)) rfl
  have hread := read_subject_pipe (f := .toString) (g := .toNumber) nofun nofun hspells limit
  have htext : applySubject .toString (.number (.int n)) =
      .ok (.string (String.ofList (Number.intText n))) := by
    rw [applySubject, Value.text, if_pos hn]
    rfl
  have hfinds := (Finds.subject .toString (.number (.int n))).pipe fun w _ =>
    Finds.subject .toNumber w
  have hvalue := hfinds.value (Nat.succ_le_succ hlimit) hbudget
  rw [evaluate, hread]
  rw [htext, Result.bind_ok, applySubject_toNumber_intText] at hvalue
  exact hvalue

/-- **Integers as texts and back.**  The text of an integer is made into the nearest double, if
there is one.  So the integer comes back, as a number of the same value, if and only if it is a
double itself, and in its own form if and only if it is below `2 ^ 53` in magnitude. -/
theorem toNumber_toString (hlimit : 1 ≤ limit) (hbudget : 3 ≤ budget)
    (hn : (Number.int n).isWritable = true) :
    let outcome := evaluate limit budget "tostring | tonumber" (.number (.int n))
    (n.natAbs < Number.floatBound →
      outcome = .ok (.number (Number.ofFloat (Binary64.ofInt n)))) ∧
    (Number.floatBound ≤ n.natAbs → outcome = failWith .notFinite) ∧
    ((∃ v, outcome = .ok v ∧ (Value.number (.int n)).same v = true) ↔
      ∃ x : Binary64.Finite, x.units = n * Binary64.unitsPerOne) ∧
    (outcome = .ok (.number (.int n)) ↔ n.natAbs < Number.safeBound) := by
  intro outcome
  have houtcome : outcome = checked (.float (Binary64.ofInt n)) :=
    evaluate_toString_toNumber hlimit hbudget hn
  rw [houtcome, ← Number.ofFloat_ofInt_iff]
  rcases checked_ofInt n with ⟨hlt, hfound⟩ | ⟨hle, hfound⟩
  · refine ⟨fun _ => hfound, fun hle => absurd hlt (Nat.not_lt_of_le hle),
      checked_ofInt_same_iff, ?_⟩
    rw [hfound, Except.ok.injEq, Value.number.injEq]
  · refine ⟨fun hlt => absurd hlt (Nat.not_lt_of_le hle), fun _ => hfound,
      checked_ofInt_same_iff, ?_⟩
    have hlarge : ¬ Number.ofFloat (Binary64.ofInt n) = .int n := fun hsmall =>
      absurd ((Number.ofFloat_ofInt_iff.mp hsmall).trans Number.safeBound_lt_floatBound)
        (Nat.not_lt_of_le hle)
    rw [hfound]
    exact ⟨nofun, fun hsmall => absurd hsmall hlarge⟩

/-- The least of the integers that come back in their own form. -/
theorem toNumber_toString_safe :
    let n : Int := -(2 ^ 53 - 1)
    (1 ≤ 1 ∧ 3 ≤ 3 ∧ (Number.int n).isWritable = true) ∧ n.natAbs < Number.safeBound ∧
      evaluate 1 3 "tostring | tonumber" (.number (.int n)) = .ok (.number (.int n)) := by
  intro n
  have hsafe : n.natAbs < Number.safeBound := by decide
  have hn : (Number.int n).isWritable = true :=
    Number.isWritable_of_lt (hsafe.trans Number.safeBound_lt_floatBound)
  obtain ⟨-, -, -, hback⟩ := toNumber_toString (Nat.le_refl 1) (Nat.le_refl 3) hn
  exact ⟨⟨Nat.le_refl 1, Nat.le_refl 3, hn⟩, hsafe, hback.mpr hsafe⟩

/-- The least positive integer that is no double comes back as the one before it. -/
theorem not_toNumber_rounded :
    let n : Int := 2 ^ 53 + 1
    ¬ ∃ v, evaluate 1 3 "tostring | tonumber" (.number (.int n)) = .ok v ∧
      (Value.number (.int n)).same v = true := by
  intro n
  have hlt : n.natAbs < Number.floatBound :=
    (by decide : n.natAbs < 2 ^ 54).trans (Number.two_pow_lt_floatBound (by decide))
  have hround : Binary64.rounded (2 ^ 53 + 1) = 2 ^ 53 := by decide
  rw [evaluate_toString_toNumber (Nat.le_refl 1) (Nat.le_refl 3) (Number.isWritable_of_lt hlt),
    checked_ofInt_same_iff, ← Binary64.nearestUnits_eq_iff]
  rintro ⟨hunits, -⟩
  have hrounded := Binary64.nearestUnits_natCast (n := 2 ^ 53 + 1) (by decide)
  rw [hround] at hrounded
  have heq : (2 ^ 53 * Binary64.unitsPerOne : Nat) = n * Binary64.unitsPerOne :=
    hrounded.symm.trans hunits
  rw [Int.natCast_mul] at heq
  have hne : (Binary64.unitsPerOne : Int) ≠ 0 :=
    Int.natCast_ne_zero.mpr Binary64.unitsPerOne_pos.ne'
  exact absurd (Int.eq_of_mul_eq_mul_right hne heq) (by decide)

end Expr

namespace Binary64

/-! ### Halves -/

/-- Half of one. -/
def half : Finite := ⟨false, 2 ^ 52, 1021, by decide⟩

/-- How many units make a half. -/
def unitsPerHalf : Nat := 2 ^ (1073 : Nat)

theorem ofQuotient_half : ofQuotient false unitsPerOne 2 = .finite half := by
  decide +kernel

theorem units_half : half.units = unitsPerHalf := by
  simp only [Finite.units, Finite.magnitude, half, unitsPerHalf, ← Nat.pow_add, Nat.reduceAdd,
    Bool.false_eq_true, if_false]

theorem unitsPerOne_eq : unitsPerOne = 2 * unitsPerHalf := by
  rw [unitsPerOne, unitsPerHalf, ← Nat.pow_succ']

theorem unitsPerHalf_pos : 0 < unitsPerHalf :=
  Nat.two_pow_pos _

/-- An odd number with one bit more than a significand lies between two doubles, and goes to the
multiple of four. -/
theorem rounded_odd {q : Nat} (hlow : 2 ^ 52 ≤ q) (hhigh : q < 2 ^ 53) :
    rounded (2 * q + 1) = 2 * (q + q % 2) := by
  have hlog : (2 * q + 1).log2 = 53 :=
    (Nat.log2_eq_iff (Nat.succ_ne_zero _)).mpr ⟨by omega, by omega⟩
  have hshift : shiftOf (2 * q + 1) = 1 := by rw [shiftOf, hlog]
  have hround : roundDiv (2 * q + 1) (2 ^ 1) = q + q % 2 := by
    rw [roundDiv]
    split_ifs <;> omega
  rw [rounded, hshift, hround, Nat.mul_comm, Nat.pow_one]

/-- What an integer and a half is rounded to, in halves. -/
theorem rounded_halves {n : Int} (h : n.natAbs < Number.safeBound) (e : Nat) :
    ∃ k : Int, rounded ((2 * n + 1).natAbs * 2 ^ e) = k.natAbs * 2 ^ e ∧
      (k < 0 ↔ 2 * n + 1 < 0) ∧ k / 2 = if 2 ^ 52 < n.natAbs then n + n % 2 else n := by
  rw [Number.safeBound] at h
  rcases Nat.lt_or_ge (2 * n + 1).natAbs (2 ^ 53) with hlt | hge
  · refine ⟨2 * n + 1, rounded_of_le hlt.le e, Iff.rfl, ?_⟩
    rw [if_neg (by omega)]
    omega
  · obtain ⟨q, hq⟩ : ∃ q, (2 * n + 1).natAbs = 2 * q + 1 :=
      ⟨(2 * n + 1).natAbs / 2, by omega⟩
    refine ⟨2 * (n + n % 2), ?_, by omega, ?_⟩
    · have hnatAbs : (2 * (n + n % 2)).natAbs = 2 * (q + q % 2) := by omega
      rw [hq, rounded_mul_two_pow (by omega), rounded_odd (by omega) (by omega), hnatAbs]
    · split <;> omega

/-- A number of units that is not rounded beyond every double. -/
theorem ofUnits_of_lt {s : Int} (h : rounded s.natAbs < unitsBound) (zeroSign : Bool) :
    ∃ x : Finite, ofUnits s zeroSign = .finite x ∧
      x.units = if s < 0 then -(rounded s.natAbs : Int) else rounded s.natAbs := by
  rw [ofUnits]
  rcases ofQuotient_one_cases (if s = 0 then zeroSign else s < 0) s.natAbs with
    ⟨-, x, hx, hnegative, hmagnitude⟩ | ⟨hle, -⟩
  · refine ⟨x, hx, ?_⟩
    rw [Finite.units, hmagnitude, hnegative]
    rcases eq_or_ne s 0 with rfl | hne
    · have hzero : rounded (0 : Int).natAbs = 0 := by decide
      rw [hzero]
      simp
    · simp only [if_neg hne, decide_eq_true_eq]
  · exact absurd h (Nat.not_lt_of_le hle)

/-- **An integer and a half**, added as doubles. -/
theorem add_half {n : Int} (h : n.natAbs < Number.safeBound) {x : Finite}
    (hx : x.units = n * unitsPerOne) :
    ∃ y : Finite, (finite x).add (.finite half) = .finite y ∧
      y.floor = if 2 ^ 52 < n.natAbs then n + n % 2 else n := by
  obtain ⟨e, he⟩ : ∃ e, unitsPerHalf = 2 ^ e := ⟨_, unitsPerHalf.eq_1⟩
  obtain ⟨k, hrounded, hsign, hk⟩ := rounded_halves h e
  have hsum : x.units + half.units = (2 * n + 1) * unitsPerHalf := by
    rw [hx, units_half, unitsPerOne_eq]
    grind
  have hnatAbs : (x.units + half.units).natAbs = (2 * n + 1).natAbs * 2 ^ e := by
    rw [hsum, Int.natAbs_mul, Int.natAbs_natCast, he]
  have hlt : rounded (x.units + half.units).natAbs < unitsBound := by
    have hle : (x.units + half.units).natAbs ≤ Number.safeBound * unitsPerOne := by
      rw [hnatAbs, ← he, unitsPerOne_eq, ← Nat.mul_assoc]
      exact Nat.mul_le_mul_right _ (by omega)
    exact (rounded_mono hle).trans_lt (rounded_lt_iff.mpr Number.safeBound_lt_floatBound)
  obtain ⟨y, hy, hunits⟩ := ofUnits_of_lt hlt (x.negative && half.negative)
  have hpos : (0 : Int) < unitsPerHalf := Int.natCast_pos.mpr unitsPerHalf_pos
  have hvalue : y.units = k * unitsPerHalf := by
    have hnegative : x.units + half.units < 0 ↔ k < 0 := by
      rw [hsign, hsum]
      exact ⟨fun hlt => Int.neg_of_mul_neg_left hlt hpos,
        fun hlt => Int.mul_neg_of_neg_of_pos hlt hpos⟩
    rw [hunits, hnatAbs, hrounded, ← he, Int.natCast_mul]
    exact signed_mul hnegative
  refine ⟨y, hy, ?_⟩
  rw [Finite.floor, hvalue, unitsPerOne_eq, Int.natCast_mul, Int.mul_ediv_mul_of_pos_left _ _ hpos]
  exact hk

end Binary64

namespace Number

/-- An integer, rounded. -/
theorem round_int {n : Int} (h : n.natAbs < safeBound) :
    (int n).round = .ok (if 2 ^ 52 < n.natAbs then n + n % 2 else n) := by
  rcases Binary64.ofInt_cases n with ⟨-, x, hx, hunits⟩ | ⟨hle, -⟩
  · rw [Binary64.nearestUnits_of_le h.le] at hunits
    obtain ⟨y, hy, hfloor⟩ := Binary64.add_half h hunits
    rw [round, toFloat_int hx, Result.bind_ok, Binary64.ofQuotient_half, hy, ← hfloor]
    rfl
  · exact absurd (h.trans safeBound_lt_floatBound) (Nat.not_lt_of_le hle)

end Number

namespace Expr

variable {n : Int} {budget : Nat}

theorem evaluate_round (limit : Nat) (hbudget : 0 < budget) (hn : n.natAbs < Number.safeBound) :
    evaluate limit budget "round" (.number (.int n)) =
      .ok (.number (.int (if 2 ^ 52 < n.natAbs then n + n % 2 else n))) := by
  have hspells : Spells [.word "round"] "round".toList := .cons (l := .word "round") .nil rfl
  rw [evaluate_subject (read_subject (f := .round) nofun hspells limit) hbudget, applySubject,
    Number.round_int hn]
  rfl

/-- **Small integers, rounded.**  An integer below `2 ^ 53` in magnitude is rounded to an integer,
and to itself if and only if it is even or not beyond `2 ^ 52` in magnitude: an odd one beyond that
and a half are between two doubles, and the even integer above is found. -/
theorem round_integer (limit : Nat) (hbudget : 0 < budget) (hn : n.natAbs < Number.safeBound) :
    evaluate limit budget "round" (.number (.int n)) =
        .ok (.number (.int (if 2 ^ 52 < n.natAbs then n + n % 2 else n))) ∧
      (evaluate limit budget "round" (.number (.int n)) = .ok (.number (.int n)) ↔
        n.natAbs ≤ 2 ^ 52 ∨ n % 2 = 0) := by
  have hround := evaluate_round limit hbudget hn
  refine ⟨hround, ?_⟩
  rw [hround, Except.ok.injEq, Value.number.injEq, Number.int.injEq]
  split <;> omega

/-- The greatest of the integers that are rounded to themselves. -/
theorem round_integer_even :
    let n : Int := 2 ^ 53 - 2
    (0 < 1 ∧ n.natAbs < Number.safeBound) ∧
      evaluate 8 1 "round" (.number (.int n)) = .ok (.number (.int n)) := by
  intro n
  have hn : n.natAbs < Number.safeBound := by decide
  obtain ⟨-, hround⟩ := round_integer 8 Nat.one_pos hn
  exact ⟨⟨Nat.one_pos, hn⟩, hround.mpr (.inr (by decide))⟩

/-- The least positive integer that is rounded to another one, which is above it. -/
theorem not_round_odd :
    let n : Int := 2 ^ 52 + 1
    n.natAbs < Number.safeBound ∧
      evaluate 8 1 "round" (.number (.int n)) = .ok (.number (.int (n + 1))) ∧
      evaluate 8 1 "round" (.number (.int n)) ≠ .ok (.number (.int n)) := by
  intro n
  have hn : n.natAbs < Number.safeBound := by decide
  have hround := evaluate_round 8 Nat.one_pos hn
  rw [if_pos (by decide)] at hround
  refine ⟨hn, hround, ?_⟩
  rw [hround, Ne, Except.ok.injEq, Value.number.injEq, Number.int.injEq]
  decide

end Expr

end Quarry
