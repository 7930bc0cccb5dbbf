import Quarry.Proofs.Result
import Quarry.Step.Basic

/-!
# Chunks — arrays taken apart

A computation on the items of an array goes by chunks if on the items of two arrays, one behind the
other, it makes what it makes of the first and then what it makes of the second, and if it fails
with the fault of the first that fails (`Chunked`).  Treating every item on its own is of this kind,
and so is keeping the items that pass a test.

A step reads its text before it looks at an item.  The text is read in the same way for each chunk,
the empty one included, so what comes before the items does no harm (`Chunked.bind`).  Five of the
eight kinds of steps are made in this way (`Step.run_chunks`); sorting looks at all items together,
and a filter or an expression may do so too.
-/

namespace Quarry

variable {ε α β γ : Type}

/-- A computation on items that may be carried out chunk by chunk. -/
def Chunked (f : List α → Except ε (List β)) : Prop :=
  ∀ xs ys, f (xs ++ ys) = do return (← f xs) ++ (← f ys)

namespace Chunked

variable {f : List α → Except ε (List β)}

/-- What is done to each item goes by chunks, -/
theorem mapM (g : α → Except ε β) : Chunked fun items => items.mapM g :=
  fun _ _ => List.mapM_append

/-- also if it cannot fail. -/
theorem map (g : α → β) : Chunked fun items => (.ok (items.map g) : Except ε (List β)) :=
  fun _ _ => congrArg Except.ok List.map_append

/-- All items as they are. -/
theorem all : Chunked fun items : List α => (.ok items : Except ε (List α)) :=
  fun _ _ => rfl

/-- What comes before the items and does not depend on them. -/
theorem bind {x : Except ε γ} {g : γ → List α → Except ε (List β)} (h : ∀ c, Chunked (g c)) :
    Chunked fun items => x >>= fun c => g c items := by
  intro xs ys
  cases x with
  | ok c => exact h c xs ys
  | error e => rfl

/-- Two chunks together succeed if each does, with the two results behind each other, -/
theorem eq_ok_iff (h : Chunked f) {xs ys : List α} {ws : List β} :
    f (xs ++ ys) = .ok ws ↔ ∃ us vs, f xs = .ok us ∧ f ys = .ok vs ∧ ws = us ++ vs := by
  rw [h xs ys]
  simp only [Result.bind_eq_ok, Result.pure_eq_ok, Except.ok.injEq]
  constructor
  · rintro ⟨us, hus, vs, hvs, rfl⟩
    exact ⟨us, vs, hus, hvs, rfl⟩
  · rintro ⟨us, vs, hus, hvs, rfl⟩
    exact ⟨us, hus, vs, hvs, rfl⟩

/-- and they fail as the first does, or as the second if the first succeeds. -/
theorem eq_error_iff (h : Chunked f) {xs ys : List α} {e : ε} :
    f (xs ++ ys) = .error e ↔ f xs = .error e ∨ (∃ us, f xs = .ok us) ∧ f ys = .error e := by
  rw [h xs ys]
  cases f xs with
  | error e' => simp
  | ok us => cases f ys <;> simp

end Chunked

/-- Keeping the items that pass a test. -/
theorem Items.keep_chunked (test : α → Except Fault Bool) : Chunked (Items.keep test) := by
  intro xs ys
  induction xs with
  | nil =>
      rw [List.nil_append, Items.keep]
      cases Items.keep test ys <;> rfl
  | cons a xs ih =>
      rw [List.cons_append, Items.keep, Items.keep, ih]
      cases test a with
      | error fault => rfl
      | ok passes =>
          cases Items.keep test xs with
          | error fault => rfl
          | ok us =>
              cases Items.keep test ys with
              | error fault => rfl
              | ok vs => cases passes <;> rfl

/-! ### What steps do to items -/

namespace Reshaping

/-- A projection is read once and then applied to each item, -/
theorem project_chunked (limit : Nat) (config : String) : Chunked (project limit config) := by
  refine .bind (x := readProjection config) fun fields? => ?_
  cases fields? with
  | some fields => exact .map _
  | none =>
      dsimp only
      split
      · exact .all
      · exact .bind fun filter => .mapM _

end Reshaping

/-- as a condition is. -/
theorem Filtering.apply_chunked (config : String) : Chunked (apply config) := by
  refine .bind (x := read config) fun test? => ?_
  cases test? with
  | none => exact .all
  | some test => exact .bind fun path => Items.keep_chunked _

namespace Step

/-- What a step does to an array is what a computation by chunks does to the items. -/
def GoesByChunks (settings : Settings) (step : Step) : Prop :=
  ∃ f : List Value → Except Fault (List Value), Chunked f ∧
    ∀ items, step.run settings (.array items) = do return .array (← f items)

/-- Each of the five steps reads its text and then treats every item alone. -/
theorem goesByChunks (settings : Settings) {step : Step}
    (hkind : step.kind ∈ [.map, .filter, .pick, .omit, .rename]) : step.GoesByChunks settings := by
  rw [GoesByChunks]
  simp only [run]
  cases hstep : step.kind with
  | map => exact ⟨_, Reshaping.project_chunked settings.maxDepth step.config, fun _ => rfl⟩
  | filter => exact ⟨_, Filtering.apply_chunked step.config, fun _ => rfl⟩
  | pick =>
      refine ⟨fun items => Reshaping.readPicks step.config >>= fun picks =>
        .ok (items.map (Reshaping.gather picks)), .bind fun picks => .map _, fun items => ?_⟩
      rw [Reshaping.pick]
      cases Reshaping.readPicks step.config <;> rfl
  | «omit» =>
      exact ⟨_, .mapM (Reshaping.without ((Reshaping.entries step.config).map String.ofList)),
        fun _ => rfl⟩
  | rename =>
      refine ⟨fun items => Reshaping.readRenames step.config >>= fun renames =>
        .ok (items.map (Reshaping.renamed renames)), .bind fun renames => .map _, fun items => ?_⟩
      rw [Reshaping.rename]
      cases Reshaping.readRenames step.config <;> rfl
  | _ => simp [hstep] at hkind

/-- **Steps that go item by item can be run in chunks.**  Mapping, filtering, picking, omitting and
renaming succeed on the items of two arrays together if and only if they succeed on each, and then
leave both results together; otherwise they fail with the fault of the first array that fails.  So
a text that cannot be read is refused in the same way on every array. -/
theorem run_chunks (settings : Settings) {step : Step}
    (hkind : step.kind ∈ [.map, .filter, .pick, .omit, .rename]) (xs ys : List Value) :
    (∀ w, step.run settings (.array (xs ++ ys)) = .ok w ↔
      ∃ us vs, step.run settings (.array xs) = .ok (.array us) ∧
        step.run settings (.array ys) = .ok (.array vs) ∧ w = .array (us ++ vs)) ∧
    ∀ fault, step.run settings (.array (xs ++ ys)) = .error fault ↔
      step.run settings (.array xs) = .error fault ∨
        (∃ w, step.run settings (.array xs) = .ok w) ∧
          step.run settings (.array ys) = .error fault := by
  obtain ⟨f, hf, hrun⟩ := step.goesByChunks settings hkind
  have hok (items : List Value) (w : Value) : step.run settings (.array items) = .ok w ↔
      ∃ us, f items = .ok us ∧ w = .array us := by
    rw [hrun, Result.bind_eq_ok]
    simp [eq_comm (b := w)]
  have herror (items : List Value) (fault : Fault) :
      step.run settings (.array items) = .error fault ↔ f items = .error fault := by
    rw [hrun]
    cases f items <;> simp
  refine ⟨fun w => ?_, fun fault => ?_⟩
  · simp only [hok, hf.eq_ok_iff, Value.array.injEq, exists_eq_right']
    constructor
    · rintro ⟨_, ⟨us, vs, hus, hvs, rfl⟩, rfl⟩
      exact ⟨us, vs, hus, hvs, rfl⟩
    · rintro ⟨us, vs, hus, hvs, rfl⟩
      exact ⟨us ++ vs, ⟨us, vs, hus, hvs, rfl⟩, rfl⟩
  · rw [herror, herror, herror, hf.eq_error_iff]
    simp [hok]

/-- Objects are renamed in both arrays and other items are left, and a text that is no list of names
is refused on two arrays without items. -/
theorem run_chunks_rename :
    let step : Step := ⟨"r", .rename, "a:b", "", true⟩
    let xs : List Value := [.object [("a", .null)], .bool true]
    let ys : List Value := [.object [("c", .null), ("a", .bool false)]]
    let us : List Value := [.object [("b", .null)], .bool true]
    let vs : List Value := [.object [("c", .null), ("b", .bool false)]]
    let bad : Step := ⟨"r", .rename, "a", "", true⟩
    let fault : Fault := .query (.step (.badRename "a"))
    step.run {} (.array xs) = .ok (.array us) ∧ step.run {} (.array ys) = .ok (.array vs) ∧
      step.run {} (.array (xs ++ ys)) = .ok (.array (us ++ vs)) ∧
      bad.run {} (.array []) = .error fault ∧ bad.run {} (.array ([] ++ [])) = .error fault := by
  intro step xs ys us vs bad fault
  have hxs : run {} ⟨"r", .rename, "a:b", "", true⟩ (.array xs) = .ok (.array us) := rfl
  have hys : run {} ⟨"r", .rename, "a:b", "", true⟩ (.array ys) = .ok (.array vs) := rfl
  have hnone : run {} ⟨"r", .rename, "a", "", true⟩ (.array []) = .error fault := rfl
  have hkind : step.kind ∈ [.map, .filter, .pick, .omit, .rename] := by decide
  have hbad : bad.kind ∈ [.map, .filter, .pick, .omit, .rename] := by decide
  exact ⟨hxs, hys, ((run_chunks {} hkind xs ys).1 _).mpr ⟨us, vs, hxs, hys, rfl⟩, hnone,
    ((run_chunks {} hbad [] []).2 fault).mpr (.inl hnone)⟩

end Step

end Quarry
