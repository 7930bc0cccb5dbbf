import Quarry.Proofs.Documents
import Quarry.Proofs.Evaluation
import Quarry.Proofs.Navigations
import Quarry.Proofs.Selections
import Quarry.Proofs.Workflow

/-!
# Steps — what they keep, and what limits do to a run

Each of the eight steps keeps every invariant that the literals of its text have, and ends in the
same way within wider limits (`run_endsAlike`).  A run goes on with what its steps leave, so every
output has the invariants of the document (`run_invariant`), and a run that was completed is the
same within wider limits (`run_of_completed`).

With this there is an answer for every way to ask.  Whatever a document is asked, the answer is
well formed if the document is (`keeps_wellFormed`), and limits do nothing but stop
(`limits_only_stop`).
-/

namespace Quarry

variable {p : Value → Prop}

/-! ### Filtering and sorting -/

namespace Filtering

/-- Filtering keeps some of the items, -/
theorem apply_ends (config : String) (items : List Value) :
    Ends Any (fun kept => ∀ v ∈ kept, v ∈ items) (apply config items) := by
  refine (EndsAlike.any _).bind fun test? _ => ?_
  cases test? with
  | none => exact .ok fun _ => id
  | some test => exact (EndsAlike.any _).bind fun path _ => .keep fun _ _ => .any _

end Filtering

namespace Sorting

/-- and sorting puts them in another order. -/
theorem apply_ends (config : String) (items : List Value) :
    Ends Any (fun sorted => ∀ v ∈ sorted, v ∈ items) (apply config items) := by
  refine (EndsAlike.any _).bind fun plan _ => (EndsAlike.any _).bind fun path _ => ?_
  -- a key stands beside each item
  refine (EndsAlike.mapM (r := fun keyed => keyed.2 ∈ items) fun item hitem => ?_).map ?_
  · exact (EndsAlike.any _).bind fun _ _ => (EndsAlike.any _).map fun _ _ => hitem
  · intro keyed hkeyed v hv
    obtain ⟨pair, hpair, rfl⟩ := List.mem_map.mp hv
    exact hkeyed pair (List.mem_mergeSort.mp hpair)

end Sorting

/-! ### Reshaping -/

namespace Reshaping

/-- What is done to a value, or to each item of an array, is done for an invariant, -/
theorem each_invariant (hp : Value.Invariant p) {f : Value → Value} (hf : ∀ v, p v → p (f v))
    {v : Value} (h : p v) : p (each f v) := by
  cases v with
  | array items =>
      refine hp.array.mpr fun w hw => ?_
      obtain ⟨item, hitem, rfl⟩ := List.mem_map.mp hw
      exact hf item (hp.array.mp h item hitem)
  | _ => exact hf _ h

/-- if the object that is gathered from the value has it. -/
theorem gather_invariant (hp : Value.Invariant p) (fields : List (String × Path)) {v : Value}
    (h : p v) : p (gather fields v) := by
  refine hp.ofPairs fun pair hpair => ?_
  obtain ⟨field, -, hfound⟩ := List.mem_filterMap.mp hpair
  obtain ⟨w, hw, rfl⟩ := Option.map_eq_some_iff.mp hfound
  exact field.2.resolve_invariant hp.toHereditary false h w hw

/-- So picking keeps every invariant, -/
theorem pick_ends (hp : Value.Invariant p) (config : String) {v : Value} (h : p v) :
    Ends Any p (pick config v) :=
  (EndsAlike.any _).map fun picks _ => each_invariant hp (fun _ => gather_invariant hp picks) h

/-- and so does leaving members out, which changes no value but an object, -/
theorem without_ends (hp : Value.Invariant p) (names : List String) {v : Value} (h : p v) :
    Ends Any p (without names v) := by
  cases v with
  | object members =>
      exact hp.ofMembers fun member hm => hp.member h member (List.mem_of_mem_filter hm)
  | _ => exact .ok h

/-- item by item in an array. -/
theorem omitted_ends (hp : Value.Invariant p) (config : String) {v : Value} (h : p v) :
    Ends Any p (omitted config v) := by
  cases v with
  | array items =>
      exact (EndsAlike.mapM fun item hitem => without_ends hp _ (hp.array.mp h item hitem)).map
        fun _ => hp.array.mpr
  | _ => exact without_ends hp ((entries config).map String.ofList) h

/-- A renamed object has values of the object under other names, -/
theorem renamed_invariant (hp : Value.Invariant p) (renames : List (String × String)) {v : Value}
    (h : p v) : p (renamed renames v) := by
  cases v with
  | object members =>
      refine hp.ofPairs fun pair hpair => ?_
      obtain ⟨member, hmember, rfl⟩ := List.mem_map.mp hpair
      exact hp.member h member hmember
  | _ => exact h

/-- so renaming keeps every invariant. -/
theorem rename_ends (hp : Value.Invariant p) (config : String) {v : Value} (h : p v) :
    Ends Any p (rename config v) :=
  (EndsAlike.any _).map fun renames _ =>
    each_invariant hp (fun _ => renamed_invariant hp renames) h

/-- A projection applies a query to each item, and only the limit of the query counts. -/
theorem project_endsAlike (hp : Value.Invariant p) {limit limit' : Nat} (hlimit : limit ≤ limit')
    (config : String) {items : List Value} (h : ∀ v ∈ items, p v) :
    EndsAlike Any (fun results => ∀ v ∈ results, p v) (project limit config items)
      (project limit' config items) := by
  refine (EndsAlike.any _).bind fun fields? _ => ?_
  cases fields? with
  | some fields =>
      refine .ok fun v hv => ?_
      obtain ⟨item, hitem, rfl⟩ := List.mem_map.mp hv
      exact gather_invariant hp _ (h item hitem)
  | none =>
      dsimp only
      split
      · exact .ok h
      · refine (Filter.read_endsAlike hlimit config).anyFault.bind fun filter _ => ?_
        exact .mapM fun v hv => (filter.run_endsAlike hp hlimit (h v hv)).anyFault

/-- Names that are left of distinct ones are distinct. -/
theorem without_isOk (names : List String) {v : Value} (h : v.WellFormed) :
    ∃ w, without names v = .ok w := by
  cases v with
  | object members => exact ⟨_, if_pos (h.1.filter _)⟩
  | _ => exact ⟨_, rfl⟩

/-- Leaving members out of a well-formed value never fails. -/
theorem omitted_isOk (config : String) {v : Value} (h : v.WellFormed) :
    ∃ w, omitted config v = .ok w := by
  cases v with
  | array items =>
      obtain ⟨results, hresults⟩ := Result.mapM_isOk fun v hv =>
        without_isOk ((entries config).map String.ofList) (Value.wellFormedItems_iff.mp h v hv)
      exact ⟨.array results, Result.bind_eq_ok.mpr ⟨results, hresults, rfl⟩⟩
  | _ => exact without_isOk ((entries config).map String.ofList) h

end Reshaping

/-! ### Single steps -/

/-- The limits of the first settings are within those of the second. -/
structure Settings.Within (settings settings' : Settings) : Prop where
  maxDepth : settings.maxDepth ≤ settings'.maxDepth
  budget : settings.budget ≤ settings'.budget

namespace Step

/-- If the text of a step is an expression, its literals have a property. -/
def EveryLiteral (settings : Settings) (p : Value → Prop) (step : Step) : Prop :=
  step.kind = .custom → ∀ e, Expr.read settings.maxDepth step.config = .ok e → e.EveryLiteral p

/-- The literals of a step's text are well formed, since they were read. -/
theorem everyLiteral_wellFormed (settings : Settings) (step : Step) :
    step.EveryLiteral settings Value.WellFormed := fun _ _ he =>
  ((Expr.read_endsAlike (Nat.le_refl _) _).of_ok he).2

theorem everyLiteral_any (settings : Settings) (step : Step) : step.EveryLiteral settings Any :=
  fun _ e _ => e.everyLiteral_of_forall fun _ => trivial

variable {settings settings' : Settings}

/-- A step that needs an array fails for other values. -/
theorem arrayItems_ends (hp : Value.Invariant p) (kind : StepKind) {v : Value} (h : p v) :
    Ends Any (fun items => ∀ w ∈ items, p w) (arrayItems kind v) := by
  cases v with
  | array items => exact .ok (hp.array.mp h)
  | _ => exact .fault trivial

/-- A lookup step is a query in the language of its text. -/
theorem lookUp_endsAlike (hp : Value.Invariant p) (hwithin : settings.Within settings')
    (config : String) {v : Value} (h : p v) :
    EndsAlike Any p (lookUp settings config v) (lookUp settings' config v) := by
  rw [lookUp, lookUp]
  refine (EndsAlike.any _).bind fun plain _ => ?_
  split
  · exact (Path.resolveText_ends hp.toHereditary _ h).anyFault.map fun a ha => hp.getD ha
  · exact (Filter.evaluate_endsAlike hp hwithin.maxDepth _ h).anyFault

/-- **Steps** keep every invariant that their literals have and, within wider limits, end in the
same way. -/
theorem run_endsAlike (hp : Value.Invariant p) (hwithin : settings.Within settings') (step : Step)
    (hliterals : step.EveryLiteral settings p) {v : Value} (h : p v) :
    EndsAlike Any p (step.run settings v) (step.run settings' v) := by
  rw [run, run]
  cases hkind : step.kind with
  | map =>
      refine (arrayItems_ends hp .map h).bind fun items hitems => ?_
      exact (Reshaping.project_endsAlike hp hwithin.maxDepth _ hitems).map fun _ => hp.array.mpr
  | filter =>
      refine (arrayItems_ends hp .filter h).bind fun items hitems => ?_
      exact (Filtering.apply_ends _ items).map fun kept hkept =>
        hp.array.mpr fun v hv => hitems v (hkept v hv)
  | sort =>
      refine (arrayItems_ends hp .sort h).bind fun items hitems => ?_
      exact (Sorting.apply_ends _ items).map fun sorted hsorted =>
        hp.array.mpr fun v hv => hitems v (hsorted v hv)
  | pick => exact Reshaping.pick_ends hp _ h
  | «omit» => exact Reshaping.omitted_ends hp _ h
  | rename => exact Reshaping.rename_ends hp _ h
  | jq => exact lookUp_endsAlike hp hwithin _ h
  | custom => exact Expr.evaluate_endsAlike hp hwithin.maxDepth hwithin.budget (hliterals hkind) h

end Step

/-! ### Runs -/

namespace Workflow

variable {settings settings' : Settings}

/-- **Outputs** have every invariant that the document and the literals have. -/
theorem run_invariant (hp : Value.Invariant p) {steps : List Step}
    (hliterals : ∀ step ∈ steps, step.enabled = true → step.EveryLiteral settings p) {v : Value}
    (h : p v) :
    (∀ e ∈ (run settings steps v).trace, p e.output) ∧ p (run settings steps v).final := by
  induction steps generalizing v with
  | nil => exact ⟨by rintro _ ⟨⟩, h⟩
  | cons step steps ih =>
      have hrest (w : Value) (hw : p w) := ih
        (fun step hstep => hliterals step (List.mem_cons_of_mem _ hstep)) (v := w) hw
      rcases run_cons_cases settings step v with ⟨-, heq⟩ | ⟨w, he, hw, heq⟩ | ⟨fault, -, -, heq⟩
      · rw [heq]
        exact hrest v h
      · have hstep := step.run_endsAlike hp ⟨Nat.le_refl _, Nat.le_refl _⟩
          (hliterals step List.mem_cons_self he) h
        have hpw : p w := (hstep.of_ok hw).2
        rw [heq]
        exact ⟨List.forall_mem_cons.mpr ⟨hpw, (hrest w hpw).1⟩, (hrest w hpw).2⟩
      · rw [heq]
        exact ⟨List.forall_mem_singleton.mpr h, h⟩

/-- A run that was completed is the same within wider limits. -/
theorem run_of_completed (hwithin : settings.Within settings') {steps : List Step} {v : Value}
    (h : (run settings steps v).status = .completed) :
    run settings' steps v = run settings steps v := by
  induction steps generalizing v with
  | nil => rfl
  | cons step steps ih =>
      rcases run_cons_cases settings step v with ⟨he, heq⟩ | ⟨w, he, hw, heq⟩ | ⟨fault, -, -, heq⟩
      · rw [heq] at h ⊢
        rw [run_disabled he, ih h]
      · have hstep := step.run_endsAlike Value.invariant_any hwithin
          (step.everyLiteral_any settings) (v := v) trivial
        rw [heq] at h ⊢
        rw [run_ok he (hstep.of_ok hw).1, ih h]
      · rw [heq] at h
        cases h

end Workflow

/-! ### Every way to ask -/

/-- **Well-formedness is kept.**  A value is well formed if at every depth names are distinct and no
double is `nan` or a small integer.  Documents are well formed, and what a well-formed value is
turned into by a filter, a navigation, criteria, an expression or a step is well formed again.  So
leaving out members and making entries never meet a repeated name. -/
theorem keeps_wellFormed [Pattern.Names] [Shape.Report] [Navigation.Grammar]
    (settings : Settings) {v : Value} (hv : v.WellFormed) :
    (∀ w : Value, w.WellFormed ↔ ∀ k u, Value.Inside k u w → u.IsRegular) ∧
    (∀ text, Result.Gives Value.WellFormed (Json.parse settings.maxDepth text)) ∧
    (∀ text, Result.Gives Value.WellFormed (Filter.evaluate settings.maxDepth text v)) ∧
    (∀ text, Result.Gives (fun a => ∀ w ∈ a, Value.WellFormed w) (Navigation.evaluate text v)) ∧
    (∀ text, Result.Gives Value.WellFormed (Criteria.evaluate settings.maxDepth text v)) ∧
    (∀ text, Result.Gives Value.WellFormed
      (Expr.evaluate settings.maxDepth settings.budget text v)) ∧
    (∀ step : Step, Result.Gives Value.WellFormed (step.run settings v)) ∧
    (∀ config, ∃ w, Reshaping.omitted config v = .ok w) ∧
    ∃ w, Builtin.toEntries.apply v = .ok w := by
  have hp := Value.invariant_wellFormed
  refine ⟨fun _ => Value.wellFormed_iff, fun text => ?_, fun text => ?_, fun text => ?_,
    fun text => ?_, fun text => ?_, fun step => ?_, fun config => ?_, ?_⟩
  · exact (Json.parse_endsAlike hp (Nat.le_refl _) text).gives
  · exact (Filter.evaluate_endsAlike hp (Nat.le_refl _) text hv).gives
  · refine ((Navigation.evaluate_ends hp text hv).mono (fun _ => id) fun a ha w hw => ?_).gives
    -- an infinite sum is well formed
    rcases ha w hw with hw | ⟨-, negative, rfl⟩
    · exact hw
    · exact Number.isNormal_ofFloat (by rintro ⟨⟩)
  · exact (Criteria.evaluate_endsAlike hp (Nat.le_refl _) text hv).gives
  · refine (Expr.evaluate_endsAlike hp (Nat.le_refl _) (Nat.le_refl _) (fun e he => ?_) hv).gives
    exact ((Expr.read_endsAlike (Nat.le_refl _) text).of_ok he).2
  · exact (step.run_endsAlike hp ⟨Nat.le_refl _, Nat.le_refl _⟩
      (step.everyLiteral_wellFormed settings) hv).gives
  · exact Reshaping.omitted_isOk config hv
  · exact Builtin.toEntries_isOk v

/-- An object from which a member is left out. -/
theorem keeps_wellFormed_omit :
    let v : Value := .object [("a", .number (.int 1)), ("b", .null)]
    v.WellFormed ∧
      ∃ w, ({ id := "s", kind := .omit, config := "b" } : Step).run {} v = .ok w ∧
        w.WellFormed := by
  intro v
  let _ : Pattern.Names := default
  let _ : Shape.Report := default
  let _ : Navigation.Grammar := default
  have hv : v.WellFormed := by
    simp [v, Value.WellFormed, Value.WellFormedMembers, Members.Distinct, Members.names,
      Number.isNormal_int]
  have hw : ({ id := "s", kind := .omit, config := "b" } : Step).run {} v =
      .ok (.object [("a", .number (.int 1))]) := by rfl
  exact ⟨hv, _, hw, (keeps_wellFormed {} hv).2.2.2.2.2.2.1 _ _ hw⟩

/-- **Limits only stop.**  A document, a filter, criteria or an expression that does not stop at a
limit ends in the same way, with the same value or fault, within wider limits; and a run that was
completed is the same run. -/
theorem limits_only_stop [Pattern.Names] [Shape.Report] {settings settings' : Settings}
    (h : settings.Within settings') :
    (∀ text, Settled (Json.parse settings.maxDepth text) →
      Json.parse settings'.maxDepth text = Json.parse settings.maxDepth text) ∧
    (∀ text v, Settled (Filter.evaluate settings.maxDepth text v) →
      Filter.evaluate settings'.maxDepth text v = Filter.evaluate settings.maxDepth text v) ∧
    (∀ text v, Settled (Criteria.evaluate settings.maxDepth text v) →
      Criteria.evaluate settings'.maxDepth text v = Criteria.evaluate settings.maxDepth text v) ∧
    (∀ text v, Settled (Expr.evaluate settings.maxDepth settings.budget text v) →
      Expr.evaluate settings'.maxDepth settings'.budget text v =
        Expr.evaluate settings.maxDepth settings.budget text v) ∧
    ∀ steps v, (Workflow.run settings steps v).status = .completed →
      Workflow.run settings' steps v = Workflow.run settings steps v := by
  have hp := Value.invariant_any
  refine ⟨fun text => ?_, fun text v => ?_, fun text v => ?_, fun text v => ?_, fun steps v => ?_⟩
  · exact (Json.parse_endsAlike hp h.maxDepth text).eq_of_settled
  · exact (Filter.evaluate_endsAlike hp h.maxDepth text trivial).eq_of_settled
  · exact (Criteria.evaluate_endsAlike hp h.maxDepth text trivial).eq_of_settled
  · refine (Expr.evaluate_endsAlike hp h.maxDepth h.budget (fun e _ => ?_) trivial).eq_of_settled
    exact e.everyLiteral_of_forall fun _ => trivial
  · exact Workflow.run_of_completed h

/-- A document that nests as deep as it may, an expression with a single step to spend, and a run
of one step. -/
theorem limits_only_stop_exact :
    let narrow : Settings := { maxDepth := 1, budget := 1 }
    narrow.Within {} ∧
      Json.parse 512 "[1]" = Json.parse 1 "[1]" ∧
      Expr.evaluate 512 10000 "null" .null = Expr.evaluate 1 1 "null" .null ∧
      Workflow.run {} [{ id := "a", kind := .omit }] .null =
        Workflow.run narrow [{ id := "a", kind := .omit }] .null := by
  intro narrow
  let _ : Pattern.Names := default
  let _ : Shape.Report := default
  have hwithin : narrow.Within {} := ⟨by decide, by decide⟩
  have hdocument : Settled (Json.parse 1 "[1]") := by
    have hok : Json.parse 1 "[1]" = .ok (.array [.number (.int 1)]) := by rfl
    rw [hok]
    rintro _ ⟨⟩
  have hexpression : Settled (Expr.evaluate 1 1 "null" .null) := by
    have hok : Expr.evaluate 1 1 "null" .null = .ok .null := by rfl
    rw [hok]
    rintro _ ⟨⟩
  obtain ⟨hparse, -, -, hevaluate, hrun⟩ := limits_only_stop hwithin
  exact ⟨hwithin, hparse _ hdocument, hevaluate _ _ hexpression, hrun _ _ rfl⟩

end Quarry
