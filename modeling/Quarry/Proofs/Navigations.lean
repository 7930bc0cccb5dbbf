import Quarry.Navigation.Eval
import Quarry.Proofs.Lookups

/-!
# Navigations — what they find

What a way leads to has every invariant of the value that it starts in, and so has what the
functions make of it, with one exception: a sum may be infinite (`evaluate_ends`).
-/

namespace Quarry

variable {p : Value → Prop}

/-- A value that is no array counts as the array of itself alone. -/
theorem Value.Invariant.itemsOrSelf (hp : Value.Invariant p) {v : Value} (h : p v) :
    ∀ w ∈ v.itemsOrSelf, p w := by
  cases v with
  | array items => exact hp.array.mp h
  | _ =>
      intro w hw
      rw [List.mem_singleton.mp hw]
      exact h

namespace Navigation

/-! ### Segments -/

/-- A name leads into an object, or into each object of an array and then to the array of what it
found. -/
theorem member_invariant (hp : Value.Invariant p) (name : List Char) {v : Value} (h : p v) :
    ∀ w ∈ member name v, p w := by
  cases v with
  | object members => exact hp.find? h _
  | array items =>
      rintro _ ⟨⟩
      refine hp.array.mpr fun w hw => ?_
      obtain ⟨item, hitem, hw⟩ := List.mem_flatMap.mp hw
      have hfound := hp.member? (hp.array.mp h item hitem) (bareName name)
      -- an array under the name is spread, and anything else is one item
      rw [collected] at hw
      split at hw
      · rename_i items hitems
        exact hp.array.mp (hfound _ hitems) w hw
      · rename_i u _ hu
        rw [List.mem_singleton.mp hw]
        exact hfound u hu
      · cases hw
  | _ => rintro _ ⟨⟩

/-- Whether an item passes a condition depends on a path in it and a comparison. -/
theorem passes_ends (c : Comparison) (literal item : Value) :
    Ends Fault.OfQuery Any (passes c literal item) := by
  cases item with
  | object members =>
      have hfound := Path.resolveText_ends Value.invariant_any.toHereditary c.path
        (v := .object members) trivial
      exact hfound.ofPath.bind fun _ _ => (c.relation.compare_ends _ _).ofNumber
  | _ => exact .ok trivial

/-- Brackets hold an index or a condition; what they leave are items of the value, or the value
itself. -/
theorem constrained_ends (hp : Value.Invariant p) (inner : List Char) {v : Value} (h : p v) :
    Ends Fault.OfQuery (fun a => ∀ w ∈ a, p w) (constrained inner v) := by
  rw [constrained]
  split
  · refine (Text.integerOf_ends inner).ofPath.map fun i _ w hw => ?_
    exact hp.itemsOrSelf h w (Items.mem_of_at? hw)
  · split
    · exact .fault trivial
    · split
      · rename_i items
        refine (Literal.read_ends _).bind fun literal _ => ?_
        refine (EndsAlike.keep fun item _ => passes_ends _ literal item).map fun kept hkept => ?_
        exact forall_mem_some (hp.array.mpr fun w hw => hp.array.mp h w (hkept w hw))
      · exact .ok_some h

/-! ### Ways -/

/-- A segment leads to what is under its name, constrained by its brackets, -/
theorem follow_ends (hp : Value.Invariant p) (segment : List Char) {v : Value} (h : p v) :
    Ends Fault.OfQuery (fun a => ∀ w ∈ a, p w) (follow segment v) := by
  rw [follow.eq_def]
  split
  · split
    · exact .ok_some (hp.values h)
    · exact .ok_some h
  · split
    · exact .ok (member_invariant hp segment h)
    · split
      · rename_i name inner _ _ target htarget
        refine constrained_ends hp inner ?_
        -- the condition is on the value itself or on what is under the name
        split at htarget
        · cases htarget
          exact h
        · exact member_invariant hp name h target htarget
      · exact .ok_none

/-- and a way is followed up to the first segment that leads nowhere. -/
theorem followAll_ends (hp : Value.Invariant p) (path : String) (segments : List (List Char))
    {v : Value} (h : p v) :
    Ends Fault.OfQuery (fun a => ∀ w ∈ a, p w) (followAll path segments v) := by
  induction segments generalizing v with
  | nil => exact .ok_some h
  | cons segment segments ih =>
      rw [followAll]
      split
      · exact .fault trivial
      · refine (follow_ends hp segment h).bind fun a ha => ?_
        cases a with
        | some w => exact ih (ha w rfl)
        | none => exact .ok_none

/-- A way is cut at its dots first, and that may be refused. -/
theorem resolve_ends (hp : Value.Invariant p) (path : String) {v : Value} (h : p v) :
    Ends Fault.OfQuery (fun a => ∀ w ∈ a, p w) (resolve path v) :=
  (Text.cutOutside_ends _ _).ofPath.bind fun _ _ => followAll_ends hp path _ h

/-! ### Functions -/

/-- The text calls for a sum. -/
def CallsSum (text : String) : Prop :=
  ∃ argument, call? (Text.trim text.toList) = some (.sum, argument)

/-- An infinite sum. -/
def IsInfinity (v : Value) : Prop :=
  ∃ negative, v = .ofFloat (.infinite negative)

/-- Counts and sums are numbers, the other functions leave items, and only a sum can be infinite. -/
theorem Aggregate.apply_ends (hp : Value.Invariant p) (f : Aggregate) {a : Operand}
    (h : ∀ v ∈ a, p v) :
    Ends Fault.OfQuery (fun b => ∀ w ∈ b, p w ∨ f = .sum ∧ IsInfinity w) (f.apply a) := by
  rw [Aggregate.apply.eq_def]
  split
  · exact .ok_some (.inl (hp.ofNat 0))
  · exact .ok_some (.inl (hp.ofNat _))
  · exact .ok_some (.inl (hp.ofNat 0))
  · refine (Value.total_ends _).ofNumber.map fun total _ => forall_mem_some ?_
    cases total with
    | nan => exact .inl hp.null
    | finite x => exact .inl (hp.number (n := .float (.finite x)) rfl)
    | infinite negative => exact .inr ⟨rfl, negative, rfl⟩
  · exact .ok_none
  · rename_i v
    refine .ok_some (.inl (hp.array.mpr fun w hw => ?_))
    exact hp.itemsOrSelf (h v rfl) w (Value.mem_of_mem_distinctFrom hw)

/-- **Navigations** keep every invariant, if they do not call for a sum that is infinite. -/
theorem evaluate_ends [Grammar] (hp : Value.Invariant p) (text : String) {v : Value} (h : p v) :
    Ends Fault.OfQuery (fun a => ∀ w ∈ a, p w ∨ CallsSum text ∧ IsInfinity w)
      (evaluate text v) := by
  rw [evaluate]
  cases hs : Text.trim text.toList with
  | nil => exact .ok_some (.inl h)
  | cons c s =>
      dsimp only
      split
      · exact .fault trivial
      · split
        · rename_i f argument hcall
          refine (resolve_ends hp _ h).bind fun a ha => ?_
          refine (f.apply_ends hp ha).mono (fun _ => id) fun b hb w hw => ?_
          refine (hb w hw).imp id fun ⟨hf, hw⟩ => ⟨⟨argument, ?_⟩, hw⟩
          rw [hs, hcall, hf]
        · exact (resolve_ends hp _ h).mono (fun _ => id) fun a ha w hw => .inl (ha w hw)

end Navigation

end Quarry
