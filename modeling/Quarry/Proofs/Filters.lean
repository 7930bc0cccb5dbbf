import Quarry.Filter.Reader
import Quarry.Proofs.Lookups

/-!
# Filters — what they keep, and what their limit does

A builtin, and every other stage, rearranges its value: the result has every invariant that the
value has (`Builtin.apply_ends`, `Stage.apply_endsAlike`).  The limit counts the maps around a
chain, first of the text and then of the stages, so a chain that was read and applied within it is
read and applied in the same way within a wider one (`evaluate_endsAlike`).
-/

namespace Quarry

variable {p : Value → Prop}

/-! ### Builtins -/

namespace Builtin

/-- The names of an entry are `key` and `value`. -/
theorem distinct_entry (v w : Value) : Members.Distinct [("key", v), ("value", w)] := by
  simp [Members.Distinct, Members.names]

/-- The two names of an entry differ. -/
theorem toEntry_eq (member : String × Value) :
    toEntry member = .ok (.object [("key", .string member.1), ("value", member.2)]) := by
  rw [toEntry, Value.ofMembers, if_pos (distinct_entry _ _)]

/-- So entries can always be made. -/
theorem toEntries_isOk (v : Value) : ∃ w, Builtin.toEntries.apply v = .ok w := by
  cases v with
  | object members =>
      obtain ⟨entries, hentries⟩ : ∃ entries, members.mapM toEntry = .ok entries :=
        Result.mapM_isOk fun member _ => ⟨_, toEntry_eq member⟩
      exact ⟨.array entries, Result.bind_eq_ok.mpr ⟨entries, hentries, rfl⟩⟩
  | _ => exact ⟨_, rfl⟩

/-- An entry consists of the name and the value of a member. -/
theorem toEntry_ends (hp : Value.Hereditary p) {member : String × Value} (h : p member.2) :
    Ends Fault.OfQuery p (toEntry member) := by
  rw [toEntry_eq]
  refine .ok (hp.object (distinct_entry _ _) fun part hpart => ?_)
  rcases List.mem_pair.mp hpart with rfl | rfl
  · exact hp.string _
  · exact h

/-- A pair that is read from an entry has a part of it for its value. -/
theorem ofEntry?_ends (hp : Value.Hereditary p) {v : Value} (h : p v) :
    Ends Fault.OfQuery (fun pair? => ∀ pair ∈ pair?, p pair.2) <| ofEntry? v := by
  unfold ofEntry?
  split
  · rename_i k w hk hw
    refine k.text_ends.ofNumber.map fun name _ => forall_mem_some ?_
    exact hp.member? h _ w hw
  · exact .ok_none

/-- Flattening takes items out of arrays, by induction on how they nest. -/
theorem flattenItems_invariant (hp : Value.Hereditary p) {items : List Value}
    (h : ∀ v ∈ items, p v) : ∀ v ∈ flattenItems items, p v := by
  intro v hv
  obtain ⟨item, hitem, hv⟩ := List.mem_flatMap.mp hv
  split at hv
  · exact hp.array.mp (h _ hitem) v hv
  · rw [List.mem_singleton.mp hv]
    exact h item hitem

/-- **Builtins** keep every hereditary property that the counts of parts have. -/
theorem apply_ends (hp : Value.Hereditary p) (b : Builtin) {v : Value} (h : p v)
    (hcount : ∀ n ≤ v.partCount, p (.ofNat n)) : Ends Fault.OfQuery p (b.apply v) := by
  rw [apply.eq_def]
  split
  · -- keys of an object
    refine .ok (hp.array.mpr fun w hw => ?_)
    obtain ⟨member, -, rfl⟩ := List.mem_map.mp hw
    exact hp.string _
  · -- keys of an array
    refine .ok (hp.array.mpr fun w hw => ?_)
    obtain ⟨n, hn, rfl⟩ := List.mem_map.mp hw
    exact hcount n (List.mem_range.mp hn).le
  · exact .ok (hp.values h)
  · exact .ok (hcount _ (Nat.le_refl _))
  · exact .ok (hcount _ (Nat.le_refl _))
  · exact .ok (hcount _ (Nat.le_refl _))
  · exact .ok (hp.string _)
  · exact .ok (hp.array.mpr fun w hw => hp.array.mp h w (List.mem_mergeSort.mp hw))
  · exact .ok (hp.array.mpr fun w hw => hp.array.mp h w (Value.mem_of_mem_distinctFrom hw))
  · exact .ok (hp.array.mpr fun w hw => hp.array.mp h w (List.mem_reverse.mp hw))
  · exact .ok (hp.getD fun w hw => hp.array.mp h w (List.mem_of_head? hw))
  · exact .ok (hp.getD fun w hw => hp.array.mp h w (List.mem_of_getLast? hw))
  · exact .ok (hp.bool _)
  · refine (EndsAlike.mapM fun member hm => toEntry_ends hp (hp.member h member hm)).map ?_
    exact fun entries hentries => hp.array.mpr hentries
  · refine (EndsAlike.mapM fun v hv => ofEntry?_ends hp (hp.array.mp h v hv)).map ?_
    refine fun pairs hpairs => hp.ofPairs fun pair hpair => ?_
    obtain ⟨pair?, hmem, heq⟩ := List.mem_filterMap.mp hpair
    exact hpairs pair? hmem pair heq
  · exact .ok (hp.array.mpr (flattenItems_invariant hp (hp.array.mp h)))
  · exact .ok h

end Builtin

/-! ### Stages -/

/-- A condition is a comparison or asks whether something is there. -/
theorem Condition.holds_ends (c : Condition) (v : Value) :
    Ends Fault.OfQuery Any (c.holds v) := by
  rw [holds]
  split
  · exact .ok trivial
  · exact (Relation.compare_ends _ _ _).ofNumber

namespace Stage

/-- What is looked up is in the value, or null stands in for it. -/
theorem lookUp_invariant (hp : Value.Hereditary p) (path : Path) (iterate : Bool) {v : Value}
    (h : p v) : p (lookUp path iterate v) := by
  have hfound := path.resolve_invariant hp true h
  cases v with
  | array _ | object _ =>
      rw [lookUp]
      split
      · exact hp.null
      · rename_i hobject
        split
        · exact hp.values (hfound _ hobject)
        · exact hfound _ hobject
      · rename_i hsome
        exact hfound _ hsome
  | _ => exact h

/-- An item is a part of its array, -/
theorem itemAt_invariant (hp : Value.Hereditary p) (n : Int) {v : Value} (h : p v) :
    p (itemAt n v) := by
  cases v with
  | array items => exact hp.getD fun w hw => hp.array.mp h w (Items.mem_of_at? hw)
  | _ => exact h

/-- and so is every item of a slice. -/
theorem cut_invariant (hp : Value.Hereditary p) (start stop : Option Int) {v : Value} (h : p v) :
    p (cut start stop v) := by
  cases v with
  | array items => exact hp.array.mpr fun w hw => hp.array.mp h w (Items.mem_of_mem_slice hw)
  | string s => exact hp.string _
  | _ => exact h

variable {limit limit' levels levels' : Nat}

/-- A map over an array applies its body to each item at the next level; with no level left it
stops, if there is an item. -/
theorem apply_map (limit levels : Nat) (body : List Stage) (items : List Value) :
    apply limit levels (map body) (.array items) =
      match levels with
      | 0 => if items.isEmpty then .ok (.array []) else .error (.tooDeep limit)
      | n + 1 => do return .array (← items.mapM (applyAll limit n body)) := by
  cases levels <;> simp only [apply]

/-- A stage, if the chains inside it do so with fewer levels. -/
theorem apply_endsAlike (hp : Value.Invariant p) (hlevels : levels ≤ levels')
    (ih : ∀ n n', n < levels → n ≤ n' → ∀ body {v}, p v →
      EndsAlike Fault.OfQuery p (applyAll limit n body v) (applyAll limit' n' body v))
    (stage : Stage) {v : Value} (h : p v) :
    EndsAlike Fault.OfQuery p (apply limit levels stage v) (apply limit' levels' stage v) := by
  cases stage with
  | identity => exact .ok h
  | path path iterate => exact .ok (lookUp_invariant hp.toHereditary path iterate h)
  | index n => exact .ok (itemAt_invariant hp.toHereditary n h)
  | slice start stop => exact .ok (cut_invariant hp.toHereditary start stop h)
  | builtin b => exact b.apply_ends hp.toHereditary h fun n _ => hp.ofNat n
  | select c =>
      cases v with
      | array items =>
          refine (EndsAlike.keep fun v _ => c.holds_ends v).map fun kept hkept => ?_
          exact hp.array.mpr fun v hv => hp.array.mp h v (hkept v hv)
      | _ => exact .ok h
  | map body =>
      cases v with
      | array items =>
          rw [apply_map, apply_map]
          cases levels with
          | zero =>
              cases items with
              | nil => cases levels' <;> exact .ok (hp.array.mpr (by simp))
              | cons v items => exact .tooDeep limit
          | succ n =>
              obtain ⟨n', rfl⟩ := Nat.exists_eq_add_one.mpr (Nat.zero_lt_of_lt hlevels)
              refine (EndsAlike.mapM fun v hv => ?_).map fun results => hp.array.mpr
              exact ih n n' (Nat.lt_succ_self n) (Nat.le_of_succ_le_succ hlevels) body
                (hp.array.mp h v hv)
      | _ => exact .ok h

/-- A chain of stages, by induction on the levels and then on the chain. -/
theorem applyAll_endsAlike (hp : Value.Invariant p) (hlevels : levels ≤ levels')
    (chain : List Stage) {v : Value} (h : p v) :
    EndsAlike Fault.OfQuery p (applyAll limit levels chain v)
      (applyAll limit' levels' chain v) := by
  induction levels using Nat.strong_induction_on generalizing levels' chain v with
  | _ levels ih =>
      induction chain generalizing v with
      | nil => exact .ok h
      | cons stage chain ihchain =>
          rw [applyAll, applyAll]
          refine (apply_endsAlike hp hlevels ?_ stage h).bind fun w hw => ihchain hw
          exact fun n n' hn hle body v hv => ih n hn hle body hv

end Stage

/-! ### Filter texts -/

namespace Filter

/-- The bounds of a slice are integers, which may have too many digits. -/
theorem readBound_ends (numeral : List Char) : Ends Fault.OfQuery Any (readBound numeral) := by
  rw [readBound]
  split
  · exact .ok trivial
  · exact (Text.integerOf_ends numeral).ofPath.map fun _ _ => trivial

/-- A path in a filter fails as any path does, and the fault says which text it was. -/
theorem readPath_ends (text : List Char) : Ends Fault.OfQuery Any (readPath text) := by
  have hread := (Path.read_ends (String.ofList (text.drop 1))).ofPath
  rw [readPath]
  split
  · exact .fault trivial
  · exact hread

/-- A condition is a path with a relation and a literal behind it, or a path alone. -/
theorem readCondition_ends (text : List Char) : Ends Fault.OfQuery Any (readCondition text) := by
  rw [readCondition]
  split
  · exact (readPath_ends _).bind fun _ _ => (Literal.read_ends _).map fun _ _ => trivial
  · split
    · exact (readPath_ends _).map fun _ _ => trivial
    · exact .fault trivial

/-- A stage that is only a path may be followed by an iteration. -/
theorem readPathStage_ends (s : List Char) : Ends Fault.OfQuery Any (readPathStage s) := by
  rw [readPathStage]
  split <;> exact (readPath_ends _).map fun _ _ => trivial

/-- Stages differ between the limits only where they read a chain inside, of a map, -/
theorem readStage_endsAlike {chain chain' : List Char → Except Fault Filter}
    (h : ∀ body, EndsAlike Fault.OfQuery Any (chain body) (chain' body)) (s : List Char) :
    EndsAlike Fault.OfQuery Any (readStage chain s) (readStage chain' s) := by
  rw [readStage, readStage]
  by_cases hdot : s = ['.']
  · rw [if_pos hdot, if_pos hdot]
    exact .ok trivial
  · rw [if_neg hdot, if_neg hdot]
    cases builtin? s with
    | some b => exact .ok trivial
    | none =>
        cases indexText? s with
        | some numeral => exact (Text.integerOf_ends numeral).ofPath.map fun _ _ => trivial
        | none =>
            cases sliceText? s with
            | some bounds =>
                exact (readBound_ends bounds.1).bind fun _ _ =>
                  (readBound_ends bounds.2).map fun _ _ => trivial
            | none =>
                cases Text.callArgument? ['m', 'a', 'p'] s with
                | some body => exact (h body).map fun _ _ => trivial
                | none =>
                    -- no chain is read any more
                    dsimp only
                    split
                    · exact (readCondition_ends _).map fun _ _ => trivial
                    · split
                      · exact readPathStage_ends s
                      · exact .fault trivial

variable {limit limit' levels levels' : Nat}

/-- so chains are read alike, by induction on the levels that are left. -/
theorem readChain_endsAlike (hlevels : levels ≤ levels') (text : List Char) :
    EndsAlike Fault.OfQuery Any (readChain limit levels text) (readChain limit' levels' text) := by
  induction levels generalizing levels' text with
  | zero => exact .limit trivial
  | succ levels ih =>
      obtain ⟨levels', rfl⟩ := Nat.exists_eq_add_one.mpr (Nat.zero_lt_of_lt hlevels)
      rw [readChain, readChain]
      refine (Text.cutOutside_ends _ _).ofPath.bind fun segments _ => ?_
      refine (EndsAlike.mapM (r := Any) fun segment _ => ?_).mono (fun _ => id) fun _ _ => trivial
      cases Text.trim segment with
      | nil => exact .fault trivial
      | cons c s => exact readStage_endsAlike (ih (Nat.le_of_succ_le_succ hlevels)) (c :: s)

/-- A filter is read from its text at the outermost level, -/
theorem read_endsAlike (h : limit ≤ limit') (text : String) :
    EndsAlike Fault.OfQuery Any (read limit text) (read limit' text) := by
  rw [read, read]
  split
  · exact .ok trivial
  · exact readChain_endsAlike (Nat.succ_le_succ h) _

/-- and run from the outermost level; within a wider limit both do the same. -/
theorem run_endsAlike (hp : Value.Invariant p) (h : limit ≤ limit') (filter : Filter) {v : Value}
    (hv : p v) : EndsAlike Fault.OfQuery p (filter.run limit v) (filter.run limit' v) :=
  Stage.applyAll_endsAlike hp h filter hv

/-- **Filters** keep every invariant and, within a wider limit, end in the same way. -/
theorem evaluate_endsAlike (hp : Value.Invariant p) (h : limit ≤ limit') (text : String)
    {v : Value} (hv : p v) :
    EndsAlike Fault.OfQuery p (evaluate limit text v) (evaluate limit' text v) :=
  (read_endsAlike h text).bind fun filter _ => run_endsAlike hp h filter hv

end Filter

end Quarry
