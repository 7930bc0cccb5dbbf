import Quarry.Json.Reader
import Quarry.Proofs.Invariants

/-!
# Documents — what is read has every invariant

Reading merges repeated names, and the normal form turns infinite numbers into null.  So a value
that was read has every invariant once it is in normal form: by induction on the fuel of the
readers, for values, items and members together (`readValue_gives`).  The limit on nesting is
looked at only after that (`parse_endsAlike`).
-/

namespace Quarry

namespace Json

variable {p : Value → Prop}

/-! ### Reading -/

/-- The value at the front of a text has the invariant once it is in normal form. -/
abbrev GivesNormal (p : Value → Prop) (x : Except Halt (Value × List Char)) : Prop :=
  Result.Gives (fun result => p result.1.normalize) x

/-- The normal form of a number is finite, or null. -/
theorem normalize_number (hp : Value.Invariant p) (n : Number) : p (Value.number n).normalize := by
  rw [Value.normalize]
  split
  · rename_i hfinite
    exact hp.number hfinite
  · exact hp.null

/-- Arrays are brought into normal form item by item, -/
theorem normalize_array (hp : Value.Invariant p) {items : List Value}
    (h : ∀ v ∈ items, p v.normalize) : p (Value.array items).normalize := by
  rw [Value.normalize, Value.normalizeItems_eq_map]
  refine hp.array.mpr fun v hv => ?_
  obtain ⟨w, hw, rfl⟩ := List.mem_map.mp hv
  exact h w hw

/-- and objects after repeated names are merged, which leaves pairs that were read. -/
theorem normalize_ofPairs (hp : Value.Invariant p) {pairs : List (String × Value)}
    (h : ∀ pair ∈ pairs, p pair.2.normalize) : p (Value.ofPairs pairs).normalize := by
  obtain ⟨hdistinct, hmem⟩ := Members.merge_spec pairs
  rw [Value.ofPairs, Value.normalize, Value.normalizeMembers_eq_map]
  refine hp.object ?_ fun member hm => ?_
  · -- normal forms keep the names
    rw [Members.Distinct, Members.names, List.map_map]
    exact hdistinct
  · obtain ⟨pair, hpair, rfl⟩ := List.mem_map.mp hm
    exact h pair (hmem pair hpair)

/-- Scalars are read by readers of their own: numerals, -/
theorem readUnsigned_gives (hp : Value.Invariant p) (negative : Bool) (start s : List Char) :
    GivesNormal p (readUnsigned negative start s) := by
  rw [readUnsigned]
  split
  · exact .error _
  · split
    split
    split
    · dsimp only
      split
      · exact .error _
      · exact .ok (normalize_number hp _)
    · exact .ok (normalize_number hp _)

/-- words for numbers, where they are allowed, -/
theorem readConstant_gives (hp : Value.Invariant p) (allowed : Bool) (name : String) (x : Binary64)
    (rest : List Char) : GivesNormal p (readConstant allowed name x rest) := by
  rw [readConstant]
  split
  · exact .ok (normalize_number hp _)
  · exact .error _

/-- and the other words. -/
theorem readScalar_gives (hp : Value.Invariant p) (constants : Bool) (s : List Char) :
    GivesNormal p (readScalar constants s) := by
  rw [readScalar.eq_def]
  split
  · exact .ok hp.null
  · exact .ok (hp.bool true)
  · exact .ok (hp.bool false)
  · exact readConstant_gives hp _ _ _ _
  · exact readConstant_gives hp _ _ _ _
  · exact readConstant_gives hp _ _ _ _
  · rw [readNumber.eq_def]
    split <;> exact readUnsigned_gives hp _ _ _

/-- Values, items and members are read by calls with less fuel. -/
theorem readValue_gives (hp : Value.Invariant p) (constants : Bool) (fuel : Nat) :
    (∀ s, GivesNormal p (readValue constants fuel s)) ∧
    (∀ s, Result.Gives (fun result => ∀ v ∈ result.1, p v.normalize)
      (readItems constants fuel s)) ∧
    (∀ s, Result.Gives (fun result => ∀ pair ∈ result.1, p pair.2.normalize)
      (readPairs constants fuel s)) := by
  induction fuel with
  | zero => exact ⟨fun s => .error _, fun s => .error _, fun s => .error _⟩
  | succ fuel ih =>
      obtain ⟨ihvalue, ihitems, ihpairs⟩ := ih
      refine ⟨fun s => ?_, fun s => ?_, fun s => ?_⟩
      · rw [readValue.eq_def]
        simp only
        split
        · exact (Result.Gives.any _).bind fun result _ => .ok (hp.string _)
        · split
          · exact .ok (normalize_array hp (by simp))
          · exact (ihitems _).bind fun result h => .ok (normalize_array hp h)
        · split
          · exact .ok (hp.object List.nodup_nil (List.forall_mem_nil _))
          · exact (ihpairs _).bind fun result h => .ok (normalize_ofPairs hp h)
        · exact readScalar_gives hp constants s
      · rw [readItems]
        refine (ihvalue s).bind ?_
        rintro ⟨v, s'⟩ hv
        dsimp only
        split
        · exact .ok (List.forall_mem_singleton.mpr hv)
        · exact (ihitems _).bind fun results hvs => .ok (List.forall_mem_cons.mpr ⟨hv, hvs⟩)
        · exact .error _
      · rw [readPairs.eq_def]
        simp only
        split
        · refine (Result.Gives.any _).bind ?_
          rintro ⟨name, s'⟩ -
          dsimp only
          split
          · refine (ihvalue _).bind ?_
            rintro ⟨v, s'⟩ hv
            dsimp only
            split
            · exact .ok (List.forall_mem_singleton.mpr hv)
            · exact (ihpairs _).bind fun results hvs => .ok (List.forall_mem_cons.mpr ⟨hv, hvs⟩)
            · exact .error _
          · exact .error _
        · exact .error _

/-- A whole text has a value with blanks around it, -/
theorem readText_gives (hp : Value.Invariant p) (constants : Bool) (text : List Char) :
    Result.Gives (fun v => p v.normalize) (readText constants text) := by
  -- the fuel that reading starts with makes no difference here
  rw [readText.eq_def]
  split
  · exact .error _
  · refine ((readValue_gives hp constants _).1 _).bind ?_
    rintro ⟨v, rest⟩ hv
    dsimp only
    split
    · exact .ok hv
    · exact .error _

/-- and no mark for the order of bytes in front. -/
theorem read_gives (hp : Value.Invariant p) (constants : Bool) (text : List Char) :
    Result.Gives (fun v => p v.normalize) (read constants text) := by
  rw [read]
  cases ht : readText constants text with
  | ok v => exact .ok (readText_gives hp constants text v ht)
  | error halt => exact .error _

end Json

/-! ### Accepting -/

/-- A value is accepted within wider limits. -/
theorem Value.accept_endsAlike {p : Fault → Prop} {q : Value → Prop} {limit limit' : Nat}
    (h : limit ≤ limit') {v : Value} (hv : q v.normalize) :
    EndsAlike p q (v.accept limit) (v.accept limit') := by
  rw [accept, accept]
  split
  · rename_i hdepth
    rw [if_pos (Nat.le_trans hdepth h)]
    exact .ok hv
  · exact .limit trivial

/-- A fault of the text of a document. -/
def Fault.OfDocument : Fault → Prop
  | .document _ => True
  | _ => False

/-- **Documents have every invariant.** -/
theorem Json.parse_endsAlike {p : Value → Prop} (hp : Value.Invariant p) {limit limit' : Nat}
    (h : limit ≤ limit') (text : String) :
    EndsAlike Fault.OfDocument p (parse limit text) (parse limit' text) := by
  have hread : EndsAlike Fault.OfDocument (fun v => p v.normalize)
      ((read false text.toList).mapError Fault.document)
      ((read false text.toList).mapError Fault.document) := by
    cases hr : read false text.toList with
    | ok v => exact .ok (read_gives hp false _ v hr)
    | error cause => exact .fault trivial
  exact hread.bind fun v hv => Value.accept_endsAlike h hv

end Quarry
