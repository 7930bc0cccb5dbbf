import Quarry.Json.Writer
import Quarry.Proofs.Numerals
import Quarry.Proofs.QuotedText
import Quarry.Proofs.Values

/-!
# Round trip — documents are read back as they were written

A written value is read back wherever it stands in a text, if what follows does not go on with a
number (`ReadsBack`).  Arrays and objects get this from the values in them: blanks of a layout
are skipped, and what follows a part is a comma, a blank or a closing bracket.  So every value
whose numbers can be written is read back (`readsBack`), and as a document it is accepted exactly
if its depth is within the limit (`parse_render`).
-/

namespace Quarry.Json

/-! ### Blanks -/

/-- A character that a value can begin with: it is not skipped, and not taken for the end of an
array or for a byte order mark. -/
def OpensValue (c : Char) : Prop :=
  isSpace c = false ∧ c ≠ ']' ∧ c ≠ '\ufeff'

theorem opensValue_of_isDigit {c : Char} (h : c.isDigit = true) : OpensValue c := by
  refine ⟨?_, ?_, ?_⟩
  · by_contra hspace
    simp only [isSpace, Bool.not_eq_false, Bool.or_eq_true, decide_eq_true_eq] at hspace
    rcases hspace with ((rfl | rfl) | rfl) | rfl <;> cases h
  · rintro rfl
    cases h
  · rintro rfl
    cases h

theorem skipSpace_cons {c : Char} {s : List Char} (h : isSpace c = false) :
    skipSpace (c :: s) = c :: s :=
  dropWhile_of_stops (stops_cons.mpr h)

theorem isSpace_of_mem_lineBreak {layout : Layout} {level : Nat} :
    ∀ c ∈ layout.lineBreak level, isSpace c = true := by
  intro c hc
  cases layout with
  | compact => cases hc
  | lines width =>
      rcases List.mem_cons.mp hc with rfl | hc
      · rfl
      · rw [List.eq_of_mem_replicate hc]
        rfl

/-- The blanks between the parts of a container are skipped. -/
theorem skipSpace_lineBreak {layout : Layout} {level : Nat} {c : Char} {s : List Char}
    (h : isSpace c = false) : skipSpace (layout.lineBreak level ++ c :: s) = c :: s :=
  dropWhile_append_of_stops isSpace_of_mem_lineBreak (stops_cons.mpr h)

theorem skipSpace_lineBreak_quoted {layout : Layout} {level : Nat} {name s : List Char} :
    skipSpace (layout.lineBreak level ++ (Text.quoted name ++ s)) = Text.quoted name ++ s :=
  skipSpace_lineBreak (by decide : isSpace '"' = false)

/-- A line break does not go on with a number. -/
theorem lineBreak_stops {layout : Layout} {level : Nat} {s : List Char}
    (h : Stops continuesNumber s) : Stops continuesNumber (layout.lineBreak level ++ s) := by
  cases layout with
  | compact => exact h
  | lines width => exact stops_cons.mpr rfl

/-! ### Numbers -/

section Numbers

variable {constants : Bool} {c : Char} {s t : List Char} (hc : c.isDigit = true)
  (hs : s = c :: t ∨ s = '-' :: c :: t)

include hc hs

/-- No word begins with a digit, nor with one behind a minus sign, -/
theorem readScalar_eq_readNumber : readScalar constants s = readNumber s := by
  rcases hs with rfl | rfl
  · rw [readScalar] <;> rintro _ ⟨⟩ <;> cases hc
  · rw [readScalar] <;> rintro _ ⟨⟩
    cases hc

/-- and neither does any value but a number. -/
theorem readValue_eq_readNumber (fuel : Nat) :
    readValue constants (fuel + 1) s = readNumber s := by
  have hscalar : readScalar constants s = readNumber s := readScalar_eq_readNumber hc hs
  rcases hs with rfl | rfl
  · rw [readValue, hscalar] <;> rintro _ ⟨⟩ <;> cases hc
  · rw [readValue, hscalar] <;> rintro _ ⟨⟩

end Numbers

/-- A value that begins like a number is read as one. -/
theorem readValue_signedText {constants : Bool} {fuel : Nat} {w : Written} {negative : Bool}
    {rest : List Char} (hfits : w.Fits) (hrest : Stops continuesNumber rest) :
    readValue constants (fuel + 1) (w.signedText negative ++ rest) =
      .ok (.number (w.number negative), rest) := by
  obtain ⟨c, s, htext, hc⟩ := w.text_cons
  have hfront : w.signedText negative ++ rest = c :: (s ++ rest) ∨
      w.signedText negative ++ rest = '-' :: c :: (s ++ rest) := by
    rw [Written.signedText, htext]
    cases negative with
    | true => exact .inr rfl
    | false => exact .inl rfl
  exact (readValue_eq_readNumber hc hfront fuel).trans (readNumber_signedText hfits hrest)

/-! ### The invariant -/

/-- The written value is read back at any nesting and in front of any text that does not go on
with a number. -/
structure ReadsBack (constants : Bool) (layout : Layout) (v : Value) : Prop where
  opens : ∀ level, ∃ c s, write layout level v = c :: s ∧ OpensValue c
  reads : ∀ level fuel rest, 2 * (write layout level v).length ≤ fuel →
    Stops continuesNumber rest →
      readValue constants fuel (write layout level v ++ rest) = .ok (v, rest)

theorem ReadsBack.skipSpace_write {constants : Bool} {layout : Layout} {v : Value}
    (h : ReadsBack constants layout v) (level outer : Nat) (s : List Char) :
    skipSpace (layout.lineBreak outer ++ (write layout level v ++ s)) =
      write layout level v ++ s := by
  obtain ⟨c, t, hcons, hspace, -⟩ := h.opens level
  rw [hcons, List.cons_append, skipSpace_lineBreak hspace]

theorem ReadsBack.skipSpace_write_self {constants : Bool} {layout : Layout} {v : Value}
    (h : ReadsBack constants layout v) {level : Nat} (s : List Char) :
    skipSpace (write layout level v ++ s) = write layout level v ++ s := by
  obtain ⟨c, t, hcons, hspace, -⟩ := h.opens level
  rw [hcons, List.cons_append, skipSpace_cons hspace]

section Containers

variable {constants : Bool} {layout : Layout} {level outer : Nat} {rest : List Char}

theorem writeItems_stops (items : List Value) :
    Stops continuesNumber
      (writeItems layout level items ++ (layout.lineBreak outer ++ ']' :: rest)) := by
  cases items with
  | nil => exact lineBreak_stops (stops_cons.mpr rfl)
  | cons v vs =>
      rw [writeItems]
      exact stops_cons.mpr rfl

theorem writeMembers_stops (members : List (String × Value)) :
    Stops continuesNumber
      (writeMembers layout level members ++ (layout.lineBreak outer ++ '\x7d' :: rest)) := by
  cases members with
  | nil => exact lineBreak_stops (stops_cons.mpr rfl)
  | cons v vs =>
      rw [writeMembers]
      exact stops_cons.mpr rfl

/-- The last item of an array. -/
theorem readItems_last {v : Value} {fuel : Nat} {s s' : List Char}
    (hread : readValue constants fuel s = .ok (v, s')) (hend : skipSpace s' = ']' :: rest) :
    readItems constants (fuel + 1) s = .ok ([v], rest) := by
  simp only [readItems, hread, hend, Result.bind_ok, Result.pure_eq_ok]

/-- An item of an array that others follow. -/
theorem readItems_more {v : Value} {vs : List Value} {fuel : Nat} {s s' s'' : List Char}
    (hread : readValue constants fuel s = .ok (v, s')) (hcomma : skipSpace s' = ',' :: s'')
    (hrest : readItems constants fuel (skipSpace s'') = .ok (vs, rest)) :
    readItems constants (fuel + 1) s = .ok (v :: vs, rest) := by
  simp only [readItems, hread, hcomma, hrest, Result.bind_ok, Result.pure_eq_ok]

/-- Items are read back up to the bracket that closes their array. -/
theorem readItems_write {v : Value} {vs : List Value} {fuel : Nat}
    (h : ∀ w ∈ v :: vs, ReadsBack constants layout w)
    (hfuel : 2 * (write layout level v ++ writeItems layout level vs).length + 1 ≤ fuel) :
    readItems constants fuel (write layout level v ++
      (writeItems layout level vs ++ (layout.lineBreak outer ++ ']' :: rest))) =
      .ok (v :: vs, rest) := by
  induction vs generalizing v fuel with
  | nil =>
      obtain ⟨fuel, rfl⟩ := Nat.exists_eq_add_one.mpr (Nat.zero_lt_of_lt hfuel)
      have hread := (h v List.mem_cons_self).reads level fuel
        (writeItems layout level [] ++ (layout.lineBreak outer ++ ']' :: rest))
        (by rw [List.length_append] at hfuel; omega) (writeItems_stops [])
      exact readItems_last hread (skipSpace_lineBreak (by decide))
  | cons v' vs ih =>
      -- one call for the item and its rest, so the fuel falls by less than the text
      obtain ⟨fuel, rfl⟩ := Nat.exists_eq_add_one.mpr (Nat.zero_lt_of_lt hfuel)
      have hread := (h v List.mem_cons_self).reads level fuel
        (writeItems layout level (v' :: vs) ++ (layout.lineBreak outer ++ ']' :: rest))
        (by rw [List.length_append] at hfuel; omega) (writeItems_stops _)
      have hlength :
          2 * (write layout level v' ++ writeItems layout level vs).length + 1 ≤ fuel := by
        simp only [writeItems, List.length_append, List.length_cons] at hfuel ⊢
        omega
      have hskip := (h v' (List.mem_cons_of_mem _ List.mem_cons_self)).skipSpace_write level level
        (writeItems layout level vs ++ (layout.lineBreak outer ++ ']' :: rest))
      have hcomma : skipSpace (writeItems layout level (v' :: vs) ++
          (layout.lineBreak outer ++ ']' :: rest)) =
          ',' :: (layout.lineBreak level ++ (write layout level v' ++
            (writeItems layout level vs ++ (layout.lineBreak outer ++ ']' :: rest)))) := by
        simp only [writeItems, List.cons_append, List.append_assoc,
          skipSpace_cons (by decide : isSpace ',' = false)]
      refine readItems_more hread hcomma ?_
      rw [hskip]
      exact ih (fun w hw => h w (List.mem_cons_of_mem _ hw)) hlength

section Names

variable {name : String} {q : List Char} (hname : ReadsQuoted q name)

include hname

/-- A name at the front of a text, and the colon after it. -/
theorem name_colon (layout : Layout) (s : List Char) :
    ∃ t s', q ++ (layout.colon ++ s) = '"' :: t ∧
      readQuoted ('"' :: t) = .ok (name, layout.colon ++ s) ∧
      skipSpace (layout.colon ++ s) = ':' :: s' ∧ skipSpace s' = skipSpace s := by
  have hread := hname.reads (layout.colon ++ s)
  obtain ⟨t, ht⟩ : ∃ t, q ++ (layout.colon ++ s) = '"' :: t := by
    obtain ⟨t, rfl⟩ := hname.opens
    exact ⟨_, rfl⟩
  rw [ht] at hread
  cases layout <;> exact ⟨t, _, ht, hread, rfl, rfl⟩

/-- The last member of an object. -/
theorem readPairs_last {v : Value} {fuel : Nat} {s s' : List Char}
    (hread : readValue constants fuel (skipSpace s) = .ok (v, s'))
    (hend : skipSpace s' = '\x7d' :: rest) :
    readPairs constants (fuel + 1) (q ++ (layout.colon ++ s)) = .ok ([(name, v)], rest) := by
  obtain ⟨t, s₁, ht, hread₁, hcolon, hs₁⟩ := name_colon hname layout s
  rw [ht]
  simp only [readPairs, hread₁, hcolon, hs₁, hread, hend, Result.bind_ok, Result.pure_eq_ok]

/-- A member of an object that others follow. -/
theorem readPairs_more {v : Value} {members : List (String × Value)} {fuel : Nat}
    {s s' s'' : List Char} (hread : readValue constants fuel (skipSpace s) = .ok (v, s'))
    (hcomma : skipSpace s' = ',' :: s'')
    (hrest : readPairs constants fuel (skipSpace s'') = .ok (members, rest)) :
    readPairs constants (fuel + 1) (q ++ (layout.colon ++ s)) =
      .ok ((name, v) :: members, rest) := by
  obtain ⟨t, s₁, ht, hread₁, hcolon, hs₁⟩ := name_colon hname layout s
  rw [ht]
  simp only [readPairs, hread₁, hcolon, hs₁, hread, hcomma, hrest, Result.bind_ok,
    Result.pure_eq_ok]

end Names

/-- Members are read back up to the brace that closes their object. -/
theorem readPairs_write {name : String} {v : Value} {members : List (String × Value)} {fuel : Nat}
    (hv : ReadsBack constants layout v)
    (h : ∀ member ∈ members, ReadsBack constants layout member.2)
    (hfuel : 2 * (write layout level v ++ writeMembers layout level members).length + 1 ≤ fuel) :
    readPairs constants fuel (Text.quoted name.toList ++ (layout.colon ++
      (write layout level v ++ (writeMembers layout level members ++
        (layout.lineBreak outer ++ '\x7d' :: rest))))) = .ok ((name, v) :: members, rest) := by
  induction members generalizing name v fuel with
  | nil =>
      obtain ⟨fuel, rfl⟩ := Nat.exists_eq_add_one.mpr (Nat.zero_lt_of_lt hfuel)
      have hread := hv.reads level fuel
        (writeMembers layout level [] ++ (layout.lineBreak outer ++ '\x7d' :: rest))
        (by rw [List.length_append] at hfuel; omega) (writeMembers_stops [])
      rw [← hv.skipSpace_write_self] at hread
      exact readPairs_last (readsQuoted_quoted name) hread (skipSpace_lineBreak (by decide))
  | cons member members ih =>
      obtain ⟨name', v'⟩ := member
      obtain ⟨fuel, rfl⟩ := Nat.exists_eq_add_one.mpr (Nat.zero_lt_of_lt hfuel)
      have hread := hv.reads level fuel
        (writeMembers layout level ((name', v') :: members) ++
          (layout.lineBreak outer ++ '\x7d' :: rest))
        (by rw [List.length_append] at hfuel; omega) (writeMembers_stops _)
      have hlength : 2 * (write layout level v' ++
          writeMembers layout level members).length + 1 ≤ fuel := by
        simp only [writeMembers, List.length_append, List.length_cons] at hfuel ⊢
        omega
      -- behind the value there are a comma, a line break and the next name
      have hcomma : skipSpace (writeMembers layout level ((name', v') :: members) ++
          (layout.lineBreak outer ++ '\x7d' :: rest)) =
          ',' :: (layout.lineBreak level ++ (Text.quoted name'.toList ++ (layout.colon ++
            (write layout level v' ++ (writeMembers layout level members ++
              (layout.lineBreak outer ++ '\x7d' :: rest)))))) := by
        simp only [writeMembers, List.cons_append, List.append_assoc,
          skipSpace_cons (by decide : isSpace ',' = false)]
      rw [← hv.skipSpace_write_self] at hread
      refine readPairs_more (readsQuoted_quoted name) hread hcomma ?_
      rw [skipSpace_lineBreak_quoted]
      exact ih (h _ List.mem_cons_self) (fun w hw => h w (List.mem_cons_of_mem _ hw)) hlength

end Containers

/-! ### Values -/

/-- A finite number with few enough digits is read back. -/
theorem readsBack_number {n : Number} (hfinite : n.isFinite = true)
    (hwritable : n.isWritable = true) (constants : Bool) (layout : Layout) :
    ReadsBack constants layout (.number n) := by
  obtain ⟨w, negative, htext, hnumber, hfits⟩ := Number.exists_written hfinite "Infinity" "NaN"
  obtain ⟨c, s, hcons, hc⟩ := w.text_cons
  have hopens : ∃ c s, w.signedText negative = c :: s ∧ OpensValue c := by
    cases negative with
    | true => exact ⟨_, _, rfl, by decide, by decide, by decide⟩
    | false => exact ⟨c, s, hcons, opensValue_of_isDigit hc⟩
  refine ⟨fun level => ?_, fun level fuel rest hfuel hrest => ?_⟩
  · rw [write, writeNumber, htext]
    exact hopens
  · rw [write, writeNumber, htext] at *
    obtain ⟨d, t, hd, -⟩ := hopens
    rw [hd, List.length_cons] at hfuel
    obtain ⟨fuel, rfl⟩ := Nat.exists_eq_add_one.mpr (by omega : 0 < fuel)
    rw [readValue_signedText (hfits hwritable) hrest, hnumber]

theorem readValue_quoted {q : List Char} {s : String} (h : ReadsQuoted q s) (constants : Bool)
    (fuel : Nat) (rest : List Char) :
    readValue constants (fuel + 1) (q ++ rest) = .ok (.string s, rest) := by
  have hread := h.reads rest
  obtain ⟨t, rfl⟩ := h.opens
  rw [List.cons_append] at hread ⊢
  rw [readValue, hread]
  rfl

theorem readsBack_string (s : String) (constants : Bool) (layout : Layout) :
    ReadsBack constants layout (.string s) := by
  refine ⟨fun level => ⟨_, _, rfl, by decide, by decide, by decide⟩,
    fun level fuel rest hfuel _ => ?_⟩
  obtain ⟨fuel, rfl⟩ := Nat.exists_eq_add_one.mpr (Nat.zero_lt_of_lt hfuel)
  rw [write]
  exact readValue_quoted (readsQuoted_quoted s) constants fuel rest

/-- A scalar is read back if its number can be written. -/
theorem readsBack_scalar {v : Value} (hscalar : v.IsScalar) (hfinite : v.IsFinite)
    (hwritable : v.isWritable = true) (constants : Bool) (layout : Layout) :
    ReadsBack constants layout v := by
  cases v with
  | null =>
      refine ⟨fun level => ⟨_, _, rfl, by decide, by decide, by decide⟩,
        fun level fuel rest hfuel _ => ?_⟩
      obtain ⟨fuel, rfl⟩ := Nat.exists_eq_add_one.mpr (Nat.zero_lt_of_lt hfuel)
      rfl
  | bool b =>
      refine ⟨fun level => ?_, fun level fuel rest hfuel _ => ?_⟩
      · cases b <;> exact ⟨_, _, rfl, by decide, by decide, by decide⟩
      · obtain ⟨fuel, rfl⟩ := Nat.exists_eq_add_one.mpr
          (by cases b <;> exact Nat.zero_lt_of_lt hfuel : 0 < fuel)
        cases b <;> rfl
  | number n =>
      exact readsBack_number (Value.everyNumber_number.mp hfinite) hwritable constants layout
  | string s => exact readsBack_string s constants layout
  | array _ => exact hscalar.elim
  | object _ => exact hscalar.elim

theorem readValue_array {constants : Bool} {fuel : Nat} {s : List Char}
    (h : Stops (· = ']') (skipSpace s)) :
    readValue constants (fuel + 1) ('[' :: s) =
      (do
        let (items, rest) ← readItems constants fuel (skipSpace s)
        return (.array items, rest)) := by
  rw [readValue]
  split
  · rename_i heq
    rw [heq] at h
    simp at h
  · rfl

theorem readValue_object {constants : Bool} {fuel : Nat} {s : List Char}
    (h : Stops (· = '\x7d') (skipSpace s)) :
    readValue constants (fuel + 1) ('\x7b' :: s) =
      (do
        let (pairs, rest) ← readPairs constants fuel (skipSpace s)
        return (Value.ofPairs pairs, rest)) := by
  rw [readValue]
  split
  · rename_i heq
    rw [heq] at h
    simp at h
  · rfl

/-- An array is read back if its items are. -/
theorem readsBack_array {items : List Value} {constants : Bool} {layout : Layout}
    (h : ∀ v ∈ items, ReadsBack constants layout v) :
    ReadsBack constants layout (.array items) := by
  refine ⟨fun level => ?_, fun level fuel rest hfuel _ => ?_⟩
  · cases items <;> exact ⟨_, _, rfl, by decide, by decide, by decide⟩
  · obtain ⟨fuel, rfl⟩ := Nat.exists_eq_add_one.mpr
      (by cases items <;> exact Nat.zero_lt_of_lt hfuel : 0 < fuel)
    cases items with
    | nil => rfl
    | cons v vs =>
        have hskip := (h v List.mem_cons_self).skipSpace_write (level + 1) (level + 1)
          (writeItems layout (level + 1) vs ++ (layout.lineBreak level ++ ']' :: rest))
        have hlength : 2 * (write layout (level + 1) v ++
            writeItems layout (level + 1) vs).length + 1 ≤ fuel := by
          simp only [write, List.length_append, List.length_cons] at hfuel ⊢
          omega
        simp only [write, List.cons_append, List.append_assoc, List.nil_append]
        rw [readValue_array, hskip, readItems_write h hlength]
        · rfl
        · obtain ⟨c, s, hcons, -, hclose, -⟩ := (h v List.mem_cons_self).opens (level + 1)
          rw [hskip, hcons]
          exact stops_cons.mpr (decide_eq_false hclose)

/-- An object is read back if its names are distinct and its members are read back. -/
theorem readsBack_object {members : List (String × Value)} {constants : Bool} {layout : Layout}
    (hdistinct : Members.Distinct members)
    (h : ∀ member ∈ members, ReadsBack constants layout member.2) :
    ReadsBack constants layout (.object members) := by
  refine ⟨fun level => ?_, fun level fuel rest hfuel _ => ?_⟩
  · cases members <;> exact ⟨_, _, rfl, by decide, by decide, by decide⟩
  · obtain ⟨fuel, rfl⟩ := Nat.exists_eq_add_one.mpr
      (by cases members <;> exact Nat.zero_lt_of_lt hfuel : 0 < fuel)
    cases members with
    | nil => rfl
    | cons member members =>
        obtain ⟨name, v⟩ := member
        have hlength : 2 * (write layout (level + 1) v ++
            writeMembers layout (level + 1) members).length + 1 ≤ fuel := by
          simp only [write, List.length_append, List.length_cons] at hfuel ⊢
          omega
        simp only [write, List.cons_append, List.append_assoc, List.nil_append]
        rw [readValue_object, skipSpace_lineBreak_quoted,
          readPairs_write (h _ List.mem_cons_self) (fun w hw => h w (List.mem_cons_of_mem _ hw))
            hlength, Result.bind_ok]
        · simp only [Result.pure_eq_ok, Value.ofPairs, Members.merge_of_distinct hdistinct]
        · rw [skipSpace_lineBreak_quoted]
          exact stops_cons.mpr rfl

/-- **Every value is read back** whose names are distinct and whose numbers can be written. -/
theorem readsBack {v : Value} (hv : v.WellFormed) (hfinite : v.IsFinite)
    (hwritable : v.isWritable = true) (constants : Bool) (layout : Layout) :
    ReadsBack constants layout v := by
  induction v with
  | array items ih =>
      exact readsBack_array fun v hmem =>
        ih v hmem (Value.wellFormedItems_iff.mp hv v hmem)
          (Value.everyNumber_array.mp hfinite v hmem)
          (Value.areWritable_iff.mp hwritable v hmem)
  | object members ih =>
      exact readsBack_object hv.1 fun member hmem =>
        ih member hmem (Value.wellFormedMembers_iff.mp hv.2 member hmem)
          (Value.everyNumber_object.mp hfinite member hmem)
          (Value.membersWritable_iff.mp hwritable member hmem)
  | _ => exact readsBack_scalar (by trivial) hfinite hwritable constants layout

/-! ### Documents -/

/-- A text that starts with the front of a value and ends with it is that value. -/
theorem read_of_readValue {constants : Bool} {c : Char} {s : List Char} {v : Value}
    (hspace : isSpace c = false) (hmark : c ≠ '\ufeff')
    (hread : readValue constants (2 * (c :: s).length + 2) (c :: s) = .ok (v, [])) :
    read constants (c :: s) = .ok v := by
  have htext : readText constants (c :: s) = .ok v := by
    rw [readText, skipSpace_cons hspace, hread]
    · rfl
    · rintro _ ⟨⟩
      exact hmark rfl
  rw [read, htext]
  rfl

/-- A written value fills its text. -/
theorem read_write {v : Value} {constants : Bool} {layout : Layout}
    (h : ReadsBack constants layout v) : read constants (write layout 0 v) = .ok v := by
  obtain ⟨c, s, hcons, hspace, -, hmark⟩ := h.opens 0
  have hread := h.reads 0 (2 * (write layout 0 v).length + 2) [] (by omega) stops_nil
  rw [List.append_nil, hcons] at hread
  rw [hcons]
  exact read_of_readValue hspace hmark hread

/-- **Decoding undoes encoding, and the depth limit is exact.**  A value whose numbers can be
written is read back from its text if everything in it sits under at most `m` containers, and is
refused as too deep otherwise. -/
theorem parse_render {v : Value} (hv : v.WellFormed) (hfinite : v.IsFinite)
    (hwritable : v.isWritable = true) (indent m : Nat) :
    ∃ text, render (.ofIndent indent) v = .ok text ∧
      ((∀ k w, Value.Inside k w v → k ≤ m) → parse m text = .ok v) ∧
      ((∃ k w, Value.Inside k w v ∧ m < k) → parse m text = .error (.tooDeep m)) := by
  refine ⟨_, if_pos hwritable, ?_⟩
  have hread := read_write (readsBack hv hfinite hwritable false (.ofIndent indent))
  have hparse : parse m (String.ofList (write (.ofIndent indent) 0 v)) =
      if v.depth ≤ m then .ok v else .error (.tooDeep m) := by
    rw [parse, String.toList_ofList, hread]
    change v.accept m = _
    rw [Value.accept, Value.normalize_of_wellFormed hv hfinite]
  constructor
  · intro h
    rw [hparse, if_pos (Value.depth_le_iff.mpr h)]
  · rintro ⟨k, w, hw, hlt⟩
    have hdeep : ¬ v.depth ≤ m := fun h =>
      Nat.not_le.mpr hlt (Value.depth_le_iff.mp h k w hw)
    rw [hparse, if_neg hdeep]

/-- An array in an object: its item sits under two containers, one too many. -/
theorem parse_render_nested :
    let v : Value := .object [("a", .array [.number (.int 1)]), ("b", .object [])]
    ∃ text, render (.ofIndent 2) v = .ok text ∧
      ((∀ k w, Value.Inside k w v → k ≤ 1) → parse 1 text = .ok v) ∧
      ((∃ k w, Value.Inside k w v ∧ 1 < k) → parse 1 text = .error (.tooDeep 1)) := by
  intro v
  have hone : Number.isWritable (.int 1) = true := by
    rw [Number.isWritable, decide_eq_true_eq, Number.digitBound]
    exact Nat.one_lt_pow (by decide : Number.digitLimit ≠ 0) (by decide)
  refine parse_render ?_ ?_ ?_ 2 1
  · simp [v, Value.WellFormed, Value.WellFormedMembers, Value.WellFormedItems, Members.Distinct,
      Members.names, Number.IsNormal, Number.normalize]
  · simp [v, Number.isFinite]
  · simp only [v, Value.isWritable, Value.membersWritable, Value.areWritable, hone, Bool.and_self]

end Quarry.Json
