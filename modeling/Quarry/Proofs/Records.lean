import Quarry.Event
import Quarry.Proofs.Literals

/-!
# Records — what a line of the log says

A line of the log is a JSON object in printable ASCII, whatever the texts are that an event comes
with: quotes, backslashes, line breaks and everything beyond ASCII are escaped (`isPrintable_line`).
Escaping is undone by reading, character by character, so the line is read back as the record that
was written (`read_recordText`), and the record tells the event, its long texts cut, and how long it
took (`line_reads_back`).  So no text in an event can end its line, or pass for another member.
-/

namespace Quarry

/-! ### Printable characters -/

namespace Text

/-- A printable character of ASCII. -/
def IsPrintable (c : Char) : Prop :=
  32 ≤ c.toNat ∧ c.toNat < 127

instance : DecidablePred IsPrintable :=
  fun _ => inferInstanceAs (Decidable (_ ∧ _))

/-- A numbered escape has a backslash, a letter and hexadecimal digits in it. -/
theorem isPrintable_unicodeEscape (n : Nat) : ∀ d ∈ unicodeEscape n, IsPrintable d :=
  unicodeEscape_forall (by decide) (by decide) (by decide) n

/-- A character is written as it is if it is printable, and is escaped otherwise, -/
theorem isPrintable_encodeCharAscii (c : Char) : ∀ d ∈ encodeCharAscii c, IsPrintable d := by
  rw [encodeCharAscii]
  cases he : shortEscape? c with
  | some e =>
      have hletter : IsPrintable e := by
        rw [shortEscape?] at he
        split_ifs at he <;> cases he <;> decide
      simpa using ⟨by decide, hletter⟩
  | none =>
      simp only [Bool.and_eq_true, decide_eq_true_eq]
      split
      · rename_i hc
        exact List.forall_mem_singleton.mpr hc
      · split
        · exact isPrintable_unicodeEscape _
        · exact List.forall_mem_append.mpr
            ⟨isPrintable_unicodeEscape _, isPrintable_unicodeEscape _⟩

/-- so a quoted text is printable between its quotes. -/
theorem isPrintable_quotedAscii (s : List Char) : ∀ d ∈ quotedAscii s, IsPrintable d := by
  rw [quotedAscii, List.forall_mem_append, List.forall_mem_cons]
  refine ⟨⟨by decide, fun d hd => ?_⟩, List.forall_mem_singleton.mpr (by decide)⟩
  obtain ⟨c, -, hd⟩ := List.mem_flatMap.mp hd
  exact isPrintable_encodeCharAscii c d hd

end Text

/-- A number is written with digits, a sign, a point and letters. -/
theorem Json.isPrintable_writeNumber (n : Number) : ∀ c ∈ writeNumber n, Text.IsPrintable c := by
  cases hfinite : n.isFinite with
  | true =>
      obtain ⟨w, negative, htext, -, -⟩ := Number.exists_written hfinite "Infinity" "NaN"
      rw [writeNumber, htext]
      exact fun c hc => literalPart_forall (by decide) (Written.literalPart c hc)
  | false =>
      cases n with
      | int n => cases hfinite
      | float x =>
          cases x with
          | finite x => cases hfinite
          | infinite negative => cases negative <;> exact chars_forall (by decide)
          | nan => exact chars_forall (by decide)

namespace Json

/-- A number that is written as a word. -/
theorem readsBack_word {n : Number} (hopens : ∃ c s, writeNumber n = c :: s ∧ OpensValue c)
    (hread : ∀ fuel rest,
      readValue true (fuel + 1) (writeNumber n ++ rest) = .ok (.number n, rest))
    (layout : Layout) : ReadsBack true layout (.number n) := by
  refine ⟨fun level => hopens, fun level fuel rest hfuel _ => ?_⟩
  rw [write] at hfuel ⊢
  obtain ⟨c, s, hcons, -⟩ := hopens
  obtain ⟨fuel, rfl⟩ := Nat.exists_eq_add_one.mpr
    (Nat.zero_lt_of_lt (by rwa [hcons] at hfuel : 2 * (c :: s).length ≤ fuel))
  exact hread fuel rest

/-- Any number that is not too long is read back, where words for numbers are allowed. -/
theorem readsBack_anyNumber {n : Number} (h : n.isWritable = true) (layout : Layout) :
    ReadsBack true layout (.number n) := by
  cases hfinite : n.isFinite with
  | true => exact readsBack_number hfinite h true layout
  | false =>
      cases n with
      | int n => cases hfinite
      | float x =>
          cases x with
          | finite x => cases hfinite
          | infinite negative =>
              cases negative with
              | false =>
                  exact readsBack_word ⟨_, _, rfl, by decide, by decide, by decide⟩
                    (fun _ _ => rfl) layout
              | true =>
                  exact readsBack_word ⟨_, _, rfl, by decide, by decide, by decide⟩
                    (fun _ _ => rfl) layout
          | nan =>
              exact readsBack_word ⟨_, _, rfl, by decide, by decide, by decide⟩
                (fun _ _ => rfl) layout

end Json

namespace Event

variable {v : Value} {members : List (String × Value)} {fuel : Nat} {rest : List Char}

/-- The members of a record, without the braces. -/
def membersText (members : List (String × Value)) : List Char :=
  [',', ' '].intercalate (members.map writeMember)

/-- Members are written with a comma and a blank between them. -/
theorem membersText_cons (m m' : String × Value) (members : List (String × Value)) :
    membersText (m :: m' :: members) =
      writeMember m ++ ',' :: ' ' :: membersText (m' :: members) := by
  rw [membersText, List.map_cons, List.map_cons, List.intercalate_cons_cons, List.append_assoc]
  rfl

/-- A line consists of its members between braces. -/
theorem toList_line (duration : Option Number) (e : Event) :
    (e.line duration).toList = '\x7b' :: (membersText (e.members duration) ++ ['\x7d']) :=
  String.toList_ofList

/-- A member is a quoted name, a colon and a scalar, -/
theorem isPrintable_writeMember (m : String × Value) :
    ∀ c ∈ writeMember m, Text.IsPrintable c := by
  have hnull : ∀ c ∈ ['n', 'u', 'l', 'l'], Text.IsPrintable c := chars_forall (by decide)
  have hvalue : ∀ c ∈ writeScalar m.2, Text.IsPrintable c := by
    cases m.2 with
    | string s => exact Text.isPrintable_quotedAscii s.toList
    | number n => exact Json.isPrintable_writeNumber n
    | _ => exact hnull
  rw [writeMember, List.forall_mem_append, List.forall_mem_append]
  exact ⟨⟨Text.isPrintable_quotedAscii m.1.toList, chars_forall (by decide)⟩, hvalue⟩

/-- so members are printable, one after the other. -/
theorem isPrintable_membersText (members : List (String × Value)) :
    ∀ c ∈ membersText members, Text.IsPrintable c := by
  induction members with
  | nil => exact nofun
  | cons m members ih =>
      cases members with
      | nil =>
          rw [membersText, List.map_singleton, List.intercalate_singleton]
          exact isPrintable_writeMember m
      | cons m' members =>
          rw [membersText_cons, List.forall_mem_append, List.forall_mem_cons, List.forall_mem_cons]
          exact ⟨isPrintable_writeMember m, by decide, by decide, ih⟩

/-- **A line is printable**, whatever is in the event. -/
theorem isPrintable_line (duration : Option Number) (e : Event) :
    ∀ c ∈ (e.line duration).toList, Text.IsPrintable c := by
  rw [toList_line, List.forall_mem_cons, List.forall_mem_append]
  exact ⟨by decide, isPrintable_membersText _, List.forall_mem_singleton.mpr (by decide)⟩

/-! ### Reading records -/

/-- What a record holds: a text, a number that is not too long, or null. -/
def IsEntry : Value → Prop
  | .string _ | .null => True
  | .number n => n.isWritable = true
  | _ => False

/-- A text that begins with no blank, and is read as the value in front of any text that does not
go on with a number. -/
structure ReadsEntry (text : List Char) (v : Value) : Prop where
  opens : ∃ c s, text = c :: s ∧ Json.isSpace c = false
  reads : ∀ fuel rest, 2 * text.length ≤ fuel → Stops Json.continuesNumber rest →
    Json.readValue true fuel (text ++ rest) = .ok (v, rest)

/-- What is read back from its compact text is read in front of a member's end. -/
theorem readsEntry_of_readsBack (h : Json.ReadsBack true .compact v) :
    ReadsEntry (Json.write .compact 0 v) v := by
  obtain ⟨c, s, hcons, hspace, -⟩ := h.opens 0
  exact ⟨⟨c, s, hcons, hspace⟩, h.reads 0⟩

/-- The values in a record are read back from their texts: null, numbers, and texts in ASCII. -/
theorem readsEntry_writeScalar (h : IsEntry v) : ReadsEntry (writeScalar v) v := by
  cases v with
  | null =>
      exact readsEntry_of_readsBack
        (Json.readsBack_scalar (v := .null) trivial (by simp) rfl true .compact)
  | number n => exact readsEntry_of_readsBack (Json.readsBack_anyNumber h .compact)
  | string s =>
      refine ⟨⟨_, _, rfl, by decide⟩, fun fuel rest hfuel _ => ?_⟩
      -- a quoted text is read at once, with any fuel that is left
      obtain ⟨fuel, rfl⟩ := Nat.exists_eq_add_one.mpr (Nat.zero_lt_of_lt hfuel)
      exact Json.readValue_quoted (Json.readsQuoted_quotedAscii s) true fuel rest
  | _ => exact h.elim

/-- Members begin with the quote of the first name, and not with the closing brace. -/
theorem membersText_opens (m : String × Value) (members : List (String × Value)) :
    ∃ t, membersText (m :: members) = '"' :: t := by
  cases members with
  | nil =>
      rw [membersText, List.map_singleton, List.intercalate_singleton]
      exact ⟨_, rfl⟩
  | cons m' members =>
      rw [membersText_cons]
      exact ⟨_, rfl⟩

theorem ReadsEntry.skipSpace {text : List Char} (h : ReadsEntry text v) (rest : List Char) :
    Json.skipSpace (text ++ rest) = text ++ rest := by
  obtain ⟨c, s, rfl, hspace⟩ := h.opens
  exact Json.skipSpace_cons hspace

theorem writeMember_append (m : String × Value) (s : List Char) : writeMember m ++ s =
    Text.quotedAscii m.1.toList ++ ((Json.Layout.lines 0).colon ++ (writeScalar m.2 ++ s)) := by
  simp only [writeMember, Json.Layout.colon, List.append_assoc]

theorem skipSpace_membersText (m : String × Value) (members : List (String × Value))
    (s : List Char) :
    Json.skipSpace (membersText (m :: members) ++ s) = membersText (m :: members) ++ s := by
  obtain ⟨t, ht⟩ := membersText_opens m members
  rw [ht]
  exact Json.skipSpace_cons (by decide)

/-- The value of a member, behind its colon. -/
theorem readValue_member {m : String × Value} (h : IsEntry m.2)
    (hfuel : 2 * (writeMember m).length ≤ fuel + 1) (hrest : Stops Json.continuesNumber rest) :
    Json.readValue true fuel (Json.skipSpace (writeScalar m.2 ++ rest)) = .ok (m.2, rest) := by
  have hentry := readsEntry_writeScalar h
  rw [writeMember, List.length_append, List.length_append, List.length_cons] at hfuel
  rw [hentry.skipSpace]
  exact hentry.reads fuel rest (by omega) hrest

/-- **The members of a record** are read back up to the brace. -/
theorem readPairs_membersText {m : String × Value} (h : ∀ m' ∈ m :: members, IsEntry m'.2)
    (hfuel : 2 * (membersText (m :: members)).length < fuel) :
    Json.readPairs true fuel (membersText (m :: members) ++ '\x7d' :: rest) =
      .ok (m :: members, rest) := by
  induction members generalizing m fuel with
  | nil =>
      obtain ⟨fuel, rfl⟩ := Nat.exists_eq_add_one.mpr (Nat.zero_lt_of_lt hfuel)
      rw [membersText, List.map_singleton, List.intercalate_singleton] at *
      rw [writeMember_append]
      exact Json.readPairs_last (Json.readsQuoted_quotedAscii m.1)
        (readValue_member (h m List.mem_cons_self) (by omega) (stops_cons.mpr rfl))
        (Json.skipSpace_cons (by decide))
  | cons m' members ih =>
      obtain ⟨fuel, rfl⟩ := Nat.exists_eq_add_one.mpr (Nat.zero_lt_of_lt hfuel)
      rw [membersText_cons] at *
      simp only [List.length_append, List.length_cons] at hfuel
      rw [List.append_assoc, List.cons_append, List.cons_append, writeMember_append]
      refine Json.readPairs_more (Json.readsQuoted_quotedAscii m.1)
        (readValue_member (h m List.mem_cons_self) (by omega) (stops_cons.mpr rfl))
        (Json.skipSpace_cons (by decide)) ?_
      have hblank (t : List Char) : Json.skipSpace (' ' :: t) = Json.skipSpace t := rfl
      rw [hblank, skipSpace_membersText]
      exact ih (fun m'' hm => h m'' (List.mem_cons_of_mem _ hm)) (by omega)

/-- **A record** is read back, if its names are distinct. -/
theorem read_recordText (hne : members ≠ []) (hdistinct : Members.Distinct members)
    (h : ∀ m ∈ members, IsEntry m.2) :
    Json.read true ('\x7b' :: (membersText members ++ ['\x7d'])) = .ok (.object members) := by
  obtain ⟨m, members, rfl⟩ := List.exists_cons_of_ne_nil hne
  refine Json.read_of_readValue (by decide) (by decide) ?_
  have hpairs {fuel : Nat} (hfuel : 2 * (membersText (m :: members)).length < fuel) :
      Json.readPairs true fuel (membersText (m :: members) ++ ['\x7d']) = .ok (m :: members, []) :=
    readPairs_membersText h hfuel
  obtain ⟨t, ht⟩ := membersText_opens m members
  rw [Json.readValue_object, skipSpace_membersText, hpairs, Result.bind_ok]
  · simp only [Result.pure_eq_ok, Value.ofPairs, Members.merge_of_distinct hdistinct]
  · simp only [List.length_cons, List.length_append]
    omega
  · rw [skipSpace_membersText, ht]
    exact stops_cons.mpr rfl

/-! ### Events -/

/-- The text under a name of a record. -/
def textUnder? (record : Value) (name : String) : Option String :=
  match record.member? name with
  | some (.string s) => some s
  | _ => none

/-- The count under a name of a record. -/
def countUnder? (record : Value) (name : String) : Option Nat :=
  match record.member? name with
  | some (.number (.int (.ofNat n))) => some n
  | _ => none

/-- The error of a record: a text, or null if there was none. -/
def errorUnder? (record : Value) (name : String) : Option (Option String) :=
  match record.member? name with
  | some (.string s) => some (some s)
  | some .null => some none
  | _ => none

/-- The event that a record tells of. -/
def ofRecord? (record : Value) : Option Event := do
  match ← textUnder? record "event" with
  | "query" =>
      return query (← textUnder? record "dialect") (← textUnder? record "query")
        (← errorUnder? record "error")
  | "step_start" =>
      return stepStart (← textUnder? record "step_id") (← textUnder? record "step_kind")
  | "step_complete" => return stepComplete (← textUnder? record "step_id")
  | "step_error" =>
      return stepError (← textUnder? record "step_id") (← textUnder? record "error")
  | "workflow_complete" =>
      return workflowComplete (← textUnder? record "status") (← countUnder? record "steps_run")
  | "explore" =>
      return explore (← textUnder? record "expression") (← countUnder? record "matches")
  | _ => none

/-- The duration that a record tells. -/
def durationOf? (record : Value) : Option Number :=
  match record.member? "duration_ms" with
  | some (.number d) => some d
  | _ => none

/-- The event with its query or expression cut to two hundred characters. -/
def excerpted : Event → Event
  | query dialect text error => query dialect (String.ofList (text.toList.take 200)) error
  | explore expression found => explore (String.ofList (expression.toList.take 200)) found
  | e => e

/-- The durations of these events are logged. -/
def isTimed : Event → Bool
  | query .. | stepComplete _ | workflowComplete .. | explore .. => true
  | stepStart .. | stepError .. => false

theorem members_ne_nil (duration : Option Number) (e : Event) : e.members duration ≠ [] := by
  cases e <;> exact List.cons_ne_nil _ _

/-- The names in a record differ, whatever the event is. -/
theorem distinct_members (duration : Option Number) (e : Event) :
    Members.Distinct (e.members duration) := by
  cases duration <;> cases e <;>
    simp [members, durationMember, Members.Distinct, Members.names]

/-- If a record can be written, its values are scalars of these kinds. -/
theorem isEntry_members {duration : Option Number} {e : Event}
    (h : (Value.object (e.members duration)).isWritable = true) :
    ∀ m ∈ e.members duration, IsEntry m.2 := by
  have hwritable := Value.membersWritable_iff.mp h
  have hkind : ∀ m ∈ e.members duration, m.2.isWritable = true → IsEntry m.2 := by
    cases e with
    | query dialect text error =>
        cases duration <;> cases error <;>
          simp [members, durationMember, excerpt, IsEntry, Value.isWritable]
    | _ =>
        cases duration <;>
          simp [members, durationMember, excerpt, IsEntry, Value.isWritable, Value.ofNat]
  exact fun m hm => hkind m hm (hwritable m hm)

/-- The record tells the event, with long texts cut, -/
theorem ofRecord?_members (duration : Option Number) (e : Event) :
    ofRecord? (.object (e.members duration)) = some e.excerpted := by
  cases e with
  | query dialect text error => cases duration <;> cases error <;> rfl
  | _ => cases duration <;> rfl

/-- and how long it took, rounded, if it took any time. -/
theorem durationOf?_members (duration : Option Number) (e : Event) :
    durationOf? (.object (e.members duration)) =
      if e.isTimed then duration.map roundHundredths else none := by
  cases duration <;> cases e <;> rfl

/-- **A line cannot be forged.**  The line of an event is printable ASCII, so it has no end but its
own.  As JSON, it is read as a record that tells the event, its long text cut, and the duration,
rounded; only an integer of too many digits could not be read. -/
theorem line_reads_back (duration : Option Number) (e : Event) :
    (∀ c ∈ (e.line duration).toList, Text.IsPrintable c) ∧
      ((Value.object (e.members duration)).isWritable = true →
        ∃ record, Json.read true (e.line duration).toList = .ok record ∧
          ofRecord? record = some e.excerpted ∧
          durationOf? record = if e.isTimed then duration.map roundHundredths else none) := by
  refine ⟨isPrintable_line duration e, fun h => ?_⟩
  refine ⟨.object (e.members duration), ?_, ofRecord?_members duration e,
    durationOf?_members duration e⟩
  rw [toList_line]
  exact read_recordText (members_ne_nil duration e) (distinct_members duration e)
    (isEntry_members h)

/-- An error that looks like another line, and a query that is cut in front of its last
character. -/
theorem line_reads_back_forged :
    let cut := List.replicate 198 '"' ++ ['\u2028', '😀']
    let error := some "\"\x7d\n\x7b\"event\": \"explore\"\x7d"
    let e := query "jq" (String.ofList (cut ++ ['\n'])) error
    let duration := some (Number.float (.zero false))
    (Value.object (e.members duration)).isWritable = true ∧
      (∀ c ∈ (e.line duration).toList, Text.IsPrintable c) ∧
      ∃ record, Json.read true (e.line duration).toList = .ok record ∧
        ofRecord? record = some (query "jq" (String.ofList cut) error) ∧
        durationOf? record = duration := by
  intro cut error e duration
  have hcut : e.excerpted = query "jq" (String.ofList cut) error := by
    have hlength : cut.length = 200 := by
      rw [List.length_append, List.length_replicate]
      rfl
    have htake : (cut ++ ['\n']).take 200 = cut := List.take_left' hlength
    simp only [e, excerpted, String.toList_ofList, htake]
  have hwritable : (Value.object (e.members duration)).isWritable = true := rfl
  have hround : roundHundredths (.float (.zero false)) = .float (.zero false) := by
    decide +kernel
  obtain ⟨hprintable, hread⟩ := line_reads_back duration e
  obtain ⟨record, hrecord, hevent, hduration⟩ := hread hwritable
  rw [hcut] at hevent
  exact ⟨hwritable, hprintable, record, hrecord, hevent, hduration.trans (congrArg some hround)⟩

end Event

end Quarry
