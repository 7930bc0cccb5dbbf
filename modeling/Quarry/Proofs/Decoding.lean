import Quarry.Message
import Quarry.Proofs.Lexing
import Quarry.Proofs.InStep

/-!
# Decoding — tokens that stand for nothing

The scanner takes every run of digits for a number, and every text between quotes for a quoted
text.  Not all of them stand for something: an integer can have too many digits, and an escape can
be wrong.  Only the reader that comes to such a token finds that out, and its fault is neither a
wrong expression nor a limit that was passed.

The readers do not look behind such a token, so they go on as with any other token of its class up
to the first one (`mending`).  Reading therefore ends in one of three ways (`Readings`): with an
expression, and then every token stands for something; with a refusal; or with the fault of the
first token that stands for nothing.
-/

namespace Quarry.Expr

/-- The fault of the first token that stands for nothing. -/
def firstFault : List Token → Option Fault
  | [] => none
  | t :: ts =>
      match t.decode with
      | .ok () => firstFault ts
      | .error fault => some fault

/-- The text has a token that stands for nothing, and the first of them has the fault. -/
def Undecoded (text : String) (fault : Fault) : Prop :=
  ∃ ts, scan text = .ok ts ∧ firstFault ts = some fault

/-- Tokens that are the same, or the first one stands for nothing and the second one is of its
class. -/
def Token.Mends (t t' : Token) : Prop :=
  t'.kind = t.kind ∧ (t.decode = .ok () → t'.text = t.text)

/-- The second text has other tokens than the first one only where those stand for nothing. -/
def Mends (text text' : String) : Prop :=
  ∃ ts ts', scan text = .ok ts ∧ scan text' = .ok ts' ∧ List.Forall₂ Token.Mends ts ts'

/-! ### Faults -/

/-- A quoted text has a wrong escape, or an integer has too many digits. -/
inductive IsUndecoded : Fault → Prop where
  | quotedText (cause : JsonCause) (place : Position) :
      IsUndecoded (.quotedText (.malformed cause place))
  | longNumeral {digits : Nat} (h : Number.digitLimit < digits) :
      IsUndecoded (.number (.longNumeral digits))

/-- A refusal is an error of a query, or says that the limit was passed; -/
theorem IsRefusal.category {limit : Nat} {fault : Fault} (h : IsRefusal limit fault) :
    fault.category = "QueryError" ∨ fault.category = "DepthExceeded" := by
  cases h with
  | expression _ => exact .inl rfl
  | tooDeep => exact .inr rfl

/-- the fault of a token is neither. -/
theorem IsUndecoded.category {fault : Fault} (h : IsUndecoded fault) :
    fault.category = "JSONDecodeError" ∨ fault.category = "ValueError" := by
  cases h with
  | quotedText _ _ => exact .inl rfl
  | longNumeral _ => exact .inr rfl

/-- A quoted text fails for an escape or a control character in it, -/
theorem isUndecoded_of_quotedText {text : List Char} {fault : Fault}
    (h : quotedText text = .error fault) : IsUndecoded fault := by
  rw [quotedText.eq_def] at h
  split at h
  · split at h <;> cases h
    exact .quotedText _ _
  · cases h

/-- and a number for its digits. -/
theorem isUndecoded_of_numberValue {text : List Char} {fault : Fault}
    (h : numberValue text = .error fault) : IsUndecoded fault := by
  rw [numberValue.eq_def] at h
  split at h
  · rename_i n _
    rw [Text.Numeral.toNumber, Number.readInt] at h
    split at h
    · split at h <;> cases h
      exact .longNumeral ‹_›
    · cases h
  · cases h

/-- What a token that stands for nothing fails with. -/
theorem Token.isUndecoded {t : Token} {fault : Fault} (h : t.decode = .error fault) :
    IsUndecoded fault := by
  rw [Token.decode.eq_def] at h
  split at h
  · cases hs : quotedText t.text with
    | ok s =>
        rw [hs] at h
        cases h
    | error fault =>
        rw [hs] at h
        cases h
        exact isUndecoded_of_quotedText hs
  · cases hv : numberValue t.text with
    | ok v =>
        rw [hv] at h
        cases h
    | error fault =>
        rw [hv] at h
        cases h
        exact isUndecoded_of_numberValue hv
  · cases h

/-- So the first fault among tokens is one of these, -/
theorem isUndecoded_of_firstFault {ts : List Token} {fault : Fault}
    (h : firstFault ts = some fault) : IsUndecoded fault := by
  induction ts with
  | nil => cases h
  | cons t ts ih =>
      rw [firstFault] at h
      split at h
      · exact ih h
      · rename_i hdecode
        cases h
        exact Token.isUndecoded hdecode

/-- A token without its place stands for something. -/
def Decodes (w : TokenKind × List Char) : Prop :=
  (Token.mk w.1 w.2 0).decode = .ok ()

/-- and there is none if every token stands for something. -/
theorem firstFault_eq_none_iff {ts : List Token} :
    firstFault ts = none ↔ ∀ t ∈ ts, Decodes t.content := by
  induction ts with
  | nil => exact iff_of_true rfl nofun
  | cons t ts ih =>
      have hdecode : Decodes t.content ↔ t.decode = .ok () := Iff.rfl
      rw [firstFault, List.forall_mem_cons, ← ih, hdecode]
      cases t.decode <;> simp

theorem decodes_of_kind {w : TokenKind × List Char} (h : w.1 ≠ .string ∧ w.1 ≠ .number) :
    Decodes w := by
  rw [Decodes, Token.decode.eq_def]
  split
  · exact absurd ‹_› h.1
  · exact absurd ‹_› h.2
  · rfl

/-- A text with tokens that stand for something. -/
theorem not_undecoded {text : String} {ws : List (TokenKind × List Char)}
    (hlexes : Lexes text.toList ws) (h : ∀ w ∈ ws, Decodes w) (fault : Fault) :
    ¬ Undecoded text fault := by
  obtain ⟨us, finish, hscan, rfl, hfinish⟩ := hlexes.scan
  rintro ⟨ts, hscan', hfirst⟩
  cases hscan.symm.trans hscan'
  have hnone : firstFault (us ++ [finish]) = none := by
    refine firstFault_eq_none_iff.mpr fun t ht => ?_
    rcases List.mem_append.mp ht with ht | ht
    · exact h _ (List.mem_map_of_mem ht)
    · obtain rfl := List.mem_singleton.mp ht
      exact decodes_of_kind (hfinish ▸ by decide)
  cases hnone.symm.trans hfirst

/-! ### Tokens that are mended -/

theorem Token.Mends.refl (t : Token) : t.Mends t :=
  ⟨rfl, fun _ => rfl⟩

/-- Up to the first token that stands for nothing, the readers do the same with other tokens in
the place of those. -/
def mending (limit : Nat) (first : Option Fault) : Lockstep limit where
  Paired ts ts' := List.Forall₂ Token.Mends ts ts' ∧ Ended ts ∧ firstFault ts = first
  Excused fault := first = some fault
  pace := by
    rintro _ _ ⟨_ | @⟨t, t', r, r', ⟨hkind, htext⟩, hr⟩, hended, hfirst⟩
    · exact hended.elim
    rw [firstFault] at hfirst
    by_cases hfinish : t.kind = .finish
    · exact .ends hfinish (.inl (hkind.trans hfinish))
    · replace hended : Ended r := (if_neg hfinish).mp hended
      cases hdecode : t.decode with
      | ok _ =>
          rw [hdecode] at hfirst
          exact .same hkind (htext hdecode) hfinish hdecode (.inl ⟨hr, hended, hfirst⟩)
      | error fault =>
          rw [hdecode] at hfirst
          exact .spoilt hkind hdecode hfirst.symm
  length_le h := h.1.length_eq.le

/-! ### Reading to the end -/

section Whole

variable {limit : Nat} {ts : List Token} {e : Expr} {fault : Fault}

/-- A pipe that is not read makes no expression, -/
theorem ofTokens_of_error (h : (Level.at limit limit).pipe ts = .error fault) :
    ofTokens limit ts = .error fault := by
  rw [ofTokens, StateT.run, RunsAlike.bind_of_error h]
  rfl

/-- and one that is read makes one if the tokens end behind it. -/
theorem ofTokens_of_ok {t : Token} {r : List Token}
    (h : (Level.at limit limit).pipe ts = .ok (e, t :: r)) :
    ofTokens limit ts = if t.kind = .finish then .ok e
      else .error (.query (.expression (.expected "EOF" t.offset t.shown))) := by
  have hexpect := expect_cons .finish t r
  rw [ofTokens, StateT.run, RunsAlike.bind_of_ok h]
  split at hexpect
  · rw [if_pos ‹_›, RunsAlike.bind_of_ok hexpect]
    rfl
  · rw [if_neg ‹_›, RunsAlike.bind_of_error hexpect]
    rfl

end Whole

/-- Two readings: both give the same expression, and every token of the first one stands for
something; or both are refused; or the first one comes to a token that stands for nothing. -/
inductive Readings (limit : Nat) (first : Option Fault) : Except Fault Expr → Except Fault Expr →
    Prop where
  | ok (e : Expr) (h : first = none) : Readings limit first (.ok e) (.ok e)
  | refused {fault fault' : Fault} (h : IsRefusal limit fault) (h' : IsRefusal limit fault') :
      Readings limit first (.error fault) (.error fault')
  | undecoded {fault : Fault} {x : Except Fault Expr} (h : first = some fault) :
      Readings limit first (.error fault) x

/-- **Reading ends in one of three ways**, compared with the tokens that are mended. -/
theorem ofTokens_readings {limit : Nat} {ts ts' : List Token}
    (hmends : List.Forall₂ Token.Mends ts ts') (hended : Ended ts) :
    Readings limit (firstFault ts) (ofTokens limit ts) (ofTokens limit ts') := by
  have hruns := ((mending limit (firstFault ts)).at_inStep limit).pipe ⟨hmends, hended, rfl⟩
  rw [Lockstep.Follows] at hruns
  generalize hrun : (Level.at limit limit).pipe ts = outcome at hruns
  generalize hrun' : (Level.at limit limit).pipe ts' = outcome' at hruns
  cases hruns with
  | refused h h' =>
      rw [ofTokens_of_error hrun, ofTokens_of_error hrun']
      exact .refused h h'
  | excused h =>
      rw [ofTokens_of_error hrun]
      exact .undecoded h
  | ok h _ =>
      obtain ⟨_ | @⟨t, t', r, r', ⟨hkind, _⟩, _⟩, hended, hfirst⟩ := h
      · exact hended.elim
      rw [ofTokens_of_ok hrun, ofTokens_of_ok hrun', hkind]
      split
      · rename_i hfinish
        -- nothing is left behind the end
        obtain rfl : r = [] := (if_pos hfinish).mp hended
        refine .ok _ ?_
        rw [← hfirst, firstFault, Token.decode, hfinish]
        rfl
      · exact .refused (.expression _) (.expression _)

/-- A text is read by its tokens; one that is blank is the identity. -/
theorem read_of_scan {limit : Nat} {text : String} {ts : List Token} (hscan : scan text = .ok ts) :
    read limit text = if ts.length = 1 then .ok .identity else ofTokens limit ts := by
  obtain ⟨us, finish, rfl, hlexes, -⟩ := lexes_of_scan hscan
  have hblank : (Text.trim text.toList).isEmpty = true ↔ (us ++ [finish]).length = 1 := by
    rw [List.isEmpty_iff, hlexes.trim_eq_nil_iff, List.map_eq_nil_iff, List.length_append,
      List.length_singleton, Nat.add_eq_right, List.length_eq_zero_iff]
  rw [read, hscan]
  simp only [hblank]
  rfl

/-- A text that is not blank is read from its tokens. -/
theorem read_of_lexes {text : String} {ws : List (TokenKind × List Char)}
    (h : Lexes text.toList ws) (hne : ws ≠ []) : ∃ us finish, scan text = .ok (us ++ [finish]) ∧
      us.map Token.content = ws ∧ finish.content = (.finish, []) ∧
      ∀ limit, read limit text = ofTokens limit (us ++ [finish]) := by
  obtain ⟨us, finish, hscan, rfl, hfinish⟩ := h.scan
  have hlength : (us ++ [finish]).length ≠ 1 := by
    rw [ne_eq, List.map_eq_nil_iff, ← List.length_eq_zero_iff] at hne
    simpa using hne
  exact ⟨us, finish, hscan, rfl, hfinish,
    fun limit => (read_of_scan hscan).trans (if_neg hlength)⟩

/-- A text that the scanner refuses is not read at all. -/
theorem read_of_scan_error {limit : Nat} {text : String} {fault : Fault}
    (hscan : scan text = .error fault) : read limit text = .error fault := by
  have hblank : (Text.trim text.toList).isEmpty = false := by
    refine List.isEmpty_eq_false_iff.mpr fun hnil => ?_
    obtain ⟨_, _, hscan', -⟩ := (Lexes.of_blank (Text.trim_eq_nil_iff.mp hnil)).scan
    cases hscan.symm.trans hscan'
  rw [read, hblank, hscan]
  rfl

/-- **Two readings**, where the second text mends the first one. -/
theorem read_readings {text text' : String} {ts ts' : List Token} (limit : Nat)
    (hscan : scan text = .ok ts) (hscan' : scan text' = .ok ts')
    (hmends : List.Forall₂ Token.Mends ts ts') :
    Readings limit (firstFault ts) (read limit text) (read limit text') := by
  have hended := Ended.of_scan hscan
  rw [read_of_scan hscan, read_of_scan hscan', ← hmends.length_eq]
  split
  · rename_i hlength
    obtain ⟨t, rfl⟩ := List.length_eq_one_iff.mp hlength
    refine .ok _ ?_
    have hfinish : t.kind = .finish := by
      by_contra hne
      exact (if_neg hne).mp hended
    rw [firstFault, Token.decode, hfinish]
    rfl
  · exact ofTokens_readings hmends hended

/-- A reading on its own. -/
theorem readings_self {text : String} {ts : List Token} (limit : Nat)
    (hscan : scan text = .ok ts) :
    Readings limit (firstFault ts) (read limit text) (read limit text) :=
  read_readings limit hscan hscan (List.forall₂_same.mpr fun t _ => .refl t)

/-- A text that is read has tokens, and all of them stand for something. -/
theorem firstFault_of_read {limit : Nat} {text : String} {e : Expr}
    (h : read limit text = .ok e) : ∃ ts, scan text = .ok ts ∧ firstFault ts = none := by
  cases hscan : scan text with
  | ok ts =>
      have hreadings := readings_self limit hscan
      rw [h] at hreadings
      cases hreadings
      exact ⟨ts, rfl, ‹_›⟩
  | error fault => cases (read_of_scan_error hscan).symm.trans h

/-- In a text that was read every token stands for something. -/
theorem lexes_of_read {limit : Nat} {text : String} {e : Expr} (h : read limit text = .ok e) :
    ∃ ws, Lexes text.toList ws ∧ ∀ w ∈ ws, Decodes w := by
  obtain ⟨ts, hscan, hnone⟩ := firstFault_of_read h
  obtain ⟨us, finish, rfl, hlexes, -⟩ := lexes_of_scan hscan
  refine ⟨_, hlexes, fun w hw => ?_⟩
  obtain ⟨t, ht, rfl⟩ := List.mem_map.mp hw
  exact firstFault_eq_none_iff.mp hnone t (List.mem_append_left _ ht)

/-- A text that is not read is refused, or a token of it stands for nothing. -/
theorem refusal_or_undecoded {limit : Nat} {text : String} {fault : Fault}
    (h : read limit text = .error fault) : IsRefusal limit fault ∨ Undecoded text fault := by
  cases hscan : scan text with
  | ok ts =>
      have hreadings := readings_self limit hscan
      rw [h] at hreadings
      cases hreadings with
      | refused h _ => exact .inl h
      | undecoded h => exact .inr ⟨ts, hscan, h⟩
  | error fault' =>
      cases (read_of_scan_error hscan).symm.trans h
      rcases scan_cases text with ⟨_, _, hscan', -⟩ | ⟨_, _, hscan'⟩
      · cases hscan'.symm.trans hscan
      · cases hscan'.symm.trans hscan
        exact .inl (.expression _)

/-- **What stops an expression from being read.**  A text that is read has no token that stands for
nothing.  A text that is not read is refused, as an expression that is wrong or nested too deep; or
it has a token that stands for nothing, and the fault of the first one is neither.  If the text
would be read with something in the place of those tokens, then that fault is what it ends in. -/
theorem read_failure (limit : Nat) (text : String) :
    (∀ e, read limit text = .ok e → ∀ fault, ¬ Undecoded text fault) ∧
    (∀ fault, read limit text = .error fault →
      (IsRefusal limit fault ∧ fault.category ∈ ["QueryError", "DepthExceeded"]) ∨
      (Undecoded text fault ∧ IsUndecoded fault ∧
        fault.category ∈ ["JSONDecodeError", "ValueError"])) ∧
    ∀ fault text' e, Undecoded text fault → Mends text text' → read limit text' = .ok e →
      read limit text = .error fault := by
  refine ⟨fun e h fault => ?_, fun fault h => ?_, fun fault text' e => ?_⟩
  · rintro ⟨ts, hscan, hfirst⟩
    obtain ⟨ts', hscan', hnone⟩ := firstFault_of_read h
    cases hscan.symm.trans hscan'
    cases hnone.symm.trans hfirst
  · rcases refusal_or_undecoded h with hrefusal | hundecoded
    · exact .inl ⟨hrefusal, by simpa using hrefusal.category⟩
    · obtain ⟨ts, hscan, hfirst⟩ := hundecoded
      have hfault := isUndecoded_of_firstFault hfirst
      exact .inr ⟨⟨ts, hscan, hfirst⟩, hfault, by simpa using hfault.category⟩
  · rintro ⟨ts, hscan, hfirst⟩ ⟨us, ts', hscan', hscan'', hmends⟩ hread
    cases hscan.symm.trans hscan'
    have hreadings := read_readings limit hscan hscan'' hmends
    rw [hread, hfirst] at hreadings
    generalize read limit text = outcome at hreadings ⊢
    cases hreadings with
    | ok _ h => cases h
    | undecoded h => rw [Option.some.inj h]

/-- A wrong escape, in the place of a text that would be read. -/
theorem read_failure_escape :
    Undecoded "\"\\x\"" (.quotedText (.malformed .badEscape ⟨1, 1, 2⟩)) ∧
      Mends "\"\\x\"" "\"x\"" ∧ read 0 "\"x\"" = .ok (.literal (.string "x")) ∧
      read 0 "\"\\x\"" = .error (.quotedText (.malformed .badEscape ⟨1, 1, 2⟩)) := by
  have hundecoded : Undecoded "\"\\x\"" (.quotedText (.malformed .badEscape ⟨1, 1, 2⟩)) :=
    ⟨_, rfl, rfl⟩
  have hmends : Mends "\"\\x\"" "\"x\"" :=
    ⟨_, _, rfl, rfl, .cons ⟨rfl, nofun⟩ (.cons ⟨rfl, fun _ => rfl⟩ .nil)⟩
  have hread : read 0 "\"x\"" = .ok (.literal (.string "x")) := rfl
  exact ⟨hundecoded, hmends, hread, (read_failure 0 _).2.2 _ _ _ hundecoded hmends hread⟩

/-- **Reading lets other faults through** than a wrong expression and a limit that was passed. -/
theorem read_undecoded :
    ∃ fault, read 0 "\"\\x\"" = .error fault ∧
      fault.category ∉ ["QueryError", "DepthExceeded"] :=
  ⟨_, rfl, by decide⟩

end Quarry.Expr
