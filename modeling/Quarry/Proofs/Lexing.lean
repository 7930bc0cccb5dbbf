import Quarry.Expr.Token
import Quarry.Proofs.Result
import Quarry.Proofs.Scanning

/-!
# Lexing — the tokens of texts side by side

`Lexes` is scanning as a relation, without the offsets and the bound on the characters: at each
place a blank is passed, or the token at the front.  No token goes on behind a blank that it does
not hold, so the tokens of two texts with a blank between them are those of the one and then those
of the other (`Lexes.append`).
-/

namespace Quarry.Expr

/-- A token without its place. -/
def Token.content (t : Token) : TokenKind × List Char :=
  (t.kind, t.text)

/-- The text is made of blanks and the tokens. -/
inductive Lexes : List Char → List (TokenKind × List Char) → Prop where
  | nil : Lexes [] []
  | blank {c : Char} {s : List Char} {ws : List (TokenKind × List Char)}
      (hc : Text.isBlank c = true) (h : Lexes s ws) : Lexes (c :: s) ws
  | token {c : Char} {s text rest : List Char} {kind : TokenKind}
      {ws : List (TokenKind × List Char)} (hc : Text.isBlank c = false)
      (hone : scanOne? c s = some (kind, text, rest)) (h : Lexes rest ws) :
      Lexes (c :: s) ((kind, text) :: ws)

/-! ### What is left behind a token -/

/-- A token takes characters away from what is left: a run of them, -/
theorem extend_length_le (p : Char → Bool) (front s : List Char) :
    (extend p front s).2.length ≤ s.length := by
  rw [extend, List.span_eq_takeWhile_dropWhile]
  exact List.length_dropWhile_le p s

/-- a point with digits, if there is one, -/
theorem fraction_length_le (front s : List Char) : (fraction front s).2.length ≤ s.length := by
  rw [fraction.eq_def]
  split
  · split
    · exact Nat.le_succ_of_le (extend_length_le _ _ _)
    · exact Nat.le_refl _
  · exact Nat.le_refl _

/-- and an exponent. -/
theorem exponent_length_le (front s : List Char) : (exponent front s).2.length ≤ s.length := by
  rw [exponent.eq_def]
  repeat' split
  all_goals first
    | exact Nat.le_refl _
    | exact Nat.le_succ_of_le (extend_length_le _ _ _)
    | exact Nat.le_succ_of_le (Nat.le_succ_of_le (extend_length_le _ _ _))

/-- So a number leaves at most what is behind its first digit, -/
theorem scanNumber_length_le {c : Char} (hc : Text.isDigit c = true) (s : List Char) :
    (scanNumber (c :: s)).2.length ≤ s.length := by
  have hextend : (extend Text.isDigit [] (c :: s)).2.length ≤ s.length := by
    rw [extend, List.span_eq_takeWhile_dropWhile, List.dropWhile_cons, if_pos hc]
    exact List.length_dropWhile_le _ s
  exact (exponent_length_le _ _).trans ((fraction_length_le _ _).trans hextend)

/-- and a quoted text what is behind its first quote. -/
theorem delimited?_length_le {q : Char} {s text rest : List Char}
    (h : Text.delimited? q s = some (text, rest)) : rest.length ≤ s.length := by
  fun_induction Text.delimited? q s generalizing text rest with
  | case1 => cases h
  | case2 =>
      cases h
      exact Nat.le_succ _
  | case3 => cases h
  | case4 => cases h
  | case5 d s hd _ ih =>
      obtain ⟨⟨_, _⟩, hrest, ⟨⟩⟩ := Option.map_eq_some_iff.mp h
      exact Nat.le_succ_of_le (Nat.le_succ_of_le (ih hrest))
  | case6 c s hc hprotects ih =>
      obtain ⟨⟨_, _⟩, hrest, ⟨⟩⟩ := Option.map_eq_some_iff.mp h
      exact Nat.le_succ_of_le (ih hrest)

/-- A class that none of the alternatives gives. -/
theorem ite_ne_some {p : Prop} [Decidable p] {kind kind' : TokenKind} {x : Option TokenKind}
    (hkind : kind' ≠ kind) (hx : x ≠ some kind) : (if p then some kind' else x) ≠ some kind := by
  split
  · exact fun h => hkind (Option.some.inj h)
  · exact hx

/-- No sign of the grammar stands for the end, -/
theorem single?_ne_finish (c : Char) : single? c ≠ some .finish := by
  rw [single?]
  repeat refine ite_ne_some (by decide) ?_
  exact nofun

/-- of one character or of two. -/
theorem double?_ne_finish (c d : Char) : double? c d ≠ some .finish := by
  rw [double?]
  split
  · exact nofun
  · repeat refine ite_ne_some (by decide) ?_
    exact nofun

theorem continuesWord_of_startsWord {c : Char} (h : startsWord c = true) :
    continuesWord c = true := by
  rw [startsWord, Bool.or_eq_true] at h
  rw [continuesWord, Char.isAlphanum, Bool.or_eq_true, Bool.or_eq_true]
  exact h.imp_left .inl

/-- A token leaves less than the text, and is not the one for the end. -/
theorem scanOne?_facts {c : Char} {s text rest : List Char} {kind : TokenKind}
    (h : scanOne? c s = some (kind, text, rest)) : kind ≠ .finish ∧ rest.length ≤ s.length := by
  have hsingle (h : (single? c).map (·, [c], s) = some (kind, text, rest)) :
      kind ≠ .finish ∧ rest.length ≤ s.length := by
    obtain ⟨_, hkind, ⟨⟩⟩ := Option.map_eq_some_iff.mp h
    exact ⟨fun hfinish => single?_ne_finish c (hfinish ▸ hkind), Nat.le_refl _⟩
  rw [scanOne?.eq_def] at h
  split at h
  · rename_i hdigit
    simp only [Option.some.injEq, Prod.mk.injEq] at h
    obtain ⟨rfl, -, rfl⟩ := h
    exact ⟨nofun, scanNumber_length_le hdigit s⟩
  · split at h
    · obtain ⟨⟨_, _⟩, hrest, ⟨⟩⟩ := Option.map_eq_some_iff.mp h
      exact ⟨nofun, delimited?_length_le hrest⟩
    · split at h
      · rename_i hword
        simp only [Option.some.injEq, Prod.mk.injEq] at h
        obtain ⟨rfl, -, rfl⟩ := h
        refine ⟨nofun, ?_⟩
        rw [List.span_eq_takeWhile_dropWhile, List.dropWhile_cons,
          if_pos (continuesWord_of_startsWord hword)]
        exact List.length_dropWhile_le _ s
      · split at h
        · split at h
          · simp only [Option.some.injEq, Prod.mk.injEq] at h
            obtain ⟨rfl, -, rfl⟩ := h
            exact ⟨nofun, extend_length_le _ _ _⟩
          · split at h
            · rename_i hkind
              cases h
              exact ⟨fun hfinish => double?_ne_finish _ _ (hfinish ▸ hkind), Nat.le_succ _⟩
            · exact hsingle h
        · exact hsingle h

/-! ### What stands behind a blank -/

/-- **A blank ends a token.**  A run that does not hold blanks ends in front of one, whatever comes
behind it, -/
theorem extend_append_blank {p : Char → Bool} (hp : p ' ' = false) (front s t : List Char) :
    extend p front (s ++ ' ' :: t) = ((extend p front s).1, (extend p front s).2 ++ ' ' :: t) := by
  rw [extend, extend, span_append_tail s (stops_cons.mpr hp)]

/-- and so do fractions, -/
theorem fraction_append_blank (front s t : List Char) :
    fraction front (s ++ ' ' :: t) = ((fraction front s).1, (fraction front s).2 ++ ' ' :: t) := by
  have hblank : Text.isDigit ' ' = false := by decide
  match s with
  | [] => rfl
  | [c] =>
      by_cases hc : c = '.'
      · subst hc
        simp [fraction, hblank]
      · simp [fraction, hc]
  | c :: d :: s =>
      by_cases hc : c = '.'
      · subst hc
        by_cases hd : Text.isDigit d = true
        · simp only [fraction, List.cons_append, hd, ↓reduceIte]
          exact extend_append_blank hblank _ (d :: s) t
        · simp [fraction, hd]
      · simp [fraction, hc]

/-- exponents, -/
theorem exponent_append_blank (front s t : List Char) :
    exponent front (s ++ ' ' :: t) = ((exponent front s).1, (exponent front s).2 ++ ' ' :: t) := by
  have hblank : Text.isDigit ' ' = false := by decide
  match s with
  | [] => cases t <;> rfl
  | [e] => simp [exponent, hblank]
  | [e, d] =>
      by_cases hd : Text.isDigit d = true
      · by_cases he : (e = 'e' || e = 'E') = true
        · simp only [exponent, List.cons_append, he, hd, ↓reduceIte]
          exact extend_append_blank hblank _ [d] t
        · simp [exponent, he]
      · simp [exponent, hd, hblank]
  | e :: d :: d' :: s =>
      by_cases he : (e = 'e' || e = 'E') = true
      · by_cases hd : Text.isDigit d = true
        · simp only [exponent, List.cons_append, he, hd, ↓reduceIte]
          exact extend_append_blank hblank _ (d :: d' :: s) t
        · by_cases hd' : Text.isDigit d' = true
          · by_cases hsign : (d = '+' || d = '-') = true
            · simp only [exponent, List.cons_append, he, hd, hd', hsign, ↓reduceIte]
              exact extend_append_blank hblank _ (d' :: s) t
            · simp [exponent, hd, hsign]
          · simp [exponent, hd, hd']
      · simp [exponent, he]

/-- and numbers. -/
theorem scanNumber_append_blank (s t : List Char) :
    scanNumber (s ++ ' ' :: t) = ((scanNumber s).1, (scanNumber s).2 ++ ' ' :: t) := by
  simp only [scanNumber, extend_append_blank (show Text.isDigit ' ' = false by decide),
    fraction_append_blank, exponent_append_blank]

/-- A quoted text ends at its quote, and what comes behind is not looked at. -/
theorem delimited?_append {q : Char} {s text rest : List Char}
    (h : Text.delimited? q s = some (text, rest)) (t : List Char) :
    Text.delimited? q (s ++ t) = some (text, rest ++ t) := by
  fun_induction Text.delimited? q s generalizing text rest with
  | case1 => cases h
  | case2 =>
      cases h
      rw [List.cons_append, Text.delimited?.eq_def]
      exact if_pos rfl
  | case3 => cases h
  | case4 => cases h
  | case5 d s hd hq ih =>
      obtain ⟨⟨_, _⟩, hrest, ⟨⟩⟩ := Option.map_eq_some_iff.mp h
      rw [List.cons_append, List.cons_append, Text.delimited?.eq_def]
      simp only [if_neg hq, if_neg hd, ↓reduceIte, ih hrest, Option.map_some]
  | case6 c s hc hprotects ih =>
      obtain ⟨⟨_, _⟩, hrest, ⟨⟩⟩ := Option.map_eq_some_iff.mp h
      rw [List.cons_append, Text.delimited?.eq_def]
      simp only [if_neg hc, if_neg hprotects, ih hrest, Option.map_some]

/-- No sign of two characters has a blank in it. -/
theorem double?_blank (c : Char) : double? c ' ' = none :=
  if_pos (by decide)

/-- **A token does not go on behind a blank.** -/
theorem scanOne?_append {c : Char} {s text rest : List Char} {kind : TokenKind}
    (h : scanOne? c s = some (kind, text, rest)) (t : List Char) :
    scanOne? c (s ++ ' ' :: t) = some (kind, text, rest ++ ' ' :: t) := by
  -- the scanner's choices in their order: a number, a quoted text, a word, and signs
  rw [scanOne?.eq_def] at h ⊢
  split at h
  · simp only [Option.some.injEq, Prod.mk.injEq] at h
    obtain ⟨rfl, rfl, rfl⟩ := h
    rw [if_pos ‹_›, ← List.cons_append]
    simp only [scanNumber_append_blank]
  · rw [if_neg ‹_›]
    split at h
    · obtain ⟨⟨_, _⟩, hrest, ⟨⟩⟩ := Option.map_eq_some_iff.mp h
      rw [if_pos ‹_›, delimited?_append hrest]
      rfl
    · rw [if_neg ‹_›]
      split at h
      · simp only [Option.some.injEq, Prod.mk.injEq] at h
        obtain ⟨rfl, rfl, rfl⟩ := h
        rw [if_pos ‹_›, ← List.cons_append]
        have hstops : Stops continuesWord (' ' :: t) := stops_cons.mpr (by decide)
        simp only [span_append_tail (c :: s) hstops]
      · rw [if_neg ‹_›]
        -- a sign at the end of the text must not join with the blank
        cases s with
        | nil =>
            obtain ⟨_, hkind, ⟨⟩⟩ := Option.map_eq_some_iff.mp h
            have hword : startsWord ' ' = false := by decide
            simp [hword, double?_blank, hkind]
        | cons d s =>
            dsimp only at h
            simp only [List.cons_append]
            split at h
            · simp only [Option.some.injEq, Prod.mk.injEq] at h
              obtain ⟨rfl, rfl, rfl⟩ := h
              rw [if_pos ‹_›, ← List.cons_append]
              simp only [extend_append_blank (show continuesWord ' ' = false by decide)]
            · rw [if_neg ‹_›]
              cases hdouble : double? c d with
              | some kind' =>
                  rw [hdouble] at h
                  cases h
                  rfl
              | none =>
                  rw [hdouble] at h
                  obtain ⟨_, hkind, ⟨⟩⟩ := Option.map_eq_some_iff.mp h
                  simp [hkind]

/-! ### Scanning -/

namespace Lexes

variable {s t : List Char} {ws us : List (TokenKind × List Char)}

/-- **Side by side.**  Texts with a blank between them have the tokens of both. -/
theorem append (hs : Lexes s ws) (ht : Lexes t us) : Lexes (s ++ ' ' :: t) (ws ++ us) := by
  induction hs with
  | nil => exact .blank (by decide) ht
  | blank hc _ ih => exact .blank hc ih
  | token hc hone _ ih => exact .token hc (scanOne?_append hone t) ih

/-- None of the tokens is the one for the end. -/
theorem kind_ne (h : Lexes s ws) : ∀ w ∈ ws, w.1 ≠ .finish := by
  induction h with
  | nil => exact nofun
  | blank _ _ ih => exact ih
  | token _ hone _ ih => exact List.forall_mem_cons.mpr ⟨(scanOne?_facts hone).1, ih⟩

/-- Blanks alone have no tokens. -/
theorem of_blank (h : ∀ c ∈ s, Text.isBlank c = true) : Lexes s [] := by
  induction s with
  | nil => exact .nil
  | cons c s ih =>
      obtain ⟨hc, hs⟩ := List.forall_mem_cons.mp h
      exact .blank hc (ih hs)

/-- Blank texts, and no others, have no tokens. -/
theorem trim_eq_nil_iff (h : Lexes s ws) : Text.trim s = [] ↔ ws = [] := by
  rw [Text.trim_eq_nil_iff]
  induction h with
  | nil => exact iff_of_true (List.forall_mem_nil _) rfl
  | blank hc _ ih => rw [List.forall_mem_cons, ih, and_iff_right hc]
  | token hc _ _ _ =>
      refine iff_of_false (fun h => ?_) (List.cons_ne_nil _ _)
      rw [h _ List.mem_cons_self] at hc
      cases hc

/-- Scanning finds the tokens, -/
theorem scanFrom (h : Lexes s ws) {fuel : Nat} (hfuel : s.length ≤ fuel) (offset : Nat) :
    ∃ ts finish, Expr.scanFrom fuel offset s = .ok (ts ++ [finish]) ∧
      ts.map Token.content = ws ∧ finish.content = (.finish, []) := by
  induction h generalizing fuel offset with
  | nil =>
      refine ⟨[], ⟨.finish, [], offset⟩, ?_, rfl, rfl⟩
      cases fuel <;> rfl
  | blank hc _ ih =>
      obtain ⟨fuel, rfl⟩ := Nat.exists_eq_add_one.mpr (Nat.zero_lt_of_lt hfuel)
      obtain ⟨ts, finish, hscan, hts⟩ := ih (Nat.le_of_succ_le_succ hfuel) (offset + 1)
      exact ⟨ts, finish, by rw [Expr.scanFrom, if_pos hc, hscan], hts⟩
  | @token c s text rest kind ws hc hone _ ih =>
      obtain ⟨fuel, rfl⟩ := Nat.exists_eq_add_one.mpr (Nat.zero_lt_of_lt hfuel)
      have hrest := (scanOne?_facts hone).2.trans (Nat.le_of_succ_le_succ hfuel)
      obtain ⟨ts, finish, hscan, hts, hfinish⟩ := ih hrest (offset + text.length)
      refine ⟨⟨kind, text, offset⟩ :: ts, finish, ?_, congrArg _ hts, hfinish⟩
      rw [Expr.scanFrom, hc]
      simp only [Bool.false_eq_true, ↓reduceIte, hone, hscan]
      rfl

end Lexes

/-- and what it finds are the tokens.  It fails only at a character that starts none. -/
theorem scanFrom_cases {fuel : Nat} {s : List Char} (hfuel : s.length ≤ fuel) (offset : Nat) :
    (∃ ts finish, scanFrom fuel offset s = .ok (ts ++ [finish]) ∧
      Lexes s (ts.map Token.content) ∧ finish.content = (.finish, [])) ∨
    ∃ place c, scanFrom fuel offset s =
      .error (.query (.expression (.unexpectedCharacter place c))) := by
  induction fuel generalizing s offset with
  | zero =>
      obtain rfl := List.length_eq_zero_iff.mp (Nat.le_zero.mp hfuel)
      exact .inl ⟨[], _, rfl, .nil, rfl⟩
  | succ fuel ih =>
      cases s with
      | nil => exact .inl ⟨[], _, rfl, .nil, rfl⟩
      | cons c s =>
          replace hfuel := Nat.le_of_succ_le_succ hfuel
          rw [scanFrom]
          cases hc : Text.isBlank c with
          | true =>
              rw [if_pos rfl]
              refine (ih hfuel (offset + 1)).imp_left ?_
              rintro ⟨ts, finish, hscan, hlexes, hfinish⟩
              exact ⟨ts, finish, hscan, .blank hc hlexes, hfinish⟩
          | false =>
              rw [if_neg Bool.false_ne_true]
              cases hone : scanOne? c s with
              | none => exact .inr ⟨_, _, rfl⟩
              | some found =>
                  obtain ⟨kind, text, rest⟩ := found
                  have hrest := (scanOne?_facts hone).2.trans hfuel
                  dsimp only
                  rcases ih hrest (offset + text.length) with
                    ⟨ts, finish, hscan, hlexes, hfinish⟩ | ⟨place, d, hscan⟩
                  · rw [hscan]
                    exact .inl ⟨⟨kind, text, offset⟩ :: ts, finish, rfl, .token hc hone hlexes,
                      hfinish⟩
                  · rw [hscan]
                    exact .inr ⟨place, d, rfl⟩

/-- **Scanning a text** gives its tokens and one for the end, or is refused at a character. -/
theorem scan_cases (text : String) :
    (∃ ts finish, scan text = .ok (ts ++ [finish]) ∧
      Lexes text.toList (ts.map Token.content) ∧ finish.content = (.finish, [])) ∨
    ∃ place c, scan text = .error (.query (.expression (.unexpectedCharacter place c))) :=
  scanFrom_cases (Nat.le_refl _) 0

/-- What the scanner finds is related to its text, with the end behind it, -/
theorem lexes_of_scan {text : String} {ts : List Token} (h : scan text = .ok ts) :
    ∃ us finish, ts = us ++ [finish] ∧ Lexes text.toList (us.map Token.content) ∧
      finish.content = (.finish, []) := by
  rcases scan_cases text with ⟨us, finish, hscan, hlexes⟩ | ⟨_, _, hscan⟩
  · exact ⟨us, finish, Except.ok.inj (h.symm.trans hscan), hlexes⟩
  · cases h.symm.trans hscan

/-- and what is related to a text is found by the scanner. -/
theorem Lexes.scan {text : String} {ws : List (TokenKind × List Char)}
    (h : Lexes text.toList ws) : ∃ ts finish, Expr.scan text = .ok (ts ++ [finish]) ∧
      ts.map Token.content = ws ∧ finish.content = (.finish, []) :=
  h.scanFrom (Nat.le_refl _) 0

/-! ### The end -/

/-- The tokens end with the one for the end, which is nowhere else. -/
def Ended : List Token → Prop
  | [] => False
  | t :: ts => if t.kind = .finish then ts = [] else Ended ts

/-- Tokens that are not the end, and one for the end, are ended. -/
theorem ended_append {ts : List Token} {finish : Token} (hts : ∀ t ∈ ts, t.kind ≠ .finish)
    (hfinish : finish.kind = .finish) : Ended (ts ++ [finish]) := by
  induction ts with
  | nil => exact (if_pos hfinish).mpr rfl
  | cons t ts ih =>
      obtain ⟨ht, hts⟩ := List.forall_mem_cons.mp hts
      exact (if_neg ht).mpr (ih hts)

/-- So the tokens of a text always are. -/
theorem Ended.of_scan {text : String} {ts : List Token} (h : Expr.scan text = .ok ts) :
    Ended ts := by
  obtain ⟨us, finish, rfl, hlexes, hfinish⟩ := lexes_of_scan h
  refine ended_append (fun t ht => ?_) (congrArg Prod.fst hfinish)
  exact hlexes.kind_ne t.content (List.mem_map_of_mem ht)

end Quarry.Expr
