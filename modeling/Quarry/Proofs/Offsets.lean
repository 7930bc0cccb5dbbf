import Quarry.Proofs.Lexemes
import Quarry.Proofs.Lexing

/-!
# Offsets — where the tokens of a text stand

Every token is a slice of its text at its offset, the tokens follow one another, and what is left
of the text is blank (`Placed`).  So nothing of a text is lost in its tokens but the blanks, and
these matter only where they part two tokens: scanning the tokens' own texts with a blank between
them finds the same tokens (`scan_lossless`).

For that, a token has to be found in its own text as it was found in front of a rest.  A reader
that takes a run off a text looks at the rest only to see that it does not go on with the run, so
it takes the same run off in front of any part of the rest (`Severs`).  A number is three such
runs, one after the other.
-/

namespace Quarry

theorem Stops.of_prefix {p : Char → Bool} {s t : List Char} (h : Stops p s) (ht : t <+: s) :
    Stops p t := by
  rintro c t rfl
  obtain ⟨s, rfl⟩ := ht
  exact h c _ rfl

namespace Expr

/-! ### A token in its own text -/

/-- The reader takes a run off the text, and it does the same if only a part of the rest stands
behind the run. -/
def Severs (f : List Char → List Char → List Char × List Char) (s : List Char) : Prop :=
  ∃ run rest, s = run ++ rest ∧ ∀ front t, t <+: rest → f front (run ++ t) = (front ++ run, t)

theorem extend_severs (p : Char → Bool) (s : List Char) : Severs (extend p) s := by
  obtain ⟨run, rest, rfl, hrun, hrest⟩ := exists_front p s
  exact ⟨run, rest, rfl, fun front t ht => extend_append front hrun (hrest.of_prefix ht)⟩

/-- The run of a reader that takes nothing off. -/
theorem severs_nil {f : List Char → List Char → List Char × List Char} {s : List Char}
    (h : ∀ front t, t <+: s → f front t = (front, t)) : Severs f s :=
  ⟨[], s, rfl, fun front t ht => by rw [List.nil_append, List.append_nil, h front t ht]⟩

/-- The run of a reader that takes digits off behind a sign of its own. -/
theorem severs_digits {f : List Char → List Char → List Char × List Char} (sign : List Char)
    {s : List Char} {d : Char} (hd : Text.isDigit d = true)
    (h : ∀ front t, f front (sign ++ d :: t) = extend Text.isDigit (front ++ sign) (d :: t)) :
    Severs f (sign ++ d :: s) := by
  obtain ⟨run, rest, rfl, hrun, hrest⟩ := exists_front Text.isDigit s
  refine ⟨sign ++ d :: run, rest, by simp, fun front t ht => ?_⟩
  have hdigits : ∀ c ∈ d :: run, Text.isDigit c = true := List.forall_mem_cons.mpr ⟨hd, hrun⟩
  rw [List.append_assoc, List.cons_append, h, ← List.cons_append,
    extend_append _ hdigits (hrest.of_prefix ht), List.append_assoc]

theorem fraction_severs (s : List Char) : Severs fraction s := by
  by_cases h : ∃ d t, s = '.' :: d :: t ∧ Text.isDigit d = true
  · obtain ⟨d, t, rfl, hd⟩ := h
    exact severs_digits ['.'] hd fun front t => if_pos hd
  · refine severs_nil fun front t ht => ?_
    rw [fraction.eq_def]
    split
    · rename_i d t
      obtain ⟨rest, rfl⟩ := ht
      exact if_neg fun hd => h ⟨d, t ++ rest, rfl, hd⟩
    · rfl

theorem exponent_severs (s : List Char) : Severs exponent s := by
  by_cases hplain : ∃ e d t, s = e :: d :: t ∧ (e = 'e' || e = 'E') = true ∧
      Text.isDigit d = true
  · obtain ⟨e, d, t, rfl, he, hd⟩ := hplain
    refine severs_digits [e] hd fun front t => ?_
    simp only [exponent, List.singleton_append, he, hd, ↓reduceIte]
  by_cases hsigned : ∃ e sign d t, s = e :: sign :: d :: t ∧ (e = 'e' || e = 'E') = true ∧
      (sign = '+' || sign = '-') = true ∧ Text.isDigit d = true
  · obtain ⟨e, sign, d, t, rfl, he, hsign, hd⟩ := hsigned
    have hdigit : Text.isDigit sign = false := by
      rcases (Bool.or_eq_true _ _).mp hsign with h | h <;>
        · rw [of_decide_eq_true h]
          decide
    refine severs_digits [e, sign] hd fun front t => ?_
    simp only [exponent, List.cons_append, List.nil_append, he, hdigit, hsign, hd, ↓reduceIte,
      Bool.false_eq_true]
  · refine severs_nil fun front t ht => ?_
    obtain ⟨rest, rfl⟩ := ht
    rw [exponent.eq_def]
    repeat' split
    all_goals first
      | rfl
      | exact absurd ⟨_, _, _, rfl, ‹_›, ‹_›⟩ hplain
      | exact absurd ⟨_, _, _, _, rfl, ‹_›, ‹_›, ‹_›⟩ hsigned

/-- A number is scanned in its own text. -/
theorem scanNumber_severs (s : List Char) :
    ∃ run rest, s = run ++ rest ∧ scanNumber s = (run, rest) ∧ scanNumber run = (run, []) := by
  obtain ⟨whole, s, rfl, hwhole⟩ := extend_severs Text.isDigit s
  obtain ⟨point, s, rfl, hpoint⟩ := fraction_severs s
  obtain ⟨power, rest, rfl, hpower⟩ := exponent_severs s
  -- in front of every part of the rest the three runs are the same
  have hscan (t : List Char) (ht : t <+: rest) :
      scanNumber (whole ++ (point ++ (power ++ t))) = (whole ++ point ++ power, t) := by
    have hpow : power ++ t <+: power ++ rest := (List.prefix_append_right_inj _).mpr ht
    have hpt : point ++ (power ++ t) <+: point ++ (power ++ rest) :=
      (List.prefix_append_right_inj _).mpr hpow
    rw [scanNumber, hwhole [] _ hpt]
    simp only [List.nil_append]
    rw [hpoint whole _ hpow]
    exact hpower _ _ ht
  refine ⟨whole ++ point ++ power, rest, by simp only [List.append_assoc],
    hscan rest (List.prefix_refl _), ?_⟩
  have halone := hscan [] (List.nil_prefix)
  rwa [List.append_nil, ← List.append_assoc] at halone

/-- A delimited text is found in its own text. -/
theorem delimited?_alone {q : Char} {s text rest : List Char}
    (h : Text.delimited? q s = some (text, rest)) :
    s = text ++ rest ∧ Text.delimited? q text = some (text, []) := by
  fun_induction Text.delimited? q s generalizing text rest with
  | case1 => cases h
  | case2 =>
      cases h
      exact ⟨rfl, if_pos rfl⟩
  | case3 => cases h
  | case4 => cases h
  | case5 d s hd hq ih =>
      obtain ⟨⟨text, _⟩, hrest, ⟨⟩⟩ := Option.map_eq_some_iff.mp h
      obtain ⟨rfl, halone⟩ := ih hrest
      refine ⟨rfl, ?_⟩
      rw [Text.delimited?.eq_def]
      simp only [if_neg hq, if_neg hd, ↓reduceIte, halone, Option.map_some]
  | case6 c s hc hprotects ih =>
      obtain ⟨⟨text, _⟩, hrest, ⟨⟩⟩ := Option.map_eq_some_iff.mp h
      obtain ⟨rfl, halone⟩ := ih hrest
      refine ⟨rfl, ?_⟩
      rw [Text.delimited?.eq_def]
      simp only [if_neg hc, if_neg hprotects, halone, Option.map_some]

/-- A text that leaves a shorter rest begins with its first character. -/
theorem exists_cons_of_append {c : Char} {s text rest : List Char} (h : c :: s = text ++ rest)
    (hlength : rest.length ≤ s.length) : ∃ s', text = c :: s' ∧ s = s' ++ rest := by
  cases text with
  | nil =>
      subst h
      exact absurd hlength (Nat.not_succ_le_self _)
  | cons d s' =>
      obtain ⟨rfl, rfl⟩ := List.cons.inj h
      exact ⟨s', rfl, rfl⟩

/-- **A token is found in its own text**, which is the front of the text it was found in. -/
theorem scanOne?_alone {c : Char} {s text rest : List Char} {kind : TokenKind}
    (h : scanOne? c s = some (kind, text, rest)) :
    ∃ s', text = c :: s' ∧ s = s' ++ rest ∧ scanOne? c s' = some (kind, text, []) := by
  have hlength := (scanOne?_facts h).2
  rw [scanOne?.eq_def] at h
  split at h
  · rename_i hdigit
    simp only [Option.some.injEq, Prod.mk.injEq] at h
    obtain ⟨rfl, rfl, rfl⟩ := h
    obtain ⟨run, rest, hs, hscan, halone⟩ := scanNumber_severs (c :: s)
    rw [hscan] at hlength ⊢
    obtain ⟨s', rfl, rfl⟩ := exists_cons_of_append hs hlength
    refine ⟨s', rfl, rfl, ?_⟩
    rw [scanOne?.eq_def, if_pos hdigit]
    simp only [halone]
  rename_i hdigit
  split at h
  · rename_i hquote
    obtain ⟨⟨text, _⟩, hrest, ⟨⟩⟩ := Option.map_eq_some_iff.mp h
    obtain ⟨rfl, halone⟩ := delimited?_alone hrest
    refine ⟨text, rfl, rfl, ?_⟩
    rw [scanOne?.eq_def, if_neg hdigit, if_pos hquote, halone]
    rfl
  rename_i hquote
  split at h
  · rename_i hword
    simp only [Option.some.injEq, Prod.mk.injEq] at h
    obtain ⟨rfl, rfl, rfl⟩ := h
    obtain ⟨run, rest, hs, hspan⟩ := extend_severs continuesWord (c :: s)
    have hscan (t : List Char) (ht : t <+: rest) : (run ++ t).span continuesWord = (run, t) :=
      hspan [] t ht
    rw [hs, hscan rest (List.prefix_refl _)] at hlength ⊢
    obtain ⟨s', rfl, rfl⟩ := exists_cons_of_append hs hlength
    refine ⟨s', rfl, rfl, ?_⟩
    have halone := hscan [] List.nil_prefix
    rw [List.append_nil] at halone
    rw [scanOne?.eq_def, if_neg hdigit, if_neg hquote, if_pos hword]
    simp only [halone]
  rename_i hword
  -- a sign of one character stands alone
  have hsingle (h : (single? c).map (·, [c], s) = some (kind, text, rest)) :
      ∃ s', text = c :: s' ∧ s = s' ++ rest ∧ scanOne? c s' = some (kind, text, []) := by
    obtain ⟨_, hkind, ⟨⟩⟩ := Option.map_eq_some_iff.mp h
    refine ⟨[], rfl, rfl, ?_⟩
    rw [scanOne?.eq_def, if_neg hdigit, if_neg hquote, if_neg hword, hkind]
    rfl
  cases s with
  | nil => exact hsingle h
  | cons d s =>
      dsimp only at h
      split at h
      · rename_i hfield
        simp only [Option.some.injEq, Prod.mk.injEq] at h
        obtain ⟨rfl, rfl, rfl⟩ := h
        have hdot : c = '.' := of_decide_eq_true (Bool.and_eq_true_iff.mp hfield).1
        subst hdot
        have hd : startsWord d = true := (Bool.and_eq_true_iff.mp hfield).2
        obtain ⟨run, rest, rfl, hrun, hrest⟩ := exists_front continuesWord s
        have hname : ∀ e ∈ d :: run, continuesWord e = true :=
          List.forall_mem_cons.mpr ⟨continuesWord_of_startsWord hd, hrun⟩
        rw [← List.cons_append, extend_append ['.'] hname hrest]
        refine ⟨d :: run, rfl, rfl, ?_⟩
        have halone := extend_append ['.'] hname stops_nil
        rw [List.append_nil] at halone
        rw [scanOne?.eq_def, if_neg hdigit, if_neg hquote, if_neg hword]
        simp only [hd, decide_true, Bool.and_self, ↓reduceIte, halone]
      · rename_i hfield
        split at h
        · rename_i hkind
          cases h
          refine ⟨[d], rfl, rfl, ?_⟩
          rw [scanOne?.eq_def, if_neg hdigit, if_neg hquote, if_neg hword]
          simp only [if_neg hfield, hkind]
        · exact hsingle h

theorem Lexes.alone {s : List Char} {ws : List (TokenKind × List Char)} (h : Lexes s ws) :
    ∀ w ∈ ws, Lexes w.2 [w] := by
  induction h with
  | nil => exact nofun
  | blank _ _ ih => exact ih
  | token hc hone _ ih =>
      refine List.forall_mem_cons.mpr ⟨?_, ih⟩
      obtain ⟨s', rfl, -, halone⟩ := scanOne?_alone hone
      exact .token hc halone .nil

/-- Texts with a blank between them are made of the tokens of all of them. -/
theorem lexes_intercalate {texts : List (List Char)} {wss : List (List (TokenKind × List Char))}
    (h : List.Forall₂ Lexes texts wss) : Lexes ([' '].intercalate texts) wss.flatten := by
  induction h with
  | nil => exact .nil
  | @cons text ws texts wss htext htexts ih =>
      cases htexts with
      | nil => rwa [List.intercalate_singleton, List.flatten_cons, List.flatten_nil,
          List.append_nil]
      | cons _ _ =>
          rw [List.intercalate_cons_cons, List.append_assoc, List.singleton_append]
          exact htext.append ih

/-! ### Places -/

/-- From a place on, tokens stand in a text: they are slices of it, each one stands behind the one
before it, and what lies between them is blank. -/
structure Placed (s : List Char) (start : Nat) (ts : List Token) : Prop where
  slice : ∀ t ∈ ts, start ≤ t.offset ∧ t.offset + t.text.length ≤ s.length ∧ t.text ≠ [] ∧
    (s.drop t.offset).take t.text.length = t.text
  ordered : ts.Pairwise fun t u => t.offset + t.text.length ≤ u.offset
  blank : ∀ i c, start ≤ i → s[i]? = some c →
    (∀ t ∈ ts, i < t.offset ∨ t.offset + t.text.length ≤ i) → Text.isBlank c = true

namespace Placed

variable {s : List Char} {start : Nat} {ts : List Token}

theorem nil : Placed s s.length [] where
  slice := nofun
  ordered := .nil
  blank _ _ hi hc _ := absurd (List.getElem?_eq_some_iff.mp hc).1 (Nat.not_lt.mpr hi)

/-- Past a blank. -/
theorem skip {c : Char} (hs : s[start]? = some c) (hc : Text.isBlank c = true)
    (h : Placed s (start + 1) ts) : Placed s start ts where
  slice t ht :=
    have ⟨hstart, hslice⟩ := h.slice t ht
    ⟨Nat.le_of_succ_le hstart, hslice⟩
  ordered := h.ordered
  blank i d hi hd hgap := by
    rcases Nat.eq_or_lt_of_le hi with rfl | hlt
    · cases hs.symm.trans hd
      exact hc
    · exact h.blank i d hlt hd hgap

/-- Past a token. -/
theorem cons {kind : TokenKind} {text rest : List Char} (hs : s.drop start = text ++ rest)
    (htext : text ≠ []) (h : Placed s (start + text.length) ts) :
    Placed s start (⟨kind, text, start⟩ :: ts) where
  slice := by
    refine List.forall_mem_cons.mpr ⟨⟨Nat.le_refl _, ?_, htext, ?_⟩, fun t ht => ?_⟩
    · have hlength := congrArg List.length hs
      rw [List.length_drop, List.length_append] at hlength
      have := List.length_pos_iff.mpr htext
      dsimp only
      omega
    · simp only [hs, List.take_left']
    · obtain ⟨hstart, hslice⟩ := h.slice t ht
      exact ⟨Nat.le_of_add_right_le hstart, hslice⟩
  ordered := List.pairwise_cons.mpr ⟨fun t ht => (h.slice t ht).1, h.ordered⟩
  blank i c hi hc hgap := by
    obtain ⟨hfirst, hgap⟩ := List.forall_mem_cons.mp hgap
    exact h.blank i c (hfirst.resolve_left (Nat.not_lt.mpr hi)) hc hgap

end Placed

/-- Behind the front of what stands from a place on. -/
theorem drop_of_drop_eq_append (front : List Char) {s rest : List Char} {start : Nat}
    (hs : s.drop start = front ++ rest) (hstart : start ≤ s.length) :
    s.drop (start + front.length) = rest ∧ start + front.length ≤ s.length := by
  refine ⟨by rw [← List.drop_drop, hs, List.drop_left], ?_⟩
  have hlength := congrArg List.length hs
  rw [List.length_drop, List.length_append] at hlength
  omega

/-- Scanning finds tokens where they stand in the text, -/
theorem placed_of_scanFrom {whole : List Char} {fuel start : Nat} {s : List Char} {ts : List Token}
    (hs : whole.drop start = s) (hstart : start ≤ whole.length) (hfuel : s.length ≤ fuel)
    (h : scanFrom fuel start s = .ok ts) :
    ∃ us, ts = us ++ [⟨.finish, [], whole.length⟩] ∧ Placed whole start us := by
  have hend (start : Nat) (hs : whole.drop start = []) (hstart : start ≤ whole.length) :
      ∃ us, [⟨.finish, [], start⟩] = us ++ [⟨.finish, [], whole.length⟩] ∧
        Placed whole start us := by
    obtain rfl := Nat.le_antisymm hstart (List.drop_eq_nil_iff.mp hs)
    exact ⟨[], rfl, .nil⟩
  -- each step takes a blank or a token, and `start` is where what is left begins
  induction fuel generalizing start s ts with
  | zero =>
      obtain rfl := List.length_eq_zero_iff.mp (Nat.le_zero.mp hfuel)
      cases h
      exact hend start hs hstart
  | succ fuel ih =>
      cases s with
      | nil =>
          cases h
          exact hend start hs hstart
      | cons c s =>
          replace hfuel := Nat.le_of_succ_le_succ hfuel
          rw [scanFrom] at h
          split at h
          · rename_i hblank
            obtain ⟨hrest, hnext⟩ := drop_of_drop_eq_append [c] hs hstart
            obtain ⟨us, rfl, hplaced⟩ := ih hrest hnext hfuel h
            have hc : whole[start]? = some c := by
              rw [← List.head?_drop, hs, List.head?_cons]
            exact ⟨us, rfl, hplaced.skip hc hblank⟩
          · cases hone : scanOne? c s with
            | none =>
                rw [hone] at h
                cases h
            | some found =>
                obtain ⟨kind, text, rest⟩ := found
                rw [hone] at h
                obtain ⟨ts, hscan, h⟩ := Result.bind_eq_ok.mp h
                cases h
                obtain ⟨s', rfl, rfl, -⟩ := scanOne?_alone hone
                obtain ⟨hrest, hnext⟩ := drop_of_drop_eq_append (c :: s') hs hstart
                have hlength := (scanOne?_facts hone).2.trans hfuel
                obtain ⟨us, rfl, hplaced⟩ := ih hrest hnext hlength hscan
                exact ⟨_ :: us, rfl, hplaced.cons hs (List.cons_ne_nil _ _)⟩

/-- and the token for the end where the text ends. -/
theorem placed_of_scan {text : String} {ts : List Token} (h : scan text = .ok ts) :
    ∃ us, ts = us ++ [⟨.finish, [], text.length⟩] ∧ Placed text.toList 0 us := by
  rw [← String.length_toList]
  exact placed_of_scanFrom List.drop_zero (Nat.zero_le _) (Nat.le_refl _) h

/-! ### Nothing is lost -/

/-- The texts of tokens with a blank between them. -/
def respaced (ts : List Token) : String :=
  String.ofList ([' '].intercalate (ts.map Token.text))

/-- **Nothing is lost but blanks.**  Scanning finds tokens that are slices of the text, one behind
the other with blanks between them, and the token for the end behind the last character.  Their
texts with a blank between them, be it also in front of the empty text of the end, are scanned as
the same tokens. -/
theorem scan_lossless {text : String} {ts : List Token} (h : scan text = .ok ts) :
    ∃ us, ts = us ++ [⟨.finish, [], text.length⟩] ∧ (∀ t ∈ us, t.kind ≠ .finish) ∧
      Placed text.toList 0 us ∧
      ∀ parts ∈ [us, ts], ∃ ts', scan (respaced parts) = .ok ts' ∧
        ts'.map Token.content = ts.map Token.content := by
  obtain ⟨us, rfl, hplaced⟩ := placed_of_scan h
  obtain ⟨us', finish, heq, hlexes, hfinish⟩ := lexes_of_scan h
  obtain ⟨rfl, hlast⟩ := List.append_inj' heq rfl
  have hagain (s : List Char) (hs : Lexes s (us.map Token.content)) :
      ∃ ts', scan (String.ofList s) = .ok ts' ∧
        ts'.map Token.content =
          (us ++ [(⟨.finish, [], text.length⟩ : Token)]).map Token.content := by
    rw [← String.toList_ofList (l := s)] at hs
    obtain ⟨ts', finish', hscan, hcontent, hfinish'⟩ := hs.scan
    refine ⟨_, hscan, ?_⟩
    rw [List.map_append, List.map_append, hcontent, List.map_singleton, List.map_singleton,
      hfinish']
    rfl
  have hparts : List.Forall₂ Lexes (us.map Token.text) (us.map fun t => [t.content]) := by
    rw [List.forall₂_map_left_iff, List.forall₂_map_right_iff, List.forall₂_same]
    exact fun t ht => hlexes.alone t.content (List.mem_map_of_mem ht)
  have hflatten : (us.map fun t => [t.content]).flatten = us.map Token.content := by
    rw [← List.flatMap_def]
    exact List.flatMap_pure_eq_map Token.content us
  have hwords : Lexes ([' '].intercalate (us.map Token.text)) (us.map Token.content) :=
    hflatten ▸ lexes_intercalate hparts
  have hall : Lexes ([' '].intercalate (us.map Token.text ++ [[]])) (us.map Token.content) := by
    have h := lexes_intercalate (List.rel_append hparts (.cons (.nil : Lexes [] []) .nil))
    rwa [List.flatten_append, hflatten, List.flatten_singleton, List.append_nil] at h
  refine ⟨us, rfl, fun t ht => ?_, hplaced, ?_⟩
  · exact hlexes.kind_ne t.content (List.mem_map_of_mem ht)
  · refine List.forall_mem_cons.mpr ⟨hagain _ hwords, List.forall_mem_singleton.mpr (hagain _ ?_)⟩
    rwa [List.map_append]

/-- Tokens that stand side by side, or with one blank or several between them. -/
theorem scan_lossless_spaced :
    ∃ ts, scan " .a<  <=1.5. " = .ok ts ∧ ts.map Token.offset = [1, 3, 6, 8, 11, 13] ∧
      ∃ us, ts = us ++ [⟨.finish, [], 13⟩] ∧ (∀ t ∈ us, t.kind ≠ .finish) ∧
        Placed " .a<  <=1.5. ".toList 0 us ∧
        ∀ parts ∈ [us, ts], ∃ ts', scan (respaced parts) = .ok ts' ∧
          ts'.map Token.content = ts.map Token.content := by
  have hscan : scan " .a<  <=1.5. " = .ok [⟨.field, ['.', 'a'], 1⟩, ⟨.less, ['<'], 3⟩,
      ⟨.lessEqual, ['<', '='], 6⟩, ⟨.number, ['1', '.', '5'], 8⟩, ⟨.dot, ['.'], 11⟩,
      ⟨.finish, [], 13⟩] := by
    rfl
  exact ⟨_, hscan, rfl, scan_lossless hscan⟩

end Expr

end Quarry
