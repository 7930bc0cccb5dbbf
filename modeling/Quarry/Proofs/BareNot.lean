import Quarry.Proofs.Decoding
import Quarry.Proofs.Expressions
import Quarry.Proofs.Heights

/-!
# The bare `not` — a stage that negates, and what stands behind it

`not` is a prefix where an operand follows, and a function of the current value elsewhere; the next
token decides.  Every word counts as the beginning of an operand, and so do the keywords that
close a stage.  So after a bar `not` in front of such a keyword is taken for a prefix without an
operand, and no text in which these three stand in a row is read at any limit (`read_blocked`).

Between parentheses every text that is read is an operand, whatever stands behind it (`Grouped`).
There the bare `not` does what it is meant for: it exchanges the branches of a conditional.
-/

namespace Quarry.Expr

variable {limit levels : Nat} {e : Expr} {t : Token} {r ts : List Token}

/-! ### In front of a keyword -/

/-- A word without its place. -/
abbrev keyword (s : String) : TokenKind × List Char :=
  (.word, s.toList)

/-- A keyword that begins no operand: each of them but `if`. -/
def Token.IsCloser (t : Token) : Prop :=
  t.kind = .word ∧ String.ofList t.text ∈ keywords ∧ String.ofList t.text ≠ "if"

/-- The tokens have a bar, the word `not` and a keyword that begins no operand in a row. -/
inductive Blocked : List Token → Prop where
  | here {bar word keyword : Token} {ts : List Token} (hbar : bar.kind = .pipe)
      (hnot : word.isWord "not" = true) (hkeyword : keyword.IsCloser) :
      Blocked (bar :: word :: keyword :: ts)
  | later {t : Token} {ts : List Token} (h : Blocked ts) : Blocked (t :: ts)

/-- No primary begins with such a keyword, -/
theorem readPrimary_closer {enter : Except Fault Level} (h : t.IsCloser) :
    ∃ fault, readPrimary enter (t :: r) = .error fault := by
  obtain ⟨hkind, hs, hif⟩ := h
  have hkeyword : keywords.contains (String.ofList t.text) = true := List.elem_eq_true_of_mem hs
  have hconstant (name : String) (hname : name ∉ keywords) : String.ofList t.text ≠ name :=
    fun heq => hname (heq ▸ hs)
  refine ⟨.query (.expression (.unexpectedKeyword (String.ofList t.text) t.offset)), ?_⟩
  rw [readPrimary, RunsAlike.bind_of_ok (current_cons t r), hkind]
  change readNamed enter (t :: r) = _
  rw [readNamed, RunsAlike.bind_of_ok (current_cons t r)]
  simp only [hconstant "true" (by decide), hconstant "false" (by decide),
    hconstant "null" (by decide), hif, hkeyword, ↓reduceIte]
  rfl

/-- and so `not` has no operand there. -/
theorem readDisjunction_closer {word keyword : Token} (hnot : word.isWord "not" = true)
    (hkeyword : keyword.IsCloser) (levels : Nat) :
    ∃ fault, readDisjunction (enterAt limit levels) (word :: keyword :: r) = .error fault := by
  have hstarts : (word.isWord "not" && startsPrimary keyword.kind) = true := by
    rw [hnot, hkeyword.1]
    rfl
  suffices h : ∃ fault, readNegation (enterAt limit levels) (word :: keyword :: r) =
      .error fault from
    h.imp fun _ => readDisjunction_of_negation
  rw [readNegation, RunsAlike.bind_of_ok (current_cons word _), RunsAlike.bind_of_ok rfl]
  simp only [hstarts, ↓reduceIte]
  rw [RunsAlike.bind_of_ok rfl]
  cases levels with
  | zero => exact ⟨_, RunsAlike.bind_of_error rfl⟩
  | succ levels =>
      obtain ⟨fault, hprimary⟩ :
          ∃ fault, readPrimary (enterAt limit levels) (keyword :: r) = .error fault :=
        readPrimary_closer hkeyword
      have hminus : keyword.kind ≠ .minus := by
        rw [hkeyword.1]
        decide
      have hword : keyword.isWord "not" = false := by
        rw [Token.isWord, hkeyword.1, decide_eq_true rfl, Bool.true_and, decide_eq_false_iff_not]
        exact fun heq => absurd hkeyword.2.1 (by rw [heq]; decide)
      have hread := readNegation_of_primary hprimary hminus hword
      refine ⟨fault, ?_⟩
      rw [enterAt, RunsAlike.bind_of_ok rfl, at_eq_around]
      exact RunsAlike.bind_of_error hread

/-- Up to the bar both runs are of one list; there the first one ends. -/
def blocked (limit : Nat) : Lockstep limit where
  Paired ts ts' := ts' = ts ∧ Ended ts ∧ Blocked ts
  Excused _ := True
  pace := by
    rintro ts _ ⟨rfl, hended, hblocked⟩
    cases hblocked with
    | @here bar word keyword r hbar hnot hkeyword =>
        have hfinish : bar.kind ≠ .finish := by
          rw [hbar]
          decide
        have hdecode : bar.decode = .ok () := by rw [Token.decode, hbar]
        refine .same rfl rfl hfinish hdecode (.inr ⟨hbar, fun levels => ?_⟩)
        obtain ⟨fault, hfault⟩ := readDisjunction_closer hnot hkeyword levels
        exact ⟨fault, hfault, trivial⟩
    | @later t r h =>
        have hfinish : t.kind ≠ .finish := by
          intro hfinish
          obtain rfl : r = [] := (if_pos hfinish).mp hended
          cases h
        cases hdecode : t.decode with
        | ok _ => exact .same rfl rfl hfinish hdecode (.inl ⟨rfl, (if_neg hfinish).mp hended, h⟩)
        | error fault => exact .spoilt rfl hdecode trivial
  length_le h := h.1 ▸ Nat.le_refl _

theorem ofTokens_blocked (hended : Ended ts) (hblocked : Blocked ts) :
    ∃ fault, ofTokens limit ts = .error fault := by
  have hruns := ((blocked limit).at_inStep limit).pipe ⟨rfl, hended, hblocked⟩
  rw [Lockstep.Follows] at hruns
  generalize hrun : (Level.at limit limit).pipe ts = outcome at hruns
  cases hruns with
  | refused _ _ => exact ⟨_, ofTokens_of_error hrun⟩
  | excused _ => exact ⟨_, ofTokens_of_error hrun⟩
  | @ok e rest _ h _ =>
      obtain ⟨-, hended, hblocked⟩ := h
      -- what is left is not the end, since the three are still to come
      obtain ⟨t, r, rfl, hr⟩ : ∃ t r, rest = t :: r ∧ r ≠ [] := by
        cases hblocked with
        | here => exact ⟨_, _, rfl, List.cons_ne_nil _ _⟩
        | later h => exact ⟨_, _, rfl, by rintro rfl; cases h⟩
      have hfinish : t.kind ≠ .finish := fun hfinish => hr ((if_pos hfinish).mp hended)
      exact ⟨_, (ofTokens_of_ok hrun).trans (if_neg hfinish)⟩

theorem blocked_of_content {front back : List (TokenKind × List Char)} {bar : List Char}
    {s : String} (hs : s ∈ keywords ∧ s ≠ "if") (h : ts.map Token.content =
      front ++ (.pipe, bar) :: keyword "not" :: keyword s :: back) : Blocked ts := by
  induction front generalizing ts with
  | cons w front ih =>
      obtain ⟨t, ts, rfl, -, hts⟩ := List.map_eq_cons_iff.mp h
      exact .later (ih hts)
  | nil =>
      obtain ⟨t, ts, rfl, ht, hts⟩ := List.map_eq_cons_iff.mp h
      obtain ⟨u, us, rfl, hu, hus⟩ := List.map_eq_cons_iff.mp hts
      obtain ⟨k, ks, rfl, hk, -⟩ := List.map_eq_cons_iff.mp hus
      simp only [Token.content, Prod.mk.injEq] at ht hu hk
      refine .here ht.1 ?_ ⟨hk.1, ?_⟩
      · rw [Token.isWord, hu.1, hu.2, String.ofList_toList]
        rfl
      · rwa [hk.2, String.ofList_toList]

/-- **In front of a keyword.**  A text in which a bar, `not` and a keyword that begins no operand
stand in a row is read at no limit. -/
theorem read_blocked {text : String} {front back : List (TokenKind × List Char)} {bar : List Char}
    {s : String} (hs : s ∈ keywords ∧ s ≠ "if") (hlexes : Lexes text.toList
      (front ++ (.pipe, bar) :: keyword "not" :: keyword s :: back)) (limit : Nat) :
    ∃ fault, read limit text = .error fault := by
  obtain ⟨us, finish, hscan, hus, -, hread⟩ := read_of_lexes hlexes (by simp)
  have hcontent : (us ++ [finish]).map Token.content =
      front ++ (.pipe, bar) :: keyword "not" :: keyword s :: (back ++ [finish.content]) := by
    rw [List.map_append, hus, List.append_assoc]
    rfl
  rw [hread limit]
  exact ofTokens_blocked (Ended.of_scan hscan) (blocked_of_content hs hcontent)

/-! ### Between parentheses -/

/-- The second list is the first one with a parenthesis in the place of its end, and goes on with
`rest`. -/
inductive Closing (rest : List Token) : List Token → List Token → Prop where
  | ends {t t' : Token} (ht : t.kind = .finish) (ht' : t'.kind = .rightParen) :
      Closing rest [t] (t' :: rest)
  | cons {t t' : Token} {r r' : List Token} (ht : t'.content = t.content)
      (hfinish : t.kind ≠ .finish) (h : Closing rest r r') : Closing rest (t :: r) (t' :: r')

/-- Up to the end the readers do the same in front of a parenthesis. -/
def closing (limit : Nat) (rest : List Token) : Lockstep limit where
  Paired := Closing rest
  Excused _ := True
  pace := by
    intro ts ts' h
    cases h with
    | ends ht ht' => exact .ends ht (.inr ⟨ht', fun _ => trivial⟩)
    | @cons t t' r r' ht hfinish h =>
        have hkind : t'.kind = t.kind := congrArg Prod.fst ht
        cases hdecode : t.decode with
        | ok _ => exact .same hkind (congrArg Prod.snd ht) hfinish hdecode (.inl h)
        | error fault => exact .spoilt hkind hdecode trivial
  length_le h := by
    induction h with
    | ends _ _ => exact Nat.succ_le_succ (Nat.zero_le _)
    | cons _ _ _ ih => exact Nat.succ_le_succ ih

/-- What is read up to the end is read up to a parenthesis, and at every level that has as many
inside it. -/
theorem pipe_closing {limit' : Nat} {rest ts' : List Token} (h : ofTokens limit ts = .ok e)
    (hclosing : Closing rest ts ts') (hle : limit ≤ levels) :
    ∃ closer, (Level.at limit' levels).pipe ts' = .ok (e, closer :: rest) ∧
      closer.kind = .rightParen := by
  have hruns := ((closing limit rest).at_inStep limit).pipe hclosing
  rw [Lockstep.Follows] at hruns
  generalize hrun : (Level.at limit limit).pipe ts = outcome at hruns
  generalize hrun' : (Level.at limit limit).pipe ts' = outcome' at hruns
  cases hruns with
  | refused _ _ => cases (ofTokens_of_error hrun).symm.trans h
  | excused _ => cases (ofTokens_of_error hrun).symm.trans h
  | ok hrest _ =>
      cases hrest with
      | cons _ hfinish _ => cases ((ofTokens_of_ok hrun).trans (if_neg hfinish)).symm.trans h
      | @ends t closer ht ht' =>
          cases ((ofTokens_of_ok hrun).trans (if_pos ht)).symm.trans h
          have halike : (Level.at limit limit).Alike (Level.at limit' levels) := at_alike hle
          have hwider := halike.pipe.cases_on ts'
          rw [hrun'] at hwider
          obtain ⟨_, _, ⟨⟩, hwide, -⟩ | ⟨_, ⟨⟩, -⟩ | ⟨_, ⟨⟩, -⟩ := hwider
          exact ⟨closer, hwide, ht'⟩

/-- Between parentheses the tokens are an operand of a level that has `n` levels inside. -/
structure Grouped (n : Nat) (ws : List (TokenKind × List Char)) (e : Expr) : Prop where
  reads : ∀ {limit levels : Nat} {opener closer : Token} {us r : List Token}, n ≤ levels →
    opener.kind = .leftParen → us.map Token.content = ws → closer.kind = .rightParen →
      readPrimary (.ok (Level.at limit levels)) (opener :: (us ++ closer :: r)) = .ok (e, r)

theorem closing_of_content {us us' : List Token} {finish closer : Token}
    (hus : ∀ t ∈ us, t.kind ≠ .finish) (hfinish : finish.kind = .finish)
    (hcloser : closer.kind = .rightParen) (h : us'.map Token.content = us.map Token.content) :
    Closing r (us ++ [finish]) (us' ++ closer :: r) := by
  induction us generalizing us' with
  | nil =>
      obtain rfl := List.map_eq_nil_iff.mp h
      exact .ends hfinish hcloser
  | cons t us ih =>
      obtain ⟨t', us', rfl, ht, hus'⟩ := List.map_eq_cons_iff.mp h
      obtain ⟨hne, hus⟩ := List.forall_mem_cons.mp hus
      exact .cons ht hne (ih hus hus')

/-- **Between parentheses** what is read is an operand. -/
theorem exists_grouped {text : String} (h : read limit text = .ok e)
    (hne : Text.trim text.toList ≠ []) :
    ∃ ws, Lexes text.toList ws ∧ Grouped limit ws e := by
  obtain ⟨ws, hlexes, -⟩ := lexes_of_read h
  obtain ⟨us, finish, -, rfl, hfinish, hread⟩ :=
    read_of_lexes hlexes (hlexes.trim_eq_nil_iff.not.mp hne)
  have htokens : ofTokens limit (us ++ [finish]) = .ok e := (hread limit).symm.trans h
  refine ⟨_, hlexes, ⟨fun {limit' levels opener closer us' r} hle hopener hus' hcloser => ?_⟩⟩
  have hkind : ∀ t ∈ us, t.kind ≠ .finish := fun t ht =>
    hlexes.kind_ne t.content (List.mem_map_of_mem ht)
  have hclosing : Closing r (us ++ [finish]) (us' ++ closer :: r) :=
    closing_of_content hkind (congrArg Prod.fst hfinish) hcloser hus'
  obtain ⟨closer', hpipe, hcloser'⟩ : ∃ closer', (Level.at limit' levels).pipe
      (us' ++ closer :: r) = .ok (e, closer' :: r) ∧ closer'.kind = .rightParen :=
    pipe_closing htokens hclosing hle
  have hopen := expect_cons .leftParen opener (us' ++ closer :: r)
  rw [if_pos hopener] at hopen
  have hclose := expect_cons .rightParen closer' r
  rw [if_pos hcloser'] at hclose
  rw [readPrimary, RunsAlike.bind_of_ok (current_cons _ _), hopener]
  change readGroup _ _ = _
  rw [readGroup, RunsAlike.bind_of_ok hopen, RunsAlike.bind_of_ok rfl, RunsAlike.bind_of_ok hpipe,
    RunsAlike.bind_of_ok hclose]
  rfl

/-! ### Operands and stages -/

section Stages

variable {enter : Except Fault Level} {t' : Token} {r' : List Token}

/-- An operand with nothing to join it to. -/
theorem joined_of_operand {operand : Reader Expr} {join? : Token → Option (Expr → Expr → Expr)}
    (place : Place) (hplace : place.joins? = some join?) (h : operand ts = .ok (e, t :: r))
    (hgrip : t.grip < place.rank) : joined operand join? ts = .ok (e, t :: r) := by
  rw [joined, RunsAlike.bind_of_ok h, RunsAlike.bind_of_ok rfl]
  exact Place.joinFrom_stops hplace operand _ [] t r .nil hgrip

/-- A primary that nothing goes on with is an operand of a bar. -/
theorem readDisjunction_of_primary (h : readPrimary enter (t :: r) = .ok (e, t' :: r'))
    (hminus : t.kind ≠ .minus) (hnot : t.isWord "not" = false) (hgrip : t'.grip < 4) :
    readDisjunction enter (t :: r) = .ok (e, t' :: r') := by
  have hlt (n : Nat) (hle : 4 ≤ n) : t'.grip < n := Nat.lt_of_lt_of_le hgrip hle
  have hpath : readPath enter (t :: r) = .ok (e, t' :: r') := by
    rw [readPath, RunsAlike.bind_of_ok h, RunsAlike.bind_of_ok rfl]
    exact Place.postfixFrom_stops _ [] t' r' .nil (hlt 11 (by decide))
  have haccept := accept?_cons .minus t r
  rw [if_neg hminus] at haccept
  have hunary : readUnary enter (t :: r) = .ok (e, t' :: r') := by
    rw [readUnary, RunsAlike.bind_of_ok haccept]
    exact hpath
  have hsum : readSum enter (t :: r) = .ok (e, t' :: r') :=
    joined_of_operand .sum rfl (joined_of_operand .product rfl hunary (hlt 9 (by decide)))
      (hlt 8 (by decide))
  have hcomparison : readComparison enter (t :: r) = .ok (e, t' :: r') := by
    have hrelation : relation? t'.kind = none := by
      cases hr : relation? t'.kind with
      | none => rfl
      | some _ => exact absurd hgrip (by rw [grip_of_relation? hr]; decide)
    rw [readComparison, RunsAlike.bind_of_ok hsum, RunsAlike.bind_of_ok (current_cons t' r'),
      hrelation]
    rfl
  have hnegation : readNegation enter (t :: r) = .ok (e, t' :: r') := by
    rw [readNegation, RunsAlike.bind_of_ok (current_cons t r), RunsAlike.bind_of_ok rfl, hnot]
    exact hcomparison
  exact joined_of_operand .disjunction rfl
    (joined_of_operand .conjunction rfl hnegation (hlt 5 (by decide))) hgrip

/-- Two stages. -/
theorem readPipe_of_stages {bar : Token} {e' : Expr} {ts' : List Token}
    (h : readDisjunction enter ts = .ok (e, bar :: ts')) (hbar : bar.kind = .pipe)
    (h' : readDisjunction enter ts' = .ok (e', t :: r)) (hgrip : t.grip < 3) :
    readPipe enter ts = .ok (.pipe e e', t :: r) := by
  have hjoin : joinPipe bar = some .pipe := if_pos hbar
  rw [readPipe, joined, RunsAlike.bind_of_ok h, RunsAlike.bind_of_ok rfl, List.length_cons,
    joinFrom, RunsAlike.bind_of_ok (current_cons bar ts'), hjoin]
  change (readDisjunction enter >>= fun right => joinFrom _ _ _ (.pipe e right)) ts' = _
  rw [RunsAlike.bind_of_ok h']
  have hpipe : Place.pipe.joins? = some joinPipe := rfl
  exact Place.joinFrom_stops hpipe _ _ [] t r .nil hgrip

/-- A conditional with one branch, from what its parts are read as. -/
theorem readPrimary_conditional {inner : Level} {first next other last : Token}
    {rc ra rb : List Token} {c a b : Expr} (hfirst : first.isWord "if" = true)
    (hc : inner.pipe ts = .ok (c, next :: rc)) (hnext : next.isWord "then" = true)
    (ha : inner.pipe rc = .ok (a, other :: ra)) (hother : other.isWord "else" = true)
    (hb : inner.pipe ra = .ok (b, last :: rb)) (hlast : last.isWord "end" = true) :
    readPrimary (.ok inner) (first :: ts) = .ok (.conditional [.mk c a] b, rb) := by
  have hword {t : Token} {s : String} (h : t.isWord s = true) (r : List Token) :
      expectWord s (t :: r) = .ok ((), r) := by
    rw [expectWord_cons, if_pos h]
  have hnamed : first.kind = .word ∧ String.ofList first.text = "if" := by
    rw [Token.isWord, Bool.and_eq_true, decide_eq_true_eq, decide_eq_true_eq] at hfirst
    exact hfirst
  have hbranch : other.isWord "elif" = false := by
    rw [Token.isWord, Bool.and_eq_true, decide_eq_true_eq, decide_eq_true_eq] at hother
    rw [Token.isWord, hother.1, hother.2]
    rfl
  have hbranches : readBranches inner (other :: ra).length (other :: ra) =
      .ok ([], other :: ra) := by
    rw [List.length_cons, readBranches, RunsAlike.bind_of_ok (current_cons other ra), hbranch]
    rfl
  have hconditional : readConditional (.ok inner) (first :: ts) =
      .ok (.conditional [.mk c a] b, rb) := by
    rw [readConditional, RunsAlike.bind_of_ok (hword hfirst ts), RunsAlike.bind_of_ok rfl,
      RunsAlike.bind_of_ok hc, RunsAlike.bind_of_ok (hword hnext rc), RunsAlike.bind_of_ok ha,
      RunsAlike.bind_of_ok rfl, RunsAlike.bind_of_ok hbranches,
      RunsAlike.bind_of_ok (current_cons other ra), hother]
    simp only [↓reduceIte]
    have hadvance : advance (other :: ra) = .ok (other, ra) := rfl
    rw [RunsAlike.bind_of_ok hadvance, RunsAlike.bind_of_ok hb,
      RunsAlike.bind_of_ok (hword hlast rb)]
    rfl
  rw [readPrimary, RunsAlike.bind_of_ok (current_cons first ts), hnamed.1]
  change readNamed _ _ = _
  rw [readNamed, RunsAlike.bind_of_ok (current_cons first ts), hnamed.2]
  exact hconditional

end Stages

/-! ### Whole expressions -/

/-- In front of what ends a pipe the tokens are a pipe of a level that has `n` levels inside. -/
structure Piped (n : Nat) (ws : List (TokenKind × List Char)) (e : Expr) : Prop where
  reads : ∀ {limit levels : Nat} {t : Token} {us r : List Token}, n ≤ levels →
    us.map Token.content = ws → t.grip < 3 →
      (Level.at limit levels).pipe (us ++ t :: r) = .ok (e, t :: r)

section Piped

variable {n : Nat} {ws ws' wc wa wb : List (TokenKind × List Char)} {e' c a b : Expr}

/-- Parentheses around tokens. -/
def inParens (ws : List (TokenKind × List Char)) : List (TokenKind × List Char) :=
  (.leftParen, ['(']) :: (ws ++ [(.rightParen, [')'])])

/-- Tokens in parentheses are an operand of a bar. -/
theorem Grouped.readDisjunction (h : Grouped n ws e) (hle : n ≤ levels)
    {us : List Token} (hus : us.map Token.content = inParens ws) (hgrip : t.grip < 4) :
    readDisjunction (.ok (Level.at limit levels)) (us ++ t :: r) = .ok (e, t :: r) := by
  obtain ⟨opener, us, rfl, hopener, hus⟩ := List.map_eq_cons_iff.mp hus
  obtain ⟨us, last, rfl, hinner, hlast⟩ := List.map_eq_append_iff.mp hus
  obtain ⟨closer, rfl, hcloser⟩ := List.map_eq_singleton_iff.mp hlast
  simp only [Token.content, Prod.mk.injEq] at hopener hcloser
  rw [List.cons_append, List.append_assoc, List.singleton_append]
  refine readDisjunction_of_primary (h.reads hle hopener.1 hinner hcloser.1) ?_ ?_ hgrip
  · rw [hopener.1]
    decide
  · rw [Token.isWord, hopener.1]
    rfl

theorem Grouped.piped (h : Grouped n ws e) : Piped (n + 1) (inParens ws) e := by
  refine ⟨fun {limit levels t us r} hle hus hgrip => ?_⟩
  obtain ⟨levels, rfl⟩ := Nat.exists_eq_add_one.mpr (Nat.lt_of_lt_of_le n.succ_pos hle)
  exact joined_of_operand .pipe rfl
    (h.readDisjunction (Nat.le_of_succ_le_succ hle) hus (Nat.lt_succ_of_lt hgrip)) hgrip

/-- Two stages in parentheses. -/
theorem Grouped.piped_bar (h : Grouped n ws e) (h' : Grouped n ws' e') :
    Piped (n + 1) (inParens ws ++ (.pipe, ['|']) :: inParens ws') (.pipe e e') := by
  refine ⟨fun {limit levels t us r} hle hus hgrip => ?_⟩
  obtain ⟨levels, rfl⟩ := Nat.exists_eq_add_one.mpr (Nat.lt_of_lt_of_le n.succ_pos hle)
  replace hle := Nat.le_of_succ_le_succ hle
  obtain ⟨us, rest, rfl, hleft, hrest⟩ := List.map_eq_append_iff.mp hus
  obtain ⟨bar, us', rfl, hbar, hright⟩ := List.map_eq_cons_iff.mp hrest
  simp only [Token.content, Prod.mk.injEq] at hbar
  have hbarGrip : bar.grip < 4 := by
    rw [Token.grip_of_kind hbar.1 (by decide)]
    decide
  rw [List.append_assoc, List.cons_append]
  exact readPipe_of_stages (h.readDisjunction hle hleft hbarGrip) hbar.1
    (h'.readDisjunction hle hright (Nat.lt_succ_of_lt hgrip)) hgrip

/-- A conditional is a pipe if its parts are. -/
theorem Piped.conditional (hc : Piped n wc c) (ha : Piped n wa a) (hb : Piped n wb b) :
    Piped (n + 1) (keyword "if" :: (wc ++ keyword "then" :: (wa ++ keyword "else" ::
      (wb ++ [keyword "end"])))) (.conditional [.mk c a] b) := by
  refine ⟨fun {limit levels t us r} hle hus hgrip => ?_⟩
  obtain ⟨levels, rfl⟩ := Nat.exists_eq_add_one.mpr (Nat.lt_of_lt_of_le n.succ_pos hle)
  replace hle := Nat.le_of_succ_le_succ hle
  have hword {t : Token} {s : String} (h : t.content = keyword s) : t.isWord s = true := by
    simp only [Token.content, Prod.mk.injEq] at h
    rw [Token.isWord, h.1, h.2, String.ofList_toList]
    simp
  obtain ⟨first, us, rfl, hfirst, hus⟩ := List.map_eq_cons_iff.mp hus
  obtain ⟨uc, us, rfl, huc, hus⟩ := List.map_eq_append_iff.mp hus
  obtain ⟨next, us, rfl, hnext, hus⟩ := List.map_eq_cons_iff.mp hus
  obtain ⟨ua, us, rfl, hua, hus⟩ := List.map_eq_append_iff.mp hus
  obtain ⟨other, us, rfl, hother, hus⟩ := List.map_eq_cons_iff.mp hus
  obtain ⟨ub, us, rfl, hub, hus⟩ := List.map_eq_append_iff.mp hus
  obtain ⟨last, rfl, hlast⟩ := List.map_eq_singleton_iff.mp hus
  have hgrips {t : Token} {s : String} (h : t.content = keyword s) (hs : wordGrip s < 3) :
      t.grip < 3 := by
    rwa [Token.grip_of_isWord (hword h)]
  simp only [List.cons_append, List.append_assoc, List.nil_append]
  have hprimary : readPrimary (.ok (Level.at limit levels))
      (first :: (uc ++ next :: (ua ++ other :: (ub ++ last :: t :: r)))) =
        .ok (.conditional [.mk c a] b, t :: r) :=
    readPrimary_conditional (hword hfirst)
      (hc.reads hle huc (hgrips hnext (by decide))) (hword hnext)
      (ha.reads hle hua (hgrips hother (by decide))) (hword hother)
      (hb.reads hle hub (hgrips hlast (by decide))) (hword hlast)
  have hkind : first.kind = .word := congrArg Prod.fst hfirst
  have hnot : first.isWord "not" = false := by
    rw [Token.isWord, hkind, show first.text = "if".toList from congrArg Prod.snd hfirst]
    rfl
  exact joined_of_operand .pipe rfl (readDisjunction_of_primary hprimary (by rw [hkind]; decide)
    hnot (Nat.lt_succ_of_lt hgrip)) hgrip

/-- A text that is a pipe is read. -/
theorem Piped.read {text : String} (h : Piped n ws e) (hlexes : Lexes text.toList ws)
    (hne : ws ≠ []) (hle : n ≤ limit) : read limit text = .ok e := by
  obtain ⟨us, finish, -, hus, hfinish, hread⟩ := read_of_lexes hlexes hne
  have hkind : finish.kind = .finish := congrArg Prod.fst hfinish
  have hgrip : finish.grip < 3 := by
    rw [Token.grip_of_kind hkind (by decide)]
    decide
  rw [hread limit, ofTokens_of_ok (h.reads hle hus hgrip), if_pos hkind]

end Piped

/-! ### Texts -/

/-- The text of a conditional with one branch. -/
def conditionalText (condition result otherwise : String) : String :=
  "if " ++ condition ++ " then " ++ result ++ " else " ++ otherwise ++ " end"

/-- A text between parentheses. -/
def grouped (text : String) : String :=
  "( " ++ text ++ " )"

section Texts

variable {c a b text : String} {wc wa wb ws : List (TokenKind × List Char)}

theorem lexes_grouped (h : Lexes text.toList ws) : Lexes (grouped text).toList (inParens ws) := by
  have hopen : Lexes ['('] [(.leftParen, ['('])] := .token rfl rfl .nil
  have hclose : Lexes [')'] [(.rightParen, [')'])] := .token rfl rfl .nil
  have htext : (grouped text).toList = ['('] ++ ' ' :: (text.toList ++ ' ' :: [')']) := by
    simp [grouped]
  rw [htext]
  exact hopen.append (h.append hclose)

theorem lexes_bar {left right : String} (hleft : Lexes left.toList wa)
    (hright : Lexes right.toList wb) :
    Lexes (left ++ " | " ++ right).toList (wa ++ (.pipe, ['|']) :: wb) := by
  have hbar : Lexes ['|'] [(.pipe, ['|'])] := .token rfl rfl .nil
  have htext : (left ++ " | " ++ right).toList =
      left.toList ++ ' ' :: (['|'] ++ ' ' :: right.toList) := by
    simp
  rw [htext]
  exact hleft.append (hbar.append hright)

theorem lexes_conditionalText (hc : Lexes c.toList wc) (ha : Lexes a.toList wa)
    (hb : Lexes b.toList wb) :
    Lexes (conditionalText c a b).toList (keyword "if" :: (wc ++ keyword "then" ::
      (wa ++ keyword "else" :: (wb ++ [keyword "end"])))) := by
  have hif : Lexes "if".toList [keyword "if"] := .token rfl rfl .nil
  have hthen : Lexes "then".toList [keyword "then"] := .token rfl rfl .nil
  have helse : Lexes "else".toList [keyword "else"] := .token rfl rfl .nil
  have hend : Lexes "end".toList [keyword "end"] := .token rfl rfl .nil
  have htext : (conditionalText c a b).toList = "if".toList ++ ' ' :: (c.toList ++ ' ' ::
      ("then".toList ++ ' ' :: (a.toList ++ ' ' :: ("else".toList ++ ' ' ::
        (b.toList ++ ' ' :: "end".toList))))) := by
    simp [conditionalText]
  rw [htext]
  exact hif.append (hc.append (hthen.append (ha.append (helse.append (hb.append hend)))))

end Texts

/-! ### The condition of a conditional -/

section Conditions

variable {c a b : String} {ec ea eb : Expr}

/-- A bare `not` at the end of a condition stands in front of a keyword. -/
theorem read_conditionalText_bareNot (hc : read limit c = .ok ec) (ha : read limit a = .ok ea)
    (hb : read limit b = .ok eb) (limit' : Nat) :
    ∃ fault, read limit' (conditionalText (c ++ " | " ++ "not") a b) = .error fault ∧
      IsRefusal limit' fault := by
  obtain ⟨wc, hlexesC, hdecC⟩ := lexes_of_read hc
  obtain ⟨wa, hlexesA, hdecA⟩ := lexes_of_read ha
  obtain ⟨wb, hlexesB, hdecB⟩ := lexes_of_read hb
  have hnot : Lexes "not".toList [keyword "not"] := .token rfl rfl .nil
  have hlexes := lexes_conditionalText (lexes_bar hlexesC hnot) hlexesA hlexesB
  rw [List.append_assoc, ← List.cons_append] at hlexes
  have hthen : "then" ∈ keywords ∧ "then" ≠ "if" := by decide
  obtain ⟨fault, hfault⟩ := read_blocked hthen hlexes limit'
  refine ⟨fault, hfault, (refusal_or_undecoded hfault).resolve_right ?_⟩
  refine not_undecoded hlexes (fun w hw => ?_) fault
  simp only [List.mem_cons, List.mem_append, List.not_mem_nil, or_false] at hw
  have hword (s : String) : Decodes (keyword s) := decodes_of_kind (by simp)
  have hbar : Decodes (.pipe, ['|']) := decodes_of_kind (by decide)
  rcases hw with (rfl | hw) | (rfl | rfl) | rfl | hw | rfl | hw | rfl
  · exact hword _
  · exact hdecC w hw
  · exact hbar
  · exact hword _
  · exact hword _
  · exact hdecA w hw
  · exact hword _
  · exact hdecB w hw
  · exact hword _

/-- **The bare `not` in a condition.**  Let three texts be read.  With a bar and `not` behind the
first one as the condition, and the others as the branches, they make a conditional that is read at
no limit, since `not` is taken for a prefix of what follows `then`.  Between parentheses it is read,
and it does what the conditional does that has its branches exchanged: within all limits and budgets
that are large enough they have one and the same outcome. -/
theorem conditional_bareNot (hc : read limit c = .ok ec) (ha : read limit a = .ok ea)
    (hb : read limit b = .ok eb) :
    (∀ limit', ∃ fault, read limit' (conditionalText (c ++ " | " ++ "not") a b) = .error fault ∧
      IsRefusal limit' fault) ∧
    (Text.trim c.toList ≠ [] → Text.trim a.toList ≠ [] → Text.trim b.toList ≠ [] → ∃ e e',
      (∀ limit', limit + 2 ≤ limit' →
        read limit' (conditionalText (grouped c ++ " | " ++ grouped "not") (grouped a)
          (grouped b)) = .ok e ∧
        read limit' (conditionalText (grouped c) (grouped b) (grouped a)) = .ok e') ∧
      ∃ depth, ∀ v, ∃ steps outcome, ∀ limit' budget, depth ≤ limit' → steps ≤ budget →
        e.value limit' budget v = outcome ∧ e'.value limit' budget v = outcome) := by
  refine ⟨read_conditionalText_bareNot hc ha hb, fun hneC hneA hneB => ?_⟩
  obtain ⟨wc, hlexesC, hgroupedC⟩ := exists_grouped hc hneC
  obtain ⟨wa, hlexesA, hgroupedA⟩ := exists_grouped ha hneA
  obtain ⟨wb, hlexesB, hgroupedB⟩ := exists_grouped hb hneB
  have hnot : read limit "not" = .ok (.subject (.builtin .not) none) :=
    ((read_endsAlike (Nat.zero_le limit) "not").of_ok rfl).1
  obtain ⟨wn, hlexesN, hgroupedN⟩ := exists_grouped hnot (by decide)
  -- with parentheses around it `not` has nothing behind it, and is the function
  let e : Expr := .conditional [.mk (.pipe ec (.subject (.builtin .not) none)) ea] eb
  let e' : Expr := .conditional [.mk ec eb] ea
  have hpiped : Piped (limit + 2) _ e :=
    (hgroupedC.piped_bar hgroupedN).conditional hgroupedA.piped hgroupedB.piped
  have hpiped' : Piped (limit + 2) _ e' :=
    hgroupedC.piped.conditional hgroupedB.piped hgroupedA.piped
  refine ⟨e, e', fun limit' hle => ⟨?_, ?_⟩, max e.height e'.height, fun v => ?_⟩
  · exact hpiped.read (lexes_conditionalText (lexes_bar (lexes_grouped hlexesC)
      (lexes_grouped hlexesN)) (lexes_grouped hlexesA) (lexes_grouped hlexesB))
      (List.cons_ne_nil _ _) hle
  · exact hpiped'.read (lexes_conditionalText (lexes_grouped hlexesC) (lexes_grouped hlexesB)
      (lexes_grouped hlexesA)) (List.cons_ne_nil _ _) hle
  · obtain ⟨n, m, y, hfinds, hfinds'⟩ := Finds.negated ec ea eb v
    refine ⟨max n m, y, fun limit' budget hdepth hsteps => ?_⟩
    obtain ⟨hdepth, hdepth'⟩ := Nat.max_le.mp hdepth
    obtain ⟨hsteps, hsteps'⟩ := Nat.max_le.mp hsteps
    exact ⟨hfinds.value (Nat.le_succ_of_le hdepth) hsteps,
      hfinds'.value (Nat.le_succ_of_le hdepth') hsteps'⟩

end Conditions

/-- The current value as the condition, and two numbers. -/
theorem conditional_bareNot_identity :
    (read 0 "." = .ok .identity ∧ read 0 "1" = .ok (.literal (.number (.int 1))) ∧
      read 0 "2" = .ok (.literal (.number (.int 2)))) ∧
    (∀ limit, ∃ fault, read limit "if . | not then 1 else 2 end" = .error fault ∧
      IsRefusal limit fault) ∧
    ∃ e e', (∀ limit, 2 ≤ limit →
        read limit "if ( . ) | ( not ) then ( 1 ) else ( 2 ) end" = .ok e ∧
        read limit "if ( . ) then ( 2 ) else ( 1 ) end" = .ok e') ∧
      ∃ depth, ∀ v, ∃ steps outcome, ∀ limit budget, depth ≤ limit → steps ≤ budget →
        e.value limit budget v = outcome ∧ e'.value limit budget v = outcome := by
  have hidentity : read 0 "." = .ok .identity := rfl
  have hone : read 0 "1" = .ok (.literal (.number (.int 1))) := rfl
  have htwo : read 0 "2" = .ok (.literal (.number (.int 2))) := rfl
  obtain ⟨hrefused, hread⟩ := conditional_bareNot hidentity hone htwo
  exact ⟨⟨hidentity, hone, htwo⟩, hrefused, hread (by decide) (by decide) (by decide)⟩

/-- **A bare `not` in front of `then`** is refused at every limit, though the three parts are
read: `then` is taken for its operand. -/
theorem read_not_then :
    (read 0 "." = .ok .identity ∧ read 0 "1" = .ok (.literal (.number (.int 1))) ∧
      read 0 "2" = .ok (.literal (.number (.int 2)))) ∧
    (∀ limit, ∃ fault, read limit "if . | not then 1 else 2 end" = .error fault) ∧
    read 2 "if . | not then 1 else 2 end" =
      .error (.query (.expression (.unexpectedKeyword "then" 11))) := by
  have hidentity : read 0 "." = .ok .identity := rfl
  have hone : read 0 "1" = .ok (.literal (.number (.int 1))) := rfl
  have htwo : read 0 "2" = .ok (.literal (.number (.int 2))) := rfl
  have hrefused := read_conditionalText_bareNot hidentity hone htwo
  have hfault : Result.fault? (read 2 "if . | not then 1 else 2 end") =
      some (.query (.expression (.unexpectedKeyword "then" 11))) := by decide +kernel
  exact ⟨⟨hidentity, hone, htwo⟩, fun limit => (hrefused limit).imp fun _ => And.left,
    Result.eq_error_of_fault? hfault⟩

end Quarry.Expr
