import Quarry.Proofs.Follows

/-!
# In step — the grammar, read twice

Every reader of the grammar does the same with related lists of tokens, if the readers of the inner
level do (`LevelInStep`) or there is no inner level any more (`EnterInStep`).  The readers are gone
through from the inside out: calls, conditionals, lists and objects, then what stands behind a
source, then operands and what joins them.

By induction on the levels the readers of every level are in step (`at_inStep`).  This is gone
through once, for every relation, so each use has to look at single tokens only.
-/

namespace Quarry.Expr.Lockstep

variable {limit levels : Nat} {m : Lockstep limit} {α : Type} {t t' : Token}
  {r r' ts ts' : List Token}

/-! ### The grammar, around an inner level -/

/-- The readers of a level do the same with related lists, and a pipe does not begin with the
end. -/
structure LevelInStep (m : Lockstep limit) (inner : Level) : Prop where
  pipe : m.InStep inner.pipe
  pipe_finish : ∀ {t : Token} {r : List Token}, t.kind = .finish →
    ∃ fault, inner.pipe (t :: r) = .error fault
  disjunction : m.InStep inner.disjunction
  negation : m.InStep inner.negation
  unary : m.InStep inner.unary

/-- There is no inner level any more, or one whose readers do the same. -/
def EnterInStep (m : Lockstep limit) (enter : Except Fault Level) : Prop :=
  match enter with
  | .ok inner => m.LevelInStep inner
  | .error fault => fault = .tooDeep limit

/-- Going inside is refused in both runs if there is no inner level, and goes on in the same one
otherwise. -/
theorem Follows.enter {enter : Except Fault Level} {f g : Level → Reader α}
    (h : m.EnterInStep enter)
    (hf : ∀ inner, m.LevelInStep inner → m.Follows (f inner) (g inner) ts ts') :
    m.Follows (liftM enter >>= f) (liftM enter >>= g) ts ts' := by
  cases enter with
  | ok inner => exact hf inner h
  | error fault =>
      obtain rfl : fault = .tooDeep limit := h
      exact .refused .tooDeep .tooDeep

section Grammar

variable {inner : Level} {enter : Except Fault Level}

/-- A call depends on the text of its token, which the runs share. -/
theorem makeCall_follows (h : m.Paired ts ts') (htext : t'.text = t.text) (arguments : List Expr) :
    m.Follows (makeCall t arguments) (makeCall t' arguments) ts ts' := by
  rw [makeCall.eq_def, makeCall.eq_def, htext]
  dsimp only
  split
  · exact .refuse _ _
  · exact .pure h _
  · exact .pure h _
  · exact .pure h _
  · exact .refuse _ _

/-- Branches are read alike.  The induction is on the count of the first run, as for operands that
are joined. -/
theorem readBranches_follows (hinner : m.LevelInStep inner) {fuel fuel' : Nat}
    (h : m.Paired ts ts') (hfuel : ts.length ≤ fuel) (hle : fuel ≤ fuel') :
    m.Follows (readBranches inner fuel) (readBranches inner fuel') ts ts' := by
  induction fuel generalizing fuel' ts ts' with
  | zero => exact absurd hfuel (Nat.not_le_of_lt (length_pos h))
  | succ fuel ih =>
      obtain ⟨fuel', rfl⟩ := Nat.exists_eq_add_one.mpr (Nat.zero_lt_of_lt hle)
      obtain ⟨t, r, t', r', rfl, rfl, hresembles⟩ := exists_cons h
      refine .current ?_
      rw [hresembles.isWord_eq]
      by_cases ht : t.isWord "elif" = true
      · simp only [ht, ↓reduceIte]
        refine .pass h (isPlain_of_isWord ht) fun htail => ?_
        refine (hinner.pipe htail).bind fun condition _ _ hrest hlength => ?_
        refine .expectWord hrest fun hrest' hlt => ?_
        refine (hinner.pipe hrest').bind fun result _ _ hrest'' hlength' => .map (ih hrest'' ?_ ?_)
        · rw [List.length_cons] at hfuel
          omega
        · exact Nat.le_of_succ_le_succ hle
      · simp only [ht]
        exact .pure h []

/-- A conditional is read in step: its keywords are the same in both runs, and its parts are pipes
of the inner level. -/
theorem readConditional_inStep (henter : m.EnterInStep enter) :
    m.InStep (readConditional enter) := by
  intro ts ts' h
  refine .expectWord h fun hr _ => .enter henter fun inner hinner => ?_
  refine (hinner.pipe hr).bind fun condition _ _ hr _ => .expectWord hr fun hr _ => ?_
  refine (hinner.pipe hr).bind fun result _ _ hr _ => .get ?_
  refine (readBranches_follows hinner hr (Nat.le_refl _) (m.length_le hr)).bind ?_
  intro branches rest rest' hr _
  have hend (otherwise : Expr) {ts ts' : List Token} (h : m.Paired ts ts') : m.Follows
      (do expectWord "end"; return Expr.conditional (.mk condition result :: branches) otherwise)
      (do expectWord "end"; return Expr.conditional (.mk condition result :: branches) otherwise)
      ts ts' :=
    .expectWord h fun hr _ => .pure hr _
  obtain ⟨t, r, t', r', rfl, rfl, hresembles⟩ := exists_cons hr
  refine .current ?_
  rw [hresembles.isWord_eq]
  by_cases ht : t.isWord "else" = true
  · simp only [ht, ↓reduceIte]
    refine .pass hr (isPlain_of_isWord ht) fun htail => ?_
    exact (hinner.pipe htail).bind fun otherwise _ _ hr _ => hend otherwise hr
  · simp only [ht]
    exact hend .identity hr

/-- A word is a constant, a conditional or a call by its text, and the texts are the same. -/
theorem readNamed_follows (henter : m.EnterInStep enter) (h : m.Paired (t :: r) (t' :: r'))
    (hword : t.kind = .word) :
    m.Follows (readNamed enter) (readNamed enter) (t :: r) (t' :: r') := by
  have hplain : t.kind.isPlain = true := by
    rw [hword]
    rfl
  obtain ⟨htail, -, htext⟩ := tail h hplain
  have hconstant (v : Value) : m.Follows (do let _ ← advance; return Expr.literal v)
      (do let _ ← advance; return Expr.literal v) (t :: r) (t' :: r') :=
    .pass h hplain fun hr => .pure hr _
  refine .current ?_
  rw [htext]
  dsimp only
  split
  · exact hconstant _
  · split
    · exact hconstant _
    · split
      · exact hconstant _
      · split
        · exact readConditional_inStep henter h
        · split
          · exact .refuse _ _
          · refine .pass h hplain fun hr => ?_
            refine .accept rfl (by decide) hr (fun hr _ => ?_) (makeCall_follows hr htext [])
            refine .enter henter fun inner hinner => ?_
            refine (itemsUpTo_inStep hinner.pipe hinner.pipe_finish rfl hr).bind ?_
            exact fun arguments _ _ hr _ => makeCall_follows hr htext arguments

theorem readArray_inStep (henter : m.EnterInStep enter) : m.InStep (readArray enter) :=
  fun h => .expect rfl h fun hr _ => .enter henter fun _ hinner =>
    .map (itemsUpTo_inStep hinner.pipe hinner.pipe_finish rfl hr)

theorem readGroup_inStep (henter : m.EnterInStep enter) : m.InStep (readGroup enter) :=
  fun h => .expect rfl h fun hr _ => .enter henter fun _ hinner =>
    (hinner.pipe hr).bind fun e _ _ hr _ => .expect rfl hr fun hr _ => .pure hr e

/-- A key is a word, a quoted text, which has to stand for something, or an expression between
parentheses. -/
theorem readKey_inStep (hinner : m.LevelInStep inner) : m.InStep (readKey inner) := by
  intro ts ts' h
  obtain ⟨t, r, t', r', rfl, rfl, hresembles⟩ := exists_cons h
  refine .current ?_
  cases hresembles with
  | ends hfinish hcloses =>
      simp only [hfinish, hcloses]
      exact .refuse _ _
  | same hkind htext =>
      rw [hkind]
      split
      · rename_i hk
        rw [htext (.inl hk)]
        exact .pass h (by rw [hk]; rfl) fun hr => .pure hr _
      · rename_i hk
        exact .decode h (.inl hk) (by rw [Token.decode, hk]) fun s hr => .pure hr _
      · rename_i hk
        refine .pass h (by rw [hk]; rfl) fun hr => (hinner.pipe hr).bind fun key _ _ hr _ => ?_
        exact .expect rfl hr fun hr _ => .pure hr _
      · exact .refuse _ _

/-- A member may come without its colon, if its key is fixed. -/
theorem readEntry_inStep (hinner : m.LevelInStep inner) : m.InStep (readEntry inner) := by
  intro ts ts' h
  obtain ⟨t, r, t', r', rfl, rfl, -⟩ := exists_cons h
  refine .current ((readKey_inStep hinner h).bind fun key _ _ hr _ => ?_)
  refine .accept rfl (by decide) hr (fun hr _ => ?_) ?_
  · refine (hinner.disjunction hr).bind fun e _ _ hr _ => ?_
    cases key <;> exact .pure hr _
  · cases key with
    | inl name => exact .pure hr _
    | inr key => exact .refuse _ _

/-- Members are read alike up to the closing brace, which no end is taken for. -/
theorem readEntries_follows (hinner : m.LevelInStep inner) {fuel fuel' : Nat}
    (h : m.Paired ts ts') (hfuel : ts.length ≤ fuel) (hle : fuel ≤ fuel') :
    m.Follows (readEntries inner fuel) (readEntries inner fuel') ts ts' := by
  induction fuel generalizing fuel' ts ts' with
  | zero => exact absurd hfuel (Nat.not_le_of_lt (length_pos h))
  | succ fuel ih =>
      obtain ⟨fuel', rfl⟩ := Nat.exists_eq_add_one.mpr (Nat.zero_lt_of_lt hle)
      obtain ⟨t, r, t', r', rfl, rfl, hresembles⟩ := exists_cons h
      refine .current ?_
      simp only [hresembles.kind_iff .rightBrace (by decide) (by decide)]
      by_cases ht : t.kind = .rightBrace
      · simp only [ht, ↓reduceIte]
        exact .pure h []
      · simp only [ht, ↓reduceIte]
        refine (readEntry_inStep hinner h).bind fun e _ _ hr hlength => ?_
        refine .accept rfl (by decide) hr (fun hr' hlt => .map (ih hr' ?_ ?_)) (.pure hr [e])
        · exact Nat.le_of_lt_succ (Nat.lt_of_lt_of_le hlt (Nat.le_trans hlength hfuel))
        · exact Nat.le_of_succ_le_succ hle

theorem readObject_inStep (henter : m.EnterInStep enter) : m.InStep (readObject enter) :=
  fun h => .expect rfl h fun hr _ => .enter henter fun _ hinner => .get <|
    (readEntries_follows hinner hr (Nat.le_refl _) (m.length_le hr)).bind
      fun _ _ _ hr _ => .expect rfl hr fun hr _ => .pure hr _

/-- Behind a dot there may be a quoted name. -/
theorem readDotted_inStep : m.InStep readDotted := by
  refine fun h => .expect rfl h fun hr _ => ?_
  obtain ⟨t, r, t', r', rfl, rfl, hresembles⟩ := exists_cons hr
  refine .current ?_
  simp only [hresembles.kind_iff .string (by decide) (by decide)]
  by_cases ht : t.kind = .string
  · simp only [ht, ↓reduceIte]
    exact .decode hr (.inl ht) (by rw [Token.decode, ht]) fun name hr => .pure hr _
  · simp only [ht, ↓reduceIte]
    exact .pure hr _

/-- **Primaries are read in step.**  The end and the parenthesis that may stand for it begin none of
them, and all other classes are the same in both runs. -/
theorem readPrimary_inStep (henter : m.EnterInStep enter) : m.InStep (readPrimary enter) := by
  intro ts ts' h
  obtain ⟨t, r, t', r', rfl, rfl, hresembles⟩ := exists_cons h
  refine .current ?_
  cases hresembles with
  | ends hfinish hcloses =>
      simp only [hfinish, hcloses]
      -- neither of the two begins a primary
      exact .refuse _ _
  | same hkind htext =>
      rw [hkind]
      split
      · rename_i hk
        exact .decode h (.inr hk) (by rw [Token.decode, hk]) fun v hr => .pure hr _
      · rename_i hk
        exact .decode h (.inl hk) (by rw [Token.decode, hk]) fun s hr => .pure hr _
      · rename_i hk
        rw [htext (.inr hk)]
        exact .pass h (by rw [hk]; rfl) fun hr => .pure hr _
      · exact readDotted_inStep h
      · exact readGroup_inStep henter h
      · exact readArray_inStep henter h
      · exact readObject_inStep henter h
      · exact readNamed_follows henter h ‹_›
      · exact .refuse _ _

/-- What else may stand behind a source does not go on with it. -/
theorem postfixFrom_cons (fuel : Nat) (source : Expr) (hfield : t.kind ≠ .field)
    (hbracket : t.kind ≠ .leftBracket) (hdot : t.kind = .dot → ∀ u ∈ r.head?,
      u.kind ≠ .string ∧ u.kind ≠ .leftBracket) :
    postfixFrom enter fuel source (t :: r) = .ok (source, t :: r) := by
  cases fuel with
  | zero => rfl
  | succ fuel =>
      obtain ⟨kind, hpeek, hkind⟩ : ∃ kind, peekKind (t :: r) = .ok (kind, t :: r) ∧
          (t.kind = .dot → kind ≠ .string ∧ kind ≠ .leftBracket) := by
        cases r with
        | nil => exact ⟨t.kind, rfl, fun ht => by rw [ht]; decide⟩
        | cons u s => exact ⟨u.kind, rfl, fun ht => hdot ht u rfl⟩
      rw [postfixFrom, RunsAlike.bind_of_ok (current_cons t r), RunsAlike.bind_of_ok hpeek]
      refine congrFun (g := (pure source : Reader Expr)) ?_ (t :: r)
      split
      · contradiction
      · exact absurd rfl (hkind ‹_›).1
      · exact absurd rfl (hkind ‹_›).2
      · contradiction
      · rfl

/-- Nor does it in the other run. -/
theorem postfixFrom_cons_follows (h : m.Paired (t :: r) (t' :: r')) (fuel fuel' : Nat)
    (source : Expr) (hfield : t.kind ≠ .field) (hbracket : t.kind ≠ .leftBracket)
    (hdot : t.kind = .dot → ∀ u ∈ r.head?, u.kind ≠ .string ∧ u.kind ≠ .leftBracket) :
    m.Follows (postfixFrom enter fuel source) (postfixFrom enter fuel' source)
      (t :: r) (t' :: r') := by
  obtain ⟨_, _, _, _, ⟨⟩, ⟨⟩, hresembles⟩ := exists_cons h
  have hiff {kind : TokenKind} := hresembles.kind_iff kind
  have hfield' : t'.kind ≠ .field := (hiff (by decide) (by decide)).not.mpr hfield
  have hbracket' : t'.kind ≠ .leftBracket := (hiff (by decide) (by decide)).not.mpr hbracket
  have hdot' : t'.kind = .dot → ∀ u ∈ r'.head?, u.kind ≠ .string ∧ u.kind ≠ .leftBracket := by
    intro hdot' u' hu'
    have ht : t.kind = .dot := (hiff (by decide) (by decide)).mp hdot'
    obtain ⟨u, s, _, s', rfl, rfl, hnext⟩ := exists_cons (tail h (by rw [ht]; rfl)).1
    obtain rfl := Option.some.inj hu'
    rw [ne_eq, ne_eq, hnext.kind_iff .string (by decide) (by decide),
      hnext.kind_iff .leftBracket (by decide) (by decide)]
    exact hdot ht u rfl
  rw [Follows, postfixFrom_cons _ _ hfield hbracket hdot,
    postfixFrom_cons _ _ hfield' hbracket' hdot']
  exact .ok h (Nat.le_refl _)

/-- What stands behind a source is read alike: fields, names between quotes and indices go on, and
everything else ends it in both runs. -/
theorem postfixFrom_follows (henter : m.EnterInStep enter) {fuel fuel' : Nat} {source : Expr}
    (h : m.Paired ts ts') (hfuel : ts.length ≤ fuel) (hle : fuel ≤ fuel') :
    m.Follows (postfixFrom enter fuel source) (postfixFrom enter fuel' source) ts ts' := by
  induction fuel generalizing fuel' source ts ts' with
  | zero => exact absurd hfuel (Nat.not_le_of_lt (length_pos h))
  | succ fuel ih =>
      obtain ⟨fuel', rfl⟩ := Nat.exists_eq_add_one.mpr (Nat.zero_lt_of_lt hle)
      obtain ⟨t, r, t', r', rfl, rfl, -⟩ := exists_cons h
      replace hfuel : r.length ≤ fuel := Nat.le_of_succ_le_succ hfuel
      replace hle := Nat.le_of_succ_le_succ hle
      -- what comes next is decided by one token, or by two if the first one is a dot
      by_cases hfield : t.kind = .field
      · obtain ⟨-, hkind, htext⟩ := tail h (by rw [hfield]; rfl)
        refine .current (.peek_any fun _ _ => ?_)
        rw [hkind, hfield, htext]
        exact .pass h (by rw [hfield]; rfl) fun hr => ih hr hfuel hle
      by_cases hbracket : t.kind = .leftBracket
      · obtain ⟨-, hkind, -⟩ := tail h (by rw [hbracket]; rfl)
        refine .current (.peek_any fun _ _ => ?_)
        rw [hkind, hbracket]
        refine .pass h (by rw [hbracket]; rfl) fun hr => .enter henter fun inner hinner => ?_
        refine (hinner.pipe hr).bind fun index _ _ hr hlength => ?_
        exact .expect rfl hr fun hr hlt => ih hr (by omega) hle
      by_cases hdot : t.kind = .dot
      · have hplain : t.kind.isPlain = true := by
          rw [hdot]
          rfl
        obtain ⟨hr, hkind, -⟩ := tail h hplain
        obtain ⟨u, s, u', s', rfl, rfl, hnext⟩ := exists_cons hr
        rw [List.length_cons] at hfuel
        by_cases hstring : u.kind = .string
        · refine .current (.peek ?_)
          rw [hkind, hdot, (hnext.kind_iff _ (by decide) (by decide)).mpr hstring, hstring]
          refine .pass h hplain fun hr => ?_
          refine .decodeNext hr (.inl hstring) (by rw [Token.decode, hstring]) fun name hs => ?_
          exact ih hs (by omega) hle
        by_cases hindex : u.kind = .leftBracket
        · refine .current (.peek ?_)
          rw [hkind, hdot, (hnext.kind_iff _ (by decide) (by decide)).mpr hindex, hindex]
          exact .pass h hplain fun hr => ih hr hfuel hle
        have hhead (v : Token) (hv : v ∈ (u :: s).head?) :
            v.kind ≠ .string ∧ v.kind ≠ .leftBracket := by
          obtain rfl := Option.some.inj hv
          exact ⟨hstring, hindex⟩
        exact postfixFrom_cons_follows h _ _ _ hfield hbracket fun _ => hhead
      · exact postfixFrom_cons_follows h _ _ _ hfield hbracket fun hk => absurd hk hdot

/-- So a source with what stands behind it is read in step, -/
theorem readPath_inStep (henter : m.EnterInStep enter) : m.InStep (readPath enter) :=
  fun h => (readPrimary_inStep henter h).bind fun _ _ _ hr _ =>
    .get (postfixFrom_follows henter hr (Nat.le_refl _) (m.length_le hr))

/-- and an operand with its signs. -/
theorem readUnary_inStep (henter : m.EnterInStep enter) : m.InStep (readUnary enter) :=
  fun h => .accept rfl (by decide) h
    (fun hr _ => .enter henter fun _ hinner => .map (hinner.unary hr)) (readPath_inStep henter h)

/-- The signs of a product are told by their class, -/
theorem joinsAlike_product : JoinsAlike limit (readUnary enter) joinProduct where
  same hresembles := hresembles.map_kind_eq
    (fun kind => joinProduct ⟨kind, [], 0⟩) rfl
  passes := by
    intro t h
    rw [joinProduct.eq_def] at h
    split at h
    · exact .inl (by rw [‹t.kind = _›]; rfl)
    · exact .inl (by rw [‹t.kind = _›]; rfl)
    · exact .inl (by rw [‹t.kind = _›]; rfl)
    · exact absurd rfl h

/-- as are those of a sum, -/
theorem joinsAlike_sum : JoinsAlike limit (readProduct enter) joinSum where
  same hresembles := hresembles.map_kind_eq (fun kind => joinSum ⟨kind, [], 0⟩) rfl
  passes := by
    intro t h
    rw [joinSum.eq_def] at h
    split at h
    · exact .inl (by rw [‹t.kind = _›]; rfl)
    · exact .inl (by rw [‹t.kind = _›]; rfl)
    · exact absurd rfl h

/-- a keyword that joins is told by its class and text, -/
theorem joinsAlike_word {operand : Reader Expr} {s : String} {join : Expr → Expr → Expr}
    {join? : Token → Option (Expr → Expr → Expr)}
    (hjoin : ∀ t : Token, join? t = if t.isWord s then some join else none) :
    JoinsAlike limit operand join? where
  same {t t'} hresembles := by rw [hjoin, hjoin, hresembles.isWord_eq]
  passes {t} h := by
    rw [hjoin, ne_eq, ite_eq_right_iff, not_forall] at h
    exact .inl (isPlain_of_isWord h.1)

/-- and the bar joins what the readers of a level have read. -/
theorem joinsAlike_pipe (levels : Nat) :
    JoinsAlike limit (readDisjunction (enterAt limit levels)) joinPipe where
  same hresembles := by
    rw [joinPipe, joinPipe]
    simp only [hresembles.kind_iff .pipe (by decide) (by decide)]
  passes {t} h := by
    rw [joinPipe, ne_eq, ite_eq_right_iff, not_forall] at h
    exact .inr ⟨h.1, levels, rfl⟩

theorem readSum_inStep (henter : m.EnterInStep enter) : m.InStep (readSum enter) :=
  joined_inStep (joined_inStep (readUnary_inStep henter) joinsAlike_product) joinsAlike_sum

/-- A comparison has at most one sign, and its class says which. -/
theorem readComparison_inStep (henter : m.EnterInStep enter) : m.InStep (readComparison enter) := by
  refine fun h => (readSum_inStep henter h).bind fun left _ _ hr _ => ?_
  obtain ⟨t, r, t', r', rfl, rfl, hresembles⟩ := exists_cons hr
  refine .current ?_
  rw [hresembles.map_kind_eq relation? rfl]
  cases hrelation : relation? t.kind with
  | none => exact .pure hr left
  | some relation =>
      have hplain : t.kind.isPlain = true := by
        revert hrelation
        cases t.kind <;> first | exact fun _ => rfl | exact nofun
      exact .pass hr hplain fun hr => .map (readSum_inStep henter hr)

/-- Whether `not` is the prefix depends on the token behind it, and the end begins an operand as
little as a parenthesis that closes. -/
theorem readNegation_inStep (henter : m.EnterInStep enter) : m.InStep (readNegation enter) := by
  intro ts ts' h
  obtain ⟨t, r, t', r', rfl, rfl, hresembles⟩ := exists_cons h
  refine .current ?_
  by_cases hnot : t.isWord "not" = true
  · have hplain := isPlain_of_isWord hnot
    obtain ⟨hr, -⟩ := tail h hplain
    obtain ⟨u, s, u', s', rfl, rfl, hnext⟩ := exists_cons hr
    refine .peek ?_
    rw [hresembles.isWord_eq, hnot, hnext.map_kind_eq startsPrimary rfl]
    cases startsPrimary u.kind with
    | true =>
        exact .pass h hplain fun hr => .enter henter fun _ hinner => .map (hinner.negation hr)
    | false => exact readComparison_inStep henter h
  -- without `not` the token behind it makes no difference
  · refine .peek_any fun kind kind' => ?_
    rw [hresembles.isWord_eq, Bool.eq_false_iff.mpr hnot, Bool.false_and, Bool.false_and]
    exact readComparison_inStep henter h

theorem readDisjunction_inStep (henter : m.EnterInStep enter) : m.InStep (readDisjunction enter) :=
  joined_inStep (joined_inStep (readNegation_inStep henter) (joinsAlike_word fun _ => rfl))
    (joinsAlike_word fun _ => rfl)

/-! ### All levels -/

/-- The readers around a level that is in step are in step. -/
theorem around_inStep (henter : m.EnterInStep (enterAt limit levels)) :
    m.LevelInStep (.around (enterAt limit levels)) where
  pipe := joined_inStep (readDisjunction_inStep henter) (joinsAlike_pipe levels)
  pipe_finish := readPipe_finish
  disjunction := readDisjunction_inStep henter
  negation := readNegation_inStep henter
  unary := readUnary_inStep henter

/-- **The readers do the same with related lists**, at every level. -/
theorem at_inStep (m : Lockstep limit) (levels : Nat) : m.LevelInStep (Level.at limit levels) := by
  rw [at_eq_around]
  induction levels with
  -- no level is left, so going inside is refused for the depth
  | zero => exact around_inStep (rfl : Fault.tooDeep limit = .tooDeep limit)
  | succ levels ih =>
      rw [← at_eq_around] at ih
      exact around_inStep (show m.EnterInStep (.ok (Level.at limit levels)) from ih)

end Grammar

end Quarry.Expr.Lockstep
