import Quarry.Proofs.Lockstep

/-!
# Follows — two runs that end alike

Two runs from related lists end alike (`Lockstep.Follows`): with the same result and related lists
left over, or both refused, or the first one with a fault that the relation has an excuse for.  A
reader is in step if it does the same with all related lists (`Lockstep.InStep`).

Readers are put together from a few parts, and each of them keeps two runs together: one after the
other (`Follows.bind`), a token that must come or may come (`Follows.expect`, `Follows.accept`), a
token for what it stands for (`Follows.decode`), operands between joining tokens
(`Lockstep.joined_inStep`) and items up to a closing token (`Lockstep.itemsUpTo_inStep`).  A loop is
counted by the tokens that are left, and the second run may count from more.
-/

namespace Quarry.Expr.Lockstep

variable {limit : Nat} {m : Lockstep limit} {α β : Type} {t t' : Token}
  {r r' ts ts' : List Token}

/-! ### Ends of runs -/

/-- Two runs end alike, and the first one leaves at most `n` tokens. -/
inductive Ends (m : Lockstep limit) (n : Nat) :
    Except Fault (α × List Token) → Except Fault (α × List Token) → Prop where
  | ok {a : α} {rest rest' : List Token} (h : m.Paired rest rest') (hlength : rest.length ≤ n) :
      Ends m n (.ok (a, rest)) (.ok (a, rest'))
  | refused {fault fault' : Fault} (h : IsRefusal limit fault) (h' : IsRefusal limit fault') :
      Ends m n (.error fault) (.error fault')
  | excused {fault : Fault} {y : Except Fault (α × List Token)} (h : m.Excused fault) :
      Ends m n (.error fault) y

/-- A run that leaves few tokens leaves at most as many as any wider bound says. -/
theorem Ends.mono {n k : Nat} {x y : Except Fault (α × List Token)} (h : m.Ends n x y)
    (hle : n ≤ k) : m.Ends k x y := by
  cases h with
  | ok h hlength => exact .ok h (Nat.le_trans hlength hle)
  | refused h h' => exact .refused h h'
  | excused h => exact .excused h

/-- The run of `x` from the one list and that of `y` from the other end alike. -/
def Follows (m : Lockstep limit) (x y : Reader α) (ts ts' : List Token) : Prop :=
  m.Ends ts.length (x ts) (y ts')

/-- The reader does the same with related lists. -/
def InStep (m : Lockstep limit) (x : Reader α) : Prop :=
  ∀ {ts ts' : List Token}, m.Paired ts ts' → m.Follows x x ts ts'

namespace Follows

variable {x y : Reader α} {f g : α → Reader β}

/-- A reader that takes nothing leaves the lists as they are. -/
theorem pure (h : m.Paired ts ts') (a : α) :
    m.Follows (Pure.pure a) (Pure.pure a) ts ts' :=
  .ok h (Nat.le_refl _)

/-- Both runs may refuse, and their causes need not be the same. -/
theorem refuse (cause cause' : ExprFault) :
    m.Follows (Expr.refuse cause : Reader α) (Expr.refuse cause') ts ts' :=
  .refused (.expression cause) (.expression cause')

/-- **One after the other.**  What goes on from related lists goes on alike, and never has more
tokens left than the first part had. -/
theorem bind (hx : m.Follows x y ts ts') (hf : ∀ a {rest rest' : List Token},
      m.Paired rest rest' → rest.length ≤ ts.length → m.Follows (f a) (g a) rest rest') :
    m.Follows (x >>= f) (y >>= g) ts ts' := by
  rw [Follows] at hx ⊢
  generalize hxs : x ts = outcome at hx
  generalize hys : y ts' = outcome' at hx
  cases hx with
  | ok h hlength =>
      rw [RunsAlike.bind_of_ok hxs, RunsAlike.bind_of_ok hys]
      exact (hf _ h hlength).mono hlength
  | refused h h' =>
      rw [RunsAlike.bind_of_error hxs, RunsAlike.bind_of_error hys]
      exact .refused h h'
  | excused h =>
      rw [RunsAlike.bind_of_error hxs]
      exact .excused h

/-- A result that is only put into another form. -/
theorem map {f : α → β} (hx : m.Follows x y ts ts') :
    m.Follows (do return f (← x)) (do return f (← y)) ts ts' :=
  hx.bind fun a _ _ h _ => .pure h (f a)

/-- Looking at the next token. -/
theorem current {f g : Token → Reader α} (h : m.Follows (f t) (g t') (t :: r) (t' :: r')) :
    m.Follows (Expr.current >>= f) (Expr.current >>= g) (t :: r) (t' :: r') :=
  h

/-- Looking at the token after the next one, -/
theorem peek {f g : TokenKind → Reader α} {u u' : Token}
    (h : m.Follows (f u.kind) (g u'.kind) (t :: u :: r) (t' :: u' :: r')) :
    m.Follows (peekKind >>= f) (peekKind >>= g) (t :: u :: r) (t' :: u' :: r') :=
  h

/-- or at any token whatever. -/
theorem peek_any {f g : TokenKind → Reader α}
    (h : ∀ kind kind', m.Follows (f kind) (g kind') ts ts') :
    m.Follows (peekKind >>= f) (peekKind >>= g) ts ts' :=
  h _ _

/-- Counting the tokens that are left. -/
theorem get {f g : List Token → Reader α} (h : m.Follows (f ts) (g ts') ts ts') :
    m.Follows (MonadState.get >>= f) (MonadState.get >>= g) ts ts' :=
  h

/-- Passing a token that stands for itself. -/
theorem pass (h : m.Paired (t :: r) (t' :: r')) (hplain : t.kind.isPlain = true)
    (hx : m.Paired r r' → m.Follows x y r r') :
    m.Follows (do let _ ← advance; x) (do let _ ← advance; y) (t :: r) (t' :: r') :=
  Ends.mono (hx (tail h hplain).1) (Nat.le_succ _)

/-- A token that must come: both runs pass it, or both refuse, or the first one is excused at its
end. -/
theorem expect {kind : TokenKind} (hplain : kind.isPlain = true) (h : m.Paired ts ts')
    (hx : ∀ {r r' : List Token}, m.Paired r r' → r.length < ts.length → m.Follows x y r r') :
    m.Follows (do let _ ← expect kind; x) (do let _ ← expect kind; y) ts ts' := by
  obtain ⟨t, r, t', r', rfl, rfl, -⟩ := exists_cons h
  have hrun := expect_cons kind t r
  have hrun' := expect_cons kind t' r'
  rw [Follows]
  by_cases ht : t.kind = kind
  · obtain ⟨htail, hkind, -⟩ := tail h (ht ▸ hplain)
    rw [if_pos ht] at hrun
    rw [if_pos (hkind.trans ht)] at hrun'
    rw [RunsAlike.bind_of_ok hrun, RunsAlike.bind_of_ok hrun']
    exact (hx htail (Nat.lt_succ_self _)).mono (Nat.le_succ _)
  · rw [if_neg ht] at hrun
    rw [RunsAlike.bind_of_error hrun]
    rcases kind_iff_or h kind with hiff | ⟨-, hexcused⟩
    · rw [if_neg (hiff.not.mpr ht)] at hrun'
      rw [RunsAlike.bind_of_error hrun']
      exact .refused (.expression _) (.expression _)
    -- the first list ends, and the second one has a parenthesis instead
    · exact .excused (hexcused _)

/-- A keyword that must come. -/
theorem expectWord {s : String} (h : m.Paired ts ts')
    (hx : ∀ {r r' : List Token}, m.Paired r r' → r.length < ts.length → m.Follows x y r r') :
    m.Follows (do expectWord s; x) (do expectWord s; y) ts ts' := by
  obtain ⟨t, r, t', r', rfl, rfl, hresembles⟩ := exists_cons h
  have hrun := expectWord_cons s t r
  have hrun' := expectWord_cons s t' r'
  rw [hresembles.isWord_eq s] at hrun'
  rw [Follows]
  by_cases ht : t.isWord s = true
  · rw [if_pos ht] at hrun hrun'
    rw [RunsAlike.bind_of_ok hrun, RunsAlike.bind_of_ok hrun']
    exact (hx (tail h (isPlain_of_isWord ht)).1 (Nat.lt_succ_self _)).mono (Nat.le_succ _)
  · rw [if_neg ht] at hrun hrun'
    rw [RunsAlike.bind_of_error hrun, RunsAlike.bind_of_error hrun']
    exact .refused (.expression _) (.expression _)

/-- A token that may come.  It is not one that takes the place of the end, so both runs see it or
neither does. -/
theorem accept {f g : Bool → Reader α} {kind : TokenKind} (hplain : kind.isPlain = true)
    (hparen : kind ≠ .rightParen) (h : m.Paired ts ts')
    (hyes : ∀ {r r' : List Token}, m.Paired r r' → r.length < ts.length →
      m.Follows (f true) (g true) r r')
    (hno : m.Follows (f false) (g false) ts ts') :
    m.Follows (accept? kind >>= f) (accept? kind >>= g) ts ts' := by
  obtain ⟨t, r, t', r', rfl, rfl, hresembles⟩ := exists_cons h
  have hfinish : kind ≠ .finish := by
    rintro rfl
    cases hplain
  have hrun := accept?_cons kind t r
  have hrun' := accept?_cons kind t' r'
  simp only [hresembles.kind_iff _ hfinish hparen] at hrun'
  rw [Follows]
  by_cases ht : t.kind = kind
  · rw [if_pos ht] at hrun hrun'
    rw [RunsAlike.bind_of_ok hrun, RunsAlike.bind_of_ok hrun']
    exact (hyes (tail h (ht ▸ hplain)).1 (Nat.lt_succ_self _)).mono (Nat.le_succ _)
  · rw [if_neg ht] at hrun hrun'
    rw [RunsAlike.bind_of_ok hrun, RunsAlike.bind_of_ok hrun']
    exact hno

/-- Passing a token for what it stands for. -/
theorem decodeNext {d : List Char → Except Fault α} {f g : α → Reader β}
    (h : m.Paired (t :: r) (t' :: r')) (hkind : t.kind = .string ∨ t.kind = .number)
    (hd : t.decode = do let _ ← d t.text) (hf : ∀ a, m.Paired r r' → m.Follows (f a) (g a) r r') :
    m.Follows (do let u ← advance; let a ← liftM (d u.text); f a)
      (do let u ← advance; let a ← liftM (d u.text); g a) (t :: r) (t' :: r') := by
  -- the token is passed first, and what it stands for is looked up afterwards
  change m.Ends (r.length + 1) ((liftM (d t.text) >>= f : Reader β) r)
    ((liftM (d t'.text) >>= g : Reader β) r')
  cases m.pace h with
  | same _ htext _ hdecode htail =>
      rw [htext]
      cases hdt : d t.text with
      | ok a =>
          refine (hf a (htail.resolve_right fun hpipe => ?_)).mono (Nat.le_succ _)
          rcases hkind with hk | hk <;> cases hk.symm.trans hpipe.1
      | error fault =>
          rw [hd, hdt] at hdecode
          cases hdecode
  | spoilt _ hdecode hexcused =>
      cases hdt : d t.text with
      | ok a =>
          rw [hd, hdt] at hdecode
          cases hdecode
      | error fault =>
          rw [hd, hdt] at hdecode
          cases hdecode
          exact .excused hexcused
  | ends hfinish _ => rcases hkind with hk | hk <;> cases hk.symm.trans hfinish

/-- Passing a token, once it has been looked at, for what it stands for. -/
theorem decode {d : List Char → Except Fault α} {f : α → Reader β}
    (h : m.Paired (t :: r) (t' :: r')) (hkind : t.kind = .string ∨ t.kind = .number)
    (hd : t.decode = do let _ ← d t.text) (hf : ∀ a, m.Paired r r' → m.Follows (f a) (f a) r r') :
    m.Follows (do let _ ← advance; let a ← liftM (d t.text); f a)
      (do let _ ← advance; let a ← liftM (d t'.text); f a) (t :: r) (t' :: r') :=
  decodeNext h hkind hd hf

end Follows

/-! ### Repetition -/

section Repetition

variable {operand : Reader Expr} {join? : Token → Option (Expr → Expr → Expr)}

/-- Tokens that are not told apart join alike; and those that join operands stand for themselves,
or are the bars between what readers of a level read. -/
structure JoinsAlike (limit : Nat) (operand : Reader Expr)
    (join? : Token → Option (Expr → Expr → Expr)) : Prop where
  same : ∀ {t t' : Token}, t.Resembles t' → join? t' = join? t
  passes : ∀ {t : Token}, join? t ≠ none → t.kind.isPlain = true ∨
    t.kind = .pipe ∧ ∃ levels, operand = readDisjunction (enterAt limit levels)

/-- Operands are joined alike, by induction on the count of the first run.  The second run may count
from more, since it has more tokens. -/
theorem joinFrom_follows (hoperand : m.InStep operand) (hjoins : JoinsAlike limit operand join?)
    {fuel fuel' : Nat} {left : Expr} (h : m.Paired ts ts') (hfuel : ts.length ≤ fuel)
    (hle : fuel ≤ fuel') :
    m.Follows (joinFrom operand join? fuel left) (joinFrom operand join? fuel' left) ts ts' := by
  induction fuel generalizing fuel' left ts ts' with
  -- the count is used up only when there are no tokens
  | zero => exact absurd hfuel (Nat.not_le_of_lt (length_pos h))
  | succ fuel ih =>
      obtain ⟨fuel', rfl⟩ := Nat.exists_eq_add_one.mpr (Nat.zero_lt_of_lt hle)
      obtain ⟨t, r, t', r', rfl, rfl, hresembles⟩ := exists_cons h
      refine .current ?_
      rw [hjoins.same hresembles]
      cases hj : join? t with
      | none => exact .pure h left
      | some join =>
          have hgoOn (htail : m.Paired r r') : m.Follows (do
              let right ← operand
              joinFrom operand join? fuel (join left right)) (do
              let right ← operand
              joinFrom operand join? fuel' (join left right)) r r' :=
            (hoperand htail).bind fun right _ _ hrest hlength =>
              ih hrest (Nat.le_trans hlength (Nat.le_of_succ_le_succ hfuel))
                (Nat.le_of_succ_le_succ hle)
          rcases hjoins.passes (hj ▸ Option.some_ne_none join) with
            hplain | ⟨hpipe, levels, hlevels⟩
          · exact .pass h hplain hgoOn
          -- behind a bar the lists need not be related, if no operand follows
          · rcases tail_of_pipe h hpipe with htail | hnone
            · exact (hgoOn htail).mono (Nat.le_succ _)
            · obtain ⟨fault, hfault, hexcused⟩ := hnone levels
              rw [← hlevels] at hfault
              have hrun : (do
                  let right ← operand
                  joinFrom operand join? fuel (join left right)) r = .error fault :=
                RunsAlike.bind_of_error hfault
              change m.Ends _ ((do
                  let right ← operand
                  joinFrom operand join? fuel (join left right)) r) _
              rw [hrun]
              exact .excused hexcused

/-- A reader of operands that is in step is so with whatever joins its operands. -/
theorem joined_inStep (hoperand : m.InStep operand) (hjoins : JoinsAlike limit operand join?) :
    m.InStep (joined operand join?) :=
  fun h => (hoperand h).bind fun _ _ _ hrest _ =>
    .get (joinFrom_follows hoperand hjoins hrest (Nat.le_refl _) (m.length_le hrest))

/-- Items behind commas are read alike, by the same induction. -/
theorem moreItems_follows (hitem : m.InStep operand) {fuel fuel' : Nat} (h : m.Paired ts ts')
    (hfuel : ts.length ≤ fuel) (hle : fuel ≤ fuel') :
    m.Follows (moreItems operand fuel) (moreItems operand fuel') ts ts' := by
  induction fuel generalizing fuel' ts ts' with
  | zero => exact absurd hfuel (Nat.not_le_of_lt (length_pos h))
  | succ fuel ih =>
      obtain ⟨fuel', rfl⟩ := Nat.exists_eq_add_one.mpr (Nat.zero_lt_of_lt hle)
      refine .accept rfl (by decide) h (fun hr hlt => ?_) (.pure h [])
      refine (hitem hr).bind fun e _ _ hrest hlength => .map (ih hrest ?_ ?_)
      · exact Nat.le_of_lt_succ (Nat.lt_of_le_of_lt hlength (Nat.lt_of_lt_of_le hlt hfuel))
      · exact Nat.le_of_succ_le_succ hle

/-- Items up to a closing token, if none of them begins with the end. -/
theorem itemsUpTo_inStep (hitem : m.InStep operand)
    (hfinish : ∀ {t : Token} {r : List Token}, t.kind = .finish →
      ∃ fault, operand (t :: r) = .error fault)
    {closer : TokenKind} (hcloser : closer.isPlain = true) :
    m.InStep (itemsUpTo operand closer) := by
  intro ts ts' h
  have hclose (items : List Expr) {ts ts' : List Token} (h : m.Paired ts ts') :
      m.Follows (do let _ ← expect closer; return items) (do let _ ← expect closer; return items)
        ts ts' :=
    .expect hcloser h fun hr _ => .pure hr items
  obtain ⟨t, r, t', r', rfl, rfl, -⟩ := exists_cons h
  refine .current ?_
  by_cases ht : t.kind = closer
  · have ht' : t'.kind = closer := (tail h (ht ▸ hcloser)).2.1.trans ht
    simp only [ht, ht', ↓reduceIte]
    exact hclose [] h
  · rcases kind_iff_or h closer with hiff | ⟨hend, hexcused⟩
    · simp only [ht, hiff.not.mpr ht, ↓reduceIte]
      refine (hitem h).bind fun e _ _ hrest _ => .get ?_
      refine (moreItems_follows hitem hrest (Nat.le_refl _) (m.length_le hrest)).bind ?_
      exact fun es _ _ hrest _ => hclose (e :: es) hrest
    -- the second list closes where the first one ends: no item begins there
    · obtain ⟨fault, hfault⟩ := hfinish (r := r) hend
      simp only [ht, ↓reduceIte]
      rw [Follows, RunsAlike.bind_of_error hfault]
      exact .excused (hexcused fault)

end Repetition

end Quarry.Expr.Lockstep
