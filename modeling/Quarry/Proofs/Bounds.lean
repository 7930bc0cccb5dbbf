import Quarry.Proofs.Progress

/-!
# Bounds — parsing ends, inside its tokens and its levels

**Bounds** (`run_bounded`).  Let the tokens be those of a text.  Then no moment in the run of the
grammar is astray: every token that is read is there.  There are never more levels open than there
may be, unless the run has failed because of that.  A routine that is active twice, and so every
round of a repetition and every cycle of calls, has passed a token in between.  The run ends, with
what the tokens are read as; and when it ends with a result, all tokens are passed and every level
is left again.

Body by body the routines do what their readers do (`Routine.Mirrored`), and so the contract
`reading` is upheld (`reading_upheld`).  The rest is what contracts say about runs.
-/

namespace Quarry.Expr

variable {tokens : List Token} {limit : Nat}

/-- The body of a routine does what its reader does, and passes its tokens. -/
def Routine.Mirrored (tokens : List Token) (limit : Nat) (r : Routine) : Prop :=
  ∀ (x : r.Argument) (start : Cursor) (fuel : Nat), start.Ready tokens limit →
    r.Callable tokens start → tokens.length - start.index ≤ fuel →
      Mirrors tokens limit ⟨r, start⟩ (fun _ => Reached tokens limit start 0 r.stride) (r.body x)
        (r.reader (enterFrom limit start.nesting) fuel x) start

section Bodies

variable (hended : Ended tokens)

/-! ### Places -/

/-- A place with joining signs reads one operand and goes on from it. -/
theorem mirrored_joins {place : Place} {join? : Token → Option (Expr → Expr → Expr)}
    (hplace : place.joins? = some join?) : (Routine.place place).Mirrored tokens limit := by
  intro _ start _ hready _ _
  have hstart := Reached.refl hready
  obtain ⟨hreader, hgoOn, -, -⟩ := Place.reader_of_joins? (enterFrom limit start.nesting) hplace
  have hbody : Program.ofPlace place = (do
      let left ← Program.callPlace place.next
      Program.call (.goOn place) left) := by
    cases place <;> first | rfl | cases hplace
  have hlower : (Routine.place place.next).rank < (Routine.place place).rank := by
    cases place <;> first | decide | cases hplace
  change Mirrors _ _ _ _ (Program.ofPlace place) (place.reader _) _
  rw [hreader, hbody, joined, ← hgoOn]
  refine .callPlace_bind hstart rfl (.inr hlower) fun left c h => .get_bind ?_
  exact .call h rfl trivial (.inl (by decide)) List.length_drop.ge fun _ _ => id

include hended

/-- Going on passes a sign, reads another operand and calls itself behind it, with fuel that was
enough because a token was passed. -/
theorem mirrored_goOn_joins {place : Place} {join? : Token → Option (Expr → Expr → Expr)}
    (hplace : place.joins? = some join?) : (Routine.goOn place).Mirrored tokens limit := by
  intro e start fuel hready _ hfuel
  have hstart := Reached.refl hready
  obtain ⟨-, hgoOn, -, -⟩ := Place.reader_of_joins? (enterFrom limit start.nesting) hplace
  obtain ⟨fuel, rfl, hless⟩ := hready.exists_fuel hfuel
  change Mirrors _ _ _ _ (Program.goOnPlace place e) (place.goOn _ _ e) _
  rw [hgoOn, joinFrom, Program.goOnPlace, hplace]
  refine .current_bind hstart fun t ht => ?_
  cases hjoin : join? t with
  | none => exact .pure hstart
  | some join =>
      have hne : t.kind ≠ .finish := fun hfinish => by
        have hgrip := Place.grip_of_joins? hplace hjoin
        rw [Token.grip_of_kind hfinish (by decide)] at hgrip
        cases place <;> cases hgrip
      refine .advance_bind hended hstart ht hne fun h => ?_
      refine .callPlace_bind h rfl (.inl (by decide)) fun right c h => ?_
      rw [← hgoOn]
      exact .call h rfl trivial (.inl (by decide)) (hless h) fun _ _ h => h.weaken (Nat.zero_le _)

/-- The token behind a `not` tells whether it is a prefix; the reader looks at it in any case. -/
theorem mirrored_negation : (Routine.place .negation).Mirrored tokens limit := by
  intro _ start _ hready _ _
  have hstart := Reached.refl hready
  have hnegates {f : Bool → Program Expr} {x : Reader Expr} {t u : Token}
      (hu : tokens[min (start.index + 1) (tokens.length - 1)]? = some u)
      (hf : Mirrors tokens limit ⟨.place .negation, start⟩ (fun _ => Reached tokens limit start 0 1)
        (f (t.isWord "not" && startsPrimary u.kind)) x start) :
      Mirrors tokens limit ⟨.place .negation, start⟩ (fun _ => Reached tokens limit start 0 1)
        (Program.negates t >>= f) x start := by
    rw [Program.negates]
    cases hword : t.isWord "not" with
    | true =>
        rw [hword] at hf
        exact .peek_bind hu hf
    | false =>
        rw [hword] at hf
        exact hf
  change Mirrors _ _ _ _ (Program.ofPlace .negation) (readNegation _) _
  refine .current_bind hstart fun t ht => .peekKind_bind hstart fun u hu => hnegates hu ?_
  split
  case isTrue hnot =>
    have hword : t.isWord "not" = true := (Bool.and_eq_true_iff.mp hnot).1
    refine .advance_bind hended hstart ht (Token.kind_ne_finish_of_isWord hword) fun h => ?_
    refine .enter_bind h fun c h => .callPlace_bind h rfl (.inl (by decide)) fun e c h => ?_
    exact .leave_bind h fun c h => .pure (h.weaken (by decide))
  case isFalse => exact .callPlace hstart rfl (.inr (by decide)) fun _ _ => id

/-- A comparison reads two operands at most. -/
theorem mirrored_comparison : (Routine.place .comparison).Mirrored tokens limit := by
  intro _ start _ hready _ _
  have hstart := Reached.refl hready
  change Mirrors _ _ _ _ (Program.ofPlace .comparison) (readComparison _) _
  refine .callPlace_bind hstart rfl (.inr (by decide)) fun left c h => ?_
  refine .current_bind h fun t ht => ?_
  cases hrelation : relation? t.kind with
  | none => exact .pure h
  | some relation =>
      have hne : t.kind ≠ .finish := fun hfinish => by
        rw [hfinish] at hrelation
        cases hrelation
      refine .advance_bind hended h ht hne fun h => ?_
      refine .callPlace_bind h rfl (.inl (by decide)) fun right c h => ?_
      exact .pure (h.weaken (by decide))

/-- A sign goes one level in, for the operand that it is in front of. -/
theorem mirrored_unary : (Routine.place .unary).Mirrored tokens limit := by
  intro _ start _ hready _ _
  have hstart := Reached.refl hready
  change Mirrors _ _ _ _ (Program.ofPlace .unary) (readUnary _) _
  refine .accept?_bind hended (by decide) hstart (fun c h => ?_) ?_
  · refine .enter_bind h fun c h => .callPlace_bind h rfl (.inl (by decide)) fun e c h => ?_
    exact .leave_bind h fun c h => .pure (h.weaken (by decide))
  · exact .callPlace hstart rfl (.inr (by decide)) fun _ _ => id

omit hended in
/-- A source is a primary with what stands behind it. -/
theorem mirrored_path : (Routine.place .path).Mirrored tokens limit := by
  intro _ start fuel hready _ hfuel
  change Mirrors _ _ _ _ (Program.ofPlace .path)
    (Routine.primary.reader (enterFrom limit start.nesting) fuel () >>= _) _
  refine .call_bind (.refl hready) rfl trivial (.inr (by decide)) hfuel fun source c h => ?_
  exact .get_bind (.call h rfl trivial (.inl (by decide)) List.length_drop.ge fun _ _ => id)

/-- What stands behind a source begins with a field, a dot or a bracket, and each of these is passed
before the routine calls itself. -/
theorem mirrored_goOn_path : (Routine.goOn .path).Mirrored tokens limit := by
  intro source start fuel hready _ hfuel
  have hstart := Reached.refl hready
  obtain ⟨fuel, rfl, hless⟩ := hready.exists_fuel hfuel
  -- every way to go on has passed a token, the dot in front of a bracket too
  have hgoOn {c : Cursor} {passed : Nat} (e : Expr)
      (h : Reached tokens limit start 0 (passed + 1) c) :
      Mirrors tokens limit ⟨.goOn .path, start⟩ (fun _ => Reached tokens limit start 0 0)
        (Program.call (.goOn .path) e) (postfixFrom (enterFrom limit start.nesting) fuel e) c :=
    .call h rfl trivial (.inl (Nat.succ_pos _)) (hless h) fun _ _ h => h.weaken (Nat.zero_le _)
  change Mirrors _ _ _ _ (Program.goOnPath source) (postfixFrom _ _ source) _
  refine .current_bind hstart fun t ht => .peekKind_bind hstart fun u hu => ?_
  cases hkind : t.kind with
  | field => exact .advance_bind hended hstart ht (by rw [hkind]; decide) fun h => hgoOn _ h
  | dot =>
      have hdot : t.kind ≠ .finish := by rw [hkind]; decide
      refine .peek_bind hu ?_
      cases hnext : u.kind with
      | string =>
          refine .advance_bind hended hstart ht hdot fun h => ?_
          have hinside : start.index + 1 < tokens.length := h.inside
          rw [Nat.min_eq_left (by omega)] at hu
          refine .advance_bind hended h hu (by rw [hnext]; decide) fun h => ?_
          exact .attempt_bind fun name => hgoOn _ h
      | leftBracket => exact .advance_bind hended hstart ht hdot fun h => hgoOn _ h
      | _ => exact .pure hstart
  | leftBracket =>
      refine .advance_bind hended hstart ht (by rw [hkind]; decide) fun h => ?_
      refine .enter_bind h fun c h => .callPlace_bind h rfl (.inl (by decide)) fun index c h => ?_
      refine .leave_bind h fun c h => ?_
      exact .expect_bind hended (by decide) h fun _ c h => hgoOn _ h
  | _ => exact .pure hstart

/-! ### Lists -/

/-- A further item has a comma in front of it. -/
theorem mirrored_moreItems : Routine.moreItems.Mirrored tokens limit := by
  intro _ start fuel hready _ hfuel
  have hstart := Reached.refl hready
  obtain ⟨fuel, rfl, hless⟩ := hready.exists_fuel hfuel
  change Mirrors _ _ _ _ Program.ofItems (moreItems _ _) _
  refine .accept?_bind hended (by decide) hstart (fun c h => ?_) (.pure hstart)
  refine .callPlace_bind h rfl (.inl (by decide)) fun e c h => ?_
  refine .call_bind h rfl trivial (.inl (by decide)) (hless h) fun es c h => ?_
  exact .pure (h.weaken (Nat.zero_le _))

/-- What is between commas, after an opening token. -/
theorem mirrors_itemsUpTo {r : Routine} {start c : Cursor} {passed : Nat} {closer : TokenKind}
    (hcloser : closer ≠ .finish) (h : Reached tokens limit start 1 (passed + 1) c) :
    Mirrors tokens limit ⟨r, start⟩ (fun _ => Reached tokens limit start 1 (passed + 1))
      (Program.itemsUpTo closer)
      (itemsUpTo (readPipe (enterFrom limit (start.nesting + 1))) closer) c := by
  have hrest (items : List Expr) {c : Cursor} (h : Reached tokens limit start 1 (passed + 1) c) :
      Mirrors tokens limit ⟨r, start⟩ (fun _ => Reached tokens limit start 1 (passed + 1))
        (do let _ ← Program.expect closer; return items)
        (do let _ ← expect closer; return items) c :=
    .expect_bind hended hcloser h fun _ c h => .pure (h.weaken (Nat.le_succ _))
  refine .current_bind h fun t ht => ?_
  dsimp only
  split
  case isTrue => exact hrest [] h
  case isFalse =>
    refine .callPlace_bind h rfl (.inl (Nat.succ_pos _)) fun e c h => .get_bind ?_
    refine .call_bind h rfl trivial (.inl (Nat.succ_pos _)) List.length_drop.ge fun es c h => ?_
    exact hrest (e :: es) (h.weaken (Nat.le_succ _))

/-- An array goes one level in behind its bracket and leaves it before the closing one is passed. -/
theorem mirrored_array : Routine.array.Mirrored tokens limit := by
  intro _ start fuel hready _ _
  change Mirrors _ _ _ _ Program.ofArray (readArray _) _
  refine .expect_bind hended (by decide) (.refl hready) fun _ c h => .enter_bind h fun c h => ?_
  refine (mirrors_itemsUpTo hended (by decide) h).bind fun items c h => ?_
  exact .leave_bind h fun c h => .pure h

/-! ### Objects -/

/-- Keys are read in the course of an entry, by no routine of their own, -/
theorem mirrors_key {r : Routine} {start c : Cursor} {passed : Nat}
    (hreached : Reached tokens limit start 0 passed c) :
    Mirrors tokens limit ⟨r, start⟩ (fun _ => Reached tokens limit start 0 (passed + 1))
      Program.key (readKey (.around (enterFrom limit start.nesting))) c := by
  refine .current_bind hreached fun t ht => ?_
  cases hkind : t.kind with
  | word => exact .advance_bind hended hreached ht (by rw [hkind]; decide) fun h => .pure h
  | string =>
      refine .advance_bind hended hreached ht (by rw [hkind]; decide) fun h => ?_
      exact .attempt_bind fun name => .pure h
  | leftParen =>
      refine .advance_bind hended hreached ht (by rw [hkind]; decide) fun h => ?_
      refine .callPlace_bind h rfl (.inl (Nat.succ_pos _)) fun e c h => ?_
      exact .expect_bind hended (by decide) h fun _ c h => .pure (h.weaken (by omega))
  | _ => exact .refuse _

/-- and so are entries; either way a token is passed. -/
theorem mirrors_entry {r : Routine} {start c : Cursor} {passed : Nat}
    (hreached : Reached tokens limit start 0 passed c) :
    Mirrors tokens limit ⟨r, start⟩ (fun _ => Reached tokens limit start 0 (passed + 1))
      Program.entry (readEntry (.around (enterFrom limit start.nesting))) c := by
  refine .current_bind hreached fun t ht => ?_
  refine (mirrors_key hended hreached).bind fun key c h => ?_
  refine .accept?_bind hended (by decide) h (fun c h => ?_) ?_
  · refine .callPlace_bind h rfl (.inl (Nat.succ_pos _)) fun e c h => ?_
    cases key <;> exact .pure (h.weaken (by omega))
  · cases key with
    | inl name => exact .pure h
    | inr e => exact .refuse _

/-- Entries have a comma between them. -/
theorem mirrored_entries : Routine.entries.Mirrored tokens limit := by
  intro _ start fuel hready _ hfuel
  have hstart := Reached.refl hready
  obtain ⟨fuel, rfl, hless⟩ := hready.exists_fuel hfuel
  change Mirrors _ _ _ _ Program.ofEntries (readEntries _ _) _
  refine .current_bind hstart fun t ht => ?_
  split
  case isTrue => exact .pure hstart
  case isFalse =>
    refine (mirrors_entry hended hstart).bind fun e c h => ?_
    refine .accept?_bind hended (by decide) h (fun c h => ?_) (.pure (h.weaken (Nat.zero_le _)))
    refine .call_bind h rfl trivial (.inl (by decide)) (hless h) fun es c h => ?_
    exact .pure (h.weaken (Nat.zero_le _))

/-- An object is entered like an array. -/
theorem mirrored_object : Routine.object.Mirrored tokens limit := by
  intro _ start fuel hready _ _
  change Mirrors _ _ _ _ Program.ofObject (readObject _) _
  refine .expect_bind hended (by decide) (.refl hready) fun _ c h => .enter_bind h fun c h => ?_
  refine .get_bind ?_
  refine .call_bind h rfl trivial (.inl (by decide)) List.length_drop.ge fun members c h => ?_
  refine .expect_bind hended (by decide) h fun _ c h => ?_
  exact .leave_bind h fun c h => .pure (h.weaken (by decide))

/-! ### Conditionals -/

/-- A further branch has its `elif` in front. -/
theorem mirrored_branches : Routine.branches.Mirrored tokens limit := by
  intro _ start fuel hready _ hfuel
  have hstart := Reached.refl hready
  obtain ⟨fuel, rfl, hless⟩ := hready.exists_fuel hfuel
  change Mirrors _ _ _ _ Program.ofBranches (readBranches _ _) _
  refine .current_bind hstart fun t ht => ?_
  split
  case isFalse => exact .pure hstart
  case isTrue hword =>
    refine .advance_bind hended hstart ht (Token.kind_ne_finish_of_isWord hword) fun h => ?_
    refine .callPlace_bind h rfl (.inl (by decide)) fun condition c h => ?_
    refine .expectWord_bind hended h fun c h => ?_
    refine .callPlace_bind h rfl (.inl (by decide)) fun result c h => ?_
    refine .call_bind h rfl trivial (.inl (by decide)) (hless h) fun branches c h => ?_
    exact .pure (h.weaken (Nat.zero_le _))

/-- A conditional goes one level in behind its `if`, and all its parts are read there. -/
theorem mirrored_conditional : Routine.conditional.Mirrored tokens limit := by
  intro _ start fuel hready _ _
  change Mirrors _ _ _ _ Program.ofConditional (readConditional _) _
  refine .expectWord_bind hended (.refl hready) fun c h => .enter_bind h fun c h => ?_
  refine .callPlace_bind h rfl (.inl (by decide)) fun condition c h => ?_
  refine .expectWord_bind hended h fun c h => ?_
  refine .callPlace_bind h rfl (.inl (by decide)) fun result c h => .get_bind ?_
  refine .call_bind h rfl trivial (.inl (by decide)) List.length_drop.ge fun branches c h => ?_
  have hrest (otherwise : Expr) {c : Cursor} (h : Reached tokens limit start 1 1 c) :
      Mirrors tokens limit ⟨.conditional, start⟩ (fun _ => Reached tokens limit start 0 1)
        (do
          Program.expectWord "end"
          Program.leave
          return Expr.conditional (.mk condition result :: branches) otherwise)
        (do
          expectWord "end"
          return Expr.conditional (.mk condition result :: branches) otherwise) c :=
    .expectWord_bind hended h fun c h => .leave_bind h fun c h => .pure (h.weaken (by decide))
  refine .current_bind h fun t ht => ?_
  dsimp only
  split
  case isTrue hword =>
    refine .advance_bind hended h ht (Token.kind_ne_finish_of_isWord hword) fun h => ?_
    refine .callPlace_bind h rfl (.inl (by decide)) fun otherwise c h => ?_
    exact hrest otherwise (h.weaken (by decide))
  case isFalse => exact hrest .identity (h.weaken (by decide))

/-! ### Names and primaries -/

omit hended in
/-- Making a call passes no token. -/
theorem mirrors_makeCall {r : Routine} {start c : Cursor} {Q : Expr → Cursor → Prop} (t : Token)
    (arguments : List Expr) (hQ : ∀ e, Q e c) :
    Mirrors tokens limit ⟨r, start⟩ Q (Program.attempt ((makeCall t arguments).run' []))
      (makeCall t arguments) c := by
  rw [makeCall.eq_def]
  dsimp only
  split
  · exact .refuse _
  · exact .pure (hQ _)
  · exact .pure (hQ _)
  · exact .pure (hQ _)
  · exact .refuse _

/-- A word is a constant, a conditional or a call, and it is passed in each case. -/
theorem mirrored_named : Routine.named.Mirrored tokens limit := by
  intro _ start fuel hready hcallable hfuel
  have hstart := Reached.refl hready
  obtain ⟨t, ht, hword⟩ := hcallable
  have hne : t.kind ≠ .finish := by rw [hword]; decide
  change Mirrors _ _ _ _ Program.ofNamed (readNamed _) _
  refine .current_bind hstart fun u hu => ?_
  obtain rfl : t = u := Option.some.inj (ht.symm.trans hu)
  dsimp only
  split_ifs
  · exact .advance_bind hended hstart ht hne fun h => .pure h
  · exact .advance_bind hended hstart ht hne fun h => .pure h
  · exact .advance_bind hended hstart ht hne fun h => .pure h
  · exact .call hstart rfl trivial (.inr (by decide)) hfuel fun _ _ => id
  · exact .refuse _
  · refine .advance_bind hended hstart ht hne fun h => ?_
    refine .accept?_bind hended (by decide) h (fun c h => ?_) (mirrors_makeCall t [] fun _ => h)
    refine .enter_bind h fun c h => ?_
    refine (mirrors_itemsUpTo hended (by decide) h).bind fun arguments c h => ?_
    exact .leave_bind h fun c h => mirrors_makeCall t arguments fun _ => h.weaken (by decide)

/-- The first token of a primary says which routine reads it, and only some of these begin with a
call. -/
theorem mirrored_primary : Routine.primary.Mirrored tokens limit := by
  intro _ start fuel hready _ hfuel
  have hstart := Reached.refl hready
  change Mirrors _ _ _ _ Program.ofPrimary (readPrimary _) _
  refine .current_bind hstart fun t ht => ?_
  cases hkind : t.kind with
  | number =>
      refine .advance_bind hended hstart ht (by rw [hkind]; decide) fun h => ?_
      exact .attempt_bind fun v => .pure h
  | string =>
      refine .advance_bind hended hstart ht (by rw [hkind]; decide) fun h => ?_
      exact .attempt_bind fun s => .pure h
  | field => exact .advance_bind hended hstart ht (by rw [hkind]; decide) fun h => .pure h
  | dot =>
      refine .advance_expect_bind hended hstart ht hkind (by decide) fun c h => ?_
      refine .current_bind h fun u hu => ?_
      split
      case isTrue hstring =>
        refine .advance_bind hended h hu (by rw [hstring]; decide) fun h => ?_
        exact .attempt_bind fun name => .pure (h.weaken (by decide))
      case isFalse => exact .pure h
  | leftParen =>
      refine .advance_expect_bind hended hstart ht hkind (by decide) fun c h => ?_
      refine .enter_bind h fun c h => .callPlace_bind h rfl (.inl (by decide)) fun e c h => ?_
      refine .leave_bind h fun c h => ?_
      exact .expect_bind hended (by decide) h fun _ c h => .pure (h.weaken (by decide))
  | leftBracket => exact .call hstart rfl trivial (.inr (by decide)) hfuel fun _ _ => id
  | leftBrace => exact .call hstart rfl trivial (.inr (by decide)) hfuel fun _ _ => id
  | word => exact .call hstart rfl ⟨t, ht, hkind⟩ (.inr (by decide)) hfuel fun _ _ => id
  | _ => exact .refuse _

/-! ### All routines -/

/-- A whole expression ends where the tokens end, with every level left. -/
theorem mirrors_whole {start : Cursor} (hready : start.Ready tokens limit) (fuel : Nat) :
    Mirrors tokens limit ⟨.whole, start⟩ (fun _ => Routine.whole.Lands tokens limit start)
      Program.ofWhole (Routine.whole.reader (enterFrom limit start.nesting) fuel ()) start := by
  refine .callPlace_bind (.refl hready) rfl (.inr (by decide)) fun e c h => ?_
  refine .expect_finish_bind hended h fun _ => ?_
  rw [h.levels]
  exact .pure rfl

/-- **Every routine does what its reader does.**  There is one lemma for each body; places that join
are one family. -/
theorem Routine.mirrored (r : Routine) : r.Mirrored tokens limit := by
  cases r with
  | whole => exact fun _ _ _ _ hcallable => hcallable.elim
  | place place =>
      cases place with
      | negation => exact mirrored_negation hended
      | comparison => exact mirrored_comparison hended
      | unary => exact mirrored_unary hended
      | path => exact mirrored_path
      | _ => exact mirrored_joins rfl
  | goOn place =>
      cases place with
      | path => exact mirrored_goOn_path hended
      | negation | comparison | unary => exact fun _ _ _ hready _ _ => .pure (.refl hready)
      | _ => exact mirrored_goOn_joins hended rfl
  | primary => exact mirrored_primary hended
  | array => exact mirrored_array hended
  | object => exact mirrored_object hended
  | conditional => exact mirrored_conditional hended
  | named => exact mirrored_named hended
  | moreItems => exact mirrored_moreItems hended
  | entries => exact mirrored_entries hended
  | branches => exact mirrored_branches hended

/-- So the contract is upheld by every body, for each amount of fuel. -/
theorem reading_upheld : (reading tokens limit).Upheld tokens limit := by
  intro r x start hready hadmits
  -- the contract speaks of every fuel at once, the comparisons of one at a time
  refine Meets.all fun extra => ?_
  rcases hadmits with rfl | hcallable
  · exact mirrors_whole hended hready _
  · simp only [hcallable.lands_eq]
    exact r.mirrored hended x start _ hready hcallable (Nat.le_add_right _ _)

end Bodies

/-! ### Runs -/

/-- A moment in a run is inside the tokens and the levels.  A routine that is active twice began at
different tokens; a result has all tokens behind it and no level open; and a fault with more levels
than there may be says so. -/
def Config.Inside (tokens : List Token) (limit : Nat) : Config → Prop
  | .running start _ stack c => c.nesting ≤ limit ∧
      (stack.calls start).Pairwise fun inner outer =>
        inner.routine = outer.routine → outer.start.index < inner.start.index
  | .finished _ c => c = ⟨tokens.length, 0⟩
  | .failed fault c => c.nesting ≤ limit ∨ fault = .tooDeep limit ∧ c.nesting = limit + 1
  | .astray => False

/-- A run is over with an outcome: with a result when all tokens are passed and no level is open. -/
def Config.EndsWith (tokens : List Token) (config : Config) : Except Fault Expr → Prop
  | .ok e => config = .finished e ⟨tokens.length, 0⟩
  | .error fault => ∃ c, config = .failed fault c

/-- The tokens of a text are read by the reader of whole texts. -/
theorem ofTokens_eq (limit fuel : Nat) (tokens : List Token) :
    ofTokens limit tokens =
      (Routine.whole.reader (enterFrom limit 0) fuel () tokens).map Prod.fst := by
  rw [ofTokens, at_eq_around]
  change (Routine.whole.reader (enterFrom limit 0) fuel () tokens >>= fun result =>
    Pure.pure result.1) = _
  cases Routine.whole.reader (enterFrom limit 0) fuel () tokens <;> rfl

namespace Config.Kept

variable {config : Config}

/-- What the contract keeps says that the run is inside its tokens and levels. -/
theorem inside (h : config.Kept tokens limit (reading tokens limit)) :
    config.Inside tokens limit := by
  cases config with
  | running start program stack c =>
      obtain ⟨hnesting, x, -, hstack⟩ := h
      exact ⟨hnesting, hstack.pairwise.imp Call.Below.passed⟩
  | finished e c => exact (h 0).2
  | failed fault c => exact h.2
  | astray => exact h

/-- A run that is over ends with what the tokens are read as. -/
theorem endsWith (h : config.Kept tokens limit (reading tokens limit)) (hhalted : config.Halted) :
    config.EndsWith tokens (ofTokens limit tokens) := by
  cases config with
  | running start program stack c => exact hhalted.elim
  | finished e c =>
      obtain ⟨hreader, rfl⟩ := h 0
      have houtcome : ofTokens limit tokens = .ok e :=
        (ofTokens_eq limit _ tokens).trans (congrArg (Except.map Prod.fst) hreader)
      rw [houtcome]
      exact rfl
  | failed fault c =>
      have houtcome : ofTokens limit tokens = .error fault :=
        (ofTokens_eq limit _ tokens).trans (congrArg (Except.map Prod.fst) (h.1 0))
      rw [houtcome]
      exact ⟨c, rfl⟩
  | astray => exact h.elim

end Config.Kept

/-- **Parsing stays inside its bounds and ends.**  Every moment of the run is inside the tokens and
the levels, and some moment is the last one, with what the tokens are read as. -/
theorem run_bounded {text : String} {tokens : List Token} (limit : Nat)
    (hscan : scan text = .ok tokens) :
    (∀ n, (configAfter tokens limit n).Inside tokens limit) ∧
      ∃ n, (configAfter tokens limit n).EndsWith tokens (ofTokens limit tokens) := by
  have hended := Ended.of_scan hscan
  have hbodies : (reading tokens limit).Upheld tokens limit := reading_upheld hended
  have hkept := kept_configAfter hbodies hended.ne_nil (.inl rfl)
  refine ⟨fun n => (hkept n).inside, ?_⟩
  obtain ⟨n, hhalted⟩ := halts hbodies hended.ne_nil (.inl rfl)
  exact ⟨n, (hkept n).endsWith hhalted⟩

/-- A dot in front of a bracket is passed, and two levels are entered one after the other: that
takes one level. -/
theorem run_bounded_indexed :
    ∃ tokens, scan "(.).[.a]" = .ok tokens ∧ tokens.length = 8 ∧
      (∀ n, (configAfter tokens 1 n).Inside tokens 1) ∧
      (∃ n, configAfter tokens 1 n =
        .finished (.index .identity (.field .identity "a")) ⟨8, 0⟩) ∧
      ∃ n c, configAfter tokens 0 n = .failed (.tooDeep 0) c := by
  have hscan : scan "(.).[.a]" = .ok [⟨.leftParen, ['('], 0⟩, ⟨.dot, ['.'], 1⟩,
      ⟨.rightParen, [')'], 2⟩, ⟨.dot, ['.'], 3⟩, ⟨.leftBracket, ['['], 4⟩,
      ⟨.field, ['.', 'a'], 5⟩, ⟨.rightBracket, [']'], 7⟩, ⟨.finish, [], 8⟩] := by
    rfl
  obtain ⟨hinside, n, hends⟩ := run_bounded 1 hscan
  obtain ⟨-, n', hends'⟩ := run_bounded 0 hscan
  exact ⟨_, hscan, rfl, hinside, ⟨n, hends⟩, n', hends'⟩

end Quarry.Expr
