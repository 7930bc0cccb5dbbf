import Quarry.Expr.Reader
import Quarry.Proofs.Invariants

/-!
# Expression texts — literals, and what the limit does

The readers of one level are built from those of the level inside, and the limit only says how many
levels there are.  So readers with a wider limit read the same expression, as long as the narrower
limit is enough: first for each reader around an inner level, then for all levels by induction
(`at_alike`).

The literals of an expression that was read are well formed; a numeral with a large exponent makes
an infinite one.
-/

namespace Quarry

/-! ### Numerals -/

/-- Rounding gives a float of some size or an infinity, -/
theorem Binary64.ofParts_ne_nan (negative : Bool) (significand shift : Nat) :
    ofParts negative significand shift ≠ .nan := by
  rw [ofParts]
  split <;> rintro ⟨⟩

/-- so does a quotient, -/
theorem Binary64.ofQuotient_ne_nan (negative : Bool) (num den : Nat) :
    ofQuotient negative num den ≠ .nan := by
  rw [ofQuotient]
  split <;> exact ofParts_ne_nan _ _ _

/-- and a decimal numeral, whatever its exponent, is never read as not a number. -/
theorem Binary64.ofDecimal_ne_nan (negative : Bool) (digits : Nat) (exponent : Int) :
    ofDecimal negative digits exponent ≠ .nan := by
  rw [ofDecimal]
  split
  · rintro ⟨⟩
  · split
    · rintro ⟨⟩
    · split
      · rintro ⟨⟩
      · exact ofQuotient_ne_nan _ _ _

/-- A numeral stands for a number in normal form, unless it has too many digits. -/
theorem Text.Numeral.toNumber_isNormal (n : Numeral) : Ends Any Number.IsNormal n.toNumber := by
  rw [toNumber]
  split
  · exact (EndsAlike.any _).map fun m _ => Number.isNormal_int m
  · exact .ok (Number.isNormal_ofFloat (Binary64.ofDecimal_ne_nan _ _ _))

namespace Expr

/-! ### Literals -/

mutual

/-- Every literal of an expression has a property. -/
def EveryLiteral (p : Value → Prop) : Expr → Prop
  | .literal v => p v
  | .identity => True
  | .field source _ => source.EveryLiteral p
  | .index source position => source.EveryLiteral p ∧ position.EveryLiteral p
  | .pipe left right => left.EveryLiteral p ∧ right.EveryLiteral p
  | .array items => EveryItemLiteral p items
  | .object entries => EveryEntryLiteral p entries
  | .not operand => operand.EveryLiteral p
  | .negate operand => operand.EveryLiteral p
  | .binary _ left right => left.EveryLiteral p ∧ right.EveryLiteral p
  | .conditional branches otherwise => EveryBranchLiteral p branches ∧ otherwise.EveryLiteral p
  | .subject _ none => True
  | .subject _ (some inner) => inner.EveryLiteral p
  | .argument _ inner => inner.EveryLiteral p

/-- Every literal of several expressions has a property. -/
def EveryItemLiteral (p : Value → Prop) : List Expr → Prop
  | [] => True
  | e :: es => e.EveryLiteral p ∧ EveryItemLiteral p es

/-- Every literal of an object constructor's members has a property. -/
def EveryEntryLiteral (p : Value → Prop) : List Entry → Prop
  | [] => True
  | .named _ e :: es => e.EveryLiteral p ∧ EveryEntryLiteral p es
  | .computed key e :: es => key.EveryLiteral p ∧ e.EveryLiteral p ∧ EveryEntryLiteral p es

/-- Every literal of branches has a property. -/
def EveryBranchLiteral (p : Value → Prop) : List Branch → Prop
  | [] => True
  | .mk condition result :: rest =>
      condition.EveryLiteral p ∧ result.EveryLiteral p ∧ EveryBranchLiteral p rest

end

section

variable {p : Value → Prop}

mutual

/-- A property of all values holds of every literal. -/
theorem everyLiteral_of_forall (h : ∀ v, p v) : ∀ e : Expr, e.EveryLiteral p
  | .literal v => h v
  | .identity => trivial
  | .field source _ => everyLiteral_of_forall h source
  | .index source position =>
      ⟨everyLiteral_of_forall h source, everyLiteral_of_forall h position⟩
  | .pipe left right => ⟨everyLiteral_of_forall h left, everyLiteral_of_forall h right⟩
  | .array items => everyItemLiteral_of_forall h items
  | .object entries => everyEntryLiteral_of_forall h entries
  | .not operand => everyLiteral_of_forall h operand
  | .negate operand => everyLiteral_of_forall h operand
  | .binary _ left right => ⟨everyLiteral_of_forall h left, everyLiteral_of_forall h right⟩
  | .conditional branches otherwise =>
      ⟨everyBranchLiteral_of_forall h branches, everyLiteral_of_forall h otherwise⟩
  | .subject _ none => trivial
  | .subject _ (some inner) => everyLiteral_of_forall h inner
  | .argument _ inner => everyLiteral_of_forall h inner

theorem everyItemLiteral_of_forall (h : ∀ v, p v) : ∀ items, EveryItemLiteral p items
  | [] => trivial
  | e :: items => ⟨everyLiteral_of_forall h e, everyItemLiteral_of_forall h items⟩

theorem everyEntryLiteral_of_forall (h : ∀ v, p v) : ∀ entries, EveryEntryLiteral p entries
  | [] => trivial
  | .named _ e :: entries => ⟨everyLiteral_of_forall h e, everyEntryLiteral_of_forall h entries⟩
  | .computed key e :: entries =>
      ⟨everyLiteral_of_forall h key, everyLiteral_of_forall h e,
        everyEntryLiteral_of_forall h entries⟩

theorem everyBranchLiteral_of_forall (h : ∀ v, p v) : ∀ branches, EveryBranchLiteral p branches
  | [] => trivial
  | .mk condition result :: branches =>
      ⟨everyLiteral_of_forall h condition, everyLiteral_of_forall h result,
        everyBranchLiteral_of_forall h branches⟩

end

end

/-- Every literal is well formed. -/
abbrev Sound (e : Expr) : Prop :=
  e.EveryLiteral Value.WellFormed

/-- Two readers of expressions end alike. -/
abbrev ReadAlike (x y : Reader Expr) : Prop :=
  RunsAlike id Sound x y

/-- The value of a number's text is well formed; a text that is no numeral counts as null. -/
theorem numberValue_wellFormed (text : List Char) :
    Ends Any Value.WellFormed (numberValue text) := by
  rw [numberValue]
  split
  · exact (Text.Numeral.toNumber_isNormal _).map fun _ => id
  · exact .ok trivial

/-! ### Repetition -/

section Repetition

variable {operand operand' : Reader Expr}

/-- Operators join well-formed operands. -/
def Joins (join? : Token → Option (Expr → Expr → Expr)) : Prop :=
  ∀ t, ∀ join ∈ join? t, ∀ left right : Expr, left.Sound → right.Sound → (join left right).Sound

/-- Joining operands goes on alike from well-formed operands, by induction on the count of
tokens. -/
theorem joinFrom_alike (h : ReadAlike operand operand')
    {join? : Token → Option (Expr → Expr → Expr)} (hjoin : Joins join?) (fuel : Nat) {left : Expr}
    (hleft : left.Sound) :
    ReadAlike (joinFrom operand join? fuel left) (joinFrom operand' join? fuel left) := by
  induction fuel generalizing left with
  | zero => exact .pure hleft
  | succ fuel ih =>
      refine .skip fun t => ?_
      cases hj : join? t with
      | none => exact .pure hleft
      | some join =>
          refine .skip fun _ => h.bind fun right hright => ih ?_
          exact hjoin t join hj left right hleft hright

/-- Operands that are read alike are joined alike, -/
theorem joined_alike (h : ReadAlike operand operand')
    {join? : Token → Option (Expr → Expr → Expr)} (hjoin : Joins join?) :
    ReadAlike (joined operand join?) (joined operand' join?) :=
  h.bind fun _ hleft => .skip fun _ => joinFrom_alike h hjoin _ hleft

/-- and so are items behind commas, -/
theorem moreItems_alike (h : ReadAlike operand operand') (fuel : Nat) :
    RunsAlike id (EveryItemLiteral Value.WellFormed) (moreItems operand fuel)
      (moreItems operand' fuel) := by
  induction fuel with
  | zero => exact .pure trivial
  | succ fuel ih =>
      refine .skip fun comma => ?_
      cases comma with
      | true => exact h.bind fun e he => ih.bind fun es hes => .pure ⟨he, hes⟩
      | false => exact .pure trivial

/-- up to the token that closes them. -/
theorem itemsUpTo_alike (h : ReadAlike operand operand') (closer : TokenKind) :
    RunsAlike id (EveryItemLiteral Value.WellFormed) (itemsUpTo operand closer)
      (itemsUpTo operand' closer) := by
  have hclose (items : List Expr) (hitems : EveryItemLiteral Value.WellFormed items) :
      RunsAlike id (EveryItemLiteral Value.WellFormed)
        (do let _ ← expect closer; return items) (do let _ ← expect closer; return items) :=
    .skip fun _ => .pure hitems
  refine .skip fun t => ?_
  split
  · exact hclose [] trivial
  · refine h.bind fun e he => .skip fun tokens => ?_
    exact (moreItems_alike h _).bind fun es hes => hclose (e :: es) ⟨he, hes⟩

end Repetition

/-- The operators of each place make an expression of the two operands and no literal of their
own. -/
theorem joins_product : Joins joinProduct := by
  intro t join hjoin left right hleft hright
  rw [joinProduct] at hjoin
  split at hjoin <;> cases hjoin <;> exact ⟨hleft, hright⟩

theorem joins_sum : Joins joinSum := by
  intro t join hjoin left right hleft hright
  rw [joinSum] at hjoin
  split at hjoin <;> cases hjoin <;> exact ⟨hleft, hright⟩

theorem joins_and : Joins joinAnd := by
  intro t join hjoin left right hleft hright
  rw [joinAnd] at hjoin
  split at hjoin <;> cases hjoin
  exact ⟨hleft, hright⟩

theorem joins_or : Joins joinOr := by
  intro t join hjoin left right hleft hright
  rw [joinOr] at hjoin
  split at hjoin <;> cases hjoin
  exact ⟨hleft, hright⟩

theorem joins_pipe : Joins joinPipe := by
  intro t join hjoin left right hleft hright
  rw [joinPipe] at hjoin
  split at hjoin <;> cases hjoin
  exact ⟨hleft, hright⟩

/-! ### The grammar, around two inner levels -/

/-- The readers of two levels end alike. -/
structure Level.Alike (inner inner' : Level) : Prop where
  pipe : ReadAlike inner.pipe inner'.pipe
  disjunction : ReadAlike inner.disjunction inner'.disjunction
  negation : ReadAlike inner.negation inner'.negation
  unary : ReadAlike inner.unary inner'.unary

/-- There is no inner level any more, or two that are alike. -/
def EnterAlike (enter enter' : Except Fault Level) : Prop :=
  match enter with
  | .ok inner => ∃ inner', enter' = .ok inner' ∧ inner.Alike inner'
  | .error cause => cause.IsLimit

/-- Going inside ends at the limit, or goes on with two levels that are alike. -/
theorem EnterAlike.bind {α : Type} {q : α → Prop} {enter enter' : Except Fault Level}
    {f g : Level → Reader α} (h : EnterAlike enter enter')
    (hf : ∀ inner inner', Level.Alike inner inner' → RunsAlike id q (f inner) (g inner')) :
    RunsAlike id q (liftM enter >>= f) (liftM enter' >>= g) := by
  cases enter with
  | ok inner =>
      obtain ⟨inner', rfl, halike⟩ := h
      exact hf inner inner' halike
  | error cause => exact fun _ => .inl h

section Grammar

variable {inner inner' : Level}

/-- A call has the literals of its argument; a wrong number of arguments is refused in both runs. -/
theorem makeCall_sound (t : Token) {arguments : List Expr}
    (h : EveryItemLiteral Value.WellFormed arguments) :
    ReadAlike (makeCall t arguments) (makeCall t arguments) := by
  rw [makeCall.eq_def]
  dsimp only
  split
  · exact .fault _
  · exact .pure trivial
  · exact .pure h.1
  · exact .pure h.1
  · exact .fault _

/-- Branches are read until no `elif` follows. -/
theorem readBranches_alike (h : inner.Alike inner') (fuel : Nat) :
    RunsAlike id (EveryBranchLiteral Value.WellFormed) (readBranches inner fuel)
      (readBranches inner' fuel) := by
  induction fuel with
  | zero => exact .pure trivial
  | succ fuel ih =>
      refine .skip fun t => ?_
      split
      · refine .skip fun _ => h.pipe.bind fun condition hcondition => .skip fun _ => ?_
        refine h.pipe.bind fun result hresult => ih.bind fun rest hrest => ?_
        exact .pure ⟨hcondition, hresult, hrest⟩
      · exact .pure trivial

/-- A fixed key, or a computed one whose literals are well formed. -/
def SoundKey : String ⊕ Expr → Prop
  | .inl _ => True
  | .inr key => key.Sound

/-- Of a key, only a computed one is read by the readers inside. -/
theorem readKey_alike (h : inner.Alike inner') :
    RunsAlike id SoundKey (readKey inner) (readKey inner') := by
  refine .skip fun t => ?_
  split
  · exact .skip fun _ => .pure trivial
  · exact .skip fun _ => .skip fun _ => .pure trivial
  · exact .skip fun _ => h.pipe.bind fun key hkey => .skip fun _ => .pure hkey
  · exact .fault _

/-- A member without a colon stands for the field of its name, and then the key has to be a fixed
one. -/
theorem readEntry_alike (h : inner.Alike inner') :
    RunsAlike id (fun entry => EveryEntryLiteral Value.WellFormed [entry]) (readEntry inner)
      (readEntry inner') := by
  refine .skip fun t => (readKey_alike h).bind fun key hkey => .skip fun colon => ?_
  cases colon with
  | true =>
      refine h.disjunction.bind fun e he => ?_
      cases key with
      | inl name => exact .pure ⟨he, trivial⟩
      | inr key => exact .pure ⟨hkey, he, trivial⟩
  | false =>
      cases key with
      | inl name => exact .pure ⟨trivial, trivial⟩
      | inr key => exact .fault _

/-- Members are read until the brace that closes them. -/
theorem readEntries_alike (h : inner.Alike inner') (fuel : Nat) :
    RunsAlike id (EveryEntryLiteral Value.WellFormed) (readEntries inner fuel)
      (readEntries inner' fuel) := by
  induction fuel with
  | zero => exact .pure trivial
  | succ fuel ih =>
      refine .skip fun t => ?_
      split
      · exact .pure trivial
      · refine (readEntry_alike h).bind fun entry hentry => .skip fun comma => ?_
        cases comma with
        | true =>
            refine ih.bind fun entries hentries => .pure ?_
            cases entry with
            | named name e => exact ⟨hentry.1, hentries⟩
            | computed key e => exact ⟨hentry.1, hentry.2.1, hentries⟩
        | false => exact .pure hentry

variable {enter enter' : Except Fault Level}

/-- A conditional without `else` ends in the identity, which has no literals. -/
theorem readConditional_alike (h : EnterAlike enter enter') :
    ReadAlike (readConditional enter) (readConditional enter') := by
  refine .skip fun _ => h.bind fun inner inner' halike => ?_
  refine halike.pipe.bind fun condition hcondition => .skip fun _ => ?_
  refine halike.pipe.bind fun result hresult => .skip fun tokens => ?_
  refine (readBranches_alike halike _).bind fun branches hbranches => .skip fun t => ?_
  have hend (otherwise : Expr) (hotherwise : otherwise.Sound) :
      ReadAlike
        (do expectWord "end"; return .conditional (.mk condition result :: branches) otherwise)
        (do expectWord "end"; return .conditional (.mk condition result :: branches) otherwise) :=
    .skip fun _ => .pure ⟨⟨hcondition, hresult, hbranches⟩, hotherwise⟩
  split
  · exact .skip fun _ => halike.pipe.bind hend
  · exact hend .identity trivial

/-- A word is a constant, the beginning of a conditional, a stray keyword or a function, in both
runs. -/
theorem readNamed_alike (h : EnterAlike enter enter') :
    ReadAlike (readNamed enter) (readNamed enter') := by
  refine .skip fun t => ?_
  dsimp only
  split
  · exact .skip fun _ => .pure trivial
  · split
    · exact .skip fun _ => .pure trivial
    · split
      · exact .skip fun _ => .pure trivial
      · split
        -- the constants `null`, `true` and `false` are behind us
        · exact readConditional_alike h
        · split
          · exact .fault _
          · refine .skip fun _ => .skip fun call => ?_
            cases call with
            | true =>
                refine h.bind fun inner inner' halike => ?_
                exact (itemsUpTo_alike halike.pipe _).bind fun _ => makeCall_sound t
            | false => exact makeCall_sound t trivial

theorem readArray_alike (h : EnterAlike enter enter') :
    ReadAlike (readArray enter) (readArray enter') :=
  .skip fun _ => h.bind fun _ _ halike =>
    (itemsUpTo_alike halike.pipe _).bind fun _ hitems => .pure hitems

theorem readGroup_alike (h : EnterAlike enter enter') :
    ReadAlike (readGroup enter) (readGroup enter') :=
  .skip fun _ => h.bind fun _ _ halike =>
    halike.pipe.bind fun _ he => .skip fun _ => .pure he

theorem readObject_alike (h : EnterAlike enter enter') :
    ReadAlike (readObject enter) (readObject enter') :=
  .skip fun _ => h.bind fun _ _ halike => .skip fun _ =>
    (readEntries_alike halike _).bind fun _ hentries => .skip fun _ => .pure hentries

theorem readDotted_sound : ReadAlike readDotted readDotted := by
  refine .skip fun _ => .skip fun t => ?_
  split
  · exact .skip fun _ => .skip fun _ => .pure trivial
  · exact .pure trivial

/-- What an operand begins with is decided by its first token, which both runs share. -/
theorem readPrimary_alike (h : EnterAlike enter enter') :
    ReadAlike (readPrimary enter) (readPrimary enter') := by
  refine .skip fun t => ?_
  split
  · exact .skip fun _ => (RunsAlike.lift (numberValue_wellFormed _)).bind fun _ hv => .pure hv
  · exact .skip fun _ => .skip fun _ => .pure trivial
  · exact .skip fun _ => .pure trivial
  · exact readDotted_sound
  · exact readGroup_alike h
  · exact readArray_alike h
  · exact readObject_alike h
  · exact readNamed_alike h
  · exact .fault _

/-- Members and indices behind a source keep the literals of the source. -/
theorem postfixFrom_alike (h : EnterAlike enter enter') (fuel : Nat) {source : Expr}
    (hsource : source.Sound) :
    ReadAlike (postfixFrom enter fuel source) (postfixFrom enter' fuel source) := by
  induction fuel generalizing source with
  | zero => exact .pure hsource
  | succ fuel ih =>
      refine .skip fun t => .skip fun next => ?_
      split
      · exact .skip fun _ => ih hsource
      · exact .skip fun _ => .skip fun _ => .skip fun _ => ih hsource
      · exact .skip fun _ => ih hsource
      · refine .skip fun _ => h.bind fun inner inner' halike => ?_
        exact halike.pipe.bind fun index hindex => .skip fun _ => ih ⟨hsource, hindex⟩
      · exact .pure hsource

theorem readPath_alike (h : EnterAlike enter enter') :
    ReadAlike (readPath enter) (readPath enter') :=
  (readPrimary_alike h).bind fun _ hsource => .skip fun _ => postfixFrom_alike h _ hsource

theorem readUnary_alike (h : EnterAlike enter enter') :
    ReadAlike (readUnary enter) (readUnary enter') := by
  refine .skip fun minus => ?_
  cases minus with
  | true => exact h.bind fun _ _ halike => halike.unary.bind fun _ he => .pure he
  | false => exact readPath_alike h

theorem readSum_alike (h : EnterAlike enter enter') :
    ReadAlike (readSum enter) (readSum enter') :=
  joined_alike (joined_alike (readUnary_alike h) joins_product) joins_sum

theorem readComparison_alike (h : EnterAlike enter enter') :
    ReadAlike (readComparison enter) (readComparison enter') := by
  refine (readSum_alike h).bind fun left hleft => .skip fun t => ?_
  split
  · exact .pure hleft
  · exact .skip fun _ => (readSum_alike h).bind fun right hright => .pure ⟨hleft, hright⟩

/-- `not` counts as the prefix if an operand begins behind it, in both runs. -/
theorem readNegation_alike (h : EnterAlike enter enter') :
    ReadAlike (readNegation enter) (readNegation enter') := by
  refine .skip fun t => .skip fun next => ?_
  split
  · exact .skip fun _ => h.bind fun _ _ halike => halike.negation.bind fun _ he => .pure he
  · exact readComparison_alike h

theorem readDisjunction_alike (h : EnterAlike enter enter') :
    ReadAlike (readDisjunction enter) (readDisjunction enter') :=
  joined_alike (joined_alike (readNegation_alike h) joins_and) joins_or

/-- The readers around two levels that are alike are alike. -/
theorem around_alike (h : EnterAlike enter enter') :
    (Level.around enter).Alike (Level.around enter') where
  pipe := joined_alike (readDisjunction_alike h) joins_pipe
  disjunction := readDisjunction_alike h
  negation := readNegation_alike h
  unary := readUnary_alike h

end Grammar

/-! ### All levels -/

variable {limit limit' levels levels' : Nat}

/-- **A wider limit has more levels, and the levels are alike.**  The narrower limit runs out of
levels first, and where it does, its run has stopped at a limit. -/
theorem at_alike (h : levels ≤ levels') :
    (Level.at limit levels).Alike (Level.at limit' levels') := by
  induction levels generalizing levels' with
  | zero =>
      rw [Level.at]
      -- no level is left inside: any use of one stops at the limit
      cases levels' <;> exact around_alike trivial
  | succ levels ih =>
      obtain ⟨levels', rfl⟩ := Nat.exists_eq_add_one.mpr (Nat.zero_lt_of_lt h)
      exact around_alike ⟨_, rfl, ih (Nat.le_of_succ_le_succ h)⟩

/-- A whole expression is a pipe with nothing behind it. -/
theorem ofTokens_endsAlike (h : limit ≤ limit') (tokens : List Token) :
    EndsAlike Any Sound (ofTokens limit tokens) (ofTokens limit' tokens) := by
  have hwhole : ReadAlike (Level.at limit limit).pipe (Level.at limit' limit').pipe :=
    (at_alike h).pipe
  exact (hwhole.bind fun e he => .skip fun _ => .pure he).run tokens

/-- **Expression texts** have well-formed literals and, within a wider limit, are read as the same
expressions. -/
theorem read_endsAlike (h : limit ≤ limit') (text : String) :
    EndsAlike Any Sound (read limit text) (read limit' text) := by
  rw [read, read]
  split
  · exact .ok trivial
  · exact (EndsAlike.any _).bind fun tokens _ => ofTokens_endsAlike h tokens

end Expr

end Quarry
