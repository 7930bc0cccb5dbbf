import Quarry.Proofs.Spelling

/-!
# Precedence — written expressions are read back

An expression is read back from any text that spells its words (`read_of_spells`).  The induction is
on the number of words.  The operands of an operator have fewer words than the whole and are read at
the same level; what stands between brackets, or after a prefix, has fewer words and is read at the
level inside, and there are as many levels as words.  `Known` is what is known about shorter
expressions; one lemma goes from there to the words of each construct.
-/

namespace Quarry.Expr

variable {m : Manner} {enter : Except Fault Level} {limit levels n : Nat} {place : Place} {e : Expr}

/-- Writable expressions of at most `n` words settle at every place. -/
def Known (m : Manner) (enter : Except Fault Level) (n : Nat) : Prop :=
  ∀ (place : Place) (e : Expr), e.Writable → (enclosed place e (words m e)).length ≤ n →
    Settles enter place (enclosed place e (words m e)) e

theorem Place.pipe_rank_le (place : Place) : Place.pipe.rank ≤ place.rank := by
  cases place <;> decide

theorem Place.rank_le_path (place : Place) : place.rank ≤ Place.path.rank := by
  cases place <;> decide

/-- A pipe is the loosest place, so nothing is put between parentheses there. -/
theorem enclosed_pipe (e : Expr) (own : List Lexeme) : enclosed .pipe e own = own :=
  if_neg (Nat.not_lt.mpr (Place.pipe_rank_le _))

/-! ### Parts -/

namespace Known

/-- A part that stands where every expression may. -/
theorem part (h : Known m enter n) (he : e.Writable) (hlength : (words m e).length ≤ n) :
    ReadsPart (Level.around enter).pipe (words m e) e := by
  have hsettles := h .pipe e he
  rw [enclosed_pipe] at hsettles
  exact (hsettles hlength).readsPart

/-- Items are read back, since each has fewer words than the list, -/
theorem items (h : Known m enter n) : ∀ {items : List Expr}, WritableItems items →
    (∀ part ∈ itemWords m items, part.length ≤ n) →
    List.Forall₂ (ReadsPart (Level.around enter).pipe) (itemWords m items) items
  | [], _, _ => .nil
  | _ :: _, he, hlength =>
      have hlength := List.forall_mem_cons.mp hlength
      .cons (h.part he.1 hlength.1) (h.items he.2 hlength.2)

/-- and so are members of objects, -/
theorem entries (h : Known m enter n) : ∀ {entries : List Entry}, WritableEntries entries →
    (∀ part ∈ entryWords m entries, part.length ≤ n) →
    List.Forall₂ (ReadsPart (readEntry (.around enter))) (entryWords m entries) entries
  | [], _, _ => .nil
  | .named name e :: entries, he, hlength => by
      obtain ⟨hfirst, hlength⟩ := List.forall_mem_cons.mp hlength
      simp only [List.length_cons] at hfirst
      have hvalue := (h .disjunction e he.1 (by omega)).plain
      exact .cons (Reads.namedEntry name hvalue) (h.entries he.2 hlength)
  | .computed key e :: entries, he, hlength => by
      obtain ⟨hfirst, hlength⟩ := List.forall_mem_cons.mp hlength
      simp only [List.length_cons, List.length_append] at hfirst
      have hkey := (h.part he.1 (by omega)).reads
      have hvalue := (h .disjunction e he.2.1 (by omega)).plain
      exact .cons (Reads.computedEntry hkey hvalue) (h.entries he.2.2 hlength)

/-- and branches. -/
theorem branches (h : Known m enter n) : ∀ {branches : List Branch}, WritableBranches branches →
    (∀ part ∈ branchParts m branches, part.1.length ≤ n ∧ part.2.length ≤ n) →
    List.Forall₂ (ReadsBranch (.around enter)) (branchParts m branches) branches
  | [], _, _ => .nil
  | .mk _ _ :: _, he, hlength =>
      have hlength := List.forall_mem_cons.mp hlength
      .cons ⟨(h.part he.1 hlength.1.1).reads, (h.part he.2.1 hlength.1.2).reads⟩
        (h.branches he.2.2 hlength.2)

end Known

/-! ### Lengths -/

theorem length_le_flatMap {α β : Type} {f : α → List β} {as : List α} {a : α} (h : a ∈ as) :
    (f a).length ≤ (as.flatMap f).length := by
  obtain ⟨front, back, rfl⟩ := List.append_of_mem h
  simp only [List.flatMap_append, List.flatMap_cons, List.length_append]
  omega

/-- A part of a list has at most as many words as the list, -/
theorem length_le_separated {parts : List (List Lexeme)} {part : List Lexeme}
    (h : part ∈ parts) : part.length ≤ (separated parts).length := by
  cases parts with
  | nil => cases h
  | cons first parts =>
      rw [separated, List.length_append]
      rcases List.mem_cons.mp h with rfl | h
      · exact Nat.le_add_right _ _
      · have := length_le_flatMap (f := (Lexeme.sign .comma :: ·)) h
        rw [List.length_cons] at this
        omega

/-- and the parts of a branch have fewer, for its keywords. -/
theorem length_le_caseWords {parts : List (List Lexeme × List Lexeme)}
    {part : List Lexeme × List Lexeme} (h : part ∈ parts) :
    part.1.length < (caseWords parts).length ∧ part.2.length < (caseWords parts).length := by
  have hbranch (lead : String) :
      (branchWords lead part).length = part.1.length + part.2.length + 2 := by
    simp only [branchWords, List.length_cons, List.length_append]
    omega
  cases parts with
  | nil => cases h
  | cons first parts =>
      rw [caseWords, List.length_append]
      rcases List.mem_cons.mp h with rfl | h
      · rw [hbranch]
        omega
      · have := length_le_flatMap (f := branchWords "elif") h
        rw [hbranch] at this
        omega

/-! ### Constructs -/

/-- A constant is a primary that is read back. -/
theorem literal_settles {v : Value} (h : IsConstant v) :
    Settles enter .path (constantWords v) (.literal v) := by
  cases v with
  | null => exact .of_primary (opens_of_kind rfl rfl) (.constant (by simp))
  | bool b => cases b <;> exact .of_primary (opens_of_kind rfl rfl) (.constant (by simp))
  | number n =>
      have hvalue := numberValue_writeNumber h.2.1 h.2.2.1 h.2.2.2
      rw [h.1.1] at hvalue
      exact .of_primary (opens_of_kind rfl rfl) (.number hvalue)
  | string s => exact .of_primary (opens_of_kind rfl rfl) (.quoted s)
  | array _ => exact h.elim
  | object _ => exact h.elim

/-- Operators that group to the left. -/
theorem binary_settles (o : BinaryOperator) {left right : Expr} {lw rw : List Lexeme}
    (hleft : Settles enter o.leftPlace lw left) (hright : Settles enter o.place.next rw right) :
    Settles enter o.place (lw ++ o.lexeme :: rw) (.binary o left right) := by
  cases o with
  | and =>
      exact .join rfl (fun t ht => if_pos (ht.isWord "and")) hleft hright
  | or => exact .join rfl (fun t ht => if_pos (ht.isWord "or")) hleft hright
  | relation r => cases r <;> exact .comparison rfl hleft hright
  | arithmetic a =>
      cases a with
      | add => exact .join rfl (fun t ht => by rw [joinSum, ht.1]; rfl) hleft hright
      | sub => exact .join rfl (fun t ht => by rw [joinSum, ht.1]; rfl) hleft hright
      | mul => exact .join rfl (fun t ht => by rw [joinProduct, ht.1]; rfl) hleft hright
      | div => exact .join rfl (fun t ht => by rw [joinProduct, ht.1]; rfl) hleft hright
      | rem => exact .join rfl (fun t ht => by rw [joinProduct, ht.1]; rfl) hleft hright

/-- A member settles behind its source, or alone if the source is the identity, -/
theorem member_settles (m : Manner) {source : Expr} {own : List Lexeme} (name : String)
    (h : source ≠ .identity → Settles enter .path (enclosed .path source own) source) :
    Settles enter .path (Manner.source source own ++ m.member name) (.field source name) := by
  have hmember (ls : List Lexeme) (hls : Settles enter .path ls source) :
      Settles enter .path (ls ++ m.member name) (.field source name) := by
    rw [Manner.member]
    split
    · exact hls.dotted name
    · exact hls.dotQuoted name
  rw [Manner.source.eq_def]
  split
  · rw [Manner.member, List.nil_append]
    split
    · exact .of_primary (opens_of_kind rfl rfl) (.dotted name)
    · exact .of_primary (opens_of_kind rfl rfl) (.dotQuoted name)
  · exact hmember _ (h ‹_›)

theorem member_length_pos (m : Manner) (name : String) : 0 < (m.member name).length := by
  rw [Manner.member]
  split <;> exact Nat.zero_lt_succ _

/-- and an index behind its source, with a dot or without. -/
theorem index_settles (m : Manner) {inner : Level} {source position : Expr} {ls lp : List Lexeme}
    (hsource : Settles (.ok inner) .path ls source) (hposition : Reads 3 inner.pipe lp position) :
    Settles (.ok inner) .path (ls ++ m.bracket lp) (.index source position) := by
  rw [Manner.bracket]
  split
  · exact hsource.dotIndex hposition
  · exact hsource.index hposition

/-- The name of a function but `not` opens a path. -/
theorem opens_name {f : FunctionName} (h : f ≠ .subject (.builtin .not)) (ls : List Lexeme) :
    Opens .path (.word f.name :: ls) := by
  refine opens_of_kind rfl ?_
  cases f with
  | subject f =>
      cases f with
      | builtin b =>
          cases b with
          | not => exact absurd rfl h
          | _ => decide
      | _ => decide
  | argument f => cases f <;> decide

/-- A function's name is read as the function, `not` between parentheses. -/
theorem nameWords_settles (f : SubjectFunction) :
    Settles (.ok (.around enter)) .path (nameWords f) (.subject f none) := by
  rw [nameWords.eq_def]
  split
  · exact .of_primary (opens_of_kind rfl rfl) (.group .notAlone)
  · rename_i hnot
    refine .of_primary (opens_name (f := .subject f) ?_ []) (.callAlone f)
    simpa using hnot

/-- The last branch is written, or it is the identity and left out. -/
theorem otherwise_cases (m : Manner) (e : Expr) (ls : List Lexeme) :
    m.otherwise e ls = some ls ∨ m.otherwise e ls = none ∧ e = .identity := by
  cases e with
  | identity =>
      rw [Manner.otherwise]
      split
      · exact .inr ⟨rfl, rfl⟩
      · exact .inl rfl
  | _ => exact .inl rfl

/-- A conditional begins with its keyword, which no other primary does. -/
theorem opens_caseWords {parts : List (List Lexeme × List Lexeme)} (hne : parts ≠ [])
    (ls : List Lexeme) : Opens .path (caseWords parts ++ ls) := by
  cases parts with
  | nil => exact absurd rfl hne
  | cons part parts => exact opens_of_kind rfl rfl

/-- **One construct.**  Where shorter expressions settle, at the level of the construct and at the
level inside, its words settle at its place. -/
theorem settles_words (hsame : Known m (.ok (.around enter)) n) (hinner : Known m enter n)
    (he : e.Writable) (hlength : (words m e).length ≤ n + 1) :
    Settles (.ok (.around enter)) e.place (words m e) e := by
  cases e with
  | literal v => exact literal_settles he
  | identity => exact .of_primary (opens_of_kind rfl rfl) .identity
  | field source name =>
      refine member_settles m name fun hne => hsame .path source he ?_
      have hsource : Manner.source source (words m source) =
          enclosed .path source (words m source) := by
        rw [Manner.source.eq_2 _ _ hne]
      have hpos := member_length_pos m name
      rw [words, List.length_append, hsource] at hlength
      omega
  | index source position =>
      rw [words, List.length_append, Manner.bracket] at hlength
      simp only [List.length_append, List.length_cons] at hlength
      have hposition := (hinner.part he.2 (by omega)).reads
      exact index_settles m (hsame .path source he.1 (by omega)) hposition
  -- operands at the same level have fewer words than the whole: `hsame`
  | pipe left right =>
      rw [words, List.length_append, List.length_cons] at hlength
      have hleft := hsame .pipe left he.1
      rw [enclosed_pipe] at hleft
      exact .join rfl (fun t ht => if_pos ht.1) (hleft (by omega))
        (hsame .disjunction right he.2 (by omega))
  | array items =>
      rw [words, List.length_cons, List.length_append] at hlength
      refine .of_primary (opens_of_kind rfl rfl) (.array (hinner.items he fun part hpart => ?_))
      have := length_le_separated hpart
      omega
  | object entries =>
      rw [words, List.length_cons, List.length_append] at hlength
      refine .of_primary (opens_of_kind rfl rfl)
        (.object (hinner.entries he fun part hpart => ?_))
      have := length_le_separated hpart
      omega
  -- a prefix goes one level in for its operand: `hinner`
  | not operand =>
      rw [words, List.length_cons] at hlength
      have hoperand := hinner .negation operand he (by omega)
      have hread : Reads 6 (Level.around enter).negation _ operand := hoperand.plain
      exact .negation hoperand.opens hread
  | negate operand =>
      rw [words, List.length_cons] at hlength
      have hread : Reads 10 (Level.around enter).unary _ operand :=
        (hinner .unary operand he (by omega)).plain
      exact .negative hread
  | binary o left right =>
      rw [words, List.length_append, List.length_cons] at hlength
      exact binary_settles o (hsame _ left he.1 (by omega)) (hsame _ right he.2 (by omega))
  | conditional branches otherwise =>
      rw [words, List.length_append, List.length_append, List.length_singleton] at hlength
      have hparts : ∀ part ∈ branchParts m branches, part.1.length ≤ n ∧ part.2.length ≤ n := by
        intro part hpart
        have := length_le_caseWords hpart
        omega
      have hbranches := hinner.branches he.2.1 hparts
      have hne : branchParts m branches ≠ [] := by
        intro hnil
        rw [hnil] at hbranches
        cases hbranches
        exact he.1 rfl
      refine .of_primary (opens_caseWords hne _) (.conditional hbranches he.1 ?_)
      -- the last part may be left out for the identity
      rcases otherwise_cases m otherwise (words m otherwise) with hlast | ⟨hlast, hidentity⟩
      · rw [hlast, elseWords, List.length_cons] at hlength
        rw [hlast]
        exact (hinner.part he.2.2 (by omega)).reads
      · rw [hlast]
        exact hidentity
  | subject f inner =>
      cases inner with
      | none => exact nameWords_settles f
      | some inner =>
          simp only [words, List.length_cons, List.length_append] at hlength
          have hpart := hinner.part he.2 (by omega)
          exact .of_primary (opens_name (f := .subject f) (by simpa using he.1) _)
            (.callSubject f hpart)
  | argument f inner =>
      simp only [words, List.length_cons, List.length_append] at hlength
      have hpart := hinner.part (e := inner) he (by omega)
      have hname : FunctionName.argument f ≠ .subject (.builtin .not) := by simp
      exact .of_primary (opens_name hname _) (.callArgument f hpart)

/-! ### All levels -/

/-- What the readers of a level enter when there are `levels` levels inside. -/
def enterAt (limit : Nat) : (levels : Nat) → Except Fault Level
  | 0 => .error (.tooDeep limit)
  | levels + 1 => .ok (Level.at limit levels)

theorem at_eq_around (limit levels : Nat) :
    Level.at limit levels = .around (enterAt limit levels) := by
  cases levels <;> rfl

/-- Every expression has words. -/
theorem words_ne_nil (m : Manner) (he : e.Writable) : words m e ≠ [] := by
  cases e with
  | literal v =>
      cases v with
      | bool b => cases b <;> exact List.cons_ne_nil _ _
      | array _ => exact he.elim
      | object _ => exact he.elim
      | _ => exact List.cons_ne_nil _ _
  | field source name =>
      have := List.length_pos_iff.mp (member_length_pos m name)
      simp [words, this]
  | subject f inner =>
      cases inner with
      | none =>
          rw [words, nameWords.eq_def]
          split <;> exact List.cons_ne_nil _ _
      | some inner => exact List.cons_ne_nil _ _
  | _ => simp [words, Manner.bracket]

/-- **All expressions of at most `n` words** settle where there are `n` levels inside. -/
theorem known (m : Manner) (limit : Nat) (h : n ≤ levels) : Known m (enterAt limit levels) n := by
  induction n generalizing levels with
  | zero =>
      intro place e he hlength
      have hpos := List.length_pos_iff.mpr (words_ne_nil m he)
      rw [enclosed] at hlength
      split at hlength
      · cases hlength
      · omega
  | succ n ih =>
      intro place e he hlength
      obtain ⟨levels, rfl⟩ := Nat.exists_eq_add_one.mpr (Nat.zero_lt_of_lt h)
      have hsame := ih (Nat.le_of_succ_le h)
      have hinner := ih (Nat.le_of_succ_le_succ h)
      rw [enterAt, at_eq_around] at hsame ⊢
      rw [enclosed] at hlength ⊢
      split at hlength
      · rename_i hplace
        rw [List.length_cons, List.length_append] at hlength
        have hgroup := (hinner.part he (by omega)).reads.mono (show 1 ≤ 3 by decide)
        rw [if_pos hplace]
        have hsettles : Settles _ .path (parenthesised (words m e)) e :=
          .of_primary (opens_of_kind rfl rfl) (.group hgroup)
        exact hsettles.climb place (Place.rank_le_path place)
      · rename_i hplace
        rw [if_neg hplace]
        exact (settles_words hsame hinner he hlength).climb place (Nat.not_lt.mp hplace)

/-- A text is read as what the outermost reader makes of the words that it spells. -/
theorem read_of_reads {ls : List Lexeme} {text : String} (htext : Spells ls text.toList)
    (hne : ls ≠ []) (hsound : AllSound ls) (h : Reads 3 (Level.at limit limit).pipe ls e) :
    read limit text = .ok e := by
  obtain ⟨ts, finish, hscan, hts, hfinish⟩ := scan_spelled htext hsound
  have hblank : (Text.trim text.toList).isEmpty = false :=
    List.isEmpty_eq_false_iff.mpr (htext.trim_ne_nil hne hsound)
  have hgrip : finish.grip < 3 := by
    rw [Token.grip_of_kind hfinish.1 (by decide)]
    decide
  have hread := h ts finish [] hts hgrip
  have hend : expect .finish [finish] = .ok (finish, []) := by
    rw [expect, RunsAlike.bind_of_ok (current_cons finish []), if_pos hfinish.1]
    rfl
  rw [read, hblank, if_neg Bool.false_ne_true, hscan, Result.bind_ok, ofTokens, StateT.run,
    RunsAlike.bind_of_ok hread, RunsAlike.bind_of_ok hend]
  rfl

/-- **Reading gives an expression back** from every text that spells its words, if there are as many
levels as words. -/
theorem read_of_spells (m : Manner) (he : e.Writable) (hlimit : (words m e).length ≤ limit)
    {text : String} (htext : Spells (words m e) text.toList) : read limit text = .ok e := by
  refine read_of_reads htext (words_ne_nil m he) (allSound_words m he) ?_
  rw [at_eq_around]
  exact ((known m limit hlimit).part he (Nat.le_refl _)).reads

/-- **Writing and reading are inverse.**  Every expression that can be written has a text, and every
text that spells its words, whatever choices the writer makes and however many blanks there are, is
read as that expression as soon as the limit is the number of words. -/
theorem read_written (m : Manner) {e : Expr} (he : e.Writable) :
    Spells (words m e) (text m e).toList ∧
      ∀ limit, (words m e).length ≤ limit → ∀ text : String, Spells (words m e) text.toList →
        read limit text = .ok e := by
  refine ⟨?_, fun limit hlimit text htext => read_of_spells m he hlimit htext⟩
  rw [text, String.toList_ofList]
  exact spells_spaced _

/-- Both readings of `not`, a comparison in a comparison, a sum in a product, and a conditional. -/
theorem read_written_nested :
    let e : Expr := .conditional
      [.mk (.binary .and (.not (.subject (.builtin .not) none))
        (.binary (.relation .eq) (.field .identity "a")
          (.binary (.relation .lt) (.literal (.number (.int 1))) .identity)))
        (.binary (.arithmetic .mul) (.negate (.literal (.number (.int 2))))
          (.binary (.arithmetic .sub) .identity (.literal .null)))]
      (.object [.named "k" (.pipe (.index .identity (.literal (.string "i"))) (.array []))])
    text .plain e = "if not ( not ) and . \"a\" == ( 1 < . ) then - 2 * ( . - null ) " ++
        "else \x7b \"k\" : ( . [ \"i\" ] | [ ] ) \x7d end " ∧
      read 50 (text .plain e) = .ok e := by
  intro e
  have hdigit : ∀ n : Nat, n < 10 → IsConstant (.number (.int n)) := fun n hn => by
    have hwritable : (Number.int n).isWritable = true := by
      rw [Number.isWritable, decide_eq_true_eq]
      calc n < 10 ^ 1 := hn
        _ ≤ Number.digitBound := Nat.pow_le_pow_right (by decide) (by decide)
    exact ⟨⟨rfl, by simp⟩, rfl, hwritable, decide_eq_false (Int.not_lt.mpr (Int.natCast_nonneg n))⟩
  have he : e.Writable := by
    have hone := hdigit 1 (by decide)
    have htwo := hdigit 2 (by decide)
    simp only [e, Writable, WritableEntries, WritableBranches, WritableItems, and_true, true_and]
    exact ⟨List.cons_ne_nil _ _, ⟨hone, htwo, trivial⟩, trivial⟩
  obtain ⟨hspells, hread⟩ := read_written .plain he
  exact ⟨by decide, hread 50 (by decide) _ hspells⟩

end Quarry.Expr
