import Quarry.Proofs.Literals
import Quarry.Proofs.Nesting

/-!
# Conditions — a path, a relation and a literal

A condition says which items are kept: those in which what is at a dotted path stands in a
relation to a scalar.  Query texts write it as path, sign and literal with blanks between them.
Cutters go over such a text whatever the literal quotes (`Condition.passes_text`), and it has no
blanks at its ends.

An item passes or does not (`Condition.test_isOk`); keeping those that pass is then a plain
filter (`Items.keep_eq_filter`).
-/

namespace Quarry

/-! ### Keeping -/

namespace Items

variable {α : Type} {test test' : α → Except Fault Bool} {items : List α}

/-- Tests that have answers keep the items that pass. -/
theorem keep_eq_filter {p : α → Bool} (h : ∀ a ∈ items, test a = .ok (p a)) :
    keep test items = .ok (items.filter p) := by
  induction items with
  | nil => rfl
  | cons a items ih =>
      rw [keep, h a List.mem_cons_self, ih fun b hb => h b (List.mem_cons_of_mem a hb),
        List.filter_cons]
      rfl

/-- Tests that agree on the items keep the same. -/
theorem keep_congr (h : ∀ a ∈ items, test a = test' a) : keep test items = keep test' items := by
  induction items with
  | nil => rfl
  | cons a items ih =>
      obtain ⟨ha, hitems⟩ := List.forall_mem_cons.mp h
      rw [keep, keep, ha, ih hitems]

/-- Tests that fail alike end alike if one fails. -/
theorem keep_eq_of_error (h : ∀ a ∈ items, ∀ e, test a = .error e ↔ test' a = .error e)
    (hfails : ∃ a ∈ items, ∃ e, test' a = .error e) :
    ∃ e, keep test items = .error e ∧ keep test' items = .error e := by
  induction items with
  | nil =>
      obtain ⟨a, ha, -⟩ := hfails
      cases ha
  | cons a items ih =>
      obtain ⟨ha, hitems⟩ := List.forall_mem_cons.mp h
      cases htest' : test' a with
      | error e =>
          have htest := (ha e).mpr htest'
          exact ⟨e, by rw [keep, htest]; rfl, by rw [keep, htest']; rfl⟩
      | ok answer' =>
          have hrest : ∃ b ∈ items, ∃ e, test' b = .error e := by
            obtain ⟨b, hb, e, he⟩ := hfails
            rcases List.mem_cons.mp hb with rfl | hb
            · cases htest'.symm.trans he
            · exact ⟨b, hb, e, he⟩
          obtain ⟨e, hkeep, hkeep'⟩ := ih hitems hrest
          cases htest : test a with
          | error e => cases htest'.symm.trans ((ha e).mp htest)
          | ok answer =>
              exact ⟨e, by rw [keep, htest, hkeep]; rfl, by rw [keep, htest', hkeep']; rfl⟩

/-- **Keeping by two tests** that fail alike ends alike if a test fails, or if they have the same
answer for every item; otherwise it does not. -/
theorem keep_eq_iff (h : ∀ a ∈ items, ∀ e, test a = .error e ↔ test' a = .error e) :
    keep test items = keep test' items ↔
      (∃ a ∈ items, ∃ e, test' a = .error e) ∨ ∀ a ∈ items, test a = test' a := by
  by_cases hfails : ∃ a ∈ items, ∃ e, test' a = .error e
  · obtain ⟨e, hkeep, hkeep'⟩ := keep_eq_of_error h hfails
    exact iff_of_true (hkeep.trans hkeep'.symm) (.inl hfails)
  · have hanswers {t : α → Except Fault Bool} (ht : ∀ a ∈ items, ∀ e, t a ≠ .error e) :
        ∀ a ∈ items, t a = .ok ((t a).toOption.getD false) := by
      intro a ha
      cases hta : t a with
      | ok answer => rfl
      | error e => exact absurd hta (ht a ha e)
    have hok' := hanswers fun a ha e he => hfails ⟨a, ha, e, he⟩
    have hok := hanswers fun a ha e he => hfails ⟨a, ha, e, (h a ha e).mp he⟩
    rw [keep_eq_filter hok, keep_eq_filter hok', Except.ok.injEq, or_iff_right hfails]
    constructor
    · intro hfilter a ha
      rw [hok a ha, hok' a ha]
      have hmem : a ∈ items.filter (fun a => (test a).toOption.getD false) ↔
          a ∈ items.filter (fun a => (test' a).toOption.getD false) := by rw [hfilter]
      simp only [List.mem_filter, ha, true_and] at hmem
      rw [Bool.eq_iff_iff.mpr hmem]
    · intro hsame
      exact List.filter_congr fun a ha => by rw [hsame a ha]

end Items

/-- A cutter goes over the text of a scalar. -/
theorem Text.passes_scalar {v : Value} (hscalar : v.IsScalar) (hfinite : v.IsFinite) {sep : Char}
    {inside : Bool} (h : inside = true ∨ sep = ',') :
    Passes sep inside (Json.write .compact 0 v) := by
  rcases write_scalar hscalar hfinite with ⟨s, rfl⟩ | ⟨-, hparts⟩
  · exact passes_quoted sep inside s.toList
  · refine passes_of_forall fun c hc => ?_
    obtain ⟨hplain, hcomma⟩ := literalPart_forall (p := fun c => isPlain c = true ∧ c ≠ ',')
      (by decide) (hparts c hc)
    exact ⟨hplain, h.imp_right fun hsep => by rwa [hsep]⟩

/-! ### Conditions -/

/-- A condition on items: a path of identifiers, a relation, and a scalar whose number has a
nearest double. -/
structure Selector where
  names : List (List Char)
  relation : Relation
  literal : Value
  names_ne : names ≠ []
  identifiers : ∀ name ∈ names, IsIdentifier name
  scalar : literal.IsScalar
  finite : literal.IsFinite
  representable : literal.Representable

namespace Selector

variable (q : Selector)

/-- The path as text. -/
def path : List Char :=
  dotted q.names

/-- The text of the literal. -/
def literalText : List Char :=
  Json.write .compact 0 q.literal

/-- The condition as text, with the given sign for its relation. -/
def text (sign : List Char) : List Char :=
  q.path ++ ' ' :: (sign ++ ' ' :: q.literalText)

/-- Whether an item passes. -/
def test (item : Value) : Except Fault Bool := do
  let found ← Path.resolveText (String.ofList q.path) item
  q.relation.compare found (some q.literal)

/-- A scalar with finite numbers and nearest doubles can be written. -/
theorem literal_isWritable : q.literal.isWritable = true :=
  Value.isWritable_of_representable q.representable

/-- A path begins as a name does. -/
theorem path_cons : ∃ c s, q.path = c :: s ∧ isNameStart c = true :=
  dotted_cons q.names_ne q.identifiers

theorem path_ne : q.path ≠ [] := by
  obtain ⟨c, s, hcons, -⟩ := q.path_cons
  rw [hcons]
  exact List.cons_ne_nil c s

/-- A property of the characters of the path, checked for every character that a path may have. -/
theorem path_forall {p : Char → Prop}
    (h : ∀ n < 128, isDottedPart (Char.ofNat n) = true → p (Char.ofNat n)) : ∀ c ∈ q.path, p c :=
  fun c hc => dottedPart_forall h (dotted_forall q.identifiers c hc)

/-- What is at the path of an item. -/
def found (item : Value) : Operand :=
  (Path.fields q.names).follow false item

/-- The test of an item is one comparison, of what is found in it. -/
theorem test_eq (item : Value) :
    q.test item = q.relation.compare (q.found item) (some q.literal) := by
  rw [test, path, Path.resolveText_dotted q.names_ne q.identifiers]
  rfl

/-- The test does not depend on whether the literal is in normal form. -/
theorem compare_normalize (item : Value) :
    q.relation.compare (q.found item) (some q.literal.normalize) = q.test item := by
  rw [test_eq, Relation.compare_normalize _ _ q.scalar q.finite]

/-- **An item passes or does not**, if its numbers have nearest doubles. -/
theorem test_isOk {item : Value} (h : item.Representable) : ∃ answer, q.test item = .ok answer := by
  rw [test_eq]
  refine Relation.compare_isOk _ ?_ ?_
  · intro v hv
    obtain ⟨j, hj⟩ := Path.inside_of_follow hv
    exact h.inside hj
  · rintro v ⟨⟩
    exact q.representable

/-- The item passes. -/
def passes (item : Value) : Bool :=
  (q.test item).toOption.getD false

/-- For items with nearest doubles it has an answer. -/
theorem test_eq_passes {item : Value} (h : item.Representable) :
    q.test item = .ok (q.passes item) := by
  obtain ⟨answer, hanswer⟩ := q.test_isOk h
  rw [passes, hanswer]
  rfl

/-! ### The text of a condition -/

/-- The literal is read back from its text. -/
theorem read_literal {text : String} (htext : Text.trim text.toList = q.literalText) :
    Literal.read text = .ok q.literal.normalize :=
  Literal.read_write q.scalar q.finite q.literal_isWritable htext

theorem literalText_trimmed : q.literalText ≠ [] ∧ Text.Trimmed q.literalText :=
  trimmed_scalar q.scalar q.finite

/-- The literal is read back from its text, in normal form. -/
theorem read_literalText :
    Literal.read (String.ofList q.literalText) = .ok q.literal.normalize :=
  q.read_literal (by rw [String.toList_ofList, Text.trim_of_trimmed q.literalText_trimmed.2])

theorem path_trimmed : Text.Trimmed q.path :=
  Text.trimmed_of_forall (q.path_forall (by decide))

/-- The text of a condition has no blanks at its ends. -/
theorem text_trimmed (sign : List Char) : Text.Trimmed (q.text sign) := by
  have := q.path_trimmed.append q.literalText_trimmed.2 q.path_ne q.literalText_trimmed.1
    (' ' :: (sign ++ [' ']))
  simpa [text] using this

theorem text_ne (sign : List Char) : q.text sign ≠ [] := by
  obtain ⟨c, s, hcons, -⟩ := q.path_cons
  rw [text, hcons]
  exact List.cons_ne_nil _ _

/-- A cutter goes over the text of a literal. -/
theorem passes_literalText {sep : Char} {inside : Bool} (h : inside = true ∨ sep = ',') :
    Text.Passes sep inside q.literalText :=
  Text.passes_scalar q.scalar q.finite h

/-- **A cutter goes over the text of a condition**, whatever its literal quotes. -/
theorem passes_text {sep : Char} {inside : Bool} (h : inside = true ∨ sep = ',')
    {sign : List Char} (hsign : ∀ c ∈ sign, Text.isPlain c = true ∧ c ≠ ',') :
    Text.Passes sep inside (q.text sign) := by
  have hplain : ∀ {s : List Char}, (∀ c ∈ s, Text.isPlain c = true ∧ c ≠ ',') →
      Text.Passes sep inside s := fun hs => Text.passes_of_forall fun c hc =>
    ⟨(hs c hc).1, h.imp_right fun hsep => by rw [hsep]; exact (hs c hc).2⟩
  have hpath : Text.Passes sep inside q.path := hplain (q.path_forall (by decide))
  have hblank : Text.Passes sep inside [' '] := hplain (chars_forall (by decide))
  exact hpath.append (hblank.append ((hplain hsign).append
    (hblank.append (q.passes_literalText h))))

end Selector

end Quarry
