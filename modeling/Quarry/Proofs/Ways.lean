import Mathlib.Data.List.Induction
import Quarry.Proofs.Segments

/-!
# Ways — one after another

A dot between two ways makes one way, which leads to where the second leads from the end of the
first (`Navigation.resolve_joined`).

A way depends only on the parts of its text without the blanks at their ends, and trimming the whole
text takes nothing else off them (`Navigation.resolve_of_cut`).  The parts of the joined text are
those of the first and then those of the second, and a way in two parts is followed through the one
and then through the other (`Navigation.followAll_append`).  The sign for the root is dropped at the
very front only, so the second way must not begin with it.

The text itself matters in one place: the fault of an empty segment names it
(`Navigation.Retold`).
-/

namespace Quarry

/-! ### Blanks at the ends of a balanced text -/

namespace Text

variable {sep c : Char} {s t front back : List Char} {parts : List (List Char)}

theorem bracketPairs_marks : ∀ pair ∈ bracketPairs, pair.1 ∈ marks ∧ pair.2 ∈ marks := by
  decide

theorem mem_marks_of_quote {q : Char} (hq : q = '"' ∨ q = '\x27') : q ∈ marks := by
  rcases hq with rfl | rfl <;> decide

theorem notMem_marks_of_isBlank (h : isBlank c = true) : c ∉ marks := by
  have hmarks : ∀ c ∈ marks, isBlank c = false := chars_forall (by decide)
  intro hc
  cases h.symm.trans (hmarks c hc)

/-- A character that is no quote or bracket may be taken off the front. -/
theorem Balanced.of_cons (hc : c ∉ marks) (h : Balanced (c :: s)) : Balanced s := by
  generalize htext : c :: s = text at h
  cases h with
  | nil => cases htext
  | char _ hs =>
      cases htext
      exact hs
  | brackets hpair =>
      cases htext
      exact absurd (bracketPairs_marks _ hpair).1 hc
  | quotes hq =>
      cases htext
      exact absurd (mem_marks_of_quote hq) hc

/-- A text that ends in another character than the group in front of it ends behind the group. -/
theorem exists_of_concat_eq {d : Char} (hne : c ≠ d) (h : s ++ [c] = front ++ [d] ++ t) :
    ∃ t', t = t' ++ [c] ∧ s = front ++ [d] ++ t' := by
  rcases List.eq_nil_or_concat' t with rfl | ⟨t, e, rfl⟩
  · rw [List.append_nil] at h
    obtain ⟨-, hlast⟩ := List.append_inj' h rfl
    exact absurd (List.head_eq_of_cons_eq hlast) hne
  · rw [← List.append_assoc] at h
    obtain ⟨rfl, hlast⟩ := List.append_inj' h rfl
    exact ⟨t, by rw [hlast], rfl⟩

/-- Such a character may be taken off the end as well. -/
theorem Balanced.of_concat (hc : c ∉ marks) (h : Balanced (s ++ [c])) : Balanced s := by
  generalize htext : s ++ [c] = text at h
  induction h generalizing s with
  | nil => simp at htext
  | char hd _ ih =>
      cases s with
      | nil => exact .nil
      | cons e s =>
          cases htext
          exact .char hd (ih rfl)
  | brackets hpair hinner _ _ ih =>
      have hcloser := (bracketPairs_marks _ hpair).2
      obtain ⟨t, rfl, rfl⟩ := exists_of_concat_eq (ne_of_mem_of_not_mem hcloser hc).symm htext
      exact .brackets hpair hinner (ih rfl)
  | quotes hq hrun _ ih =>
      have hquote := mem_marks_of_quote hq
      obtain ⟨t, rfl, rfl⟩ := exists_of_concat_eq (ne_of_mem_of_not_mem hquote hc).symm htext
      exact .quotes hq hrun (ih rfl)

theorem Balanced.of_blank_append (hfront : ∀ c ∈ front, isBlank c = true)
    (h : Balanced (front ++ s)) : Balanced s := by
  induction front with
  | nil => exact h
  | cons c front ih =>
      obtain ⟨hc, hrest⟩ := List.forall_mem_cons.mp hfront
      exact ih hrest (h.of_cons (notMem_marks_of_isBlank hc))

theorem Balanced.of_append_blank (hback : ∀ c ∈ back, isBlank c = true)
    (h : Balanced (s ++ back)) : Balanced s := by
  induction back using List.reverseRecOn with
  | nil => rwa [List.append_nil] at h
  | append_singleton back c ih =>
      obtain ⟨hrest, hc⟩ := List.forall_mem_append.mp hback
      rw [← List.append_assoc] at h
      exact ih hrest (h.of_concat (notMem_marks_of_isBlank (hc c List.mem_cons_self)))

/-- **Trimming** a text takes blanks off its parts and nothing else. -/
theorem cutOutside_trim (hsep : sep ∉ marks) (hblank : isBlank sep = false)
    (h : cutOutside [sep] s = .ok parts) :
    ∃ parts', cutOutside [sep] (trim s) = .ok parts' ∧ parts'.map trim = parts.map trim := by
  obtain ⟨front, back, heq, hfront, hback⟩ := exists_trim s
  have hbalanced := balanced_of_cutFrom (cutOutside_ok.mp h)
  rw [heq] at hbalanced
  obtain ⟨part, rest, hjoin, hall⟩ :=
    ((hbalanced.of_append_blank hback).of_blank_append hfront).exists_parts sep
  have hcut := cutOutside_intercalate hsep hall
  rw [hjoin] at hcut
  -- put back the blanks, and the parts are those of the whole text
  obtain ⟨parts', hparts', htrim⟩ := cutOutside_blank_append hsep hblank hfront hcut
  obtain ⟨parts'', hparts'', htrim'⟩ := cutOutside_append_blank hsep hblank hback hparts'
  rw [← heq, h] at hparts''
  cases hparts''
  exact ⟨_, hcut, (htrim'.trans htrim).symm⟩

end Text

namespace Navigation

/-! ### Following -/

/-- **A way in two parts** is followed through the one and then through the other. -/
theorem followAll_append (text : String) (front back : List (List Char)) (v : Value) :
    followAll text (front ++ back) v = followAll text front v >>= fun found =>
      match found with
      | some w => followAll text back w
      | none => .ok none := by
  induction front generalizing v with
  | nil => rfl
  | cons segment front ih =>
      rw [List.cons_append, followAll, followAll]
      split
      · rfl
      · rw [bind_assoc]
        refine congrArg _ (funext fun found => ?_)
        cases found with
        | none => rfl
        | some w => exact ih w

/-- The outcomes of one way under two texts: the same, or the fault of an empty segment, which names
the text. -/
inductive Retold (text text' : String) : Except Fault Operand → Except Fault Operand → Prop where
  | same (x : Except Fault Operand) : Retold text text' x x
  | emptySegment : Retold text text' (failWith (.emptySegment text))
      (failWith (.emptySegment text'))

theorem Retold.ok_right {text text' : String} {x : Except Fault Operand} {found : Operand}
    (h : Retold text text' x (.ok found)) : x = .ok found := by
  cases h
  rfl

theorem Retold.error_right {text text' : String} {x : Except Fault Operand} {fault : Fault}
    (h : Retold text text' x (.error fault)) : ∃ fault', x = .error fault' := by
  cases h with
  | same => exact ⟨fault, rfl⟩
  | emptySegment => exact ⟨_, rfl⟩

theorem followAll_retold (text text' : String) (segments : List (List Char)) (v : Value) :
    Retold text text' (followAll text segments v) (followAll text' segments v) := by
  induction segments generalizing v with
  | nil => exact .same _
  | cons segment segments ih =>
      rw [followAll, followAll]
      split
      · exact .emptySegment
      · cases follow segment v with
        | error fault => exact .same _
        | ok found =>
            cases found with
            | none => exact .same _
            | some w => exact ih w

/-! ### Texts -/

/-- **A text that can be cut** is followed through its parts without their blanks. -/
theorem resolve_of_cut {text : String} {parts : List (List Char)}
    (h : Text.cutOutside ['.'] text.toList = .ok parts) (v : Value) :
    resolve text v = followAll text (withoutRoot (parts.map Text.trim)) v := by
  obtain ⟨parts', hparts', htrim⟩ := Text.cutOutside_trim (by decide) (by decide) h
  rw [resolve, hparts', Result.bind_ok, htrim]

/-- A sign for the root can only be dropped from the first of two ways. -/
theorem withoutRoot_append {front : List (List Char)} (hfront : front ≠ [])
    (back : List (List Char)) : withoutRoot (front ++ back) = withoutRoot front ++ back := by
  obtain ⟨segment, rest, rfl⟩ := List.exists_cons_of_ne_nil hfront
  rw [List.cons_append, withoutRoot, withoutRoot]
  split <;> rfl

theorem withoutRoot_eq_self {segments : List (List Char)}
    (h : ∀ segment ∈ segments.head?, isRoot segment = false) : withoutRoot segments = segments := by
  cases segments with
  | nil => rfl
  | cons segment segments =>
      rw [withoutRoot, h segment rfl, if_neg Bool.false_ne_true]

/-- **Ways compose.**  A dot stands between two texts that can be cut at dots, and the second does
not begin with a sign for the root.  If the first leads nowhere, or fails, then so does the way of
the whole text.  Otherwise the whole text leads where the second leads from the end of the first,
and fails as it does, but that the fault of an empty segment names the whole text. -/
theorem resolve_joined {first second : String} {front back : List (List Char)}
    (hfirst : Text.cutOutside ['.'] first.toList = .ok front)
    (hsecond : Text.cutOutside ['.'] second.toList = .ok back)
    (hroot : ∀ segment ∈ back.head?, isRoot (Text.trim segment) = false) (v : Value) :
    (resolve first v = .ok none → resolve (first ++ "." ++ second) v = .ok none) ∧
    (∀ fault, resolve first v = .error fault →
      ∃ fault', resolve (first ++ "." ++ second) v = .error fault') ∧
    ∀ w, resolve first v = .ok (some w) →
      Retold (first ++ "." ++ second) second (resolve (first ++ "." ++ second) v)
        (resolve second w) := by
  have htext : (first ++ "." ++ second).toList = first.toList ++ '.' :: second.toList := by simp
  have hcut : Text.cutOutside ['.'] (first ++ "." ++ second).toList = .ok (front ++ back) :=
    htext ▸ Text.cutOutside_append (by decide) hfirst hsecond
  have hfront : front.map Text.trim ≠ [] := by
    obtain ⟨hne, -, -⟩ := (Text.cutOutside_eq_ok_iff (by decide)).mp hfirst
    simpa using hne
  have hback : withoutRoot (back.map Text.trim) = back.map Text.trim := by
    refine withoutRoot_eq_self fun segment hsegment => ?_
    rw [List.head?_map, Option.mem_def, Option.map_eq_some_iff] at hsegment
    obtain ⟨part, hpart, rfl⟩ := hsegment
    exact hroot part hpart
  generalize first ++ "." ++ second = joined at hcut ⊢
  rw [resolve_of_cut hcut, List.map_append, withoutRoot_append hfront, followAll_append,
    resolve_of_cut hfirst]
  -- the first way under the text of both
  have hretold := followAll_retold joined first (withoutRoot (front.map Text.trim)) v
  refine ⟨fun h => ?_, fun fault h => ?_, fun w h => ?_⟩
  · rw [h] at hretold
    rw [hretold.ok_right, Result.bind_ok]
  · rw [h] at hretold
    obtain ⟨fault', hfault'⟩ := hretold.error_right
    exact ⟨fault', by rw [hfault', Result.bind_error]⟩
  · rw [h] at hretold
    rw [hretold.ok_right, Result.bind_ok, resolve_of_cut hsecond, hback]
    exact followAll_retold joined second _ w

/-- A dot in quotes, after the sign for the root, and indices. -/
theorem resolve_joined_quoted :
    let item : Value := .object [("b", .array [.object [("c", .null)]])]
    let v : Value := .object [("x'.'y", .array [.bool true, item])]
    let first := " $.\x60x'.'y\x60[-1]"
    let second := " b[0].c"
    let front := [" $".toList, "\x60x'.'y\x60[-1]".toList]
    let back := [" b[0]".toList, "c".toList]
    Text.cutOutside ['.'] first.toList = .ok front ∧
      Text.cutOutside ['.'] second.toList = .ok back ∧
      (∀ segment ∈ back.head?, isRoot (Text.trim segment) = false) ∧
      resolve first v = .ok (some item) ∧
      resolve (first ++ "." ++ second) v = .ok (some .null) := by
  intro item v first second front back
  have hfirst : Text.cutOutside ['.'] first.toList = .ok front := by decide +kernel
  have hsecond : Text.cutOutside ['.'] second.toList = .ok back := by decide
  have hroot : ∀ segment ∈ back.head?, isRoot (Text.trim segment) = false := by decide
  have hsegments : withoutRoot (front.map Text.trim) = ["\x60x'.'y\x60[-1]".toList] := by
    decide
  have hitem : resolve first v = .ok (some item) := by
    rw [resolve_of_cut hfirst, hsegments]
    rfl
  have hend : resolve " b[0].c" item = .ok (some .null) := rfl
  obtain ⟨-, -, hvalue⟩ := resolve_joined hfirst hsecond hroot v
  have hretold := hvalue item hitem
  rw [hend] at hretold
  exact ⟨hfirst, hsecond, hroot, hitem, hretold.ok_right⟩

end Navigation

end Quarry
