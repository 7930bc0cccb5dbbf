import Quarry.Explore
import Quarry.Proofs.Matches

/-!
# Modes — resolved once, or match by match

A path can be looked up in two ways: behind a dot it is resolved once, and behind `$.` it is walked
and every match is listed.  The two ways have the same path to read: trimming takes blanks off the
end of the text only, since it begins with a sign that is no blank (`Text.trim_cons`), and what
is left of the two signs is the text without them.

A second dot makes the difference.  The walk refuses it before reading, and the lookup refuses it as
an empty segment when it reads (`Path.read_dot`).  Apart from that both fail where the path cannot
be read, and otherwise find the same values: of a path without wildcards the one at its end or none,
and of any other all matches, which the lookup collects in an array (`Explore.search_modes`).
-/

namespace Quarry

namespace Path

/-- A path does not begin with a dot. -/
theorem read_dot (s : List Char) :
    read (String.ofList ('.' :: s)) =
      .error (.query (.path (.emptySegment (String.ofList ('.' :: s))))) := by
  rw [read, String.toList_ofList, pieces, List.length_cons, piecesFrom_dot, assemble]

/-- A path with wildcards collects its matches. -/
theorem resolve_of_hasWildcard {path : Path} (h : path.hasWildcard = true) (v : Value)
    (spread : Bool) :
    path.resolve v spread = some (.array ((path.locate "$" v).map Prod.snd)) := by
  rw [resolve, if_pos h]

end Path

namespace Explore

/-- Behind a dot a path is resolved once. -/
theorem search_dot (p : String) (v : Value) :
    search ("." ++ p) v = (do
      let path ← Path.read (String.ofList (Text.trimRight p.toList))
      return ((path.resolve v false).map
        (String.ofList ('.' :: Text.trimRight p.toList), ·)).toList) := by
  have htext : Text.trim ("." ++ p).toList = '.' :: Text.trimRight p.toList := by
    rw [String.toList_append]
    exact Text.trim_cons (by decide) p.toList
  simp only [search, htext]
  refine congrArg (Path.read _ >>= ·) (funext fun path => ?_)
  cases path.resolve v false <;> rfl

/-- Behind `$.` it is walked, unless it begins with a dot. -/
theorem search_dollar (p : String) (v : Value) :
    search ("$." ++ p) v =
      if (Text.trimRight p.toList).head? = some '.' then
        .error (.query (.recursiveDescent (String.ofList ('$' :: '.' :: Text.trimRight p.toList))))
      else do return (← Path.read (String.ofList (Text.trimRight p.toList))).locate "$" v := by
  have htext : Text.trim ("$." ++ p).toList = '$' :: '.' :: Text.trimRight p.toList := by
    have htrim := Text.trim_cons (c := '.') (by decide) p.toList
    rw [Text.trim, Text.trimLeft, dropWhile_of_stops (stops_cons.mpr (by decide))] at htrim
    rw [String.toList_append, ← htrim]
    exact Text.trim_cons (by decide) ('.' :: p.toList)
  simp only [search, htext, Text.dropLeading, ↓reduceIte]
  split
  · rename_i heq
    rw [heq]
    rfl
  · rename_i hne
    rw [if_neg]
    intro hhead
    obtain ⟨s, hs⟩ := List.head?_eq_some_iff.mp hhead
    exact hne s hs

/-- **Both modes agree.**  For every text behind the sign of the mode, both fail if what is left of
it without the blanks at its end is not read as a path, and with the same fault unless it begins
with a dot.  Otherwise both succeed.  If there are no wildcards in the path they find the same
values, at most one, and if there are, the first finds the array of the values that the second
finds. -/
theorem search_modes (p : String) (v : Value) :
    let text := Text.trimRight p.toList
    (∃ fault, Path.read (String.ofList text) = .error fault ∧
      search ("." ++ p) v = .error fault ∧
      search ("$." ++ p) v = .error (if text.head? = some '.' then
        .query (.recursiveDescent (String.ofList ('$' :: '.' :: text))) else fault)) ∨
    ∃ path founds founds', Path.read (String.ofList text) = .ok path ∧
      search ("." ++ p) v = .ok founds ∧ search ("$." ++ p) v = .ok founds' ∧
      (path.hasWildcard = false →
        founds.map Prod.snd = founds'.map Prod.snd ∧ founds.length ≤ 1) ∧
      (path.hasWildcard = true →
        founds = [(String.ofList ('.' :: text), .array (founds'.map Prod.snd))]) := by
  intro text
  rw [search_dot, search_dollar]
  cases hread : Path.read (String.ofList text) with
  | error fault =>
      refine .inl ⟨fault, rfl, rfl, ?_⟩
      split <;> rfl
  | ok path =>
      have hhead : text.head? ≠ some '.' := by
        intro hhead
        obtain ⟨s, hs⟩ := List.head?_eq_some_iff.mp hhead
        rw [hs, Path.read_dot] at hread
        cases hread
      rw [if_neg hhead]
      refine .inr ⟨path, _, _, rfl, rfl, rfl, fun hpath => ?_, fun hpath => ?_⟩
      · rw [Path.resolve_eq_follow hpath, Path.locate_of_hasWildcard hpath]
        cases path.follow false v <;> simp
      · rw [Path.resolve_of_hasWildcard hpath]
        rfl

end Explore

end Quarry
