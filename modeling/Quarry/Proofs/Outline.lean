import Quarry.Proofs.Exploration

/-!
# Outline — everything inside a value

The outline of a value lists the paths of names and indices that lead somewhere in it, each with
what is there and before the paths that go on from it.  It is made branch by branch
(`Value.outline_eq`).  If no object repeats a name it has every such path and no path twice
(`Value.mem_outline_iff`, `Value.outline_ordered`).

Searching for a name goes through the value in the same way, and takes from the outline the paths
that end in a name with the needle in it (`Explore.searchNames_eq`).  So what is found is complete,
has nothing twice, and comes in the order of the outline (`Explore.search_names`).
-/

namespace Quarry

namespace Value

/-! ### The outline -/

/-- A path from a branch with its end, seen from the value. -/
def behind (segment : Segment) (found : Path × Value) : Path × Value :=
  (segment :: found.1, found.2)

mutual

/-- The paths of names and indices that lead somewhere in a value, with what is there. -/
def outline : Value → List (Path × Value)
  | .array items => ([], .array items) :: outlineItems 0 items
  | .object members => ([], .object members) :: outlineMembers members
  | v => [([], v)]

/-- The outlines of items, of which the first has index `n`. -/
def outlineItems (n : Nat) : List Value → List (Path × Value)
  | [] => []
  | v :: vs => (outline v).map (behind (.index n)) ++ outlineItems (n + 1) vs

/-- The outlines of members. -/
def outlineMembers : List (String × Value) → List (Path × Value)
  | [] => []
  | (name, v) :: rest => (outline v).map (behind (.field name)) ++ outlineMembers rest

end

theorem outlineItems_eq (n : Nat) (items : List Value) :
    outlineItems n items =
      (items.zipIdx n).flatMap fun (item, i) => item.outline.map (behind (.index i)) := by
  induction items generalizing n with
  | nil => rfl
  | cons v items ih => rw [outlineItems, ih, List.zipIdx_cons, List.flatMap_cons]

theorem outlineMembers_eq (members : List (String × Value)) :
    outlineMembers members =
      members.flatMap fun (name, v) => v.outline.map (behind (.field name)) := by
  induction members with
  | nil => rfl
  | cons member members ih => rw [outlineMembers, ih, List.flatMap_cons]

/-- **The outline, branch by branch.** -/
theorem outline_eq (v : Value) :
    v.outline = ([], v) :: v.branches.flatMap fun branch =>
      branch.2.outline.map (behind branch.1) := by
  cases v with
  | array items => rw [outline, outlineItems_eq, branches, List.flatMap_map]
  | object members => rw [outline, outlineMembers_eq, branches, List.flatMap_map]
  | _ => rfl

/-- All but the first of the outline is behind a segment. -/
theorem exists_of_mem_behind {v : Value} {found : Path × Value}
    (h : found ∈ v.branches.flatMap fun branch => branch.2.outline.map (behind branch.1)) :
    ∃ segment path, found.1 = segment :: path := by
  obtain ⟨branch, -, hmem⟩ := List.mem_flatMap.mp h
  obtain ⟨inner, -, rfl⟩ := List.mem_map.mp hmem
  exact ⟨branch.1, inner.1, rfl⟩

theorem mem_outline_cons {v w : Value} {segment : Segment} {path : Path} :
    (segment :: path, w) ∈ v.outline ↔
      ∃ u, (segment, u) ∈ v.branches ∧ (path, w) ∈ u.outline := by
  rw [outline_eq]
  simp [behind, and_assoc]

/-- **The outline is complete**: it has the paths of names and indices that lead somewhere. -/
theorem mem_outline_iff {v w : Value} (hv : v.DistinctNames) {path : Path} :
    (path, w) ∈ v.outline ↔ path.hasWildcard = false ∧ path.follow false v = some w := by
  induction path generalizing v with
  | nil =>
      rw [outline_eq]
      simp [Path.hasWildcard, Path.follow, behind, eq_comm]
  | cons segment path ih =>
      rw [mem_outline_cons, Path.hasWildcard_cons, Path.follow]
      constructor
      · rintro ⟨u, hu, hw⟩
        obtain ⟨hpath, hend⟩ := (ih (hv.branch hu)).mp hw
        obtain ⟨hsegment, hfollow⟩ := hv.mem_branches_iff.mp hu
        exact ⟨⟨hsegment, hpath⟩, by rw [hfollow]; exact hend⟩
      · rintro ⟨⟨hsegment, hpath⟩, hend⟩
        split at hend
        · rename_i u hfollow
          have hu := hv.mem_branches_iff.mpr ⟨hsegment, hfollow⟩
          exact ⟨u, hu, (ih (hv.branch hu)).mpr ⟨hpath, hend⟩⟩
        · cases hend

/-- **The outline is in order**: a path comes once, and before the paths that go on from it. -/
theorem outline_ordered {v : Value} (hv : v.DistinctNames) :
    v.outline.Pairwise fun earlier later => ¬ later.1 <+: earlier.1 := by
  induction v using induct_branches with
  | step v ih =>
      have hbranches := List.pairwise_map.mp hv.branches_nodup
      rw [outline_eq, List.pairwise_cons, List.pairwise_flatMap]
      refine ⟨fun found hfound => ?_, fun branch hbranch => ?_, hbranches.imp ?_⟩
      · obtain ⟨segment, path, hpath⟩ := exists_of_mem_behind hfound
        rw [hpath, List.prefix_nil]
        exact List.cons_ne_nil _ _
      · rw [List.pairwise_map]
        refine (ih branch hbranch (hv.branch hbranch)).imp fun hearlier hlater => ?_
        exact hearlier (List.cons_prefix_cons.mp hlater).2
      · -- the first segments differ
        intro branch branch' hne found hfound found' hfound' hlater
        obtain ⟨inner, -, rfl⟩ := List.mem_map.mp hfound
        obtain ⟨inner', -, rfl⟩ := List.mem_map.mp hfound'
        exact hne (List.cons_prefix_cons.mp hlater).1.symm

end Value

/-! ### Names with the needle in them -/

/-- A path that ends in such a name. -/
def Path.hits (needle : List Char) (path : Path) : Bool :=
  path.getLast?.any (Segment.hits needle)

theorem Path.hits_iff {needle : List Char} {path : Path} :
    path.hits needle = true ↔
      ∃ front name, path = front ++ [.field name] ∧ needle <:+: Text.lower name.toList := by
  rw [hits, Option.any_eq_true]
  constructor
  · rintro ⟨segment, hlast, hhits⟩
    obtain ⟨front, rfl⟩ := List.getLast?_eq_some_iff.mp hlast
    cases segment with
    | field name => exact ⟨front, name, rfl, Text.occurs_iff.mp hhits⟩
    | _ => cases hhits
  · rintro ⟨front, name, rfl, hinfix⟩
    exact ⟨.field name, List.getLast?_concat, Text.occurs_iff.mpr hinfix⟩

namespace Explore

/-! ### Searching -/

variable {needle : List Char}

theorem hits_cons (segment : Segment) (path : Path) :
    Path.hits needle (segment :: path) =
      if path = [] then segment.hits needle else path.hits needle := by
  rw [Path.hits, List.getLast?_cons]
  cases path with
  | nil => rfl
  | cons next path => simp [Path.hits, List.getLast?_cons]

/-- Behind a segment the same paths hit, and the segment itself if it does. -/
theorem filter_hits_cons (segment : Segment) (v : Value) :
    (v.outline.filter fun found => Path.hits needle (segment :: found.1)) =
      (if segment.hits needle then [([], v)] else []) ++
        v.outline.filter fun found => found.1.hits needle := by
  have hinner : ∀ found ∈ v.branches.flatMap fun branch =>
      branch.2.outline.map (Value.behind branch.1),
      Path.hits needle (segment :: found.1) = found.1.hits needle := by
    intro found hfound
    obtain ⟨next, path, hpath⟩ := Value.exists_of_mem_behind hfound
    rw [hpath, hits_cons, if_neg (List.cons_ne_nil _ _)]
  rw [Value.outline_eq, List.filter_cons, List.filter_cons_of_neg (by simp [Path.hits]),
    List.filter_congr hinner, hits_cons, if_pos rfl]
  split <;> rfl

/-- **What is found** are the paths of the outline that end in a name with the needle in it. -/
theorem searchNames_eq (root : String) (v : Value) :
    searchNames needle root v =
      (v.outline.filter fun found => found.1.hits needle).map fun found =>
        (found.1.place root, found.2) := by
  induction v using Value.induct_branches generalizing root with
  | step v ih =>
      rw [searchNames_branches, Value.outline_eq, List.filter_cons_of_neg (by simp [Path.hits]),
        List.filter_flatMap, List.map_flatMap]
      refine List.flatMap_congr fun branch hbranch => ?_
      have hbehind : ((fun found : Path × Value => found.1.hits needle) ∘ Value.behind branch.1) =
          fun found => Path.hits needle (branch.1 :: found.1) := rfl
      rw [ih branch hbranch, List.filter_map, List.map_map, hbehind, filter_hits_cons,
        List.map_append]
      congr 1
      split <;> rfl

/-- A text that asks for no path is searched for. -/
theorem search_eq_searchNames {expression : String}
    (hne : Text.trim expression.toList ≠ [])
    (hstart : ∀ c ∈ (Text.trim expression.toList).head?, c ≠ '$' ∧ c ≠ '.') (v : Value) :
    search expression v = .ok (searchNames (Text.lower (Text.trim expression.toList)) "$" v) := by
  simp only [search]
  split
  · rename_i htext
    exact absurd htext hne
  · rename_i htext
    rw [htext] at hstart
    exact absurd rfl (hstart '$' rfl).1
  · rename_i htext
    rw [htext] at hstart
    exact absurd rfl (hstart '.' rfl).2
  · rfl

/-- **Searching for a name** is never refused, and finds each member once, at any depth, whose
lower-case name has the lower-case text in it.  What is found stands beside the paths of names and
indices that lead somewhere and end in such a name: it has the place of the path and is what is
there.  No path comes twice, and none comes after one that goes on from it. -/
theorem search_names {expression : String} {v : Value} (hv : v.DistinctNames)
    (hne : Text.trim expression.toList ≠ [])
    (hstart : ∀ c ∈ (Text.trim expression.toList).head?, c ≠ '$' ∧ c ≠ '.') :
    ∃ (founds : List Found) (paths : List Path), search expression v = .ok founds ∧
      List.Forall₂ (fun path found => found.1 = path.place "$" ∧
        path.resolve v false = some found.2) paths founds ∧
      (∀ path : Path, path ∈ paths ↔ path.hasWildcard = false ∧ path.resolve v false ≠ none ∧
        ∃ front name, path = front ++ [.field name] ∧
          Text.lower (Text.trim expression.toList) <:+: Text.lower name.toList) ∧
      paths.Nodup ∧ paths.Pairwise fun earlier later => ¬ later <+: earlier := by
  rw [search_eq_searchNames hne hstart]
  generalize Text.lower (Text.trim expression.toList) = needle
  -- what is found are the places of the outline whose last name has the text in it
  let hits := v.outline.filter fun found => found.1.hits needle
  have hhits : ∀ found ∈ hits, found.1.hasWildcard = false ∧
      found.1.follow false v = some found.2 := fun found hfound =>
    (Value.mem_outline_iff hv).mp (List.mem_filter.mp hfound).1
  have hordered : (hits.map Prod.fst).Pairwise fun earlier later => ¬ later <+: earlier :=
    List.pairwise_map.mpr ((Value.outline_ordered hv).filter _)
  refine ⟨_, hits.map Prod.fst, congrArg Except.ok (searchNames_eq "$" v), ?_, fun path => ?_, ?_,
    hordered⟩
  · rw [List.forall₂_map_left_iff, List.forall₂_map_right_iff, List.forall₂_same]
    intro found hfound
    obtain ⟨hpath, hend⟩ := hhits found hfound
    exact ⟨rfl, (Path.resolve_eq_follow hpath v false).trans hend⟩
  · rw [← Path.hits_iff]
    constructor
    · intro hpath
      obtain ⟨found, hfound, rfl⟩ := List.mem_map.mp hpath
      obtain ⟨hwildcard, hend⟩ := hhits found hfound
      rw [Path.resolve_eq_follow hwildcard, hend]
      exact ⟨hwildcard, Option.some_ne_none _, (List.mem_filter.mp hfound).2⟩
    · rintro ⟨hwildcard, hend, hname⟩
      rw [Path.resolve_eq_follow hwildcard] at hend
      obtain ⟨w, hw⟩ := Option.ne_none_iff_exists'.mp hend
      have hmem := (Value.mem_outline_iff hv).mpr ⟨hwildcard, hw⟩
      exact List.mem_map.mpr ⟨(path, w), List.mem_filter.mpr ⟨hmem, hname⟩, rfl⟩
  · refine hordered.imp ?_
    rintro path _ hearlier rfl
    exact hearlier List.prefix_rfl

/-- A member inside another that is found too, and one in an array of arrays. -/
theorem search_names_nested :
    let v : Value := .object [("Name", .object [("size", .null), ("rename", .bool true)]),
      ("a.b", .array [.array [.null, .object [("NAME", .null)]]])]
    let founds : List Found := [("$.Name", .object [("size", .null), ("rename", .bool true)]),
      ("$.Name.rename", .bool true), ("$[\"a.b\"][0][1].NAME", .null)]
    v.DistinctNames ∧ Text.trim " nAme".toList ≠ [] ∧
      (∀ c ∈ (Text.trim " nAme".toList).head?, c ≠ '$' ∧ c ≠ '.') ∧
      search " nAme" v = .ok founds ∧
      ∃ paths : List Path, List.Forall₂ (fun path found => found.1 = path.place "$" ∧
        path.resolve v false = some found.2) paths founds ∧ paths.Nodup := by
  intro v founds
  have hv : v.DistinctNames := .of_wellFormed (by
    simp [v, Value.WellFormed, Value.WellFormedMembers, Value.WellFormedItems, Members.Distinct,
      Members.names])
  have htrim : Text.trim " nAme".toList = ['n', 'A', 'm', 'e'] := by decide
  have hne : Text.trim " nAme".toList ≠ [] := by
    rw [htrim]
    exact List.cons_ne_nil _ _
  have hstart : ∀ c ∈ (Text.trim " nAme".toList).head?, c ≠ '$' ∧ c ≠ '.' := by
    rw [htrim]
    rintro c ⟨⟩
    exact ⟨by decide, by decide⟩
  have hfounds : search " nAme" v = .ok founds := by
    rw [search_eq_searchNames hne hstart, htrim]
    rfl
  obtain ⟨founds', paths, hsearch, hbeside, -, hnodup, -⟩ := search_names hv hne hstart
  rw [hfounds] at hsearch
  cases hsearch
  exact ⟨hv, hne, hstart, hfounds, paths, hbeside, hnodup⟩

end Explore

end Quarry
