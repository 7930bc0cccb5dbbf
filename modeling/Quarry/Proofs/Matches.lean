import Quarry.Proofs.Invariants
import Quarry.Proofs.Places

/-!
# Matches — where a path leads, and by what places

The items of an array and the members of an object are its branches, each behind the segment that
leads to it.  A wildcard takes every branch, any other segment at most one (`Path.locate_wildcard`,
`Path.locate_cons`).  From these two equations a path in two parts is walked through the one and
then, from every match, through the other; and a path without wildcards has the one match that it
resolves to, or none (`Path.locate_walk`).

A place tells its path, whatever the names are: a segment can be told from its pieces, and the
pieces of a path are those of its segments one after another (`Path.place_injective`).  The matches
of a path are behind different branches at some point, so their places differ if no object repeats a
name (`Path.places_identify`).
-/

namespace Quarry

/-- The children of a value, each with the segment that leads to it. -/
def Value.branches : Value → List (Segment × Value)
  | .array items => items.zipIdx.map fun (item, n) => (.index n, item)
  | .object members => members.map fun (name, w) => (.field name, w)
  | _ => []

namespace Value

/-- What sits in a branch sits in the value. -/
theorem Inside.of_branch {k : Nat} {u v w : Value} {segment : Segment} (h : Inside k u w)
    (hw : (segment, w) ∈ v.branches) : Inside (k + 1) u v := by
  cases v with
  | array items =>
      obtain ⟨⟨item, n⟩, hitem, heq⟩ := List.mem_map.mp hw
      cases heq
      exact .item (List.fst_mem_of_mem_zipIdx hitem) h
  | object members =>
      obtain ⟨⟨name, u⟩, hmember, heq⟩ := List.mem_map.mp hw
      cases heq
      exact .member hmember h
  | _ => cases hw

/-- Induction on values, from all branches at once. -/
theorem induct_branches {motive : Value → Prop}
    (step : ∀ v, (∀ branch ∈ v.branches, motive branch.2) → motive v) : ∀ v, motive v := by
  intro v
  induction v with
  | array items ih =>
      refine step _ fun branch hbranch => ?_
      obtain ⟨⟨item, n⟩, hitem, rfl⟩ := List.mem_map.mp hbranch
      exact ih item (List.fst_mem_of_mem_zipIdx hitem)
  | object members ih =>
      refine step _ fun branch hbranch => ?_
      obtain ⟨member, hmember, rfl⟩ := List.mem_map.mp hbranch
      exact ih member hmember
  | _ => exact step _ nofun

end Value

namespace Path

/-! ### Walking -/

theorem locate_wildcard (path : Path) (root : String) (v : Value) :
    locate (.wildcard :: path) root v =
      v.branches.flatMap fun branch => path.locate (branch.1.place root) branch.2 := by
  cases v with
  | array items => simp only [locate, Value.branches, List.flatMap_map, Segment.place]
  | object members => simp only [locate, Value.branches, List.flatMap_map, Segment.place]
  | _ => rfl

theorem locate_cons {segment : Segment} (h : segment ≠ .wildcard) (path : Path) (root : String)
    (v : Value) :
    locate (segment :: path) root v =
      match segment.follow false v with
      | some w => path.locate (segment.place root) w
      | none => [] := by
  cases segment with
  | field name => cases v <;> rfl
  | index n => cases v <;> rfl
  | wildcard => exact absurd rfl h

theorem locate_append (path path' : Path) (root : String) (v : Value) :
    (path ++ path').locate root v =
      (path.locate root v).flatMap fun found => path'.locate found.1 found.2 := by
  induction path generalizing root v with
  | nil => simp only [List.nil_append, locate, List.flatMap_singleton]
  | cons segment path ih =>
      by_cases hsegment : segment = .wildcard
      · simp only [hsegment, List.cons_append, locate_wildcard, List.flatMap_assoc, ih]
      · rw [List.cons_append, locate_cons hsegment, locate_cons hsegment]
        cases segment.follow false v with
        | none => rfl
        | some w => exact ih _ w

theorem hasWildcard_cons {segment : Segment} {path : Path} :
    hasWildcard (segment :: path) = false ↔ segment ≠ .wildcard ∧ path.hasWildcard = false := by
  simp [hasWildcard]

/-- A path without wildcards is followed to one match, or to none. -/
theorem locate_of_hasWildcard {path : Path} (h : path.hasWildcard = false) (root : String)
    (v : Value) :
    path.locate root v = ((path.follow false v).map fun w => (path.place root, w)).toList := by
  induction path generalizing root v with
  | nil => rfl
  | cons segment path ih =>
      obtain ⟨hsegment, hpath⟩ := hasWildcard_cons.mp h
      rw [locate_cons hsegment, follow]
      cases segment.follow false v with
      | none => rfl
      | some w => exact ih hpath _ w

/-- **Matches compose, and agree with what is at a path.**  The matches of a path in two parts are
those of the second in every match of the first, in order, and their places go on from there.  A
path without wildcards has no match if nothing is there, and otherwise one, which is what is
there. -/
theorem locate_walk (root : String) (v : Value) :
    (∀ path path' : Path, (path ++ path').locate root v =
      (path.locate root v).flatMap fun found => path'.locate found.1 found.2) ∧
    ∀ path : Path, path.hasWildcard = false →
      (path.resolve v false = none → path.locate root v = []) ∧
      ∀ w, path.resolve v false = some w → path.locate root v = [(path.place root, w)] := by
  refine ⟨fun path path' => locate_append path path' root v, fun path hpath => ?_⟩
  rw [resolve_eq_follow hpath, locate_of_hasWildcard hpath]
  refine ⟨fun hnone => ?_, fun w hw => ?_⟩
  · rw [hnone]
    rfl
  · rw [hw]
    rfl

/-- A wildcard with a name after it, and two paths without wildcards of which one leads nowhere. -/
theorem locate_walk_wildcard :
    let v : Value := .object [("a.b", .array [.object [("c", .null)], .object [("c", .bool true)]])]
    let items : Path := [.field "a.b", .wildcard]
    let found : Path := [.field "a.b", .index 1, .field "c"]
    let missing : Path := [.field "a.b", .field "c"]
    (items ++ [Segment.field "c"]).locate "$" v =
        [("$[\"a.b\"][0].c", .null), ("$[\"a.b\"][1].c", .bool true)] ∧
      found.hasWildcard = false ∧ found.locate "$" v = [("$[\"a.b\"][1].c", .bool true)] ∧
      missing.hasWildcard = false ∧ missing.locate "$" v = [] := by
  intro v items found missing
  obtain ⟨happend, hsingle⟩ := locate_walk "$" v
  have hitems : items.locate "$" v =
      [("$[\"a.b\"][0]", .object [("c", .null)]), ("$[\"a.b\"][1]", .object [("c", .bool true)])] :=
    rfl
  have hfound : found.locate "$" v = [(found.place "$", .bool true)] :=
    (hsingle found rfl).2 (.bool true) rfl
  refine ⟨?_, rfl, hfound, rfl, (hsingle missing rfl).1 rfl⟩
  rw [happend, hitems]
  rfl

/-! ### Places tell their paths -/

/-- The segment that brackets with the given inside were written for. -/
def unbracketed (inner : List Char) : Segment :=
  if inner = ['*'] then .wildcard
  else
    match Literal.unquote? inner with
    | some name => .field name
    | none => .index (Text.naturalOf inner)

theorem unbracketed_quoted (name : String) :
    unbracketed (Text.quoted name.toList) = .field name := by
  have hstar : Text.quoted name.toList ≠ ['*'] := by
    rintro ⟨⟩
  simp only [unbracketed, if_neg hstar, Literal.unquote?_quoted]

theorem unbracketed_toDigits (n : Nat) : unbracketed (Nat.toDigits 10 n) = .index n := by
  have hdigits := allDigits_toDigits n
  obtain ⟨d, s, hcons⟩ := List.exists_cons_of_ne_nil (Nat.toDigits_ne_nil (b := 10) (n := n))
  have hd : d.isDigit = true := hdigits d (hcons ▸ List.mem_cons_self)
  have hne : ∀ c : Char, c.isDigit = false → d ≠ c := by
    rintro c hc rfl
    cases hc.symm.trans hd
  have hstar : Nat.toDigits 10 n ≠ ['*'] := by
    rw [hcons]
    exact fun heq => hne '*' rfl (List.cons.inj heq).1
  have hquotes : Literal.unquote? (Nat.toDigits 10 n) = none := by
    rw [hcons]
    exact Literal.unquote?_eq_none ⟨hne '"' rfl, hne '\x27' rfl⟩
  simp only [unbracketed, if_neg hstar, hquotes, Text.naturalOf_toDigits]

/-- A segment is told by its pieces: a name behind a dot, or what is in brackets. -/
theorem segmentPieces_cases (segment : Segment) :
    (∃ name, segmentPieces segment = [.dot, .name name] ∧ segment = .field (String.ofList name)) ∨
    ∃ inner, segmentPieces segment = [.bracket inner] ∧ segment = unbracketed inner := by
  cases segment with
  | field name =>
      rw [segmentPieces]
      split
      · exact .inl ⟨_, rfl, by rw [String.ofList_toList]⟩
      · exact .inr ⟨_, rfl, (unbracketed_quoted name).symm⟩
  | index n => exact .inr ⟨_, rfl, (unbracketed_toDigits n).symm⟩
  | wildcard => exact .inr ⟨_, rfl, rfl⟩

theorem segmentPieces_ne_nil (segment : Segment) : segmentPieces segment ≠ [] := by
  rcases segmentPieces_cases segment with ⟨name, hpieces, -⟩ | ⟨inner, hpieces, -⟩ <;>
    simp [hpieces]

theorem segmentPieces_append_inj {segment segment' : Segment} {rest rest' : List Piece}
    (h : segmentPieces segment ++ rest = segmentPieces segment' ++ rest') :
    segment = segment' ∧ rest = rest' := by
  rcases segmentPieces_cases segment with ⟨name, hpieces, heq⟩ | ⟨inner, hpieces, heq⟩
  · rcases segmentPieces_cases segment' with ⟨name', hpieces', heq'⟩ | ⟨inner', hpieces', -⟩
    · rw [hpieces, hpieces'] at h
      cases h
      exact ⟨heq.trans heq'.symm, rfl⟩
    · rw [hpieces, hpieces'] at h
      cases h
  · rcases segmentPieces_cases segment' with ⟨name', hpieces', -⟩ | ⟨inner', hpieces', heq'⟩
    · rw [hpieces, hpieces'] at h
      cases h
    · rw [hpieces, hpieces'] at h
      cases h
      exact ⟨heq.trans heq'.symm, rfl⟩

theorem flatMap_segmentPieces_injective : Function.Injective (List.flatMap segmentPieces) := by
  intro path path' h
  induction path generalizing path' with
  | nil =>
      cases path' with
      | nil => rfl
      | cons segment' path' =>
          rw [List.flatMap_cons] at h
          exact absurd (List.append_eq_nil_iff.mp h.symm).1 (segmentPieces_ne_nil segment')
  | cons segment path ih =>
      cases path' with
      | nil =>
          rw [List.flatMap_cons] at h
          exact absurd (List.append_eq_nil_iff.mp h).1 (segmentPieces_ne_nil segment)
      | cons segment' path' =>
          rw [List.flatMap_cons, List.flatMap_cons] at h
          obtain ⟨rfl, hrest⟩ := segmentPieces_append_inj h
          rw [ih hrest]

/-- **Different paths have different places**, whatever names are on them. -/
theorem place_injective (root : String) : Function.Injective (place root) := by
  intro path path' h
  have htext := congrArg String.toList h
  rw [place_toList, place_toList, List.append_cancel_left_eq] at htext
  have hpieces := piecesFrom_text path 0 (Nat.le_refl _)
  rw [htext, piecesFrom_text path' 0 (Nat.le_refl _)] at hpieces
  exact flatMap_segmentPieces_injective hpieces.symm

end Path

/-! ### Matches are told by their places -/

/-- No object in the value repeats a name. -/
def Value.DistinctNames (v : Value) : Prop :=
  ∀ k members, Inside k (.object members) v → Members.Distinct members

namespace Value.DistinctNames

variable {v : Value}

theorem of_wellFormed (h : v.WellFormed) : v.DistinctNames := fun k members hin =>
  wellFormed_iff.mp h k (.object members) hin

theorem branch (h : v.DistinctNames) {segment : Segment} {w : Value}
    (hw : (segment, w) ∈ v.branches) : w.DistinctNames := fun k members hin =>
  h (k + 1) members (hin.of_branch hw)

/-- Different branches are behind different segments. -/
theorem branches_nodup (h : v.DistinctNames) : (v.branches.map Prod.fst).Nodup := by
  cases v with
  | array items =>
      have hindices : (array items).branches.map Prod.fst =
          (items.zipIdx.map Prod.snd).map Segment.index := by
        simp only [branches, List.map_map, Function.comp_def]
      have hdistinct : (items.zipIdx.map Prod.snd).Nodup := by
        rw [List.zipIdx_map_snd]
        exact List.nodup_range'
      rw [hindices]
      exact hdistinct.map fun _ _ => Segment.index.inj
  | object members =>
      have hnames : (object members).branches.map Prod.fst =
          (Members.names members).map Segment.field := by
        simp only [branches, Members.names, List.map_map, Function.comp_def]
      rw [hnames]
      exact (h 0 members (.here _)).map fun _ _ => Segment.field.inj
  | _ => exact List.nodup_nil

/-- The branches are what the segments that are no wildcards lead to. -/
theorem mem_branches_iff (h : v.DistinctNames) {segment : Segment} {w : Value} :
    (segment, w) ∈ v.branches ↔ segment ≠ .wildcard ∧ segment.follow false v = some w := by
  cases v with
  | array items =>
      have hitem : (segment, w) ∈ (array items).branches ↔
          ∃ n, segment = .index n ∧ items[n]? = some w := by
        simp [branches, List.mem_zipIdx_iff_getElem?, eq_comm, and_comm]
      rw [hitem]
      cases segment with
      | field name => simp [Segment.follow]
      | index n => simp [Segment.follow]
      | wildcard => simp
  | object members =>
      have hmember : (segment, w) ∈ (object members).branches ↔
          ∃ name, segment = .field name ∧ Members.find? members name = some w := by
        have hfind : ∀ name, (name, w) ∈ members ↔ Members.find? members name = some w :=
          fun name => ⟨Members.find?_of_mem (h 0 members (.here _)), Members.mem_of_find?⟩
        simp [branches, hfind, eq_comm, and_comm]
      rw [hmember]
      cases segment with
      | field name => simp [Segment.follow]
      | index n => simp [Segment.follow]
      | wildcard => simp
  | _ => cases segment <;> simp [branches, Segment.follow]

end Value.DistinctNames

namespace Path

/-- A match is at the end of a path from where the walk began. -/
theorem exists_place_of_mem_locate {path : Path} {root : String} {v : Value}
    {found : String × Value} (h : found ∈ path.locate root v) :
    ∃ way : Path, found.1 = way.place root := by
  induction path generalizing root v with
  | nil =>
      obtain rfl := List.mem_singleton.mp h
      exact ⟨[], rfl⟩
  | cons segment path ih =>
      by_cases hsegment : segment = .wildcard
      · rw [hsegment, locate_wildcard] at h
        obtain ⟨branch, -, hfound⟩ := List.mem_flatMap.mp h
        obtain ⟨way, hway⟩ := ih hfound
        exact ⟨branch.1 :: way, hway⟩
      · rw [locate_cons hsegment] at h
        split at h
        · obtain ⟨way, hway⟩ := ih h
          exact ⟨segment :: way, hway⟩
        · cases h

/-- By induction on the path: matches behind one branch differ by induction, and matches behind two
branches differ in the segments of these. -/
theorem locate_pairwise {v : Value} (hv : v.DistinctNames) (path : Path) (root : String) :
    (path.locate root v).Pairwise fun found found' => found.1 ≠ found'.1 := by
  induction path generalizing root v with
  | nil => exact List.pairwise_singleton _ _
  | cons segment path ih =>
      by_cases hsegment : segment = .wildcard
      · have hbranches := List.pairwise_map.mp hv.branches_nodup
        rw [hsegment, locate_wildcard, List.pairwise_flatMap]
        refine ⟨fun branch hbranch => ih (hv.branch hbranch) _, hbranches.imp ?_⟩
        intro branch branch' hne found hfound found' hfound' heq
        obtain ⟨way, hway⟩ := exists_place_of_mem_locate hfound
        obtain ⟨way', hway'⟩ := exists_place_of_mem_locate hfound'
        rw [hway, hway'] at heq
        have hpath : branch.1 :: way = branch'.1 :: way' := place_injective root heq
        exact hne (List.cons.inj hpath).1
      · rw [locate_cons hsegment]
        cases hw : segment.follow false v with
        | none => exact List.Pairwise.nil
        | some w => exact ih (hv.branch (hv.mem_branches_iff.mpr ⟨hsegment, hw⟩)) _

/-- **Places identify.**  The matches of any path have different places, if no object in the value
repeats a name.  More generally, the places of different paths from one root differ, whatever names
are on the paths. -/
theorem places_identify :
    (∀ (v : Value) (path : Path) (root : String), v.DistinctNames →
      ((path.locate root v).map Prod.fst).Nodup) ∧
    ∀ (root : String) (path path' : Path), path ≠ path' → path.place root ≠ path'.place root :=
  ⟨fun _ path root hv => List.pairwise_map.mpr (locate_pairwise hv path root),
    fun root _ _ hne heq => hne (place_injective root heq)⟩

/-- Names that look like other segments. -/
theorem places_identify_awkward :
    let v : Value := .object [("", .array [.null, .null]), ("*", .object [("[0]", .null)])]
    v.DistinctNames ∧ ((locate [.wildcard, .wildcard] "$" v).map Prod.fst).Nodup ∧
      [Segment.field "[0]"] ≠ [.index 0] ∧
      place "$[\"\"]" [.field "[0]"] ≠ place "$[\"\"]" [.index 0] := by
  intro v
  have hv : v.DistinctNames := .of_wellFormed (by
    simp [v, Value.WellFormed, Value.WellFormedMembers, Value.WellFormedItems, Members.Distinct,
      Members.names])
  have hne : [Segment.field "[0]"] ≠ [.index 0] := by decide
  exact ⟨hv, places_identify.1 v _ "$" hv, hne, places_identify.2 _ _ _ hne⟩

end Path

end Quarry
