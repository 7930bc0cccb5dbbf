import Quarry.Explore
import Quarry.Proofs.Matches

/-!
# Exploration — the places that are found can be followed

Whatever is found lies at the end of names and indices: `Reaches path root v found` says that
`path` leads from `v`, whose place is `root`, to what was found.  Paths with wildcards and the
search for names go from branch to branch, so they find such places only
(`exists_reaches_of_mem_locate`, `exists_reaches_of_mem_searchNames`), and the path itself finds its
own end and nothing else (`Reaches.locate_eq`).

A place is read as this path if no name in it is `*`, so following it finds what was found
(`search_place`).  A name `*` is read as a wildcard.  Then what was found is found again, but other
places may match too.
-/

namespace Quarry

/-- What places rest on: members have names that differ, and the indices of items have few enough
digits to be read. -/
structure Value.Addressable (v : Value) : Prop where
  distinct : ∀ k members, Inside k (.object members) v → Members.Distinct members
  short : ∀ k items, Inside k (.array items) v → items.length ≤ Number.digitBound

namespace Value.Addressable

theorem array_iff {items : List Value} :
    Addressable (.array items) ↔
      items.length ≤ Number.digitBound ∧ ∀ v ∈ items, v.Addressable := by
  constructor
  · exact fun h => ⟨h.short 0 items (.here _), fun v hv =>
      ⟨fun k members hin => h.distinct (k + 1) members (.item hv hin),
        fun k items' hin => h.short (k + 1) items' (.item hv hin)⟩⟩
  · rintro ⟨hlength, hitems⟩
    constructor
    · intro k members hin
      rcases hin with _ | ⟨hv, hin⟩
      exact (hitems _ hv).distinct _ members hin
    · intro k items' hin
      rcases hin with _ | ⟨hv, hin⟩
      · exact hlength
      · exact (hitems _ hv).short _ items' hin

theorem object_iff {members : List (String × Value)} :
    Addressable (.object members) ↔
      Members.Distinct members ∧ ∀ member ∈ members, member.2.Addressable := by
  constructor
  · exact fun h => ⟨h.distinct 0 members (.here _), fun member hmember =>
      ⟨fun k members' hin => h.distinct (k + 1) members' (.member hmember hin),
        fun k items hin => h.short (k + 1) items (.member hmember hin)⟩⟩
  · rintro ⟨hdistinct, hmembers⟩
    constructor
    · intro k members' hin
      rcases hin with _ | _ | ⟨hmember, hin⟩
      · exact hdistinct
      · exact (hmembers _ hmember).distinct _ members' hin
    · intro k items hin
      rcases hin with _ | _ | ⟨hmember, hin⟩
      exact (hmembers _ hmember).short _ items hin

theorem of_isScalar {v : Value} (h : v.IsScalar) : v.Addressable := by
  cases v with
  | array _ => exact h.elim
  | object _ => exact h.elim
  | _ => exact ⟨nofun, nofun⟩

theorem item {items : List Value} (h : Addressable (.array items)) {v : Value} (hv : v ∈ items) :
    v.Addressable :=
  (array_iff.mp h).2 v hv

theorem member {members : List (String × Value)} (h : Addressable (.object members))
    {name : String} {v : Value} (hv : (name, v) ∈ members) : v.Addressable :=
  (object_iff.mp h).2 (name, v) hv

theorem distinctNames {v : Value} (h : v.Addressable) : v.DistinctNames :=
  h.distinct

theorem branch {v w : Value} (h : v.Addressable) {segment : Segment}
    (hw : (segment, w) ∈ v.branches) : w.Addressable where
  distinct k members hin := h.distinct (k + 1) members (hin.of_branch hw)
  short k items hin := h.short (k + 1) items (hin.of_branch hw)

end Value.Addressable

/-- A name whose lower case has the needle in it. -/
def Segment.hits (needle : List Char) : Segment → Bool
  | .field name => Text.occurs needle (Text.lower name.toList)
  | _ => false

namespace Explore

/-- A path of names and indices leads from a value, whose place is `root`, to what is found. -/
inductive Reaches : (path : Path) → (root : String) → Value → Found → Prop where
  | here (root : String) (v : Value) : Reaches [] root v (root, v)
  | item {path : Path} {root : String} {items : List Value} {n : Nat} {w : Value} {found : Found}
      (hw : items[n]? = some w) (h : Reaches path (Place.item root n) w found) :
      Reaches (.index n :: path) root (.array items) found
  | member {path : Path} {root name : String} {members : List (String × Value)} {w : Value}
      {found : Found} (hw : Members.find? members name = some w)
      (h : Reaches path (Place.member root name) w found) :
      Reaches (.field name :: path) root (.object members) found

namespace Reaches

variable {path : Path} {root : String} {v : Value} {found : Found}

/-- There are no wildcards on the way. -/
theorem hasWildcard_eq (h : Reaches path root v found) : path.hasWildcard = false := by
  induction h with
  | here => rfl
  | item _ _ ih => simpa [Path.hasWildcard] using ih
  | member _ _ ih => simpa [Path.hasWildcard] using ih

theorem place_eq (h : Reaches path root v found) : found.1 = path.place root := by
  induction h with
  | here => rfl
  | item _ _ ih => exact ih
  | member _ _ ih => exact ih

theorem follow_eq (h : Reaches path root v found) : path.follow false v = some found.2 := by
  induction h with
  | here => rfl
  | item hw _ ih => simp only [Path.follow, Segment.follow, hw, ih]
  | member hw _ ih => simp only [Path.follow, Segment.follow, hw, ih]

/-- **The path finds its own end** and nothing else. -/
theorem locate_eq (h : Reaches path root v found) : path.locate root v = [found] := by
  induction h with
  | here => rfl
  | item hw _ ih => simp only [Path.locate, hw, ih]
  | member hw _ ih => simp only [Path.locate, hw, ih]

/-- With wildcards in the place of names `*` the end is still found. -/
theorem mem_locate_reread (h : Reaches path root v found) :
    found ∈ path.reread.locate root v := by
  induction h with
  | here => exact List.mem_singleton.mpr rfl
  | item hw _ ih =>
      simp only [Path.reread, List.map_cons, Segment.reread, Path.locate, hw]
      exact ih
  | @member path root name members w found hw _ ih =>
      rw [Path.reread, List.map_cons, Segment.reread]
      split
      · simp only [Path.locate]
        exact List.mem_flatMap.mpr ⟨(name, w), Members.mem_of_find? hw, ih⟩
      · simp only [Path.locate, hw]
        exact ih

/-- Indices on the way are those of items. -/
theorem index_lt (h : Reaches path root v found) (hv : v.Addressable) :
    ∀ n, Segment.index n ∈ path → n < Number.digitBound := by
  induction h with
  | here => nofun
  | @item path root items m w found hw _ ih =>
      intro n hn
      rcases List.mem_cons.mp hn with heq | hn
      · obtain rfl : n = m := by simpa using heq
        obtain ⟨hlt, -⟩ := List.getElem?_eq_some_iff.mp hw
        exact hlt.trans_le (hv.short 0 items (.here _))
      · exact ih (hv.item (List.mem_of_getElem? hw)) n hn
  | member hw _ ih =>
      intro n hn
      rcases List.mem_cons.mp hn with heq | hn
      · cases heq
      · exact ih (hv.member (Members.mem_of_find? hw)) n hn

end Reaches

/-! ### What is found -/

section

variable {root : String} {v w : Value} {found : Found} {segment : Segment} {path : Path}

theorem Reaches.branch (hv : v.Addressable) (hw : (segment, w) ∈ v.branches)
    (h : Reaches path (segment.place root) w found) : Reaches (segment :: path) root v found := by
  obtain ⟨hsegment, hfollow⟩ := hv.distinctNames.mem_branches_iff.mp hw
  cases v with
  | array items =>
      cases segment with
      | field name => cases hfollow
      | index n => exact .item hfollow h
      | wildcard => exact absurd rfl hsegment
  | object members =>
      cases segment with
      | field name => exact .member hfollow h
      | index n => cases hfollow
      | wildcard => exact absurd rfl hsegment
  | _ => cases hw

/-- **Matches of a path** are at the end of names and indices. -/
theorem exists_reaches_of_mem_locate (hv : v.Addressable) (h : found ∈ path.locate root v) :
    ∃ path', Reaches path' root v found := by
  induction path generalizing root v with
  | nil =>
      obtain rfl := List.mem_singleton.mp h
      exact ⟨[], .here root v⟩
  | cons segment path ih =>
      have hbranch : ∀ segment w, (segment, w) ∈ v.branches →
          found ∈ Path.locate path (segment.place root) w →
            ∃ path', Reaches path' root v found := by
        intro segment w hw hfound
        obtain ⟨path', hpath⟩ := ih (hv.branch hw) hfound
        exact ⟨_, .branch hv hw hpath⟩
      by_cases hsegment : segment = .wildcard
      · rw [hsegment, Path.locate_wildcard] at h
        obtain ⟨branch, hmem, hfound⟩ := List.mem_flatMap.mp h
        exact hbranch branch.1 branch.2 hmem hfound
      · rw [Path.locate_cons hsegment] at h
        split at h
        · rename_i w hw
          exact hbranch segment w (hv.distinctNames.mem_branches_iff.mpr ⟨hsegment, hw⟩) h
        · cases h

theorem searchItems_eq {needle : List Char} (root : String) (n : Nat) (items : List Value) :
    searchItems needle root n items =
      (items.zipIdx n).flatMap fun (item, i) => searchNames needle (Place.item root i) item := by
  induction items generalizing n with
  | nil => rfl
  | cons v items ih => rw [searchItems, ih, List.zipIdx_cons, List.flatMap_cons]

theorem searchMembers_eq {needle : List Char} (root : String) (members : List (String × Value)) :
    searchMembers needle root members = members.flatMap fun (name, v) =>
      (if Segment.hits needle (.field name) then [(Place.member root name, v)] else []) ++
        searchNames needle (Place.member root name) v := by
  induction members with
  | nil => rfl
  | cons member members ih => rw [searchMembers, ih, List.flatMap_cons]; rfl

/-- **The search, branch by branch.** -/
theorem searchNames_branches {needle : List Char} (root : String) (v : Value) :
    searchNames needle root v = v.branches.flatMap fun branch =>
      (if branch.1.hits needle then [(branch.1.place root, branch.2)] else []) ++
        searchNames needle (branch.1.place root) branch.2 := by
  cases v with
  | array items =>
      rw [searchNames, searchItems_eq, Value.branches, List.flatMap_map]
      rfl
  | object members => rw [searchNames, searchMembers_eq, Value.branches, List.flatMap_map]; rfl
  | _ => rfl

/-- **Found names** are at the end of names and indices. -/
theorem exists_reaches_of_mem_searchNames {needle : List Char} (hv : v.Addressable)
    (h : found ∈ searchNames needle root v) : ∃ path, Reaches path root v found := by
  induction v using Value.induct_branches generalizing root with
  | step v ih =>
      rw [searchNames_branches] at h
      obtain ⟨⟨segment, w⟩, hw, hfound⟩ := List.mem_flatMap.mp h
      rcases List.mem_append.mp hfound with hfound | hfound
      · split at hfound
        · obtain rfl := List.mem_singleton.mp hfound
          exact ⟨_, .branch hv hw (.here _ w)⟩
        · cases hfound
      · obtain ⟨path, hpath⟩ := ih (segment, w) hw (hv.branch hw) hfound
        exact ⟨_, .branch hv hw hpath⟩

end

/-! ### Following a place -/

/-- A name `*` is written as it is. -/
theorem mem_place_of_star {path : Path} (root : String) (h : Segment.field "*" ∈ path) :
    '*' ∈ (path.place root).toList := by
  rw [Path.place_toList]
  exact List.mem_append_right _ (List.mem_flatMap.mpr ⟨_, h, by decide⟩)

/-- A place begins with its root and ends in a name or a bracket, so it has no blanks at its
ends. -/
theorem trimmed_place (path : Path) : Text.Trimmed (path.place "$").toList := by
  have hsegment : ∀ segment : Segment, Text.Trimmed segment.text ∧ segment.text ≠ [] := by
    intro segment
    rcases Path.segment_cases segment with ⟨name, htext, -, hbare⟩ | ⟨inner, htext, -, -, -⟩
    · rw [htext]
      refine ⟨Text.trimmed_of_forall fun c hc => ?_, List.cons_ne_nil _ _⟩
      rcases List.mem_cons.mp hc with rfl | hc
      · rfl
      · exact (Place.isBare_iff.mp ((Place.isBareName_iff.mp hbare).2 c hc)).2.2
    · rw [htext]
      exact ⟨Text.trimmed_between rfl rfl inner, List.cons_ne_nil _ _⟩
  have hroot : Text.Trimmed ['$'] := Text.trimmed_of_forall (chars_forall (by decide))
  rw [Path.place_toList]
  rcases List.eq_nil_or_concat' path with rfl | ⟨path, segment, rfl⟩
  · exact hroot
  · obtain ⟨htrim, hne⟩ := hsegment segment
    have := hroot.append htrim (by decide) hne (path.flatMap Segment.text)
    simpa [List.append_assoc] using this

/-- A written path does not begin with a dot. -/
theorem write_stops (path : Path) : Stops (· = '.') path.write.toList := by
  rw [Path.write_toList]
  cases path with
  | nil => exact stops_nil
  | cons segment path =>
      rw [List.flatMap_cons]
      rcases Path.segment_cases segment with ⟨name, htext, -, hbare⟩ | ⟨inner, htext, -, -, -⟩
      · obtain ⟨hne, hchars⟩ := Place.isBareName_iff.mp hbare
        obtain ⟨c, name, rfl⟩ := List.exists_cons_of_ne_nil hne
        have hc := (Place.isBare_iff.mp (hchars c List.mem_cons_self)).1
        rw [htext, List.cons_append, Text.dropLeading, if_pos rfl]
        refine stops_cons.mpr (decide_eq_false ?_)
        rintro rfl
        cases hc
      · rw [htext, List.cons_append, Text.dropLeading, if_neg (by decide)]
        exact stops_cons.mpr rfl

/-- After its root, and a dot that may follow, a text that starts with `$` is a path. -/
theorem search_root {expression : String} {rest inner : List Char} {path : Path}
    (htext : Text.trim expression.toList = '$' :: rest)
    (hinner : Text.dropLeading '.' rest = inner) (hstops : Stops (· = '.') inner)
    (hread : Path.read (String.ofList inner) = .ok path) (v : Value) :
    search expression v = .ok (path.locate "$" v) := by
  rw [search, htext]
  simp only [hinner]
  split
  · cases stops_cons.mp hstops
  · rw [hread]
    rfl

/-- **A place asks for the path that it is read as.** -/
theorem search_place {path : Path}
    (hindex : ∀ n, Segment.index n ∈ path → n < Number.digitBound) (v : Value) :
    search (path.place "$") v = .ok (path.reread.locate "$" v) := by
  have htext : Text.trim (path.place "$").toList = '$' :: path.flatMap Segment.text := by
    rw [Text.trim_of_trimmed (trimmed_place path), Path.place_toList]
    rfl
  refine search_root htext (Path.write_toList path).symm (write_stops path) ?_ v
  rw [String.ofList_toList, Path.read_write hindex]

/-- What is found is at the end of names and indices, unless the text starts with a dot. -/
theorem exists_reaches_of_search {expression : String} {v : Value} {founds : List Found}
    (hv : v.Addressable) (hexpression : (Text.trim expression.toList).head? ≠ some '.')
    (h : search expression v = .ok founds) :
    ∀ found ∈ founds, ∃ path, Reaches path "$" v found := by
  intro found hfound
  simp only [search] at h
  split at h
  · cases h
    obtain rfl := List.mem_singleton.mp hfound
    exact ⟨[], .here "$" v⟩
  · split at h
    · cases h
    · obtain ⟨path, -, hlocate⟩ := Result.bind_eq_ok.mp h
      cases hlocate
      exact exists_reaches_of_mem_locate hv hfound
  · rename_i htext
    rw [htext] at hexpression
    exact absurd rfl hexpression
  · cases h
    exact exists_reaches_of_mem_searchNames hv hfound

/-- **What is found can be followed.**  The place of everything found is the place of a path of
names and indices, with the found value at its end.  Following the place never fails, finds the
value there again, and finds nothing else if no name on the way is `*`. -/
theorem search_found {expression : String} {v : Value} {founds : List Found}
    (hv : v.Addressable) (hexpression : (Text.trim expression.toList).head? ≠ some '.')
    (h : search expression v = .ok founds) :
    ∀ found ∈ founds, ∃ path : Path, path.hasWildcard = false ∧ found.1 = path.place "$" ∧
      path.follow false v = some found.2 ∧
      ∃ again, search found.1 v = .ok again ∧ found ∈ again ∧
        (Segment.field "*" ∉ path → again = [found]) := by
  intro found hfound
  obtain ⟨path, hpath⟩ := exists_reaches_of_search hv hexpression h found hfound
  have hagain : search found.1 v = .ok (path.reread.locate "$" v) := by
    rw [hpath.place_eq, search_place (hpath.index_lt hv)]
  refine ⟨path, hpath.hasWildcard_eq, hpath.place_eq, hpath.follow_eq, _, hagain,
    hpath.mem_locate_reread, fun hstar => ?_⟩
  rw [Path.reread_eq_iff.mpr hstar, hpath.locate_eq]

/-- Awkward names, of which one is found under another. -/
theorem search_found_awkward :
    let v : Value := .object [("a.b", .array [.null, .object [("]\"", .bool true)]])]
    let found : Found := ("$[\"a.b\"][1][\"]\\\"\"]", .bool true)
    v.Addressable ∧ search "]" v = .ok [found] ∧ search found.1 v = .ok [found] := by
  intro v found
  have hv : v.Addressable := by
    have hlength : 2 ≤ Number.digitBound :=
      (by decide : 2 ≤ 10 ^ 1).trans (Nat.pow_le_pow_right (by decide) (by decide))
    have hnull : Value.null.Addressable := .of_isScalar trivial
    have htrue : (Value.bool true).Addressable := .of_isScalar trivial
    simp [v, Value.Addressable.object_iff, Value.Addressable.array_iff, Members.Distinct,
      Members.names, hlength, hnull, htrue]
  have hfirst : search "]" v = .ok [found] := by
    have htext : Text.trim "]".toList = [']'] := by decide
    rw [search, htext]
    rfl
  obtain ⟨path, -, hplace, -, again, hagain, -, honly⟩ :=
    search_found hv (by decide) hfirst found List.mem_cons_self
  have hstar : Segment.field "*" ∉ path := by
    intro hmem
    have hfound := mem_place_of_star "$" hmem
    rw [← hplace] at hfound
    revert hfound
    decide
  exact ⟨hv, hfirst, honly hstar ▸ hagain⟩

/-- A name `*` is written as the wildcard, so following its place finds all members. -/
theorem search_star :
    let v : Value := .object [("*", .number (.int 1)), ("a", .number (.int 2))]
    search "$[\"*\"]" v = .ok [("$.*", .number (.int 1))] ∧
      search "$.*" v = .ok [("$.*", .number (.int 1)), ("$.a", .number (.int 2))] := by
  intro v
  have hquoted : Text.trim "$[\"*\"]".toList = '$' :: ['[', '"', '*', '"', ']'] := by decide
  have hstar : Text.trim "$.*".toList = '$' :: ['.', '*'] := by decide
  have hquotedPath : Path.read (String.ofList ['[', '"', '*', '"', ']']) = .ok [.field "*"] := by
    decide
  have hstarPath : Path.read (String.ofList ['*']) = .ok [.wildcard] := by decide
  exact ⟨search_root hquoted rfl (stops_cons.mpr rfl) hquotedPath v,
    search_root hstar rfl (stops_cons.mpr rfl) hstarPath v⟩

end Explore

end Quarry
