import SlugBase.Access.Grants

/-!
# The access rule restated in SQL

The functions that run with their own privileges state the access rule again: as a disjunction of
`EXISTS`, as a union of identifiers, or as rows with their route.

* `slugPreferenceBookmarkReadable`, `goOtherWorkspacesReadable`: the `EXISTS` spelling;
* `sysSearchReadable`, `sysBookmarkMatchReadable`: the union;
* `goSuggestOwn`, `goSuggestShared`: the bookmarks `sys_go_suggest` orders and cuts, with their access;
* **`access_spellings_agree`**: all of them and the fragments of the repositories select the same
  bookmarks, each under the conditions it adds.
-/

namespace SlugBase

open Relational

section

variable (c : Content) (a : Uuid)

/-- The disjunction of `EXISTS` over the routes, with the teams of the account read for `teams`. -/
def existsReadable (teams : List Uuid) (b : Bookmark) : Bool :=
  sqlEq b.ownerId (some a) ||
  (c.bookmarkShares.any fun s =>
    decide (s.workspaceId = b.workspaceId ∧ s.bookmarkId = b.id) && sqlEq s.targetAccountId (some a)) ||
  (c.bookmarkShares.any fun s =>
    decide (s.workspaceId = b.workspaceId ∧ s.bookmarkId = b.id) && inTeams teams s.targetTeamId) ||
  (c.folderBookmarks.any fun l => decide (l.workspaceId = b.workspaceId ∧ l.bookmarkId = b.id) &&
    c.folderShares.any fun s => decide (s.workspaceId = l.workspaceId ∧ s.folderId = l.folderId) &&
      sqlEq s.targetAccountId (some a)) ||
  (c.folderBookmarks.any fun l => decide (l.workspaceId = b.workspaceId ∧ l.bookmarkId = b.id) &&
    c.folderShares.any fun s => decide (s.workspaceId = l.workspaceId ∧ s.folderId = l.folderId) &&
      inTeams teams s.targetTeamId)

/-- `slug_preference_bookmark_readable(workspace_id, account_id, bookmark_id)`. -/
def slugPreferenceBookmarkReadable (w id : Uuid) : Bool :=
  c.bookmarks.any fun b => decide (b.workspaceId = w ∧ b.id = id) &&
    existsReadable c a (teamsOfAccount c a b.workspaceId) b

/-- The bookmark `sys_go_other_workspaces` looks for in the workspace of the membership `m`. -/
def goOtherWorkspacesReadable (m : Member) (slug : String) (b : Bookmark) : Bool :=
  decide (b.workspaceId = m.workspaceId) && sqlEq b.slug (some slug) && b.forwarding &&
    b.planArchivedAt.isNone && existsReadable c m.accountId (teamsOfAccount c m.accountId m.workspaceId) b

/-- The set `readable` of `sys_search` and `sys_bookmark_match` (`UNION`). -/
def grantedIds (w : Uuid) : List Uuid :=
  (sharedDirectly c a w ++ sharedByTeam c a w ++ sharedByFolder c a w ++ sharedByFolderTeam c a w).dedup

/-- The condition both search functions put on a bookmark in every branch. -/
def searchable (w : Uuid) (b : Bookmark) : Bool :=
  decide (b.workspaceId = w) && (sqlEq b.ownerId (some a) || decide (b.id ∈ grantedIds c a w)) &&
    b.planArchivedAt.isNone

/-- The condition of `sys_search` on the bookmarks it matches; no row for a session without account or
workspace. -/
def sysSearchReadable (s : Session) (b : Bookmark) : Bool :=
  match s.appWorkspaceId, s.appAccountId with
  | some w, some account => searchable c account w b
  | _, _ => false

/-- The condition of `sys_bookmark_match` on the bookmarks it matches. -/
def sysBookmarkMatchReadable (s : Session) (b : Bookmark) : Bool :=
  match s.appWorkspaceId, s.appAccountId with
  | some w, some account => searchable c account w b
  | _, _ => false

/-- What `sys_go_suggest` asks of a bookmark besides access: its slug begins with the prefix, it
forwards, and it is not archived. -/
def suggestible (slugPrefix : String) (b : Bookmark) : Bool :=
  (b.slug.any fun slug => slugPrefix.toList.isPrefixOf slug.toList) && b.forwarding && b.planArchivedAt.isNone

/-- The rows `own` of `sys_go_suggest`, before they are cut. -/
def goSuggestOwn (w : Uuid) (slugPrefix : String) : List (Bookmark × Access) :=
  (c.bookmarks.rows.filter fun b => decide (b.workspaceId = w) && sqlEq b.ownerId (some a) &&
    suggestible slugPrefix b).map (·, .owner)

/-- The rows `via` of `sys_go_suggest`: the first route of every shared bookmark. -/
def goSuggestVia (w : Uuid) : List (Uuid × SharedVia) :=
  let grants : List (Uuid × SharedVia) :=
    (sharedDirectly c a w).map (·, .direct) ++ (sharedByTeam c a w).map (·, .team) ++
      (sharedByFolder c a w).map (·, .folder) ++ (sharedByFolderTeam c a w).map (·, .folder)
  distinctOn Prod.fst (grants.insertionSort viaOrder)

/-- The rows `shared` of `sys_go_suggest`, before they are cut. -/
def goSuggestShared (w : Uuid) (slugPrefix : String) : List (Bookmark × Access) :=
  (goSuggestVia c a w).flatMap fun v =>
    (c.bookmarks.rows.filter fun b => decide (b.workspaceId = w ∧ b.id = v.1) && suggestible slugPrefix b &&
      decide (b.ownerId ≠ some a)).map (·, .shared v.2)

/-- The rows `readable` of `sys_go_suggest`. -/
def goSuggestReadable (w : Uuid) (slugPrefix : String) : List (Bookmark × Access) :=
  goSuggestOwn c a w slugPrefix ++ goSuggestShared c a w slugPrefix

end

/-! ## Each spelling and the rule -/

variable {c : Content} {a w : Uuid} {b : Bookmark}

theorem existsReadable_iff :
    existsReadable c a (teamsOfAccount c a b.workspaceId) b = true ↔ CanRead c a b := by
  simp only [existsReadable, Bool.or_eq_true, Table.any_iff, Bool.and_eq_true, decide_eq_true_eq,
    sqlEq_some, inTeams_teamsOfAccount, CanRead]
  constructor
  · rintro ((((hown | ⟨s, hs, ⟨hw, hid⟩, ha⟩) | ⟨s, hs, ⟨hw, hid⟩, t, ht, hm⟩) |
      ⟨l, hl, ⟨hw, hid⟩, s, hs, ⟨hsw, hsf⟩, ha⟩) | ⟨l, hl, ⟨hw, hid⟩, s, hs, ⟨hsw, hsf⟩, t, ht, hm⟩)
    · exact .inl hown
    · exact .inr ⟨.direct, hid ▸ Grant.direct s hs hw ha⟩
    · exact .inr ⟨.team, hid ▸ Grant.team s hs hw t ht hm⟩
    · exact .inr ⟨.folder, hid ▸ Grant.folder s hs (hsw.trans hw) (.account ha) l hl hsw.symm hsf.symm⟩
    · exact .inr ⟨.folder, hid ▸ Grant.folder s hs (hsw.trans hw) (.team t ht hm) l hl hsw.symm hsf.symm⟩
  · rintro (hown | ⟨via, hg⟩)
    · exact .inl (.inl (.inl (.inl hown)))
    · generalize b.id = id at hg ⊢
      cases hg with
      | direct s hs hw ha => exact .inl (.inl (.inl (.inr ⟨s, hs, ⟨hw, rfl⟩, ha⟩)))
      | team s hs hw t ht hm => exact .inl (.inl (.inr ⟨s, hs, ⟨hw, rfl⟩, t, ht, hm⟩))
      | folder s hs hw ha l hl hlw hlf =>
        cases ha with
        | account ha => exact .inl (.inr ⟨l, hl, ⟨hlw.trans hw, rfl⟩, s, hs, ⟨hlw.symm, hlf.symm⟩, ha⟩)
        | team t ht hm => exact .inr ⟨l, hl, ⟨hlw.trans hw, rfl⟩, s, hs, ⟨hlw.symm, hlf.symm⟩, t, ht, hm⟩

theorem slugPreferenceBookmarkReadable_iff (hb : b ∈ c.bookmarks) :
    slugPreferenceBookmarkReadable c a b.workspaceId b.id = true ↔ CanRead c a b := by
  rw [slugPreferenceBookmarkReadable, Table.any_iff]
  simp only [Bool.and_eq_true, decide_eq_true_eq]
  constructor
  · rintro ⟨b', hb', ⟨_, hid⟩, hread⟩
    obtain rfl := Table.eq_of_key hb' hb hid
    exact existsReadable_iff.mp hread
  · intro hread
    exact ⟨b, hb, ⟨rfl, rfl⟩, existsReadable_iff.mpr hread⟩

theorem goOtherWorkspacesReadable_iff {m : Member} {slug : String} (hm : m.workspaceId = b.workspaceId) :
    goOtherWorkspacesReadable c m slug b = true ↔
      CanRead c m.accountId b ∧ b.slug = some slug ∧ b.forwarding = true ∧ b.planArchivedAt = none := by
  rw [goOtherWorkspacesReadable, hm]
  simp only [Bool.and_eq_true, decide_eq_true_eq, sqlEq_some, existsReadable_iff, true_and,
    Option.isNone_iff_eq_none]
  tauto

theorem mem_grantedIds {id : Uuid} : id ∈ grantedIds c a w ↔ ∃ via, Grant c w a id via := by
  simp only [grantedIds, List.mem_dedup, List.mem_append]
  rw [or_assoc, mem_sharedByFolders, mem_sharedDirectly, mem_sharedByTeam]
  constructor
  · rintro ((h | h) | h)
    · exact ⟨_, h⟩
    · exact ⟨_, h⟩
    · exact ⟨_, h⟩
  · rintro ⟨via, h⟩
    cases via with
    | direct => exact .inl (.inl h)
    | team => exact .inl (.inr h)
    | folder => exact .inr h

theorem searchable_iff :
    searchable c a b.workspaceId b = true ↔ CanRead c a b ∧ b.planArchivedAt = none := by
  simp [searchable, mem_grantedIds, CanRead, Option.isNone_iff_eq_none]

theorem goSuggestVia_eq : goSuggestVia c a w = distinctOn Prod.fst ((grantsTo c a w).insertionSort viaOrder) :=
  rfl

theorem mem_goSuggestVia {id : Uuid} :
    (∃ via, (id, via) ∈ goSuggestVia c a w) ↔ ∃ via, Grant c w a id via := by
  rw [goSuggestVia_eq]
  constructor
  · rintro ⟨via, h⟩
    exact ⟨via, mem_grantsTo.mp ((List.mem_insertionSort viaOrder).mp (mem_of_mem_distinctOn h))⟩
  · rintro ⟨via, hg⟩
    have hmem : (id, via) ∈ (grantsTo c a w).insertionSort viaOrder :=
      (List.mem_insertionSort viaOrder).mpr (mem_grantsTo.mpr hg)
    obtain ⟨⟨id', via'⟩, hy, hkey⟩ : ∃ g ∈ distinctOn Prod.fst ((grantsTo c a w).insertionSort viaOrder), g.1 = id :=
      exists_mem_distinctOn hmem
    exact ⟨via', hkey ▸ hy⟩

theorem mem_goSuggestReadable (hb : b ∈ c.bookmarks) {slugPrefix : String} :
    (∃ access, (b, access) ∈ goSuggestReadable c a b.workspaceId slugPrefix) ↔
      CanRead c a b ∧ suggestible slugPrefix b = true := by
  simp only [goSuggestReadable, goSuggestOwn, goSuggestShared, List.mem_append, List.mem_map,
    List.mem_flatMap, List.mem_filter, Bool.and_eq_true, decide_eq_true_eq, sqlEq_some, Prod.mk.injEq]
  constructor
  · rintro ⟨access, (⟨b', ⟨_, ⟨_, hown⟩, hs⟩, rfl, _⟩ | ⟨⟨id, via⟩, hv, b', ⟨_, ⟨⟨_, hid⟩, hs⟩, _⟩, rfl, _⟩)⟩
    · exact ⟨.inl hown, hs⟩
    · obtain rfl : b'.id = id := hid
      exact ⟨.inr (mem_goSuggestVia.mp ⟨via, hv⟩), hs⟩
  · rintro ⟨hread, hs⟩
    by_cases hown : b.ownerId = some a
    · exact ⟨.owner, .inl ⟨b, ⟨hb, ⟨rfl, hown⟩, hs⟩, rfl, rfl⟩⟩
    · obtain ⟨via, hv⟩ := mem_goSuggestVia.mpr (hread.resolve_left hown)
      exact ⟨.shared via, .inr ⟨(b.id, via), hv, b, ⟨hb, ⟨⟨rfl, rfl⟩, hs⟩, hown⟩, rfl, rfl⟩⟩

/-! ## Agreement -/

/-- **One access rule in all its spellings**: for every account and every bookmark, what the fragments
and the restatements select is the bookmark that `bookmarkReadableBy` selects, under the conditions on
archive state, slug and forwarding that a statement adds. -/
theorem access_spellings_agree (c : Content) (a : Uuid) (b : Bookmark) (hb : b ∈ c.bookmarks) :
    (bookmarkReadableBy c a b = true ↔ b.ownerId = some a ∨ b.id ∈ sharedBookmarks c a b.workspaceId) ∧
    (∀ ids, b.id ∈ ids → (bookmarkReadableBy c a b = true ↔
      b.ownerId = some a ∨ ∃ via, (b.id, via) ∈ sharedViaOf c a b.workspaceId ids)) ∧
    (bookmarkReadableBy c a b = true ↔ (bookmarkAccessOf c a b).isSome = true) ∧
    (bookmarkReadableBy c a b = true ↔
      slugPreferenceBookmarkReadable c a b.workspaceId b.id = true) ∧
    (∀ s : Session, s.appWorkspaceId = some b.workspaceId → s.appAccountId = some a →
      (sysSearchReadable c s b = true ↔ bookmarkReadableBy c a b = true ∧ b.planArchivedAt = none) ∧
      (sysBookmarkMatchReadable c s b = true ↔ bookmarkReadableBy c a b = true ∧ b.planArchivedAt = none)) ∧
    (∀ slugPrefix, (∃ access, (b, access) ∈ goSuggestReadable c a b.workspaceId slugPrefix) ↔
      bookmarkReadableBy c a b = true ∧ suggestible slugPrefix b = true) ∧
    (∀ m ∈ c.members, m.accountId = a → m.workspaceId = b.workspaceId → ∀ slug,
      goOtherWorkspacesReadable c m slug b = true ↔
        bookmarkReadableBy c a b = true ∧ b.slug = some slug ∧ b.forwarding = true ∧
          b.planArchivedAt = none) := by
  simp only [bookmarkReadableBy_iff]
  refine ⟨?_, ?_, ?_, ?_, ?_, ?_, ?_⟩
  · rw [mem_sharedBookmarks, CanRead]
  · intro ids hid
    rw [sharedViaOf_nonempty hid, CanRead]
  · exact bookmarkAccessOf_isSome.symm
  · exact (slugPreferenceBookmarkReadable_iff hb).symm
  · intro s hw ha
    simp only [sysSearchReadable, sysBookmarkMatchReadable, hw, ha]
    exact ⟨searchable_iff, searchable_iff⟩
  · intro slugPrefix
    exact mem_goSuggestReadable hb
  · rintro m _ rfl hm slug
    exact goOtherWorkspacesReadable_iff hm

/-- Account 7 reads bookmark 10 of account 8 by a direct share and by a folder shared with its team. -/
def overlappingGrants : Content where
  workspaces := ⟨[⟨1, 1, none⟩], by decide⟩
  members := ⟨[⟨1, 7, .member⟩, ⟨1, 8, .owner⟩], by decide⟩
  bookmarks := ⟨[⟨10, 1, some 8, none, none, none, "https://example.org/", "https://example.org/", "example.org",
    "Example", none, some "example", true, none, none, 0, none, 1, 0, 0⟩], by decide⟩
  folders := ⟨[⟨20, 1, some 8, none, none, "Shared", "folder", 1, 1, 0, 0⟩], by decide⟩
  folderBookmarks := ⟨[⟨1, 20, 10⟩], by decide⟩
  teams := ⟨[⟨30, 1⟩], by decide⟩
  teamMembers := ⟨[⟨1, 30, 7⟩], by decide⟩
  bookmarkShares := ⟨[⟨⟨some 7, none, by decide⟩, 40, 1, 10⟩], by decide⟩
  folderShares := ⟨[⟨⟨none, some 30, by decide⟩, 50, 1, 20⟩], by decide⟩

theorem access_spellings_agree_overlapping :
    ∃ b ∈ overlappingGrants.bookmarks, b.id = 10 ∧ bookmarkReadableBy overlappingGrants 7 b = true ∧
      grantsTo overlappingGrants 7 1 = [(10, .direct), (10, .folder)] ∧
      (bookmarkReadableBy overlappingGrants 7 b = true ↔
        slugPreferenceBookmarkReadable overlappingGrants 7 1 10 = true) :=
  ⟨_, List.mem_cons_self, rfl, by decide, by decide,
    (access_spellings_agree overlappingGrants 7 _ List.mem_cons_self).2.2.2.1⟩

end SlugBase
