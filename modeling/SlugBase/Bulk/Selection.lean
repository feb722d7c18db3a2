import SlugBase.Access.Grants
import SlugBase.Bulk.Identifier

/-!
# What a bulk request acts on

A request names bookmarks by identifier, or by the filters of the list. Every action and every preview
begins alike: the bookmarks are named, and a selection that holds one that is shared with the caller is
refused as a whole.

* `BookmarkListFilter`, `branchesOf`, `branchPredicate`, `BulkStore.ids`: the select-all of a filter;
* `BulkStore.sharedAmong`, `namedBookmarks`, `selection`: the start of a request;
* **`idsRows_nodup`**: a filter names no bookmark twice.
-/

namespace SlugBase.Bulk

open Relational

/-- The transaction of the caller: its account and its workspace. -/
structure TenantTx where
  accountId : Uuid
  workspaceId : Uuid
  deriving DecidableEq, Repr

/-- The audit event `share.bulk_granted`. -/
structure BulkGranted where
  workspaceId : Uuid
  count : ℕ
  targetKind : String
  targetId : String
  targetName : String
  deriving DecidableEq, Repr

/-- **What the transaction works on**: the content, with the workspace in the keys by which links and shares
name their bookmark, the names of accounts and teams, and the audit events. -/
structure BulkStore where
  content : Content
  displayNames : Uuid → Option String
  teamNames : Uuid → String
  audit : List BulkGranted
  bookmark_tags_bookmark_fkey : ∀ l ∈ content.bookmarkTags, ∃ b ∈ content.bookmarks,
    b.id = l.bookmarkId ∧ b.workspaceId = l.workspaceId
  bookmark_shares_bookmark_fkey : ∀ s ∈ content.bookmarkShares, ∃ b ∈ content.bookmarks,
    b.id = s.bookmarkId ∧ b.workspaceId = s.workspaceId

/-! ## Filters -/

inductive BookmarkScope
  | all
  | mine
  | sharedWithMe
  | sharedByMe
  deriving DecidableEq, Repr

/-- The filters of a list as the caller typed them. -/
structure BookmarkFilterAsk where
  scope : Option BookmarkScope
  pinned : Option Bool
  hasSlug : Option Bool
  forwarding : Option Bool
  url : Option String
  folderId : Option String
  tagIds : Option (List String)
  q : Option String
  deriving DecidableEq, Repr

/-- The filters of a list as the store takes them. -/
structure BookmarkListFilter where
  ownerId : Uuid
  scope : Option BookmarkScope
  pinned : Option Bool
  hasSlug : Option Bool
  forwarding : Option Bool
  urlCanonical : Option String
  folderId : Option String
  tagIds : Option (List String)
  q : Option String
  deriving DecidableEq, Repr

/-- What the filters of a list rest on besides the rows: `normalizeBookmarkUrl` (its canonical form),
`normalizeSearchQuery`, and the text search of the database, strong matches and those of a typo. -/
structure Filtering where
  canonicalUrl : String → Except BookmarkUrlRefusal String
  normalizeSearchQuery : String → String
  strong : String → Bookmark → Bool
  fuzzy : String → Bookmark → Bool

section

variable (lang : Language) (filtering : Filtering)

/-- `bookmarkListFilter`. -/
def bookmarkListFilter (accountId : Uuid) (ask : BookmarkFilterAsk) : Except BookmarkUrlRefusal BookmarkListFilter := do
  let urlCanonical ← ask.url.mapM filtering.canonicalUrl
  return {
    ownerId := accountId
    scope := ask.scope
    pinned := ask.pinned
    hasSlug := ask.hasSlug
    forwarding := ask.forwarding
    urlCanonical := urlCanonical
    folderId := ask.folderId.map lang.toLowerCase
    tagIds := ask.tagIds.map (distinctIdentifiers lang)
    q := ask.q.map filtering.normalizeSearchQuery }

end

/-- The part of a scope that a statement reads. -/
inductive Branch
  | own
  | shared
  | sharedByMe
  deriving DecidableEq, Repr

/-- `branchesOf`: a filter by the caller's tags, or by a URL, reaches the caller's own bookmarks alone. -/
def branchesOf (filter : BookmarkListFilter) : List Branch :=
  let own := !(filter.tagIds.getD []).isEmpty || filter.urlCanonical.isSome
  match filter.scope.getD .mine with
  | .mine => [.own]
  | .all => if own then [.own] else [.own, .shared]
  | .sharedWithMe => if own then [] else [.shared]
  | .sharedByMe => [.sharedByMe]

def isOwnScope (filter : BookmarkListFilter) : Bool := filter.scope.getD .mine == .mine

/-- `pinnedCondition`: a bookmark shared with the caller is never pinned for them. -/
def pinnedCondition (pinned : Option Bool) (shared : Bool) (row : Bookmark) : Bool :=
  match pinned with
  | none => true
  | some pinned => if shared then !pinned else row.pinnedAt.isSome == pinned

section

variable (c : Content)

/-- `filedIn`: the bookmark is filed in the folder, which is its owner's (or ownerless, as the bookmark). -/
def filedIn (folderId : Uuid) (row : Bookmark) : Bool :=
  c.folderBookmarks.any fun l =>
    decide (l.workspaceId = row.workspaceId ∧ l.bookmarkId = row.id ∧ l.folderId = folderId) &&
      c.folders.any fun f =>
        decide (f.workspaceId = l.workspaceId ∧ f.id = l.folderId ∧ f.ownerId = row.ownerId)

/-- `tagged`: the bookmark carries the tag, which is its owner's. -/
def tagged (tagId : Uuid) (row : Bookmark) : Bool :=
  c.bookmarkTags.any fun l =>
    decide (l.workspaceId = row.workspaceId ∧ l.bookmarkId = row.id ∧ l.tagId = tagId) &&
      c.tags.any fun t => decide (t.workspaceId = l.workspaceId ∧ t.id = l.tagId) && sqlEq row.ownerId (some t.ownerId)

/-- `branchPredicate`; `driven` where the statement reads only the bookmarks of the grants. -/
def branchPredicate (w : Uuid) (filter : BookmarkListFilter) (branch : Branch) (driven : Bool) (row : Bookmark) : Bool :=
  let shared := branch == .shared
  decide (row.workspaceId = w) &&
    (if shared then decide (row.ownerId ≠ some filter.ownerId) else sqlEq row.ownerId (some filter.ownerId)) &&
    (!shared || driven || bookmarkReadableBy c filter.ownerId row) &&
    (branch != .sharedByMe || bookmarkSharedByOwner c row) &&
    row.planArchivedAt.isNone &&
    pinnedCondition filter.pinned shared row &&
    (filter.hasSlug.all fun wanted => row.slug.isSome == wanted) &&
    (filter.forwarding.all fun wanted => row.forwarding == wanted) &&
    (filter.urlCanonical.all fun wanted => row.urlCanonical == wanted) &&
    ((filter.folderId.bind uuidOf).all fun folderId => filedIn c folderId row) &&
    (!shared || (filter.folderId.bind uuidOf).all fun folderId => folderSharedWith c filter.ownerId row.workspaceId folderId) &&
    (uuidArray (filter.tagIds.getD [])).all fun tagId => tagged c tagId row

/-- `SORT_ORDERS.recent`: newest first. -/
def recentOrder (b b' : Bookmark) : Prop :=
  b'.createdAt < b.createdAt ∨ (b.createdAt = b'.createdAt ∧ b'.id ≤ b.id)

instance : DecidableRel recentOrder := fun _ _ => inferInstanceAs (Decidable (_ ∨ _))

/-- The first rows of the order. -/
def recentPage (limit : ℕ) (rows : List Bookmark) : List Bookmark := (rows.insertionSort recentOrder).take limit

/-- One leg of `pageStatement`: the shared bookmarks are read from the set of the grants. -/
def pageLeg (w : Uuid) (filter : BookmarkListFilter) (limit : ℕ) (branch : Branch) : List Bookmark :=
  recentPage limit <|
    if branch = .shared then
      (sharedBookmarks c filter.ownerId w).flatMap fun id =>
        c.bookmarks.rows.filter fun row => decide (row.id = id) && branchPredicate c w filter branch true row
    else c.bookmarks.rows.filter (branchPredicate c w filter branch false)

/-- `sys_bookmark_match`: the matches of a typo only where nothing else matches. -/
def sysBookmarkMatch (filtering : Filtering) (a w : Uuid) (q : String) : List Bookmark :=
  let readable := c.bookmarks.rows.filter fun row =>
    decide (row.workspaceId = w) && bookmarkReadableBy c a row && row.planArchivedAt.isNone
  if (readable.filter (filtering.strong q)).isEmpty then readable.filter (filtering.fuzzy q)
  else readable.filter (filtering.strong q)

/-- The rows of the select-all of a filter. -/
def idsRows (filtering : Filtering) (w : Uuid) (filter : BookmarkListFilter) (limit : ℕ) : List Bookmark :=
  match filter.q with
  | some q => recentPage limit <| (sysBookmarkMatch c filtering filter.ownerId w q).filter fun row =>
      (branchesOf filter).any fun branch => branchPredicate c w filter branch false row
  | none =>
    if isOwnScope filter then recentPage limit (c.bookmarks.rows.filter (branchPredicate c w filter .own false))
    else recentPage limit ((branchesOf filter).flatMap (pageLeg c w filter limit))

end

/-- `ids`: the bookmarks of a filter, newest first, at most `limit`. -/
def BulkStore.ids (filtering : Filtering) (tx : TenantTx) (store : BulkStore) (filter : BookmarkListFilter) (limit : ℕ) :
    Reply (List Uuid) := do
  stopIf (isOwnScope filter = false ∧ filter.ownerId ≠ tx.accountId) (.threw (.error
    "only the account of the transaction lists the bookmarks that are shared with it or that it shares"))
  requireIdentifiers (if branchesOf filter = [] then [] else filter.folderId.toList) "listing the bookmarks of a folder"
  requireIdentifiers (if branchesOf filter = [] then [] else filter.tagIds.getD []) "listing the bookmarks of a tag"
  return (idsRows store.content filtering tx.workspaceId filter limit).map Bookmark.id

/-! ## The start of a request -/

def requireAccountOwner (tx : TenantTx) (ownerId : Uuid) (action : String) : Reply Unit :=
  if ownerId = tx.accountId then .ok ()
  else .error (.threw (.error ("only the account of the transaction " ++ action ++ " its own bookmarks")))

/-- `sharedAmong`: those of the bookmarks that are shared with the account. -/
def BulkStore.sharedAmong (tx : TenantTx) (store : BulkStore) (bookmarkIds : List Uuid) (accountId : Uuid) :
    Reply (List Uuid) := do
  requireAccountOwner tx accountId "asks which bookmarks are shared with it"
  return (store.content.bookmarks.rows.filter fun row =>
    decide (row.workspaceId = tx.workspaceId) && decide (row.id ∈ bookmarkIds) && row.planArchivedAt.isNone &&
      decide (row.ownerId ≠ some accountId) && bookmarkReadableBy store.content accountId row).map Bookmark.id

/-- The most identifiers a request names. -/
def BOOKMARK_BULK_IDS_MAX : ℕ := 1000

/-- The most bookmarks a request by filter acts on. -/
def BOOKMARK_SELECT_ALL_CAP : ℕ := 5000

/-- The bookmarks of a request: by identifier, or by filter. -/
inductive BookmarkBulkTarget
  | ids (ids : List String)
  | filter (ask : BookmarkFilterAsk)
  deriving DecidableEq, Repr

/-- What a request names: how many bookmarks, and those of them that have the form of an identifier. -/
structure NamedBookmarks where
  requested : ℕ
  bookmarkIds : List Uuid
  deriving DecidableEq, Repr

section

variable (lang : Language) (filtering : Filtering) (tx : TenantTx) (store : BulkStore)

/-- `namedBookmarks`, and the identifiers among the names (`UUID`). -/
def namedBookmarks (accountId : Uuid) : BookmarkBulkTarget → Reply NamedBookmarks
  | .ids ids =>
    let named := unique (ids.map lang.toLowerCase)
    if named.length > BOOKMARK_BULK_IDS_MAX then .error (.refused (.tooMany BOOKMARK_BULK_IDS_MAX))
    else .ok ⟨named.length, named.filterMap uuidOf⟩
  | .filter ask =>
    match bookmarkListFilter lang filtering accountId ask with
    | .error reason => .error (.refused (.urlRefused reason))
    | .ok parsed => do
      let named ← store.ids filtering tx parsed (BOOKMARK_SELECT_ALL_CAP + 1)
      stopIf (named.length > BOOKMARK_SELECT_ALL_CAP) (.refused (.tooMany BOOKMARK_SELECT_ALL_CAP))
      return ⟨named.length, named⟩

/-- The start of every bulk request and of every preview: the bookmarks are named, and one that is shared with
the caller ends the request. -/
def selection (accountId : Uuid) (target : BookmarkBulkTarget) : Reply NamedBookmarks := do
  let named ← namedBookmarks lang filtering tx store accountId target
  let shared ← (if named.bookmarkIds = [] then .ok [] else store.sharedAmong tx named.bookmarkIds accountId : Reply _)
  stopIf (shared ≠ []) (.refused .forbidden)
  return named

end

/-! ## A filter names no bookmark twice -/

section

variable {c : Content} {filtering : Filtering} {w : Uuid} {filter : BookmarkListFilter} {limit : ℕ} {row : Bookmark}

theorem rows_nodup (c : Content) : c.bookmarks.rows.Nodup := List.Nodup.of_map _ c.bookmarks.keyed

theorem recentPage_nodup {rows : List Bookmark} (h : rows.Nodup) : (recentPage limit rows).Nodup :=
  ((List.perm_insertionSort _ _).nodup_iff.mpr h).sublist (List.take_sublist _ _)

theorem mem_of_mem_recentPage {rows : List Bookmark} (h : row ∈ recentPage limit rows) : row ∈ rows :=
  (List.mem_insertionSort _).mp (List.mem_of_mem_take h)

theorem mem_pageLeg {branch : Branch} (h : row ∈ pageLeg c w filter limit branch) :
    row ∈ c.bookmarks.rows ∧ (branch = .shared → row.ownerId ≠ some filter.ownerId) ∧
      (branch = .own → row.ownerId = some filter.ownerId) := by
  have hmem := mem_of_mem_recentPage h
  split at hmem
  · rename_i hshared
    obtain ⟨id, -, hrow⟩ := List.mem_flatMap.mp hmem
    obtain ⟨hrow, hcond⟩ := List.mem_filter.mp hrow
    refine ⟨hrow, fun _ => ?_, fun hown => absurd (hshared.symm.trans hown) (by decide)⟩
    subst hshared
    simp only [branchPredicate, Bool.and_eq_true, beq_self_eq_true, if_true, decide_eq_true_eq] at hcond
    exact hcond.2.1.1.1.1.1.1.1.1.1.1.2
  · rename_i hshared
    obtain ⟨hrow, hcond⟩ := List.mem_filter.mp hmem
    refine ⟨hrow, fun h => absurd h hshared, fun hown => ?_⟩
    subst hown
    have hno : (Branch.own == Branch.shared) = false := rfl
    simp only [branchPredicate, hno, Bool.and_eq_true, sqlEq_some, decide_eq_true_eq, Bool.false_eq_true, if_false] at hcond
    exact hcond.1.1.1.1.1.1.1.1.1.1.2

theorem pageLeg_nodup (branch : Branch) : (pageLeg c w filter limit branch).Nodup := by
  refine recentPage_nodup ?_
  split
  · refine List.nodup_flatMap.mpr ⟨fun id _ => (rows_nodup c).filter _, ?_⟩
    refine (List.nodup_dedup _).imp fun {id id'} hne => ?_
    refine List.disjoint_left.mpr fun row hrow hrow' => hne ?_
    have hid := (List.mem_filter.mp hrow).2
    have hid' := (List.mem_filter.mp hrow').2
    rw [Bool.and_eq_true, decide_eq_true_eq] at hid hid'
    exact hid.1.symm.trans hid'.1
  · exact (rows_nodup c).filter _

/-- No two legs of a scope share a bookmark. -/
theorem pageLegs_nodup : ((branchesOf filter).flatMap (pageLeg c w filter limit)).Nodup := by
  have hboth : ([Branch.own, Branch.shared].flatMap (pageLeg c w filter limit)).Nodup := by
    refine List.nodup_flatMap.mpr ⟨fun branch _ => pageLeg_nodup branch, ?_⟩
    refine List.pairwise_pair.mpr (List.disjoint_left.mpr fun row hrow hrow' => ?_)
    exact (mem_pageLeg hrow').2.1 rfl ((mem_pageLeg hrow).2.2 rfl)
  have hone (branch : Branch) : ([branch].flatMap (pageLeg c w filter limit)).Nodup := by
    rw [List.flatMap_singleton]
    exact pageLeg_nodup branch
  unfold branchesOf
  simp only
  split
  · exact hone .own
  · split
    · exact hone .own
    · exact hboth
  · split
    · exact List.nodup_nil
    · exact hone .shared
  · exact hone .sharedByMe

/-- **A filter names no bookmark twice.** -/
theorem idsRows_nodup : ((idsRows c filtering w filter limit).map Bookmark.id).Nodup := by
  have hrows : (idsRows c filtering w filter limit).Nodup ∧ ∀ row ∈ idsRows c filtering w filter limit, row ∈ c.bookmarks.rows := by
    unfold idsRows
    split
    · have hreadable (q : String) : (sysBookmarkMatch c filtering filter.ownerId w q).Nodup ∧
          ∀ row ∈ sysBookmarkMatch c filtering filter.ownerId w q, row ∈ c.bookmarks.rows := by
        unfold sysBookmarkMatch
        simp only
        split
        · exact ⟨((rows_nodup c).filter _).filter _, fun row h => List.mem_of_mem_filter (List.mem_of_mem_filter h)⟩
        · exact ⟨((rows_nodup c).filter _).filter _, fun row h => List.mem_of_mem_filter (List.mem_of_mem_filter h)⟩
      rename_i q hq
      obtain ⟨hnodup, hmem⟩ := hreadable q
      exact ⟨recentPage_nodup (hnodup.filter _), fun row h => hmem row (List.mem_of_mem_filter (mem_of_mem_recentPage h))⟩
    · split
      · exact ⟨recentPage_nodup ((rows_nodup c).filter _), fun row h => List.mem_of_mem_filter (mem_of_mem_recentPage h)⟩
      · refine ⟨recentPage_nodup pageLegs_nodup, fun row h => ?_⟩
        obtain ⟨branch, -, hrow⟩ := List.mem_flatMap.mp (mem_of_mem_recentPage h)
        exact (mem_pageLeg hrow).1
  exact List.Nodup.map_on (fun b hb b' hb' heq => Table.eq_of_key (hrows.2 b hb) (hrows.2 b' hb') heq) hrows.1

end

end SlugBase.Bulk
