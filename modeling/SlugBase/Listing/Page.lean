import SlugBase.Bulk.Selection
import SlugBase.Search.Statement
import Mathlib.Data.Sum.Order

/-!
# The pages of the bookmark list

The statements a page of the list and its count are read by. A list with a text query holds two plans: it
probes each match when they are few, and walks the parts of the scope when they are many.

* `SortTexts`, `SortOrder`, `sortOrders`: the sorts, with the text of their keys; `afterPosition`;
* `fewPage`, `walkPage`: the two plans; `matchedPageStatement`, `listStatement`: the statements;
* `matchedCountStatement`, `countStatement`, `listWithCount`: the counts;
* `listBookmarks`: the page of a request, with its next position and its total.
-/

namespace SlugBase.Listing

open Relational Bulk

inductive BookmarkSort
  | recent
  | oldest
  | titleAsc
  | titleDesc
  | mostUsed
  | recentlyOpened
  deriving DecidableEq, Repr

/-- **The texts of sort keys**: `timestamptz::text` and `bigint::text`, which are read back as they were. -/
structure SortTexts (κ σ : Type) extends Search.TextSearch κ σ where
  timestampText : Timestamp → String
  readTimestamp : String → Timestamp
  readTimestamp_text : ∀ t, readTimestamp (timestampText t) = t
  bigintText : ℕ → String
  readBigint : String → ℕ
  readBigint_text : ∀ n, readBigint (bigintText n) = n

/-- `SortOrder`: the expression a sort orders by, its key as text, the type the text is read back as, and the
direction with the place of NULL, which the identifier follows. -/
structure SortOrder (κ : Type) where
  column : Bookmark → Option (ℕ ⊕ₗ κ)
  key : Bookmark → Option String
  cast : String → ℕ ⊕ₗ κ
  descending : Bool
  nullsFirst : Bool

/-- The place a page starts after. -/
structure Position where
  key : Option String
  id : Uuid
  deriving DecidableEq, Repr

/-- `BookmarkListRequest`. -/
structure BookmarkListRequest where
  filter : BookmarkListFilter
  sort : BookmarkSort
  after : Option Position
  limit : ℕ

section

variable {κ σ : Type} [LinearOrder κ] [LinearOrder σ]

/-- The values of a column among themselves. -/
def valueOf : Option (ℕ ⊕ₗ κ) → WithBot (ℕ ⊕ₗ κ)
  | none => ⊥
  | some value => (value : WithBot (ℕ ⊕ₗ κ))

/-- `column, id` in the ascending direction of the sort. -/
def SortOrder.place (o : SortOrder κ) (b : Bookmark) : Bool ×ₗ (WithBot (ℕ ⊕ₗ κ) ×ₗ ℕ) :=
  toLex (if o.descending = o.nullsFirst then (o.column b).isNone else (o.column b).isSome,
    toLex (valueOf (o.column b), b.id))

/-- `ORDER BY column dir, id dir`: the places, from the last on when the direction is `DESC`. -/
def SortOrder.rank (o : SortOrder κ) (b : Bookmark) :
    (Bool ×ₗ (WithBot (ℕ ⊕ₗ κ) ×ₗ ℕ)) ⊕ₗ (Bool ×ₗ (WithBot (ℕ ⊕ₗ κ) ×ₗ ℕ))ᵒᵈ :=
  if o.descending then Sum.inrₗ (OrderDual.toDual (o.place b)) else Sum.inlₗ (o.place b)

variable (T : SortTexts κ σ)

/-- `SORT_ORDERS`. -/
def sortOrders : BookmarkSort → SortOrder κ
  | .recent => ⟨fun b => some (Sum.inlₗ b.createdAt), fun b => some (T.timestampText b.createdAt),
      fun text => Sum.inlₗ (T.readTimestamp text), true, false⟩
  | .oldest => ⟨fun b => some (Sum.inlₗ b.createdAt), fun b => some (T.timestampText b.createdAt),
      fun text => Sum.inlₗ (T.readTimestamp text), false, true⟩
  | .titleAsc => ⟨fun b => some (Sum.inrₗ (T.collate (T.lower b.title))), fun b => some (T.lower b.title),
      fun text => Sum.inrₗ (T.collate text), false, false⟩
  | .titleDesc => ⟨fun b => some (Sum.inrₗ (T.collate (T.lower b.title))), fun b => some (T.lower b.title),
      fun text => Sum.inrₗ (T.collate text), true, true⟩
  | .mostUsed => ⟨fun b => some (Sum.inlₗ b.openCount), fun b => some (T.bigintText b.openCount),
      fun text => Sum.inlₗ (T.readBigint text), true, false⟩
  | .recentlyOpened => ⟨fun b => b.lastOpenedAt.map Sum.inlₗ, fun b => b.lastOpenedAt.map T.timestampText,
      fun text => Sum.inlₗ (T.readTimestamp text), true, false⟩

/-- `(column, id) op (key, id)`; a row comparison with a NULL is not true. -/
def rowComparison (descending : Bool) (column : Option (ℕ ⊕ₗ κ)) (id : Uuid) (key : ℕ ⊕ₗ κ) (keyId : Uuid) : Bool :=
  column.any fun value =>
    if descending then decide (value < key ∨ value = key ∧ id < keyId)
    else decide (key < value ∨ value = key ∧ keyId < id)

/-- `afterPosition`. A position of another sort than `recently_opened` without a key is an error, which
`requireKey` raises before. -/
def afterPosition (sort : BookmarkSort) (after : Position) (b : Bookmark) : Bool :=
  let o := sortOrders T sort
  if sort = .recentlyOpened then
    match after.key with
    | none => (o.column b).isNone && decide (b.id < after.id)
    | some key => rowComparison true (o.column b) b.id (o.cast key) after.id || (o.column b).isNone
  else
    match after.key with
    | none => false
    | some key => rowComparison o.descending (o.column b) b.id (o.cast key) after.id

/-- The condition of a page on its place, where the request has one. -/
def beyond (sort : BookmarkSort) (after : Option Position) (b : Bookmark) : Bool :=
  after.all fun position => afterPosition T sort position b

/-- The error of `afterPosition`. -/
def requireKey (request : BookmarkListRequest) : Reply Unit :=
  stopIf (request.sort ≠ .recentlyOpened ∧ (request.after.any fun position => position.key.isNone))
    (.threw (.error "a cursor of this sort carries a sort key"))

/-- `requireViewer`, for a scope that holds bookmarks of others. -/
def requireViewer (tx : TenantTx) (filter : BookmarkListFilter) : Reply Unit :=
  stopIf (isOwnScope filter = false ∧ filter.ownerId ≠ tx.accountId) (.threw (.error
    "only the account of the transaction lists the bookmarks that are shared with it or that it shares"))

/-- The errors of `filterPredicate`. -/
def requireNames (filter : BookmarkListFilter) : Reply Unit := do
  requireIdentifiers (if branchesOf filter = [] then [] else filter.folderId.toList) "listing the bookmarks of a folder"
  requireIdentifiers (if branchesOf filter = [] then [] else filter.tagIds.getD []) "listing the bookmarks of a tag"

/-! ## The page -/

/-- A row of a page: the identifier, and the sort key as text. -/
structure PageRow where
  id : Uuid
  sortKey : Option String
  deriving DecidableEq, Repr

/-- The settings of the transaction. -/
def session (tx : TenantTx) : Session where
  appAccountId := some tx.accountId
  appWorkspaceId := some tx.workspaceId

/-- `FEW_MATCHES`. -/
def FEW_MATCHES : ℕ := 10000

/-- `filterPredicate`: some part of the scope. -/
def filterPredicate (c : Content) (w : Uuid) (filter : BookmarkListFilter) (b : Bookmark) : Bool :=
  (branchesOf filter).any fun branch => branchPredicate c w filter branch false b

variable (c : Content) (tx : TenantTx)

/-- The rows `m`: the matches of the text of the filter. -/
def matchedIds (filter : BookmarkListFilter) : List Uuid :=
  Search.sysBookmarkMatch T.toTextSearch c (session tx) filter.q

/-- What a walk asks of a bookmark beside the predicate of its part: to be a match where there is a text. -/
def isMatch (filter : BookmarkListFilter) (b : Bookmark) : Bool :=
  filter.q.all fun _ => decide (b.id ∈ matchedIds T c tx filter)

/-- One leg of a walk. The shared bookmarks are probed from the set of the grants. -/
def legRows (request : BookmarkListRequest) (asked : Bool) (branch : Branch) : List Bookmark :=
  let asks := fun b : Bookmark =>
    beyond T request.sort request.after b && isMatch T c tx request.filter b && asked
  if branch = .shared then
    (sharedBookmarks c tx.accountId tx.workspaceId).flatMap fun id =>
      c.bookmarks.rows.filter fun b =>
        decide (b.id = id) && branchPredicate c tx.workspaceId request.filter branch true b && asks b
  else c.bookmarks.rows.filter fun b => branchPredicate c tx.workspaceId request.filter branch false b && asks b

/-- The legs of the walk, each in the order of the sort and cut at the page. -/
def walkLegs (request : BookmarkListRequest) (asked : Bool) : List Bookmark :=
  (branchesOf request.filter).flatMap fun branch =>
    top (sortOrders T request.sort).rank request.limit (legRows T c tx request asked branch)

/-- The probe of each match, in the order of the sort and cut at the page. -/
def probedMatches (request : BookmarkListRequest) (asked : Bool) : List Bookmark :=
  top (sortOrders T request.sort).rank request.limit <|
    (matchedIds T c tx request.filter).flatMap fun id => c.bookmarks.rows.filter fun b =>
      decide (b.id = id) && filterPredicate c tx.workspaceId request.filter b &&
        beyond T request.sort request.after b && asked

/-- The page of the rows of a plan. -/
def pageOf (request : BookmarkListRequest) (rows : List Bookmark) : List PageRow :=
  (top (sortOrders T request.sort).rank request.limit rows).map fun b => ⟨b.id, (sortOrders T request.sort).key b⟩

/-- The page that the plan of few matches answers. -/
def fewPage (request : BookmarkListRequest) : List PageRow := pageOf T request (probedMatches T c tx request true)

/-- The page that the walk answers. -/
def walkPage (request : BookmarkListRequest) : List PageRow := pageOf T request (walkLegs T c tx request true)

/-- `matchedPageStatement`: the page and how many matches the function answered. -/
def matchedPageStatement (request : BookmarkListRequest) : Reply (List PageRow × ℕ) := do
  stopIf (request.filter.q = none) (.threw (.error "a page of matches needs a text query"))
  requireViewer tx request.filter
  requireNames request.filter
  requireKey request
  let n := (matchedIds T c tx request.filter).length
  return (pageOf T request (probedMatches T c tx request (decide (n ≤ FEW_MATCHES)) ++
    walkLegs T c tx request (decide (FEW_MATCHES < n))), n)

/-- The statement of a page without a text: `listQuery` for the own scope, `pageStatement` for the others. -/
def listStatement (request : BookmarkListRequest) : Reply (List PageRow) := do
  requireViewer tx request.filter
  requireNames request.filter
  if branchesOf request.filter = [] then return []
  requireKey request
  if isOwnScope request.filter then
    return pageOf T request (c.bookmarks.rows.filter fun b =>
      filterPredicate c tx.workspaceId request.filter b && beyond T request.sort request.after b)
  return pageOf T request (walkLegs T c tx request true)

/-- A row of a list: the bookmark, and its sort key as text. -/
structure BookmarkListRow where
  bookmark : Bookmark
  key : Option String

/-- The condition on the rows that `rowsOfPage` reads again, and that `recordsOf` has a route for. -/
def readAgain (filter : BookmarkListFilter) (ids : List Uuid) (b : Bookmark) : Bool :=
  decide (b.workspaceId = tx.workspaceId) &&
    (if isOwnScope filter then sqlEq b.ownerId (some filter.ownerId) else bookmarkReadableBy c filter.ownerId b) &&
    b.planArchivedAt.isNone && decide (b.id ∈ ids) &&
    (decide (b.ownerId = some filter.ownerId) ||
      (sharedViaOf c filter.ownerId tx.workspaceId ids).any fun route => decide (route.1 = b.id))

/-- `rowsOfPage`: the rows of a page read by identifier, in the order of the page. -/
def rowsOfPage (filter : BookmarkListFilter) (page : List PageRow) : List BookmarkListRow :=
  page.filterMap fun row =>
    (c.bookmarks.rows.find? fun b => readAgain c tx filter (page.map PageRow.id) b && decide (b.id = row.id)).map
      fun b => ⟨b, row.sortKey⟩

/-! ## The count -/

/-- `matchesAreTheAnswer`: the filter is a text query and nothing else, over everything the account can read. -/
def matchesAreTheAnswer (filter : BookmarkListFilter) : Bool :=
  filter.q.isSome && decide (filter.ownerId = tx.accountId) && decide (filter.scope = some .all) &&
    filter.pinned.isNone && filter.hasSlug.isNone && filter.forwarding.isNone && filter.urlCanonical.isNone &&
    filter.folderId.isNone && (filter.tagIds.getD []).isEmpty

/-- `matchedCountStatement`. -/
def matchedCountStatement (filter : BookmarkListFilter) (limit : ℕ) : Reply ℕ := do
  stopIf (filter.q = none) (.threw (.error "a count of matches needs a text query"))
  requireViewer tx filter
  if matchesAreTheAnswer tx filter then return min (matchedIds T c tx filter).length limit
  requireNames filter
  return (((matchedIds T c tx filter).flatMap fun id => c.bookmarks.rows.filter fun b =>
    decide (b.id = id) && filterPredicate c tx.workspaceId filter b).take limit).length

/-- The count without a text: `countQuery` for the own scope, `countStatement` for the others. -/
def countStatement (filter : BookmarkListFilter) (limit : ℕ) : Reply ℕ := do
  requireViewer tx filter
  requireNames filter
  if isOwnScope filter then
    return ((c.bookmarks.rows.filter (filterPredicate c tx.workspaceId filter)).take limit).length
  return min ((branchesOf filter).flatMap fun branch =>
    (legRows T c tx ⟨filter, .recent, none, limit⟩ true branch).take limit).length limit

/-- `listOf`. -/
def listOf (request : BookmarkListRequest) : Reply (List BookmarkListRow) :=
  if request.filter.q.isSome then
    (matchedPageStatement T c tx request).map fun found => rowsOfPage c tx request.filter found.1
  else (listStatement T c tx request).map (rowsOfPage c tx request.filter)

/-- `countOf`. -/
def countOf (filter : BookmarkListFilter) (limit : ℕ) : Reply ℕ :=
  if filter.q.isSome then matchedCountStatement T c tx filter limit else countStatement T c tx filter limit

/-- `listWithCountOf`. -/
def listWithCount (request : BookmarkListRequest) (limit : ℕ) : Reply (List BookmarkListRow × ℕ) := do
  if matchesAreTheAnswer tx request.filter then
    let (page, matched) ← matchedPageStatement T c tx request
    return (rowsOfPage c tx request.filter page, min matched limit)
  let rows ← listOf T c tx request
  return (rows, ← countOf T c tx request.filter limit)

/-! ## The request -/

/-- `BOOKMARK_LIST_TOTAL_CAP`. -/
def BOOKMARK_LIST_TOTAL_CAP : ℕ := 10000

/-- A page of the list as the operation answers it. -/
structure Listed where
  items : List BookmarkListRow
  next : Option Position
  /-- The number of matching bookmarks, `none` when there are more than the cap. -/
  total : Option ℕ

/-- The rows of a page of `limit` when one more has been read, and the position the next page starts after. -/
def pageAndNext {α : Type} (position : α → Position) (limit : ℕ) (fetched : List α) : List α × Option Position :=
  (fetched.take limit, if limit < fetched.length then ((fetched.take limit).getLast?).map position else none)

/-- The position of a row of a list. -/
def BookmarkListRow.position (row : BookmarkListRow) : Position := ⟨row.key, row.bookmark.id⟩

/-- The position of a row of a page. -/
def PageRow.position (row : PageRow) : Position := ⟨row.sortKey, row.id⟩

/-- `listBookmarks`, for a filter and a cursor that are read: one row more than the page is asked for. -/
def listBookmarks (request : BookmarkListRequest) : Reply Listed := do
  let (fetched, counted) ← listWithCount T c tx { request with limit := request.limit + 1 }
    (BOOKMARK_LIST_TOTAL_CAP + 1)
  let (items, next) := pageAndNext BookmarkListRow.position request.limit fetched
  return ⟨items, next, if BOOKMARK_LIST_TOTAL_CAP < counted then none else some counted⟩

end

end SlugBase.Listing
