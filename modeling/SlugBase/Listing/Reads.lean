import SlugBase.Listing.Agreement

/-!
# A page while others commit

Each statement of a page request reads what is committed when it runs: the page, the records of its rows,
the routes of the records that are not the account's own, and the count.

* `Reads`: the contents that the statements of one request read; `rowsOfPageOver`, `listBookmarksOver`;
* `stillRead`, `kept`: whether a row of a page is there when its record is read;
* **`listBookmarksOver_ok`**: the rows of a page are the kept ones of the rows its statement found.
-/

set_option linter.unusedSectionVars false

namespace SlugBase.Listing

open Relational Bulk

/-- The contents that the statements of one page request read. -/
structure Reads where
  page : Content
  rows : Content
  routes : Content
  count : Content

section

variable {κ σ : Type} [LinearOrder κ] [LinearOrder σ] (T : SortTexts κ σ) (r : Reads) (tx : TenantTx)

/-- The condition on the rows of a page that `rowsOfPage` reads by identifier. -/
def readRow (filter : BookmarkListFilter) (ids : List Uuid) (b : Bookmark) : Bool :=
  decide (b.workspaceId = tx.workspaceId) &&
    (if isOwnScope filter then sqlEq b.ownerId (some filter.ownerId)
      else bookmarkReadableBy r.rows filter.ownerId b) &&
    b.planArchivedAt.isNone && decide (b.id ∈ ids)

/-- `recordsOf`: a row that is not the account's own is left out when its share has ended meanwhile. -/
def recordsOf (viewer : Uuid) (rows : List Bookmark) : List Bookmark :=
  let foreign := rows.filter fun b => !decide (b.ownerId = some viewer)
  rows.filter fun b => decide (b.ownerId = some viewer) ||
    (sharedViaOf r.routes viewer tx.workspaceId (foreign.map Bookmark.id)).any fun route => decide (route.1 = b.id)

/-- `rowsOfPage`. -/
def rowsOfPageOver (filter : BookmarkListFilter) (page : List PageRow) : List BookmarkListRow :=
  let found := r.rows.bookmarks.rows.filter (readRow r tx filter (page.map PageRow.id))
  let ordered := page.filterMap fun row => found.find? fun b => decide (b.id = row.id)
  let records := recordsOf r tx filter.ownerId ordered
  page.filterMap fun row => (records.find? fun b => decide (b.id = row.id)).map fun b => ⟨b, row.sortKey⟩

/-- `listOf`. The statement of the own scope reads the rows with their places. -/
def listOfOver (request : BookmarkListRequest) : Reply (List BookmarkListRow) :=
  if request.filter.q.isSome then
    (matchedPageStatement T r.page tx request).map fun found => rowsOfPageOver r tx request.filter found.1
  else if isOwnScope request.filter then
    (listStatement T r.page tx request).map fun page => page.filterMap fun row =>
      (r.page.bookmarks.rows.find? fun b => decide (b.id = row.id)).map fun b => ⟨b, row.sortKey⟩
  else (listStatement T r.page tx request).map (rowsOfPageOver r tx request.filter)

/-- `listWithCountOf`. -/
def listWithCountOver (request : BookmarkListRequest) (limit : ℕ) : Reply (List BookmarkListRow × ℕ) := do
  if matchesAreTheAnswer tx request.filter then
    let (page, matched) ← matchedPageStatement T r.page tx request
    return (rowsOfPageOver r tx request.filter page, min matched limit)
  let rows ← listOfOver T r tx request
  return (rows, ← countOf T r.count tx request.filter limit)

/-- `listBookmarks`, for a filter and a cursor that are read. -/
def listBookmarksOver (request : BookmarkListRequest) : Reply Listed := do
  let (fetched, counted) ← listWithCountOver T r tx { request with limit := request.limit + 1 }
    (BOOKMARK_LIST_TOTAL_CAP + 1)
  let (items, next) := pageAndNext BookmarkListRow.position request.limit fetched
  return ⟨items, next, if BOOKMARK_LIST_TOTAL_CAP < counted then none else some counted⟩

/-- The record of a row is still there: the row is live and readable when the rows are read, and its own or
shared when the routes are. -/
def stillRead (filter : BookmarkListFilter) (id : Uuid) : Bool :=
  r.rows.bookmarks.rows.any fun b => decide (b.id = id) && readRow r tx filter [id] b &&
    (decide (b.ownerId = some filter.ownerId) || decide (id ∈ sharedBookmarks r.routes filter.ownerId tx.workspaceId))

/-- A row that the statement of a page found is in the page; the statement of the own scope reads the records
itself. -/
def kept (filter : BookmarkListFilter) (id : Uuid) : Bool :=
  isOwnScope filter && !filter.q.isSome || stillRead r tx filter id

end

variable {κ σ : Type} [LinearOrder κ] [LinearOrder σ] {T : SortTexts κ σ} {r : Reads} {tx : TenantTx}
  {request : BookmarkListRequest} {filter : BookmarkListFilter} {b : Bookmark} {id : Uuid}

/-! ## The records of a page -/

theorem readRow_one {ids : List Uuid} (hid : b.id ∈ ids) :
    readRow r tx filter ids b = readRow r tx filter [b.id] b := by
  rw [readRow, readRow, decide_eq_true hid, decide_eq_true (List.mem_singleton.mpr rfl)]

theorem mem_recordsOf {viewer : Uuid} {rows : List Bookmark} :
    b ∈ recordsOf r tx viewer rows ↔ b ∈ rows ∧
      (b.ownerId = some viewer ∨ b.id ∈ sharedBookmarks r.routes viewer tx.workspaceId) := by
  rw [recordsOf, List.mem_filter]
  refine and_congr_right fun hb => ?_
  rw [Bool.or_eq_true, decide_eq_true_eq]
  by_cases hown : b.ownerId = some viewer
  · exact iff_of_true (.inl hown) (.inl hown)
  · have hforeign : b.id ∈ (rows.filter fun b => !decide (b.ownerId = some viewer)).map Bookmark.id :=
      List.mem_map_of_mem (List.mem_filter.mpr ⟨hb, by simpa using hown⟩)
    rw [or_iff_right hown, or_iff_right hown, mem_sharedBookmarks, ← sharedViaOf_nonempty hforeign, List.any_eq_true]
    constructor
    · rintro ⟨⟨id, via⟩, hroute, hid⟩
      obtain rfl : id = b.id := of_decide_eq_true hid
      exact ⟨via, hroute⟩
    · rintro ⟨via, hroute⟩
      exact ⟨(b.id, via), hroute, decide_eq_true rfl⟩

theorem stillRead_iff : stillRead r tx filter id = true ↔ ∃ b ∈ r.rows.bookmarks.rows, b.id = id ∧
    readRow r tx filter [id] b = true ∧
    (b.ownerId = some filter.ownerId ∨ id ∈ sharedBookmarks r.routes filter.ownerId tx.workspaceId) := by
  simp only [stillRead, List.any_eq_true, Bool.and_eq_true, Bool.or_eq_true, decide_eq_true_eq, and_assoc]

/-- The rows that are read one by one are those of the identifiers. -/
theorem mem_orderedRecords {c : Content} {asks : Bookmark → Bool} {page : List PageRow} :
    b ∈ page.filterMap (fun row => (c.bookmarks.rows.filter asks).find? fun b => decide (b.id = row.id)) ↔
      b ∈ c.bookmarks.rows ∧ asks b = true ∧ b.id ∈ page.map PageRow.id := by
  rw [List.mem_filterMap]
  constructor
  · rintro ⟨row, hrow, hfind⟩
    obtain ⟨hb, hasks⟩ := List.mem_filter.mp (List.mem_of_find?_eq_some hfind)
    have hid : b.id = row.id := by simpa using List.find?_some hfind
    exact ⟨hb, hasks, hid ▸ List.mem_map_of_mem hrow⟩
  · rintro ⟨hb, hasks, hid⟩
    obtain ⟨row, hrow, hid⟩ := List.mem_map.mp hid
    have hmem : b ∈ c.bookmarks.rows.filter asks := List.mem_filter.mpr ⟨hb, hasks⟩
    refine ⟨row, hrow, ?_⟩
    cases hfind : (c.bookmarks.rows.filter asks).find? fun b => decide (b.id = row.id) with
    | none => exact absurd hid.symm (by simpa using List.find?_eq_none.mp hfind b hmem)
    | some b' =>
      have hid' : b'.id = row.id := by simpa using List.find?_some hfind
      have hb' := (List.mem_filter.mp (List.mem_of_find?_eq_some hfind)).1
      rw [Table.eq_of_key hb' hb (hid'.trans hid)]

/-- Rows that are looked up keep their places. -/
theorem map_filterMap_kept {α β γ : Type} {look : α → Option β} {p : α → Bool} {f : β → γ} {g : α → γ} {l : List α}
    (h : ∀ x ∈ l, (look x).map f = if p x = true then some (g x) else none) :
    (l.filterMap look).map f = (l.filter p).map g := by
  induction l with
  | nil => rfl
  | cons x l ih =>
    have hx := h x List.mem_cons_self
    have hrest := ih fun y hy => h y (List.mem_cons_of_mem _ hy)
    by_cases hp : p x = true
    · rw [if_pos hp] at hx
      obtain ⟨y, hlook, hy⟩ := Option.map_eq_some_iff.mp hx
      rw [List.filterMap_cons_some hlook, List.filter_cons_of_pos hp, List.map_cons, List.map_cons, hrest, hy]
    · rw [if_neg hp, Option.map_eq_none_iff] at hx
      rw [List.filterMap_cons_none hx, List.filter_cons_of_neg hp, hrest]

theorem rowsOfPageOver_positions (page : List PageRow) :
    (rowsOfPageOver r tx filter page).map BookmarkListRow.position =
      (page.filter fun row => stillRead r tx filter row.id).map PageRow.position := by
  rw [rowsOfPageOver]
  refine map_filterMap_kept fun row hrow => ?_
  have hids : row.id ∈ page.map PageRow.id := List.mem_map_of_mem hrow
  rw [Option.map_map]
  cases hfind : (recordsOf r tx filter.ownerId (page.filterMap fun row =>
      (r.rows.bookmarks.rows.filter (readRow r tx filter (page.map PageRow.id))).find? fun b =>
        decide (b.id = row.id))).find? fun b => decide (b.id = row.id) with
  | none =>
    refine (if_neg fun hread => ?_).symm
    obtain ⟨b, hb, hid, hasks, hroute⟩ := stillRead_iff.mp hread
    rw [← hid] at hids hasks hroute
    have hmem := mem_recordsOf.mpr ⟨mem_orderedRecords.mpr ⟨hb, (readRow_one hids).trans hasks, hids⟩, hroute⟩
    exact absurd hid (by simpa using List.find?_eq_none.mp hfind b hmem)
  | some b =>
    have hid : b.id = row.id := by simpa using List.find?_some hfind
    obtain ⟨hordered, hroute⟩ := mem_recordsOf.mp (List.mem_of_find?_eq_some hfind)
    obtain ⟨hb, hasks, _⟩ := mem_orderedRecords.mp hordered
    have hread : stillRead r tx filter row.id = true := by
      rw [← hid] at hids ⊢
      exact stillRead_iff.mpr ⟨b, hb, rfl, (readRow_one hids).symm.trans hasks, hroute⟩
    rw [if_pos hread, Option.map_some]
    exact congrArg (fun id => some (Position.mk row.sortKey id)) hid

/-! ## The rows of a page -/

theorem of_map_ok {α β : Type} {x : Reply α} {f : α → β} {y : β} (h : x.map f = .ok y) :
    ∃ a, x = .ok a ∧ f a = y := by
  cases x with
  | error stop => cases h
  | ok a => exact ⟨a, rfl, Except.ok.inj h⟩

/-- The rows that the statement of a page finds: those of the page, and one more. -/
def foundRows (T : SortTexts κ σ) (r : Reads) (tx : TenantTx) (request : BookmarkListRequest) : List Bookmark :=
  (orderedRows T r.page tx request).take (request.limit + 1)

/-- Those of them that are in the page. -/
def keptRows (T : SortTexts κ σ) (r : Reads) (tx : TenantTx) (request : BookmarkListRequest) : List Bookmark :=
  (foundRows T r tx request).filter fun b => kept r tx request.filter b.id

theorem kept_noText (hq : filter.q.isSome = false) (hown : isOwnScope filter = true) : kept r tx filter id = true := by
  rw [kept, hq, hown]
  rfl

theorem kept_reads (h : ¬(filter.q.isSome = false ∧ isOwnScope filter = true)) :
    kept r tx filter id = stillRead r tx filter id := by
  rw [kept]
  cases hq : filter.q.isSome with
  | true => simp
  | false =>
    have hown : isOwnScope filter = false := by simpa [hq] using h
    rw [hown]
    rfl

theorem rowsOfStatement_positions {c : Content} {l : List Bookmark} (hl : ∀ b ∈ l, b ∈ c.bookmarks.rows)
    (sort : BookmarkSort) :
    ((l.map (pageRow T sort)).filterMap fun row => (c.bookmarks.rows.find? fun b => decide (b.id = row.id)).map fun b =>
      BookmarkListRow.mk b row.sortKey).map BookmarkListRow.position = l.map (positionOf T sort) := by
  rw [List.filterMap_map, map_filterMap_kept (p := fun _ => true) (g := positionOf T sort), List.filter_true]
  intro b hb
  have hfind : c.bookmarks.rows.find? (fun b' => decide (b'.id = b.id)) = some b :=
    Table.find?_of_only (t := c.bookmarks) (hl b hb) (decide_eq_true rfl) fun b' hb' hid =>
      Table.eq_of_key hb' (hl b hb) (of_decide_eq_true hid)
  rw [if_pos rfl, Function.comp_apply, Option.map_map]
  exact congrArg (Option.map fun b' => Position.mk ((sortOrders T sort).key b) b'.id) hfind

theorem listOfOver_ok {rows : List BookmarkListRow}
    (h : listOfOver T r tx { request with limit := request.limit + 1 } = .ok rows) :
    rows.map BookmarkListRow.position = (keptRows T r tx request).map (positionOf T request.sort) := by
  have hwalk (howner : isOwnScope request.filter = false → request.filter.ownerId = tx.accountId) :
      walkPage T r.page tx { request with limit := request.limit + 1 } =
        (foundRows T r tx request).map (pageRow T request.sort) := by
    refine walkPage_eq ?_
    exact howner
  have hreads (hkept : ¬(request.filter.q.isSome = false ∧ isOwnScope request.filter = true)) :
      ((foundRows T r tx request).map (pageRow T request.sort)).filter
        (fun row => stillRead r tx request.filter row.id) =
      (keptRows T r tx request).map (pageRow T request.sort) := by
    rw [List.filter_map, keptRows]
    exact congrArg _ (List.filter_congr fun b _ => (kept_reads hkept).symm)
  unfold listOfOver at h
  split_ifs at h with hq hown
  · obtain ⟨⟨page, matched⟩, hpage, h⟩ := of_map_ok h
    obtain ⟨_, howner, hfound, _⟩ := matchedPageStatement_ok hpage
    have hq' : ¬(request.filter.q.isSome = false ∧ isOwnScope request.filter = true) := fun hnot =>
      Bool.false_ne_true (hnot.1.symm.trans hq)
    rw [← h, rowsOfPageOver_positions, hfound, hwalk howner, hreads hq', List.map_map]
    rfl
  · obtain ⟨page, hpage, h⟩ := of_map_ok h
    obtain ⟨howner, hfound⟩ := listStatement_ok (Bool.eq_false_iff.mpr hq) hpage
    have hall : keptRows T r tx request = foundRows T r tx request :=
      List.filter_eq_self.mpr fun b _ => kept_noText (Bool.eq_false_iff.mpr hq) hown
    rw [← h, hfound, hwalk howner, hall]
    exact rowsOfStatement_positions
      (fun b hb => (mem_selectedRows.mp (mem_ranked.mp (List.mem_of_mem_take hb))).1) request.sort
  · obtain ⟨page, hpage, h⟩ := of_map_ok h
    obtain ⟨howner, hfound⟩ := listStatement_ok (Bool.eq_false_iff.mpr hq) hpage
    rw [← h, rowsOfPageOver_positions, hfound, hwalk howner, hreads (fun hnot => hown hnot.2), List.map_map]
    rfl

theorem listWithCountOver_ok {rows : List BookmarkListRow} {cap counted : ℕ}
    (h : listWithCountOver T r tx { request with limit := request.limit + 1 } cap = .ok (rows, counted)) :
    rows.map BookmarkListRow.position = (keptRows T r tx request).map (positionOf T request.sort) := by
  unfold listWithCountOver at h
  split_ifs at h with hanswer
  · obtain ⟨⟨page, matched⟩, hpage, h⟩ := of_bind_ok h
    obtain ⟨hq, -⟩ := matchedPageStatement_ok hpage
    have hlist : listOfOver T r tx { request with limit := request.limit + 1 } =
        .ok (rowsOfPageOver r tx request.filter page) := by
      rw [listOfOver, if_pos hq, hpage]
      rfl
    obtain ⟨hrows, -⟩ := Prod.mk.inj (Except.ok.inj h)
    rw [← hrows]
    exact listOfOver_ok hlist
  · obtain ⟨found, hlist, h⟩ := of_bind_ok h
    obtain ⟨_, _, h⟩ := of_bind_ok h
    obtain ⟨hrows, -⟩ := Prod.mk.inj (Except.ok.inj h)
    rw [← hrows]
    exact listOfOver_ok hlist

/-- **The rows of a page are the kept ones of the rows its statement found**, and a next position is given when
they are more than the page takes. -/
theorem listBookmarksOver_ok {page : Listed} (h : listBookmarksOver T r tx request = .ok page) :
    page.items.map BookmarkListRow.position =
      ((keptRows T r tx request).take request.limit).map (positionOf T request.sort) ∧
    page.next = if request.limit < (keptRows T r tx request).length then
      (((keptRows T r tx request).take request.limit).getLast?).map (positionOf T request.sort) else none := by
  obtain ⟨⟨fetched, counted⟩, hlist, h⟩ := of_bind_ok h
  obtain rfl := Except.ok.inj h
  have hpositions := listWithCountOver_ok hlist
  refine ⟨?_, next_congr hpositions request.limit⟩
  rw [List.map_take, List.map_take, hpositions]

end SlugBase.Listing
