import SlugBase.Listing.Pages

/-!
# A page, its count and the walk

* **`listWithCount_walk`**: for every filter, the rows of a page and the next position are those of the
  walking plan, and the count is the length of the walk over all pages, cut at the count's limit;
* `count_cut`: more matches than that are counted at the limit;
* `listBookmarks_walk`: the same of the operation, whose total is left out where it was cut.
-/

set_option linter.unusedSectionVars false

namespace SlugBase.Listing

open Relational Bulk

section

variable {κ σ : Type} [LinearOrder κ] [LinearOrder σ] {T : SortTexts κ σ} {c : Content} {tx : TenantTx}
  {request : BookmarkListRequest} {rows : List BookmarkListRow} {count cap limit pages : ℕ}

/-- What `listWithCount` answers, whichever statements it reads. -/
theorem listWithCount_ok (h : listWithCount T c tx request cap = .ok (rows, count)) :
    (isOwnScope request.filter = false → request.filter.ownerId = tx.accountId) ∧
      rows = rowsOfPage c tx request.filter (walkPage T c tx request) ∧
      count = min (filteredRows T c tx request.filter).length cap := by
  unfold listWithCount at h
  split_ifs at h with hanswer
  · obtain ⟨⟨page, matched⟩, hpage, h⟩ := of_bind_ok h
    obtain ⟨_, howner, rfl, rfl⟩ := matchedPageStatement_ok hpage
    obtain ⟨rfl, rfl⟩ := Prod.mk.inj (Except.ok.inj h)
    exact ⟨howner, rfl, by rw [matchedIds_length hanswer]⟩
  · obtain ⟨found, hlist, h⟩ := of_bind_ok h
    obtain ⟨counted, hcount, h⟩ := of_bind_ok h
    obtain ⟨rfl, rfl⟩ := Prod.mk.inj (Except.ok.inj h)
    obtain ⟨howner, hrows⟩ := listOf_ok hlist
    exact ⟨howner, hrows, countOf_ok hcount⟩

theorem selectedRows_front (sort : BookmarkSort) (filter : BookmarkListFilter) :
    selectedRows T c tx ⟨filter, sort, none, limit⟩ = filteredRows T c tx filter := by
  simp only [selectedRows, filteredRows, beyond, Option.all_none, Bool.and_true]

theorem walkAll_length {filter : BookmarkListFilter} {sort : BookmarkSort}
    (hviewer : isOwnScope filter = false → filter.ownerId = tx.accountId) (hlimit : 0 < limit)
    (hpages : c.bookmarks.rows.length < pages) :
    (walkAll T c tx pages ⟨filter, sort, none, limit⟩).length = (filteredRows T c tx filter).length := by
  have hlt : (selectedRows T c tx ⟨filter, sort, none, limit⟩).length < pages :=
    lt_of_le_of_lt (List.length_filter_le _ _) hpages
  rw [walkAll_eq hviewer hlimit (.inl rfl) hlt, List.length_map, orderedRows, length_ranked, selectedRows_front]

theorem positions_eq (hviewer : isOwnScope request.filter = false → request.filter.ownerId = tx.accountId) :
    (rowsOfPage c tx request.filter (walkPage T c tx request)).map BookmarkListRow.position =
      (walkPage T c tx request).map PageRow.position := by
  rw [rowsOfPage_eq hviewer, walkPage_eq hviewer, List.map_map, List.map_map]
  rfl

theorem next_congr {α β : Type} {f : α → Position} {g : β → Position} {l : List α} {m : List β}
    (h : l.map f = m.map g) (limit : ℕ) : (pageAndNext f limit l).2 = (pageAndNext g limit m).2 := by
  have hlen : l.length = m.length := by rw [← List.length_map f, h, List.length_map]
  have hlast : ((l.take limit).getLast?).map f = ((m.take limit).getLast?).map g := by
    rw [← List.getLast?_map, ← List.getLast?_map, List.map_take, List.map_take, h]
  rw [pageAndNext, pageAndNext, hlen, hlast]

end

/-- **Few matches or many, the page is that of the walk**: the two plans answer one page; the rows and the
next position of a list are those of the walking plan; and the count with them is the length of the walk
over all pages, cut at the limit of the count. -/
theorem listWithCount_walk {κ σ : Type} [LinearOrder κ] [LinearOrder σ] (T : SortTexts κ σ) (c : Content)
    (tx : TenantTx) (request : BookmarkListRequest) (rows : List BookmarkListRow) (count cap limit pages : ℕ)
    (h : listWithCount T c tx request cap = .ok (rows, count)) (hlimit : 0 < limit)
    (hpages : c.bookmarks.rows.length < pages) :
    (request.filter.q.isSome = true → fewPage T c tx request = walkPage T c tx request) ∧
    rows.map BookmarkListRow.position = (walkPage T c tx request).map PageRow.position ∧
    (∀ n, (pageAndNext BookmarkListRow.position n rows).2 =
      (pageAndNext PageRow.position n (walkPage T c tx request)).2) ∧
    count = min (walkAll T c tx pages ⟨request.filter, request.sort, none, limit⟩).length cap := by
  obtain ⟨howner, hrows, hcount⟩ := listWithCount_ok h
  have hpositions : rows.map BookmarkListRow.position = (walkPage T c tx request).map PageRow.position := by
    rw [hrows, positions_eq howner]
  refine ⟨fewPage_eq_walkPage howner, hpositions, next_congr hpositions, ?_⟩
  rw [walkAll_length howner hlimit hpages, hcount]

/-! ## A store with many matches -/

/-- Texts in the order of their characters. -/
def plainTexts : SortTexts String ℕ where
  lower text := String.ofList (text.toList.map Char.toLower)
  isSpace c := c.isWhitespace
  collate := id
  ilikePrefix text title := text.toList.isPrefixOf (title.toList.map Char.toLower)
  lexemes text := [text]
  zero := 0
  tsRankCd _ _ := 1
  wordSimilarity _ _ := 0
  threshold := 1
  timestampText t := String.ofList (List.replicate t '1')
  readTimestamp text := text.toList.length
  readTimestamp_text := by simp
  bigintText n := String.ofList (List.replicate n '1')
  readBigint text := text.toList.length
  readBigint_text := by simp

/-- A bookmark of account 7 whose title is `ab`. -/
def titledBookmark (id : ℕ) : Bookmark :=
  ⟨id, 1, some 7, none, none, none, "https://example.org/", "https://example.org/", "example.org", "ab", none, none,
    false, none, none, 0, none, 1, 0, 0⟩

/-- `n` bookmarks of one title. -/
def manyBookmarks (n : ℕ) : Content where
  bookmarks := ⟨(List.range n).map titledBookmark, by
    rw [List.map_map]
    exact (List.nodup_map_iff fun _ _ h => h).mpr List.nodup_range⟩

/-- Everything account 7 can read that matches `ab`. -/
def titleFilter : BookmarkListFilter := ⟨7, some .all, none, none, none, none, none, none, some "ab"⟩

theorem matchedIds_many (n : ℕ) : (matchedIds plainTexts (manyBookmarks n) ⟨7, 1⟩ titleFilter).length = n := by
  have htext : Search.searchText plainTexts.toTextSearch titleFilter.q = "ab" := by decide
  have hall : (manyBookmarks n).bookmarks.rows.filter (fun b => searchable (manyBookmarks n) 7 1 b &&
      (Search.slugPrefixed "ab" b || plainTexts.ilikePrefix "ab" b.title)) = (manyBookmarks n).bookmarks.rows := by
    refine List.filter_eq_self.mpr fun b hb => ?_
    obtain ⟨id, -, rfl⟩ := List.mem_map.mp hb
    simp [searchable, titledBookmark, plainTexts]
  have hshort : Search.isShort "ab" = true := by decide
  simp only [matchedIds, Search.sysBookmarkMatch, session, htext, hshort, if_true, Search.shortMatches, Search.selected]
  rw [if_neg (by decide), List.length_map, hall]
  simp [manyBookmarks]

theorem listWithCount_many (n cap limit : ℕ) :
    ∃ rows, listWithCount plainTexts (manyBookmarks n) ⟨7, 1⟩ ⟨titleFilter, .titleAsc, none, limit⟩ cap =
      .ok (rows, min n cap) := by
  obtain ⟨rows, h⟩ : ∃ rows, listWithCount plainTexts (manyBookmarks n) ⟨7, 1⟩ ⟨titleFilter, .titleAsc, none, limit⟩ cap =
      .ok (rows, min (matchedIds plainTexts (manyBookmarks n) ⟨7, 1⟩ titleFilter).length cap) := ⟨_, rfl⟩
  rw [matchedIds_many] at h
  exact ⟨rows, h⟩

theorem listWithCount_walk_ten :
    ∃ rows, listWithCount plainTexts (manyBookmarks 10) ⟨7, 1⟩ ⟨titleFilter, .titleAsc, none, 4⟩ 10001 =
      .ok (rows, 10) ∧
    (∀ n, (pageAndNext BookmarkListRow.position n rows).2 = (pageAndNext PageRow.position n
      (walkPage plainTexts (manyBookmarks 10) ⟨7, 1⟩ ⟨titleFilter, .titleAsc, none, 4⟩)).2) ∧
    10 = min (walkAll plainTexts (manyBookmarks 10) ⟨7, 1⟩ 11 ⟨titleFilter, .titleAsc, none, 3⟩).length 10001 := by
  obtain ⟨rows, h⟩ := listWithCount_many 10 10001 4
  obtain ⟨_, _, hnext, hcount⟩ := listWithCount_walk plainTexts (manyBookmarks 10) ⟨7, 1⟩
    ⟨titleFilter, .titleAsc, none, 4⟩ rows _ 10001 3 11 h (by decide) (by decide)
  exact ⟨rows, h, hnext, hcount⟩

/-- **More matches than the limit of the count are counted at the limit**: 10 002 bookmarks are on the pages,
10 001 are counted. -/
theorem count_cut :
    matchesAreTheAnswer ⟨7, 1⟩ titleFilter = true ∧
    ∃ rows, listWithCount plainTexts (manyBookmarks 10002) ⟨7, 1⟩ ⟨titleFilter, .titleAsc, none, 101⟩
        (BOOKMARK_LIST_TOTAL_CAP + 1) = .ok (rows, 10001) ∧
      (walkAll plainTexts (manyBookmarks 10002) ⟨7, 1⟩ 10003 ⟨titleFilter, .titleAsc, none, 100⟩).length = 10002 := by
  refine ⟨by decide, ?_⟩
  obtain ⟨rows, h⟩ := listWithCount_many 10002 (BOOKMARK_LIST_TOTAL_CAP + 1) 101
  refine ⟨rows, h, ?_⟩
  have hrows : (manyBookmarks 10002).bookmarks.rows.length < 10003 := by
    rw [manyBookmarks, List.length_map, List.length_range]
    omega
  rw [walkAll_length (fun _ => rfl) (by omega) hrows, ← matchedIds_length (by decide), matchedIds_many]

section

variable {κ σ : Type} [LinearOrder κ] [LinearOrder σ] {T : SortTexts κ σ} {c : Content} {tx : TenantTx}
  {request : BookmarkListRequest} {limit pages : ℕ}

/-- **The operation**: its page and next position are those of the walk, and its total is the length of the
walk over all pages, left out when it is over the cap. -/
theorem listBookmarks_walk {answer : Listed} (h : listBookmarks T c tx request = .ok answer) (hlimit : 0 < limit)
    (hpages : c.bookmarks.rows.length < pages) :
    answer.items.map BookmarkListRow.position =
      ((walkPage T c tx { request with limit := request.limit + 1 }).map PageRow.position).take request.limit ∧
    answer.next =
      (pageAndNext PageRow.position request.limit (walkPage T c tx { request with limit := request.limit + 1 })).2 ∧
    answer.total =
      (if BOOKMARK_LIST_TOTAL_CAP < (walkAll T c tx pages ⟨request.filter, request.sort, none, limit⟩).length then none
      else some (walkAll T c tx pages ⟨request.filter, request.sort, none, limit⟩).length) := by
  obtain ⟨⟨fetched, counted⟩, hlist, h⟩ := of_bind_ok h
  obtain ⟨howner, hrows, hcount⟩ := listWithCount_ok hlist
  obtain rfl := Except.ok.inj h
  have hcounted : counted = min (filteredRows T c tx request.filter).length (BOOKMARK_LIST_TOTAL_CAP + 1) := hcount
  have hpositions : fetched.map BookmarkListRow.position =
      (walkPage T c tx { request with limit := request.limit + 1 }).map PageRow.position := by
    rw [hrows]
    have howner' : isOwnScope ({ request with limit := request.limit + 1 } : BookmarkListRequest).filter = false →
      ({ request with limit := request.limit + 1 } : BookmarkListRequest).filter.ownerId = tx.accountId := howner
    exact positions_eq howner'
  refine ⟨?_, next_congr hpositions request.limit, ?_⟩
  · rw [← hpositions]
    exact List.map_take
  · rw [walkAll_length howner hlimit hpages, hcounted]
    by_cases hover : BOOKMARK_LIST_TOTAL_CAP < (filteredRows T c tx request.filter).length
    · rw [if_pos hover, if_pos (lt_min hover (Nat.lt_succ_self _))]
    · rw [if_neg hover, min_eq_left (by omega), if_neg hover]

end

end SlugBase.Listing
