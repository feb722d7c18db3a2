import SlugBase.Listing.Reads

/-!
# The page requests of a walk

The pages of a list are asked for one after the other, and between the statements of a page, as between the
pages, other transactions commit.

* `turns`: the page requests of a walk; `Stands`, `Lasts`: a bookmark that matches and keeps its sort key;
* `ExactWalk`: the rows are in order, and a bookmark that lasts is returned once and is never left behind;
* `KeepsLasting`: a page that loses a row has no lasting bookmark after the rows it found;
* **`page_upTo`**, **`next_answered`**: a next position leaves nothing behind, and is answered;
* **`last_page`**, **`left_behind`**: the last page has what is left, unless the page does not keep what lasts.
-/

set_option linter.unusedSectionVars false

namespace SlugBase.Listing

open Relational Bulk

section

variable {κ σ : Type} [LinearOrder κ] [LinearOrder σ]

/-- `column, id` in the direction of the sort, of a position. -/
def positionRank (o : SortOrder κ) (p : Position) :
    (Bool ×ₗ (WithBot (ℕ ⊕ₗ κ) ×ₗ ℕ)) ⊕ₗ (Bool ×ₗ (WithBot (ℕ ⊕ₗ κ) ×ₗ ℕ))ᵒᵈ :=
  let value := p.key.map o.cast
  let place : Bool ×ₗ (WithBot (ℕ ⊕ₗ κ) ×ₗ ℕ) :=
    toLex (if o.descending = o.nullsFirst then value.isNone else value.isSome, toLex (valueOf value, p.id))
  if o.descending then Sum.inrₗ (OrderDual.toDual place) else Sum.inlₗ place

/-- A page request of a walk: what is asked, what its statements read, and the page. -/
structure Turn where
  request : BookmarkListRequest
  reads : Reads
  page : Listed

variable (T : SortTexts κ σ) (tx : TenantTx)

/-- **A walk**: each request starts after the page before it, until a page has no next position. -/
def turns (request : BookmarkListRequest) : List Reads → List Turn
  | [] => []
  | reads :: rest =>
    match listBookmarksOver T reads tx request with
    | .error _ => []
    | .ok page => ⟨request, reads, page⟩ ::
      match page.next with
      | none => []
      | some position => turns { request with after := some position } rest

/-- The rows that a walk returned. -/
def returned (walk : List Turn) : List BookmarkListRow := walk.flatMap fun turn => turn.page.items

/-- The walk has come to a page without a next position. -/
def Ended (walk : List Turn) : Prop := ∃ turn ∈ walk, turn.page.next = none

variable (filter : BookmarkListFilter) (sort : BookmarkSort)

/-- A bookmark of the position is in the content, readable, and matches the filter. -/
def Stands (c : Content) (p : Position) : Prop :=
  ∃ b ∈ c.bookmarks.rows, positionOf T sort b = p ∧ filterPredicate c tx.workspaceId filter b = true ∧
    isMatch T c tx filter b = true

/-- **The bookmark of a position lasts**: it stands in whatever the page requests of the walk read. -/
def Lasts (walk : List Turn) (p : Position) : Prop :=
  ∀ turn ∈ walk, Stands T tx filter sort turn.reads.page p ∧ Stands T tx filter sort turn.reads.rows p ∧
    Stands T tx filter sort turn.reads.routes p

/-- **An exact walk.** -/
structure ExactWalk (walk : List Turn) : Prop where
  /-- The rows are in the order of the sort, from page to page. -/
  inOrder : ((returned walk).map BookmarkListRow.position).Pairwise fun p q =>
    positionRank (sortOrders T sort) p < positionRank (sortOrders T sort) q
  /-- No lasting bookmark is returned twice. -/
  atMostOnce : ∀ p, Lasts T tx filter sort walk p →
    (returned walk).countP (fun row => row.bookmark.id = p.id) ≤ 1
  /-- A cursor leaves no lasting bookmark behind. -/
  upToCursor : ∀ turn ∈ walk, ∀ cursor, turn.page.next = some cursor → ∀ p, Lasts T tx filter sort walk p →
    ¬positionRank (sortOrders T sort) cursor < positionRank (sortOrders T sort) p →
      (returned walk).countP (fun row => row.bookmark.id = p.id) = 1
  /-- At the end each lasting bookmark has been returned. -/
  exactlyOnce : Ended walk → ∀ p, Lasts T tx filter sort walk p →
    (returned walk).countP (fun row => row.bookmark.id = p.id) = 1
  /-- No lasting bookmark comes after the end. -/
  noneLater : Ended walk → ∀ p, Lasts T tx filter sort walk p →
    ∃ row ∈ returned walk, ¬positionRank (sortOrders T sort) row.position < positionRank (sortOrders T sort) p

/-- A bookmark becomes the reader's own, its share gone, between the read of its row and that of the routes. -/
def PassesOver (r : Reads) (id : Uuid) : Prop :=
  (∃ b ∈ r.rows.bookmarks.rows, b.id = id ∧ b.ownerId ≠ some filter.ownerId) ∧
    (∃ b ∈ r.routes.bookmarks.rows, b.id = id ∧ b.ownerId = some filter.ownerId) ∧
    id ∉ sharedBookmarks r.routes filter.ownerId tx.workspaceId

/-- **A page keeps what lasts**: where it loses one of the rows its statement found, which are one more than the
page takes, the bookmarks that last are among them; and none of those passes to the reader in between. -/
def KeepsLasting (lasting : Position → Prop) (turn : Turn) : Prop :=
  ((∃ b ∈ foundRows T turn.reads tx turn.request, kept turn.reads tx filter b.id = false) →
    ∀ b ∈ orderedRows T turn.reads.page tx turn.request, lasting (positionOf T sort b) →
      b ∈ foundRows T turn.reads tx turn.request) ∧
  ∀ b ∈ foundRows T turn.reads tx turn.request, lasting (positionOf T sort b) →
    ¬PassesOver tx filter turn.reads b.id

end

variable {κ σ : Type} [LinearOrder κ] [LinearOrder σ] {T : SortTexts κ σ} {r : Reads} {tx : TenantTx}
  {request : BookmarkListRequest} {filter : BookmarkListFilter} {sort : BookmarkSort} {b : Bookmark}
  {page : Listed} {p q : Position}

/-! ## Positions -/

theorem positionRank_positionOf :
    positionRank (sortOrders T sort) (positionOf T sort b) = (sortOrders T sort).rank b := by
  have hcolumn := cast_key (T := T) sort b
  simp only [positionRank, positionOf, hcolumn]
  rfl

/-- The position is after the place that the request starts at. -/
def IsAfter (T : SortTexts κ σ) (request : BookmarkListRequest) (p : Position) : Prop :=
  ∀ q, request.after = some q → positionRank (sortOrders T request.sort) q < positionRank (sortOrders T request.sort) p

theorem beyond_iff (hstart : Starts T request) :
    beyond T request.sort request.after b = true ↔ IsAfter T request (positionOf T request.sort b) := by
  rcases hstart with hnone | ⟨x, hx⟩
  · rw [hnone]
    refine iff_of_true rfl fun q hq => ?_
    rw [hnone] at hq
    cases hq
  · rw [hx, beyond, Option.all_some, afterPosition_iff, ← positionRank_positionOf, ← positionRank_positionOf]
    constructor
    · intro hlt q hq
      obtain rfl := Option.some.inj (hx.symm.trans hq)
      exact hlt
    · exact fun h => h _ hx

theorem ordered_strict (c : Content) :
    (orderedRows T c tx request).Pairwise fun x y =>
      (sortOrders T request.sort).rank x < (sortOrders T request.sort).rank y :=
  ranked_strict separates_selectedRows selectedRows_nodup

theorem mem_orderedRows_of_stands {c : Content} (hstart : Starts T request)
    (h : Stands T tx request.filter request.sort c p) (hafter : IsAfter T request p) :
    ∃ b ∈ orderedRows T c tx request, positionOf T request.sort b = p := by
  obtain ⟨b, hb, rfl, hpred, hmatch⟩ := h
  exact ⟨b, mem_ranked.mpr (mem_selectedRows.mpr ⟨hb, hpred, (beyond_iff hstart).mpr hafter, hmatch⟩), rfl⟩

theorem isAfter_of_mem {c : Content} (hstart : Starts T request) (hb : b ∈ orderedRows T c tx request) :
    IsAfter T request (positionOf T request.sort b) :=
  (beyond_iff hstart).mp (mem_selectedRows.mp (mem_ranked.mp hb)).2.2.1

theorem positionOf_of_stands {c : Content} (h : Stands T tx filter sort c p) (hb : b ∈ c.bookmarks.rows)
    (hid : b.id = p.id) : positionOf T sort b = p := by
  obtain ⟨b', hb', rfl, -, -⟩ := h
  rw [Table.eq_of_key hb hb' hid]

/-! ## The rows that are lost -/

theorem readRow_of_readable (hb : filterPredicate r.rows tx.workspaceId filter b = true) :
    readRow r tx filter [b.id] b = true := by
  obtain ⟨hw, harchive, hread, hown⟩ := filterPredicate_readable hb
  simp only [readRow, Bool.and_eq_true, decide_eq_true_eq]
  refine ⟨⟨⟨hw, ?_⟩, by rw [harchive]; rfl⟩, List.mem_singleton.mpr rfl⟩
  split_ifs with hscope
  · rw [sqlEq_some]
    exact decide_eq_true (hown hscope)
  · exact bookmarkReadableBy_iff.mpr hread

/-- A lasting bookmark of a page is lost only when it passes to the reader. -/
theorem lost_iff_passesOver (hrows : Stands T tx filter sort r.rows p) (hroutes : Stands T tx filter sort r.routes p) :
    kept r tx filter p.id = false ↔ PassesOver tx filter r p.id := by
  obtain ⟨b, hb, hbp, hpred, -⟩ := hrows
  obtain ⟨b', hb', hbp', hpred', -⟩ := hroutes
  have hid : b.id = p.id := congrArg Position.id hbp
  have hid' : b'.id = p.id := congrArg Position.id hbp'
  obtain ⟨hw', -, hread', -⟩ := filterPredicate_readable hpred'
  have hasks : readRow r tx filter [p.id] b = true := hid ▸ readRow_of_readable hpred
  constructor
  · intro hlost
    rw [kept, Bool.or_eq_false_iff] at hlost
    have hnone : ¬(b.ownerId = some filter.ownerId ∨ p.id ∈ sharedBookmarks r.routes filter.ownerId tx.workspaceId) :=
      fun hroute => Bool.eq_false_iff.mp hlost.2 (stillRead_iff.mpr ⟨b, hb, hid, hasks, hroute⟩)
    have hgrant := (not_or.mp hnone).2
    refine ⟨⟨b, hb, hid, (not_or.mp hnone).1⟩, ⟨b', hb', hid', hread'.resolve_right fun hvia => hgrant ?_⟩, hgrant⟩
    rw [mem_sharedBookmarks, ← hw', ← hid']
    exact hvia
  · rintro ⟨⟨x, hx, hxid, hother⟩, -, hgrant⟩
    obtain rfl : x = b := Table.eq_of_key hx hb (hxid.trans hid.symm)
    have hscope : isOwnScope filter = false := by
      refine Bool.eq_false_iff.mpr fun hscope => hother ?_
      exact (filterPredicate_readable hpred).2.2.2 hscope
    rw [kept, hscope, Bool.false_and, Bool.false_or]
    refine Bool.eq_false_iff.mpr fun hread => ?_
    obtain ⟨y, hy, hyid, -, hroute⟩ := stillRead_iff.mp hread
    obtain rfl : y = x := Table.eq_of_key hy hx (hyid.trans hxid.symm)
    exact hroute.elim hother hgrant

/-! ## One page -/

theorem keptRows_sublist : (keptRows T r tx request).Sublist (orderedRows T r.page tx request) :=
  List.filter_sublist.trans (List.take_sublist _ _)

theorem items_inOrder (h : listBookmarksOver T r tx request = .ok page) :
    (page.items.map BookmarkListRow.position).Pairwise fun p q =>
      positionRank (sortOrders T request.sort) p < positionRank (sortOrders T request.sort) q := by
  rw [(listBookmarksOver_ok h).1, List.pairwise_map]
  simp only [positionRank_positionOf]
  exact (ordered_strict r.page).sublist ((List.take_sublist _ _).trans keptRows_sublist)

theorem mem_items (h : listBookmarksOver T r tx request = .ok page) (hp : p ∈ page.items.map BookmarkListRow.position) :
    ∃ b ∈ (keptRows T r tx request).take request.limit, positionOf T request.sort b = p := by
  rw [(listBookmarksOver_ok h).1] at hp
  exact List.mem_map.mp hp

theorem items_isAfter (h : listBookmarksOver T r tx request = .ok page) (hstart : Starts T request)
    (hp : p ∈ page.items.map BookmarkListRow.position) : IsAfter T request p := by
  obtain ⟨b, hb, rfl⟩ := mem_items h hp
  exact isAfter_of_mem hstart (keptRows_sublist.mem (List.mem_of_mem_take hb))

theorem items_identified (h : listBookmarksOver T r tx request = .ok page)
    (hstands : Stands T tx request.filter request.sort r.page p) {row : BookmarkListRow} (hrow : row ∈ page.items)
    (hid : row.bookmark.id = p.id) : row.position = p := by
  obtain ⟨b, hb, hbp⟩ := mem_items h (List.mem_map_of_mem hrow)
  have hselected := mem_selectedRows.mp (mem_ranked.mp (keptRows_sublist.mem (List.mem_of_mem_take hb)))
  rw [← hbp]
  exact positionOf_of_stands hstands hselected.1 ((congrArg Position.id hbp).trans hid)

/-- A page with a next position is full, and ends at that position. -/
theorem page_split (h : listBookmarksOver T r tx request = .ok page) (hlimit : 0 < request.limit)
    (hnext : page.next = some q) :
    ∃ before x rest, orderedRows T r.page tx request = before ++ x :: rest ∧ positionOf T request.sort x = q ∧
      page.items.map BookmarkListRow.position = (before ++ [x]).map (positionOf T request.sort) := by
  obtain ⟨hitems, hcursor⟩ := listBookmarksOver_ok h
  rw [hnext] at hcursor
  split_ifs at hcursor with hmore
  have hall : keptRows T r tx request = foundRows T r tx request := by
    refine List.filter_sublist.eq_of_length_le ?_
    have hfound : (foundRows T r tx request).length ≤ request.limit + 1 := List.length_take_le _ _
    exact hfound.trans hmore
  have htake : (keptRows T r tx request).take request.limit = (orderedRows T r.page tx request).take request.limit := by
    rw [hall, foundRows, List.take_take, min_eq_left (Nat.le_succ _)]
  have hlength : request.limit < (orderedRows T r.page tx request).length := by
    exact hmore.trans_le keptRows_sublist.length_le
  have hne : (orderedRows T r.page tx request).take request.limit ≠ [] := by
    refine List.ne_nil_of_length_pos ?_
    rw [List.length_take]
    omega
  obtain ⟨before, x, hbefore⟩ : ∃ before x, (orderedRows T r.page tx request).take request.limit = before ++ [x] :=
    ⟨_, _, (List.dropLast_append_getLast hne).symm⟩
  rw [htake, hbefore] at hitems hcursor
  refine ⟨before, x, (orderedRows T r.page tx request).drop request.limit, ?_, ?_, hitems⟩
  · have hsplit := List.take_append_drop request.limit (orderedRows T r.page tx request)
    rw [hbefore, List.append_assoc, List.singleton_append] at hsplit
    exact hsplit.symm
  · rw [List.getLast?_concat, Option.map_some] at hcursor
    exact (Option.some.inj hcursor).symm

/-- What a next position says of its page. -/
theorem page_upTo (h : listBookmarksOver T r tx request = .ok page) (hstart : Starts T request)
    (hlimit : 0 < request.limit) (hnext : page.next = some q) :
    Starts T { request with after := some q } ∧ IsAfter T request q ∧
    (∀ p ∈ page.items.map BookmarkListRow.position,
      ¬positionRank (sortOrders T request.sort) q < positionRank (sortOrders T request.sort) p) ∧
    ∀ p, Stands T tx request.filter request.sort r.page p → IsAfter T request p →
      ¬positionRank (sortOrders T request.sort) q < positionRank (sortOrders T request.sort) p →
        p ∈ page.items.map BookmarkListRow.position := by
  obtain ⟨before, x, rest, hsplit, rfl, hitems⟩ := page_split h hlimit hnext
  have hstrict : (orderedRows T r.page tx request).Pairwise fun x y =>
      (sortOrders T request.sort).rank x < (sortOrders T request.sort).rank y := ordered_strict r.page
  rw [hsplit] at hstrict
  obtain ⟨-, htail, hcross⟩ := List.pairwise_append.mp hstrict
  refine ⟨.inr ⟨x, rfl⟩, isAfter_of_mem hstart (hsplit ▸ List.mem_append_right _ List.mem_cons_self), ?_, ?_⟩
  · intro p hp
    rw [hitems] at hp
    obtain ⟨b, hb, rfl⟩ := List.mem_map.mp hp
    rw [positionRank_positionOf, positionRank_positionOf, not_lt]
    rcases List.mem_append.mp hb with hb | hb
    · exact (hcross b hb x List.mem_cons_self).le
    · rw [List.mem_singleton.mp hb]
  · intro p hstands hafter hnot
    obtain ⟨b, hb, rfl⟩ := mem_orderedRows_of_stands hstart hstands hafter
    rw [positionRank_positionOf, positionRank_positionOf] at hnot
    rw [hitems]
    refine List.mem_map_of_mem ?_
    rw [hsplit] at hb
    rcases List.mem_append.mp hb with hb | hb
    · exact List.mem_append_left _ hb
    · rcases List.mem_cons.mp hb with rfl | hb
      · exact List.mem_append_right _ List.mem_cons_self
      · exact absurd (List.rel_of_pairwise_cons htail hb) hnot

/-! ## Requests that are answered -/

theorem answered (h : listBookmarksOver T r tx request = .ok page) :
    requireViewer tx request.filter = .ok () ∧ requireNames request.filter = .ok () := by
  have hmatched (request : BookmarkListRequest) {c : Content} {found : List PageRow × ℕ}
      (h : matchedPageStatement T c tx request = .ok found) :
      requireViewer tx request.filter = .ok () ∧ requireNames request.filter = .ok () := by
    obtain ⟨_, _, h⟩ := of_bind_ok h
    obtain ⟨_, hviewer, h⟩ := of_bind_ok h
    obtain ⟨_, hnames, -⟩ := of_bind_ok h
    exact ⟨hviewer, hnames⟩
  have hlisted (request : BookmarkListRequest) {c : Content} {found : List PageRow}
      (h : listStatement T c tx request = .ok found) :
      requireViewer tx request.filter = .ok () ∧ requireNames request.filter = .ok () := by
    obtain ⟨_, hviewer, h⟩ := of_bind_ok h
    obtain ⟨_, hnames, -⟩ := of_bind_ok h
    exact ⟨hviewer, hnames⟩
  obtain ⟨⟨fetched, counted⟩, hlist, -⟩ := of_bind_ok h
  unfold listWithCountOver at hlist
  split_ifs at hlist with hanswer
  · obtain ⟨_, hpage, -⟩ := of_bind_ok hlist
    exact hmatched { request with limit := request.limit + 1 } hpage
  · obtain ⟨_, hlist, -⟩ := of_bind_ok hlist
    unfold listOfOver at hlist
    split_ifs at hlist with hq hown
    · obtain ⟨_, hpage, -⟩ := of_map_ok hlist
      exact hmatched { request with limit := request.limit + 1 } hpage
    · obtain ⟨_, hpage, -⟩ := of_map_ok hlist
      exact hlisted { request with limit := request.limit + 1 } hpage
    · obtain ⟨_, hpage, -⟩ := of_map_ok hlist
      exact hlisted { request with limit := request.limit + 1 } hpage

section

variable (T) (request) (hviewer : requireViewer tx request.filter = .ok ()) (hnames : requireNames request.filter = .ok ())

include hviewer hnames

theorem matchedPageStatement_answers (c : Content) (hkey : requireKey request = .ok ())
    (hq : request.filter.q.isSome = true) : ∃ found, matchedPageStatement T c tx request = .ok found := by
  have htext : stopIf (request.filter.q = none) (.threw (.error "a page of matches needs a text query")) =
      (.ok () : Reply Unit) := if_neg (Option.isSome_iff_ne_none.mp hq)
  rw [matchedPageStatement, htext, hviewer, hnames, hkey]
  exact ⟨_, rfl⟩

theorem listStatement_answers (c : Content) (hkey : requireKey request = .ok ()) :
    ∃ found, listStatement T c tx request = .ok found := by
  rw [listStatement, hviewer, hnames, hkey]
  by_cases hnone : branchesOf request.filter = []
  · exact ⟨[], if_pos hnone⟩
  · by_cases hown : isOwnScope request.filter = true
    · exact ⟨_, (if_neg hnone).trans (if_pos hown)⟩
    · exact ⟨_, (if_neg hnone).trans (if_neg hown)⟩

theorem countOf_answers (c : Content) (cap : ℕ) : ∃ count, countOf T c tx request.filter cap = .ok count := by
  unfold countOf
  by_cases hq : request.filter.q.isSome = true
  · have htext : stopIf (request.filter.q = none) (.threw (.error "a count of matches needs a text query")) =
        (.ok () : Reply Unit) := if_neg (Option.isSome_iff_ne_none.mp hq)
    rw [if_pos hq, matchedCountStatement, htext, hviewer, hnames]
    by_cases hanswer : matchesAreTheAnswer tx request.filter = true
    · exact ⟨_, if_pos hanswer⟩
    · exact ⟨_, if_neg hanswer⟩
  · rw [if_neg hq, countStatement, hviewer, hnames]
    by_cases hown : isOwnScope request.filter = true
    · exact ⟨_, if_pos hown⟩
    · exact ⟨_, if_neg hown⟩

end

/-- **The request of a next position is answered**, whatever has been committed since. -/
theorem next_answered (h : listBookmarksOver T r tx request = .ok page) (hlimit : 0 < request.limit)
    (hnext : page.next = some q) (r' : Reads) :
    ∃ page', listBookmarksOver T r' tx { request with after := some q } = .ok page' := by
  obtain ⟨hviewer, hnames⟩ := answered h
  obtain ⟨_, x, _, -, rfl, -⟩ := page_split h hlimit hnext
  have hkey : requireKey ⟨request.filter, request.sort, some (positionOf T request.sort x), request.limit + 1⟩ = .ok () :=
    requireKey_position request.filter (request.limit + 1)
  obtain ⟨rows, hrows⟩ : ∃ answer, listWithCountOver T r' tx
      ⟨request.filter, request.sort, some (positionOf T request.sort x), request.limit + 1⟩ (BOOKMARK_LIST_TOTAL_CAP + 1) =
        .ok answer := by
    unfold listWithCountOver
    by_cases hanswer : matchesAreTheAnswer tx request.filter = true
    · have hq : request.filter.q.isSome = true := by
        simp only [matchesAreTheAnswer, Bool.and_eq_true] at hanswer
        exact hanswer.1.1.1.1.1.1.1.1
      obtain ⟨found, hfound⟩ := matchedPageStatement_answers T ⟨request.filter, request.sort,
        some (positionOf T request.sort x), request.limit + 1⟩ hviewer hnames r'.page hkey hq
      rw [if_pos hanswer, hfound]
      exact ⟨_, rfl⟩
    · obtain ⟨count, hcount⟩ := countOf_answers T request hviewer hnames r'.count
        (BOOKMARK_LIST_TOTAL_CAP + 1)
      have hlist : ∃ rows, listOfOver T r' tx
          ⟨request.filter, request.sort, some (positionOf T request.sort x), request.limit + 1⟩ = .ok rows := by
        unfold listOfOver
        by_cases hq : request.filter.q.isSome = true
        · obtain ⟨found, hfound⟩ := matchedPageStatement_answers T ⟨request.filter, request.sort,
            some (positionOf T request.sort x), request.limit + 1⟩ hviewer hnames r'.page hkey hq
          rw [if_pos hq, hfound]
          exact ⟨_, rfl⟩
        · obtain ⟨found, hfound⟩ := listStatement_answers T ⟨request.filter, request.sort,
            some (positionOf T request.sort x), request.limit + 1⟩ hviewer hnames r'.page hkey
          rw [if_neg hq, hfound]
          by_cases hown : isOwnScope request.filter = true
          · exact ⟨_, if_pos hown⟩
          · exact ⟨_, if_neg hown⟩
      obtain ⟨rows, hrows⟩ := hlist
      rw [if_neg hanswer, hrows]
      exact ⟨(rows, count), congrArg (fun reply : Reply ℕ => reply >>= fun count => .ok (rows, count)) hcount⟩
  rw [listBookmarksOver, hrows]
  exact ⟨_, rfl⟩

section

variable {lasting : Position → Prop}
  (hlasting : ∀ p, lasting p → Stands T tx request.filter request.sort r.page p ∧
    Stands T tx request.filter request.sort r.rows p ∧ Stands T tx request.filter request.sort r.routes p)

include hlasting

theorem kept_of_not_passesOver (hp : lasting (positionOf T request.sort b))
    (hnot : ¬PassesOver tx request.filter r b.id) : kept r tx request.filter b.id = true := by
  obtain ⟨-, hrows, hroutes⟩ := hlasting _ hp
  by_contra hlost
  exact hnot ((lost_iff_passesOver hrows hroutes).mp (Bool.eq_false_iff.mpr hlost))

/-- **The last page has the rest of what lasts**, where it keeps what lasts. -/
theorem last_page (h : listBookmarksOver T r tx request = .ok page) (hstart : Starts T request)
    (hlimit : 0 < request.limit) (hnext : page.next = none) (hkeeps : KeepsLasting T tx request.filter request.sort lasting ⟨request, r, page⟩)
    (hp : lasting p) (hafter : IsAfter T request p) : p ∈ page.items.map BookmarkListRow.position := by
  obtain ⟨hitems, hcursor⟩ := listBookmarksOver_ok h
  obtain ⟨b, hb, rfl⟩ := mem_orderedRows_of_stands hstart (hlasting p hp).1 hafter
  have hshort : (keptRows T r tx request).length ≤ request.limit := by
    by_contra hlong
    rw [hnext, if_pos (Nat.lt_of_not_le hlong), eq_comm, Option.map_eq_none_iff, List.getLast?_eq_none_iff,
      List.take_eq_nil_iff] at hcursor
    rcases hcursor with hzero | hnil
    · omega
    · rw [hnil] at hlong
      exact hlong (Nat.zero_le _)
  rw [hitems, List.take_of_length_le hshort]
  refine List.mem_map_of_mem (List.mem_filter.mpr ?_)
  have hfound : b ∈ foundRows T r tx request := by
    by_cases hlost : ∃ b ∈ foundRows T r tx request, kept r tx request.filter b.id = false
    · exact hkeeps.1 hlost b hb hp
    · have hall : keptRows T r tx request = foundRows T r tx request :=
        List.filter_eq_self.mpr fun x hx => by
          by_contra hnot
          exact hlost ⟨x, hx, Bool.eq_false_iff.mpr hnot⟩
      have hlength : (foundRows T r tx request).length ≤ request.limit := hall ▸ hshort
      rw [foundRows, List.length_take] at hlength
      rw [foundRows, List.take_of_length_le (by omega)]
      exact hb
  exact ⟨hfound, kept_of_not_passesOver hlasting hp (hkeeps.2 b hfound hp)⟩

/-- **A page that does not keep what lasts is the last one**, and leaves a lasting bookmark behind. -/
theorem left_behind (h : listBookmarksOver T r tx request = .ok page) (hstart : Starts T request)
    (hnot : ¬KeepsLasting T tx request.filter request.sort lasting ⟨request, r, page⟩) :
    page.next = none ∧ ∃ p, lasting p ∧ IsAfter T request p ∧ p ∉ page.items.map BookmarkListRow.position := by
  obtain ⟨hitems, hcursor⟩ := listBookmarksOver_ok h
  -- a row is lost, and a lasting bookmark is not in the page
  obtain ⟨⟨x, hx, hlost⟩, b, hb, hp, hout⟩ : (∃ b ∈ foundRows T r tx request, kept r tx request.filter b.id = false) ∧
      ∃ b ∈ orderedRows T r.page tx request, lasting (positionOf T request.sort b) ∧ b ∉ keptRows T r tx request := by
    rcases not_and_or.mp hnot with hnot | hnot
    · obtain ⟨hlost, hnot⟩ := Classical.not_imp.mp hnot
      push Not at hnot
      obtain ⟨b, hb, hp, hout⟩ := hnot
      exact ⟨hlost, b, hb, hp, fun hkept => hout (List.mem_of_mem_filter hkept)⟩
    · push Not at hnot
      obtain ⟨b, hb, hp, hpasses⟩ := hnot
      obtain ⟨-, hrows, hroutes⟩ := hlasting _ hp
      have hlost : kept r tx request.filter b.id = false := (lost_iff_passesOver hrows hroutes).mpr hpasses
      refine ⟨⟨b, hb, hlost⟩, b, List.mem_of_mem_take hb, hp, fun hkept => ?_⟩
      exact Bool.false_ne_true (hlost.symm.trans (List.mem_filter.mp hkept).2)
  have hshort : (keptRows T r tx request).length ≤ request.limit := by
    have hlt : (keptRows T r tx request).length < (foundRows T r tx request).length := by
      refine List.length_filter_lt_length_iff_exists.mpr ⟨x, hx, ?_⟩
      rw [hlost]
      exact Bool.false_ne_true
    have hfound : (foundRows T r tx request).length ≤ request.limit + 1 := List.length_take_le _ _
    omega
  refine ⟨hcursor.trans (if_neg (Nat.not_lt.mpr hshort)), _, hp, isAfter_of_mem hstart hb, fun hmem => ?_⟩
  obtain ⟨y, hy, hyp⟩ := mem_items h hmem
  have hkept := List.mem_of_mem_take hy
  have hyrow := mem_selectedRows.mp (mem_ranked.mp (keptRows_sublist.mem hkept))
  have hbrow := mem_selectedRows.mp (mem_ranked.mp hb)
  rw [Table.eq_of_key hyrow.1 hbrow.1 (congrArg Position.id hyp)] at hkept
  exact hout hkept

end

end SlugBase.Listing
