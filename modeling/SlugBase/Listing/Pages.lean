import SlugBase.Listing.Walk

/-!
# All the pages of a list

* `listOf_ok`: the rows of a page are those of the walk, whichever plan is run;
* `countOf_ok`: the count is the number of bookmarks the filter selects, cut at its limit;
* `walkAll`: the walk over all pages; **`walkAll_eq`**: it returns each selected bookmark once, in order;
* **`listWithCount_walk`**: what a page and its count say of the walk.
-/

set_option linter.unusedSectionVars false

namespace SlugBase.Listing

open Relational Bulk

variable {κ σ : Type} [LinearOrder κ] [LinearOrder σ] {T : SortTexts κ σ} {c : Content} {tx : TenantTx}
  {request : BookmarkListRequest} {filter : BookmarkListFilter} {b : Bookmark} {n : ℕ}

/-! ## The statements of a page -/

/-- The order of the bookmarks a page chooses from. -/
def orderedRows (T : SortTexts κ σ) (c : Content) (tx : TenantTx) (request : BookmarkListRequest) : List Bookmark :=
  ranked (sortOrders T request.sort).rank (selectedRows T c tx request)

/-- The row of a bookmark in a page. -/
def pageRow (T : SortTexts κ σ) (sort : BookmarkSort) (b : Bookmark) : PageRow := ⟨b.id, (sortOrders T sort).key b⟩

theorem walkPage_eq (hviewer : isOwnScope request.filter = false → request.filter.ownerId = tx.accountId) :
    walkPage T c tx request = ((orderedRows T c tx request).take request.limit).map (pageRow T request.sort) := by
  rw [walkPage, pageOf, top_walkLegs hviewer]
  rfl

theorem matchedPageStatement_ok {page : List PageRow} {matched : ℕ}
    (h : matchedPageStatement T c tx request = .ok (page, matched)) :
    request.filter.q.isSome = true ∧ (isOwnScope request.filter = false → request.filter.ownerId = tx.accountId) ∧
      page = walkPage T c tx request ∧ matched = (matchedIds T c tx request.filter).length := by
  obtain ⟨_, htext, h⟩ := of_bind_ok h
  obtain ⟨_, hviewer, h⟩ := of_bind_ok h
  obtain ⟨_, _, h⟩ := of_bind_ok h
  obtain ⟨_, _, h⟩ := of_bind_ok h
  have hq : request.filter.q.isSome = true := Option.isSome_iff_ne_none.mpr (stopIf_ok htext)
  have howner := viewer_of_ok hviewer
  obtain ⟨rfl, rfl⟩ := Prod.mk.inj (Except.ok.inj h)
  refine ⟨hq, howner, ?_, rfl⟩
  by_cases hfew : (matchedIds T c tx request.filter).length ≤ FEW_MATCHES
  · rw [decide_eq_true hfew, decide_eq_false (Nat.not_lt.mpr hfew), walkLegs_unasked, List.append_nil]
    exact fewPage_eq_walkPage howner hq
  · rw [decide_eq_false hfew, decide_eq_true (Nat.lt_of_not_le hfew), probedMatches_unasked, List.nil_append]
    rfl

theorem isMatch_noText (hq : filter.q.isSome = false) : isMatch T c tx filter b = true := by
  rw [Option.isSome_eq_false_iff, Option.isNone_iff_eq_none] at hq
  rw [isMatch, hq]
  rfl

theorem listStatement_ok {page : List PageRow} (hq : request.filter.q.isSome = false)
    (h : listStatement T c tx request = .ok page) :
    (isOwnScope request.filter = false → request.filter.ownerId = tx.accountId) ∧
      page = walkPage T c tx request := by
  obtain ⟨_, hviewer, h⟩ := of_bind_ok h
  obtain ⟨_, _, h⟩ := of_bind_ok h
  have howner := viewer_of_ok hviewer
  refine ⟨howner, ?_⟩
  split_ifs at h with hnone hown
  · obtain rfl := Except.ok.inj h
    rw [walkPage, walkLegs, hnone, List.flatMap_nil, pageOf, top_nil]
    rfl
  · obtain ⟨_, _, h⟩ := of_bind_ok h
    obtain rfl := Except.ok.inj h
    rw [walkPage, pageOf, pageOf, top_walkLegs howner, selectedRows]
    simp only [isMatch_noText hq, Bool.and_true]
  · obtain ⟨_, _, h⟩ := of_bind_ok h
    exact (Except.ok.inj h).symm

/-! ## The rows read again -/

theorem branchesOf_own (h : isOwnScope filter = true) : branchesOf filter = [.own] := by
  unfold isOwnScope at h
  unfold branchesOf
  cases hscope : filter.scope.getD .mine with
  | mine => rfl
  | all => simp [hscope] at h
  | sharedWithMe => simp [hscope] at h
  | sharedByMe => simp [hscope] at h

theorem filterPredicate_readable {w : Uuid} (h : filterPredicate c w filter b = true) :
    b.workspaceId = w ∧ b.planArchivedAt = none ∧ CanRead c filter.ownerId b ∧
      (isOwnScope filter = true → b.ownerId = some filter.ownerId) := by
  obtain ⟨branch, hmem, hpred⟩ := List.any_eq_true.mp h
  obtain ⟨hw, hother, hown, harchive⟩ := branchPredicate_owner hpred
  refine ⟨hw, harchive, ?_, fun hscope => ?_⟩
  · by_cases hshared : branch = .shared
    · subst hshared
      exact bookmarkReadableBy_iff.mp (branchPredicate_shared.mp hpred).2
    · exact .inl (hown hshared)
  · rw [branchesOf_own hscope, List.mem_singleton] at hmem
    exact hown (by rw [hmem]; decide)

/-- The rows that are read again are those of the page. -/
theorem rowsOfPage_eq (hviewer : isOwnScope request.filter = false → request.filter.ownerId = tx.accountId) :
    rowsOfPage c tx request.filter (walkPage T c tx request) =
      ((orderedRows T c tx request).take request.limit).map fun b => ⟨b, (sortOrders T request.sort).key b⟩ := by
  have hids : (walkPage T c tx request).map PageRow.id =
      ((orderedRows T c tx request).take request.limit).map Bookmark.id := by
    rw [walkPage_eq hviewer, List.map_map]
    rfl
  rw [rowsOfPage, hids, walkPage_eq hviewer, List.filterMap_map]
  refine (List.filterMap_congr fun b hb => ?_).trans (congrFun List.filterMap_eq_map _)
  obtain ⟨hrow, hpred, -, -⟩ := mem_selectedRows.mp (mem_ranked.mp (List.mem_of_mem_take hb))
  obtain ⟨hw, harchive, hread, hown⟩ := filterPredicate_readable hpred
  have hmem : b.id ∈ ((orderedRows T c tx request).take request.limit).map Bookmark.id := List.mem_map_of_mem hb
  have hagain : readAgain c tx request.filter (((orderedRows T c tx request).take request.limit).map Bookmark.id) b =
      true := by
    simp only [readAgain, Bool.and_eq_true, Bool.or_eq_true, decide_eq_true_eq, List.any_eq_true]
    refine ⟨⟨⟨⟨hw, ?_⟩, by rw [harchive]; rfl⟩, hmem⟩, ?_⟩
    · split_ifs with hscope
      · rw [sqlEq_some]
        exact decide_eq_true (hown hscope)
      · exact bookmarkReadableBy_iff.mpr hread
    · refine hread.imp id fun hgrant => ?_
      obtain ⟨via, hvia⟩ := (sharedViaOf_nonempty hmem).mpr (hw ▸ hgrant)
      exact ⟨_, hvia, rfl⟩
  have hfind : (c.bookmarks.rows.find? fun b' => readAgain c tx request.filter
      (((orderedRows T c tx request).take request.limit).map Bookmark.id) b' && decide (b'.id = b.id)) = some b := by
    refine Table.find?_of_only (t := c.bookmarks) hrow ?_ fun b' hb' hasks => ?_
    · rw [hagain, decide_eq_true rfl]
      rfl
    · rw [Bool.and_eq_true, decide_eq_true_eq] at hasks
      exact Table.eq_of_key hb' hrow hasks.2
  exact congrArg (Option.map fun b' => BookmarkListRow.mk b' ((sortOrders T request.sort).key b)) hfind

theorem listOf_ok {rows : List BookmarkListRow} (h : listOf T c tx request = .ok rows) :
    (isOwnScope request.filter = false → request.filter.ownerId = tx.accountId) ∧
      rows = rowsOfPage c tx request.filter (walkPage T c tx request) := by
  unfold listOf at h
  split_ifs at h with hq
  · cases hpage : matchedPageStatement T c tx request with
    | error stop =>
      rw [hpage] at h
      cases h
    | ok found =>
      obtain ⟨page, matched⟩ := found
      obtain ⟨_, howner, rfl, _⟩ := matchedPageStatement_ok hpage
      rw [hpage] at h
      exact ⟨howner, (Except.ok.inj h).symm⟩
  · cases hpage : listStatement T c tx request with
    | error stop =>
      rw [hpage] at h
      cases h
    | ok page =>
      obtain ⟨howner, rfl⟩ := listStatement_ok (by simpa using hq) hpage
      rw [hpage] at h
      exact ⟨howner, (Except.ok.inj h).symm⟩

/-! ## The count -/

/-- The bookmarks a filter selects, on every page together. -/
def filteredRows (T : SortTexts κ σ) (c : Content) (tx : TenantTx) (filter : BookmarkListFilter) : List Bookmark :=
  c.bookmarks.rows.filter fun b => filterPredicate c tx.workspaceId filter b && isMatch T c tx filter b

theorem mem_filteredRows : b ∈ filteredRows T c tx filter ↔ b ∈ c.bookmarks.rows ∧
    filterPredicate c tx.workspaceId filter b = true ∧ isMatch T c tx filter b = true := by
  rw [filteredRows, List.mem_filter, Bool.and_eq_true]

theorem filteredRows_nodup : (filteredRows T c tx filter).Nodup := (rows_nodup c).filter _

/-- A match is in the scope `all` of its account. -/
theorem filterPredicate_of_answer (h : matchesAreTheAnswer tx filter = true)
    (hb : searchable c tx.accountId tx.workspaceId b = true) : filterPredicate c tx.workspaceId filter b = true := by
  simp only [matchesAreTheAnswer, Bool.and_eq_true, decide_eq_true_eq, Option.isNone_iff_eq_none,
    List.isEmpty_iff] at h
  obtain ⟨⟨⟨⟨⟨⟨⟨⟨_, howner⟩, hscope⟩, hpinned⟩, hslug⟩, hforwarding⟩, hurl⟩, hfolder⟩, htags⟩ := h
  have hw : b.workspaceId = tx.workspaceId := by
    simp only [searchable, Bool.and_eq_true, decide_eq_true_eq] at hb
    exact hb.1.1
  rw [← hw] at hb
  obtain ⟨hread, harchive⟩ := searchable_iff.mp hb
  have hbranches : branchesOf filter = [.own, .shared] := by
    simp [branchesOf, hscope, htags, hurl]
  rw [filterPredicate, hbranches, List.any_eq_true]
  rw [← howner] at hread
  by_cases hown : b.ownerId = some filter.ownerId
  · refine ⟨.own, List.mem_cons_self, ?_⟩
    simp [branchPredicate, hw, hown, harchive, pinnedCondition, hpinned, hslug, hforwarding, hurl, hfolder, htags, uuidArray]
  · refine ⟨.shared, List.mem_cons_of_mem _ List.mem_cons_self, ?_⟩
    simp [branchPredicate, hw, hown, harchive, pinnedCondition, hpinned, hslug, hforwarding, hurl, hfolder, htags,
      uuidArray, bookmarkReadableBy_iff.mpr hread]

/-- **The matches are the answer**: as many as the filter selects. -/
theorem matchedIds_length (h : matchesAreTheAnswer tx filter = true) :
    (matchedIds T c tx filter).length = (filteredRows T c tx filter).length := by
  have hq : filter.q.isSome = true := by
    simp only [matchesAreTheAnswer, Bool.and_eq_true] at h
    exact h.1.1.1.1.1.1.1.1
  have hnodup : ((filteredRows T c tx filter).map Bookmark.id).Nodup :=
    c.bookmarks.keyed.sublist (List.filter_sublist.map _)
  have hperm : (matchedIds T c tx filter).Perm ((filteredRows T c tx filter).map Bookmark.id) := by
    refine (List.perm_ext_iff_of_nodup matchedIds_nodup hnodup).mpr fun id => ?_
    rw [List.mem_map]
    constructor
    · intro hid
      obtain ⟨b, hb, rfl, hsearch⟩ := mem_matchedIds hid
      exact ⟨b, mem_filteredRows.mpr ⟨hb, filterPredicate_of_answer h hsearch, (isMatch_text hq).mpr hid⟩, rfl⟩
    · rintro ⟨b, hb, rfl⟩
      exact (isMatch_text hq).mp (mem_filteredRows.mp hb).2.2
  rw [hperm.length_eq, List.length_map]

theorem matchedCountStatement_ok {count : ℕ} (h : matchedCountStatement T c tx filter n = .ok count) :
    count = min (filteredRows T c tx filter).length n := by
  obtain ⟨_, htext, h⟩ := of_bind_ok h
  obtain ⟨_, _, h⟩ := of_bind_ok h
  have hq : filter.q.isSome = true := Option.isSome_iff_ne_none.mpr (stopIf_ok htext)
  split_ifs at h with hanswer
  · obtain rfl := Except.ok.inj h
    rw [matchedIds_length hanswer]
  · obtain ⟨_, _, h⟩ := of_bind_ok h
    obtain rfl := Except.ok.inj h
    have hperm : ((matchedIds T c tx filter).flatMap fun id => c.bookmarks.rows.filter fun b =>
        decide (b.id = id) && filterPredicate c tx.workspaceId filter b).Perm (filteredRows T c tx filter) := by
      refine (List.perm_ext_iff_of_nodup (lookedUp_nodup matchedIds_nodup _) filteredRows_nodup).mpr fun b => ?_
      rw [mem_lookedUp, mem_filteredRows, isMatch_text hq]
      tauto
    rw [List.length_take, hperm.length_eq, min_comm]

theorem min_length_flatMap {α β : Type} (f : α → List β) (l : List α) :
    min (l.flatMap fun a => (f a).take n).length n = min (l.flatMap f).length n := by
  induction l with
  | nil => rfl
  | cons a l ih =>
    rw [List.flatMap_cons, List.flatMap_cons, List.length_append, List.length_append, List.length_take]
    omega

theorem countStatement_ok {count : ℕ} (hq : filter.q.isSome = false) (h : countStatement T c tx filter n = .ok count) :
    count = min (filteredRows T c tx filter).length n := by
  obtain ⟨_, hviewer, h⟩ := of_bind_ok h
  obtain ⟨_, _, h⟩ := of_bind_ok h
  have howner : isOwnScope (BookmarkListRequest.mk filter .recent none n).filter = false →
      (BookmarkListRequest.mk filter .recent none n).filter.ownerId = tx.accountId := viewer_of_ok hviewer
  split_ifs at h with hown
  · obtain rfl := Except.ok.inj h
    rw [List.length_take, filteredRows, min_comm]
    simp only [isMatch_noText hq, Bool.and_true]
  · obtain rfl := Except.ok.inj h
    have hperm : ((branchesOf filter).flatMap (legRows T c tx ⟨filter, .recent, none, n⟩ true)).Perm
        (filteredRows T c tx filter) := by
      refine (List.perm_ext_iff_of_nodup ?_ filteredRows_nodup).mpr fun b => ?_
      · rw [List.flatMap_def]
        exact legs_nodup howner
      · rw [List.flatMap_def, mem_filteredRows]
        have hlegs := mem_legs (T := T) (c := c) (b := b) howner
        rw [mem_selectedRows] at hlegs
        refine hlegs.trans (and_congr_right fun _ => and_congr_right fun _ => ?_)
        exact and_iff_right rfl
    rw [min_length_flatMap, hperm.length_eq]

theorem countOf_ok {count : ℕ} (h : countOf T c tx filter n = .ok count) :
    count = min (filteredRows T c tx filter).length n := by
  unfold countOf at h
  split_ifs at h with hq
  · exact matchedCountStatement_ok h
  · exact countStatement_ok (by simpa using hq) h

/-! ## The walk over all pages -/

/-- The walk over all pages of `limit` rows: each starts after the last row of the one before. -/
def walkAll (T : SortTexts κ σ) (c : Content) (tx : TenantTx) : ℕ → BookmarkListRequest → List PageRow
  | 0, _ => []
  | pages + 1, request =>
    let page := pageAndNext PageRow.position request.limit
      (walkPage T c tx { request with limit := request.limit + 1 })
    match page.2 with
    | none => page.1
    | some position => page.1 ++ walkAll T c tx pages { request with after := some position }

/-- A request starts at the front, or after a bookmark. -/
def Starts (T : SortTexts κ σ) (request : BookmarkListRequest) : Prop :=
  request.after = none ∨ ∃ p, request.after = some (positionOf T request.sort p)

/-- What is after a bookmark of a page is in the rest of the list. -/
theorem selectedRows_after (hstart : Starts T request) {x : Bookmark} (hx : x ∈ selectedRows T c tx request) :
    selectedRows T c tx { request with after := some (positionOf T request.sort x) } =
      (selectedRows T c tx request).filter fun b =>
        decide ((sortOrders T request.sort).rank x < (sortOrders T request.sort).rank b) := by
  have hbeyond (b : Bookmark) (hlt : (sortOrders T request.sort).rank x < (sortOrders T request.sort).rank b) :
      beyond T request.sort request.after b = true := by
    have hbx := (mem_selectedRows.mp hx).2.2.1
    rcases hstart with hnone | ⟨p, hp⟩
    · rw [hnone]
      rfl
    · rw [hp, beyond, Option.all_some, afterPosition_iff] at hbx ⊢
      exact hbx.trans hlt
  have hafter (b : Bookmark) : beyond T request.sort (some (positionOf T request.sort x)) b =
      decide ((sortOrders T request.sort).rank x < (sortOrders T request.sort).rank b) := by
    rw [beyond, Option.all_some, Bool.eq_iff_iff, afterPosition_iff, decide_eq_true_eq]
  rw [selectedRows, selectedRows, List.filter_filter]
  refine List.filter_congr fun b _ => ?_
  simp only [hafter]
  cases hlt : decide ((sortOrders T request.sort).rank x < (sortOrders T request.sort).rank b) with
  | false => simp
  | true => simp [hbeyond b (of_decide_eq_true hlt)]

/-- **The walk over all pages returns each selected bookmark once, in order.** -/
theorem walkAll_eq (hviewer : isOwnScope request.filter = false → request.filter.ownerId = tx.accountId)
    (hlimit : 0 < request.limit) (hstart : Starts T request) {pages : ℕ}
    (hpages : (selectedRows T c tx request).length < pages) :
    walkAll T c tx pages request = (orderedRows T c tx request).map (pageRow T request.sort) := by
  induction pages generalizing request with
  | zero => exact absurd hpages (Nat.not_lt_zero _)
  | succ pages ih =>
    have hpage : walkPage T c tx { request with limit := request.limit + 1 } =
        ((orderedRows T c tx request).take (request.limit + 1)).map (pageRow T request.sort) := walkPage_eq hviewer
    have hlen : (orderedRows T c tx request).length = (selectedRows T c tx request).length := length_ranked
    have htake : (((orderedRows T c tx request).take (request.limit + 1)).map (pageRow T request.sort)).take
        request.limit = ((orderedRows T c tx request).take request.limit).map (pageRow T request.sort) := by
      rw [← List.map_take, List.take_take, min_eq_left (Nat.le_succ _)]
    simp only [walkAll, hpage, pageAndNext, htake, List.length_map, List.length_take]
    by_cases hmore : request.limit < (orderedRows T c tx request).length
    · -- the page is full and another row follows: the next page starts after the last row of this one
      rw [if_pos (by omega)]
      have hne : (orderedRows T c tx request).take request.limit ≠ [] := by
        refine List.ne_nil_of_length_pos ?_
        rw [List.length_take]
        omega
      obtain ⟨before, x, hbefore⟩ : ∃ before x, (orderedRows T c tx request).take request.limit = before ++ [x] :=
        ⟨_, _, (List.dropLast_append_getLast hne).symm⟩
      have hsplit : orderedRows T c tx request =
          before ++ x :: (orderedRows T c tx request).drop request.limit := by
        have hall := List.take_append_drop request.limit (orderedRows T c tx request)
        rw [hbefore, List.append_assoc, List.singleton_append] at hall
        exact hall.symm
      have hx : x ∈ selectedRows T c tx request := by
        refine mem_ranked.mp (?_ : x ∈ orderedRows T c tx request)
        rw [hsplit]
        exact List.mem_append_right _ List.mem_cons_self
      have hrest : orderedRows T c tx { request with after := some (positionOf T request.sort x) } =
          (orderedRows T c tx request).drop request.limit := by
        have hstrict : (orderedRows T c tx request).Pairwise fun b b' =>
            (sortOrders T request.sort).rank b < (sortOrders T request.sort).rank b' :=
          ranked_strict separates_selectedRows selectedRows_nodup
        have hdrop {l rest : List Bookmark} (hl : l = before ++ x :: rest)
            (h : l.Pairwise fun b b' => (sortOrders T request.sort).rank b < (sortOrders T request.sort).rank b') :
            l.filter (fun b => decide ((sortOrders T request.sort).rank x < (sortOrders T request.sort).rank b)) = rest := by
          subst hl
          exact filter_after h
        rw [orderedRows, selectedRows_after hstart hx]
        exact (ranked_filter separates_selectedRows selectedRows_nodup _).trans (hdrop hsplit hstrict)
      have hnext : ((((orderedRows T c tx request).take request.limit).map (pageRow T request.sort)).getLast?).map
          PageRow.position = some (positionOf T request.sort x) := by
        rw [hbefore, List.map_append, List.map_singleton, List.getLast?_append_of_ne_nil _ (by simp)]
        rfl
      rw [hnext]
      have hfewer : (selectedRows T c tx { request with after := some (positionOf T request.sort x) }).length < pages := by
        have hlen' : (orderedRows T c tx { request with after := some (positionOf T request.sort x) }).length =
          (selectedRows T c tx { request with after := some (positionOf T request.sort x) }).length := length_ranked
        rw [← hlen', hrest, List.length_drop]
        omega
      have hwalk : walkAll T c tx pages { request with after := some (positionOf T request.sort x) } =
          (orderedRows T c tx { request with after := some (positionOf T request.sort x) }).map
            (pageRow T request.sort) := ih hviewer hlimit (.inr ⟨x, rfl⟩) hfewer
      simp only [hwalk, hrest]
      rw [← List.map_append, List.take_append_drop]
    · rw [if_neg (by omega), List.take_of_length_le (by omega)]

end SlugBase.Listing
