import SlugBase.Listing.Orders

/-!
# The two plans of a page

* `selectedRows`: the bookmarks a page chooses from; `top_probedMatches`, `top_walkLegs`: both plans cut
  the same bookmarks in the same order;
* **`fewPage_eq_walkPage`**: the two plans answer one page; `matchedPageStatement_ok`, `listOf_ok`;
* `rowsOfPage_eq`: the rows that are read again are those of the page.
-/

set_option linter.unusedSectionVars false

namespace SlugBase.Listing

open Relational Bulk

variable {κ σ : Type} [LinearOrder κ] [LinearOrder σ] {T : SortTexts κ σ} {c : Content} {tx : TenantTx}
  {request : BookmarkListRequest} {filter : BookmarkListFilter} {b : Bookmark} {n : ℕ}

/-! ## Replies that are given -/

theorem stopIf_ok {p : Prop} [Decidable p] {stop : Stop} {u : Unit} (h : stopIf p stop = .ok u) : ¬p := by
  intro hp
  rw [stopIf, if_pos hp] at h
  cases h

theorem of_bind_ok {α β : Type} {x : Reply α} {f : α → Reply β} {y : β} (h : x >>= f = .ok y) :
    ∃ a, x = .ok a ∧ f a = .ok y := by
  cases x with
  | error stop => cases h
  | ok a => exact ⟨a, rfl, h⟩

theorem viewer_of_ok {u : Unit} (h : requireViewer tx filter = .ok u) (hscope : isOwnScope filter = false) :
    filter.ownerId = tx.accountId := by
  by_contra hne
  exact stopIf_ok h ⟨hscope, hne⟩

/-! ## The matches of a text -/

theorem mem_matchedIds {id : Uuid} (h : id ∈ matchedIds T c tx filter) :
    ∃ b ∈ c.bookmarks, b.id = id ∧ searchable c tx.accountId tx.workspaceId b = true := by
  have hselected {asks : Bookmark → Bool}
      (h : id ∈ (Search.selected c tx.accountId tx.workspaceId asks).map Bookmark.id) :
      ∃ b ∈ c.bookmarks, b.id = id ∧ searchable c tx.accountId tx.workspaceId b = true := by
    obtain ⟨b, hb, rfl⟩ := List.mem_map.mp h
    obtain ⟨hmem, hasks⟩ := List.mem_filter.mp hb
    rw [Bool.and_eq_true] at hasks
    exact ⟨b, hmem, rfl, hasks.1⟩
  simp only [matchedIds, Search.sysBookmarkMatch, session] at h
  split_ifs at h
  · cases h
  · exact hselected h
  · exact (List.mem_append.mp h).elim hselected hselected

theorem matchedIds_nodup : (matchedIds T c tx filter).Nodup := by
  have hselected (asks : Bookmark → Bool) :
      ((Search.selected c tx.accountId tx.workspaceId asks).map Bookmark.id).Nodup :=
    c.bookmarks.keyed.sublist (List.filter_sublist.map _)
  simp only [matchedIds, Search.sysBookmarkMatch, session]
  split_ifs
  · exact List.nodup_nil
  · exact hselected _
  · refine List.nodup_append.mpr ⟨hselected _, hselected _, fun id hid id' hid' heq => ?_⟩
    -- a match of a typo is asked for only where nothing else matches
    obtain ⟨b, hb, -⟩ := List.mem_map.mp hid'
    have hasks := (List.mem_filter.mp hb).2
    simp only [Bool.and_eq_true, List.isEmpty_iff] at hasks
    rw [hasks.2.2] at hid
    cases hid

/-! ## What a page chooses from -/

section

variable (T c tx request)

/-- The bookmarks a page chooses from. -/
def selectedRows : List Bookmark :=
  c.bookmarks.rows.filter fun b => filterPredicate c tx.workspaceId request.filter b &&
    beyond T request.sort request.after b && isMatch T c tx request.filter b

end

theorem mem_selectedRows :
    b ∈ selectedRows T c tx request ↔ b ∈ c.bookmarks.rows ∧
      filterPredicate c tx.workspaceId request.filter b = true ∧
      beyond T request.sort request.after b = true ∧ isMatch T c tx request.filter b = true := by
  rw [selectedRows, List.mem_filter, Bool.and_eq_true, Bool.and_eq_true, and_assoc]

theorem selectedRows_nodup : (selectedRows T c tx request).Nodup := (rows_nodup c).filter _

theorem separates_selectedRows : Separates (sortOrders T request.sort).rank (selectedRows T c tx request) :=
  separates_order fun _ hb => (mem_selectedRows.mp hb).1

theorem lookedUp_nodup {ids : List Uuid} (h : ids.Nodup) (asks : Bookmark → Bool) :
    (ids.flatMap fun id => c.bookmarks.rows.filter fun b => decide (b.id = id) && asks b).Nodup := by
  refine List.nodup_flatMap.mpr ⟨fun _ _ => (rows_nodup c).filter _, h.imp fun {id id'} hne => ?_⟩
  refine List.disjoint_left.mpr fun b hb hb' => hne ?_
  have hid := (List.mem_filter.mp hb).2
  have hid' := (List.mem_filter.mp hb').2
  rw [Bool.and_eq_true, decide_eq_true_eq] at hid hid'
  exact hid.1.symm.trans hid'.1

theorem mem_lookedUp {ids : List Uuid} {asks : Bookmark → Bool} :
    b ∈ (ids.flatMap fun id => c.bookmarks.rows.filter fun b => decide (b.id = id) && asks b) ↔
      b ∈ c.bookmarks.rows ∧ b.id ∈ ids ∧ asks b = true := by
  simp only [List.mem_flatMap, List.mem_filter, Bool.and_eq_true, decide_eq_true_eq]
  constructor
  · rintro ⟨id, hid, hb, rfl, hasks⟩
    exact ⟨hb, hid, hasks⟩
  · rintro ⟨hb, hid, hasks⟩
    exact ⟨b.id, hid, hb, rfl, hasks⟩

/-! ## Few matches -/

theorem isMatch_text (hq : filter.q.isSome = true) :
    isMatch T c tx filter b = true ↔ b.id ∈ matchedIds T c tx filter := by
  obtain ⟨q, hq⟩ := Option.isSome_iff_exists.mp hq
  rw [isMatch, hq, Option.all_some, decide_eq_true_eq]

theorem top_probedMatches (hq : request.filter.q.isSome = true) :
    top (sortOrders T request.sort).rank request.limit (probedMatches T c tx request true) =
      top (sortOrders T request.sort).rank request.limit (selectedRows T c tx request) := by
  rw [probedMatches, top_top]
  refine (top_eq_of_mem separates_selectedRows selectedRows_nodup ?_ fun b => ?_).symm
  · simp only [Bool.and_assoc]
    exact lookedUp_nodup matchedIds_nodup _
  · simp only [Bool.and_assoc]
    rw [mem_lookedUp, mem_selectedRows, isMatch_text hq]
    simp only [Bool.and_eq_true, and_true]
    tauto

theorem probedMatches_unasked : probedMatches T c tx request false = [] := by
  have hnone : ((matchedIds T c tx request.filter).flatMap fun id => c.bookmarks.rows.filter fun b =>
      decide (b.id = id) && filterPredicate c tx.workspaceId request.filter b &&
        beyond T request.sort request.after b && false) = [] := by
    simp
  rw [probedMatches, hnone, top_nil]

/-! ## Many matches -/

theorem branchesOf_cases (filter : BookmarkListFilter) :
    branchesOf filter = [.own] ∨ branchesOf filter = [.own, .shared] ∧ isOwnScope filter = false ∨
      branchesOf filter = [] ∨ branchesOf filter = [.shared] ∧ isOwnScope filter = false ∨
      branchesOf filter = [.sharedByMe] := by
  unfold branchesOf isOwnScope
  cases filter.scope.getD .mine with
  | mine => exact .inl rfl
  | sharedByMe => exact .inr (.inr (.inr (.inr rfl)))
  | all =>
    simp only
    split_ifs
    · exact .inl rfl
    · exact .inr (.inl ⟨rfl, rfl⟩)
  | sharedWithMe =>
    simp only
    split_ifs
    · exact .inr (.inr (.inl rfl))
    · exact .inr (.inr (.inr (.inl ⟨rfl, rfl⟩)))

theorem branchPredicate_shared {w : Uuid} :
    branchPredicate c w filter .shared false b = true ↔
      branchPredicate c w filter .shared true b = true ∧ bookmarkReadableBy c filter.ownerId b = true := by
  simp only [branchPredicate, Bool.and_eq_true, Bool.or_false, Bool.or_true, beq_self_eq_true, Bool.not_true,
    Bool.false_or]
  tauto

theorem branchPredicate_owner {w : Uuid} {branch : Branch} {driven : Bool}
    (h : branchPredicate c w filter branch driven b = true) :
    b.workspaceId = w ∧ (branch = .shared → b.ownerId ≠ some filter.ownerId) ∧
      (branch ≠ .shared → b.ownerId = some filter.ownerId) ∧ b.planArchivedAt = none := by
  cases branch with
  | own => simp_all [branchPredicate]
  | shared => simp_all [branchPredicate]
  | sharedByMe => simp_all [branchPredicate]

theorem mem_legRows {branch : Branch} (hviewer : branch = .shared → filter.ownerId = tx.accountId)
    (hfilter : request.filter = filter) :
    b ∈ legRows T c tx request true branch ↔ b ∈ c.bookmarks.rows ∧
      branchPredicate c tx.workspaceId filter branch false b = true ∧
      beyond T request.sort request.after b = true ∧ isMatch T c tx filter b = true := by
  subst hfilter
  unfold legRows
  simp only [Bool.and_true]
  split_ifs with hshared
  · subst hshared
    simp only [Bool.and_assoc]
    rw [mem_lookedUp, branchPredicate_shared]
    simp only [Bool.and_eq_true]
    have howner := hviewer rfl
    constructor
    · rintro ⟨hb, hid, hpred, hrest⟩
      obtain ⟨hw, _, _, _⟩ := branchPredicate_owner hpred
      rw [mem_sharedBookmarks, ← hw, ← howner] at hid
      exact ⟨hb, ⟨hpred, bookmarkReadableBy_iff.mpr (.inr hid)⟩, hrest⟩
    · rintro ⟨hb, ⟨hpred, hread⟩, hrest⟩
      obtain ⟨hw, hother, _, _⟩ := branchPredicate_owner hpred
      have hgrant := (bookmarkReadableBy_iff.mp hread).resolve_left (hother rfl)
      exact ⟨hb, mem_sharedBookmarks.mpr (by rwa [← hw, ← howner]), hpred, hrest⟩
  · rw [List.mem_filter, Bool.and_eq_true, Bool.and_eq_true]

theorem legRows_nodup (asked : Bool) (branch : Branch) : (legRows T c tx request asked branch).Nodup := by
  unfold legRows
  split_ifs
  · simp only [Bool.and_assoc]
    exact lookedUp_nodup (List.nodup_dedup _) _
  · exact (rows_nodup c).filter _

section

variable (hviewer : isOwnScope request.filter = false → request.filter.ownerId = tx.accountId)

include hviewer

theorem viewer_of_shared (h : Branch.shared ∈ branchesOf request.filter) : request.filter.ownerId = tx.accountId := by
  rcases branchesOf_cases request.filter with hb | ⟨hb, hscope⟩ | hb | ⟨hb, hscope⟩ | hb
  · simp [hb] at h
  · exact hviewer hscope
  · simp [hb] at h
  · exact hviewer hscope
  · simp [hb] at h

theorem legs_nodup : ((branchesOf request.filter).map (legRows T c tx request true)).flatten.Nodup := by
  have hone (branch : Branch) : ([branch].map (legRows T c tx request true)).flatten.Nodup := by
    simpa using legRows_nodup true branch
  rcases branchesOf_cases request.filter with hb | ⟨hb, hscope⟩ | hb | ⟨hb, -⟩ | hb
  · exact hb ▸ hone _
  · rw [hb]
    simp only [List.map_cons, List.map_nil, List.flatten_cons, List.flatten_nil, List.append_nil]
    refine List.nodup_append.mpr ⟨legRows_nodup _ _, legRows_nodup _ _, fun x hx y hy heq => ?_⟩
    subst heq
    have hown := ((mem_legRows (fun h => absurd h (by decide)) rfl).mp hx).2.1
    have hshared := ((mem_legRows (fun _ => hviewer hscope) rfl).mp hy).2.1
    exact (branchPredicate_owner hshared).2.1 rfl ((branchPredicate_owner hown).2.2.1 (by decide))
  · rw [hb]
    exact List.nodup_nil
  · exact hb ▸ hone _
  · exact hb ▸ hone _

theorem mem_legs : b ∈ ((branchesOf request.filter).map (legRows T c tx request true)).flatten ↔
    b ∈ selectedRows T c tx request := by
  have hleg (branch : Branch) (hmem : branch ∈ branchesOf request.filter) :
      b ∈ legRows T c tx request true branch ↔ b ∈ c.bookmarks.rows ∧
        branchPredicate c tx.workspaceId request.filter branch false b = true ∧
        beyond T request.sort request.after b = true ∧ isMatch T c tx request.filter b = true :=
    mem_legRows (fun h => viewer_of_shared hviewer (h ▸ hmem)) rfl
  simp only [mem_selectedRows, filterPredicate, List.any_eq_true, List.mem_flatten, List.mem_map]
  constructor
  · rintro ⟨_, ⟨branch, hmem, rfl⟩, hb⟩
    obtain ⟨hrow, hpred, hrest⟩ := (hleg branch hmem).mp hb
    exact ⟨hrow, ⟨branch, hmem, hpred⟩, hrest⟩
  · rintro ⟨hrow, ⟨branch, hmem, hpred⟩, hrest⟩
    exact ⟨_, ⟨branch, hmem, rfl⟩, (hleg branch hmem).mpr ⟨hrow, hpred, hrest⟩⟩

theorem top_walkLegs :
    top (sortOrders T request.sort).rank request.limit (walkLegs T c tx request true) =
      top (sortOrders T request.sort).rank request.limit (selectedRows T c tx request) := by
  have hlegs : walkLegs T c tx request true = (((branchesOf request.filter).map (legRows T c tx request true)).map
      (top (sortOrders T request.sort).rank request.limit)).flatten := by
    rw [walkLegs, List.flatMap_def, List.map_map]
    rfl
  have hsep : Separates (sortOrders T request.sort).rank
      ((branchesOf request.filter).map (legRows T c tx request true)).flatten :=
    separates_selectedRows.mono fun b hb => (mem_legs hviewer).mp hb
  rw [hlegs, top_union hsep (legs_nodup hviewer)]
  exact top_eq_of_mem hsep (legs_nodup hviewer) selectedRows_nodup fun _ => mem_legs hviewer

/-- **The two plans answer one page.** -/
theorem fewPage_eq_walkPage (hq : request.filter.q.isSome = true) :
    fewPage T c tx request = walkPage T c tx request := by
  rw [fewPage, walkPage, pageOf, pageOf, top_probedMatches hq, top_walkLegs hviewer]

end

theorem walkLegs_unasked : walkLegs T c tx request false = [] := by
  have hleg (branch : Branch) : legRows T c tx request false branch = [] := by
    unfold legRows
    simp only [Bool.and_false]
    split_ifs
    · simp
    · simp
  rw [walkLegs, List.flatMap_eq_nil_iff]
  intro branch _
  rw [hleg, top_nil]

end SlugBase.Listing
