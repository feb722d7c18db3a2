import SlugBase.Bulk.Counting

/-!
# The preview of a bulk request agrees with its run

A preview and the run of the same request, over one store.

* `TagsAgree`, `ShareAgrees`: both fail, both refuse for one reason with nothing written, or both reach the same
  bookmarks and the run adds the links or the shares that the preview announced, and no others;
* `Balanced`: the bookmarks reached and skipped are those asked for, each once;
* **`preview_agrees`**: the two previews, the counts, and the refusal of a selection that holds a bookmark which
  is shared with the caller.
-/

namespace SlugBase.Bulk

open Relational

variable {lang : Language} {filtering : Filtering} {newId : ℕ → Uuid} {tx : TenantTx} {store : BulkStore}

/-! ## Agreement -/

/-- **The links that were announced are the links that were added**, tag by tag. -/
structure Announced (store store' : BulkStore) (tags : List BookmarkPreviewTag) : Prop where
  added : ∀ t ∈ tags, tagLinkCount store'.content t.id = tagLinkCount store.content t.id + t.added
  others : ∀ id, (∀ t ∈ tags, t.id ≠ id) → tagLinkCount store'.content id = tagLinkCount store.content id
  kept : ∀ l ∈ store.content.bookmarkTags, l ∈ store'.content.bookmarkTags

/-- A preview of `add_tags` and a run, of one store. -/
inductive TagsAgree (store : BulkStore) : Reply (Counts × List BookmarkPreviewTag) → Call Counts → Prop
  | threw (why why' : Failure) : TagsAgree store (.error (.threw why)) (.error (.threw why'), store)
  | refused (why : Refusal) : TagsAgree store (.error (.refused why)) (.error (.refused why), store)
  | done (c : Counts) (tags : List BookmarkPreviewTag) (store' : BulkStore) (h : Announced store store' tags) :
      TagsAgree store (.ok (c, tags)) (.ok c, store')

/-- A preview of `share` and a run, of one store: every share that was added is with the target. -/
inductive ShareAgrees (w : Uuid) (store : BulkStore) : Reply (Counts × BulkStore.Audience) → Call Counts → Prop
  | threw (why why' : Failure) : ShareAgrees w store (.error (.threw why)) (.error (.threw why'), store)
  | refused (why : Refusal) : ShareAgrees w store (.error (.refused why)) (.error (.refused why), store)
  | done (c : Counts) (audience : BulkStore.Audience) (target : ShareTargetAsk) (written : List BookmarkShare)
      (store' : BulkStore) (hkind : audience.kind = target.kind) (hid : audience.id = target.id)
      (hrows : store'.content.bookmarkShares.rows = store.content.bookmarkShares.rows ++ written)
      (hadded : written.length = audience.added)
      (hwith : ∀ s ∈ written, s.workspaceId = w ∧ target.columns = .ok s.toShareTarget) :
      ShareAgrees w store (.ok (c, audience)) (.ok c, store')

/-- The number of distinct bookmarks that a request asks for. -/
def distinctAsked (lang : Language) (filtering : Filtering) (tx : TenantTx) (store : BulkStore) (accountId : Uuid) :
    BookmarkBulkTarget → ℕ
  | .ids ids => (ids.map lang.toLowerCase).toFinset.card
  | .filter ask =>
    match bookmarkListFilter lang filtering accountId ask with
    | .error _ => 0
    | .ok parsed =>
      ((idsRows store.content filtering tx.workspaceId parsed (BOOKMARK_SELECT_ALL_CAP + 1)).map Bookmark.id).toFinset.card

/-- **The bookmarks reached and skipped are those asked for.** -/
structure Balanced (asked : ℕ) (c : Counts) : Prop where
  sum : c.affected + (c.skippedNotOwner + c.skippedNotFound) = asked
  affected : 0 ≤ c.affected
  notOwner : c.skippedNotOwner = 0
  notFound : 0 ≤ c.skippedNotFound

/-! ## Tagging -/

theorem requireAccountOwner_cases (tx : TenantTx) (a : Uuid) :
    (∀ action, requireAccountOwner tx a action = .ok ()) ∨
      ∀ action, ∃ why, requireAccountOwner tx a action = .error (.threw why) := by
  unfold requireAccountOwner
  by_cases h : a = tx.accountId
  · exact .inl fun action => if_pos h
  · exact .inr fun action => ⟨_, if_neg h⟩

theorem requireIdentifiers_cases (ids : List String) (action : String) :
    requireIdentifiers ids action = .ok () ∨ ∃ why, requireIdentifiers ids action = .error (.threw why) := by
  unfold requireIdentifiers
  split
  · exact .inl rfl
  · exact .inr ⟨_, rfl⟩

/-- What the preview of the tags holds when the tags are the account's. -/
def previewOf (lang : Language) (tx : TenantTx) (store : BulkStore) (bookmarkIds : List Uuid) (a : Uuid)
    (tagIds : List String) : List BookmarkPreviewTag :=
  let wanted := (store.tagsAmong lang tx a tagIds).mergeSort (BulkStore.tagLe lang)
  (((store.ownedLiveBookmarks tx a bookmarkIds).foldl (countBookmark wanted (store.tagsOfBookmark lang tx a))
    (wanted.foldl (fun preview t => preview.set t.id (Tag.uncounted t)) ∅)).entries.map Prod.snd).mergeSort (previewLe lang)

theorem announced_insert (bookmarkIds : List Uuid) (a : Uuid) (tagIds : List String)
    (hids : requireIdentifiers (distinctIdentifiers lang tagIds) "tagging bookmarks" = .ok ())
    (hall : (store.tagsAmong lang tx a tagIds).length = (distinctIdentifiers lang tagIds).length) :
    ∃ store', store.insertTagLinksMany tx.workspaceId (store.ownedLiveBookmarks tx a bookmarkIds)
        (uuidArray (distinctIdentifiers lang tagIds)) = (.ok (), store') ∧
      Announced store store' (previewOf lang tx store bookmarkIds a tagIds) := by
  have hplaced : ∀ id ∈ store.ownedLiveBookmarks tx a bookmarkIds, bookmarkIn store.content tx.workspaceId id = true := by
    intro id hid
    obtain ⟨b, hb, hbid, hw, -⟩ := mem_ownedLiveBookmarks.mp hid
    exact bookmarkIn_iff.mpr ⟨b, hb, hbid, hw⟩
  have hperm := tagsAmong_perm tagIds hids hall
  have hsort := (List.mergeSort_perm (store.tagsAmong lang tx a tagIds) (BulkStore.tagLe lang)).map Tag.id
  have hwanted (k : Uuid) : k ∈ uuidArray (distinctIdentifiers lang tagIds) ↔
      ∃ t ∈ (store.tagsAmong lang tx a tagIds).mergeSort (BulkStore.tagLe lang), t.id = k := by
    rw [← hperm.mem_iff, ← hsort.mem_iff, List.mem_map]
  have hcounted := (counted_start _).bookmarks (hsort.nodup_iff.mpr (tagsAmong_nodup tagIds))
    (store.tagsOfBookmark lang tx a) (store.ownedLiveBookmarks tx a bookmarkIds)
  unfold BulkStore.insertTagLinksMany
  rw [dif_pos hplaced]
  refine ⟨_, rfl, ?_, ?_, fun l hl => Table.mem_insertAll.mpr (.inl hl)⟩
  · intro e he
    obtain ⟨⟨k, e'⟩, hentry, rfl⟩ := List.mem_map.mp (List.mem_mergeSort.mp he)
    have hget := JsMap.mem_entries_iff.mp hentry
    rw [tagLinkCount, Table.count_insertAll, tagLinkCount, Nat.add_left_cancel_iff, hcounted.named k e' hget]
    by_cases hk : ∃ t ∈ (store.tagsAmong lang tx a tagIds).mergeSort (BulkStore.tagLe lang), t.id = k
    · rw [countP_written (ownedLiveBookmarks_nodup bookmarkIds) (uuidArray_distinct hids).1 _ ((hwanted k).mpr hk)]
      obtain ⟨t, ht, rfl⟩ := hk
      obtain ⟨e'', hget', hadded⟩ := hcounted.asked t ht
      obtain rfl := Option.some.inj (hget.symm.trans hget')
      rw [hadded, Nat.zero_add]
      obtain ⟨htag, hw, ho, -⟩ := mem_tagsAmong.mp (List.mem_mergeSort.mp ht)
      refine List.countP_congr fun b hb => ?_
      rw [decide_eq_true_eq, mem_tagsOfBookmark hb htag hw ho, Bool.not_eq_true', Bool.not_eq_true]
    · rw [countP_unwritten _ fun hin => hk ((hwanted k).mp hin)]
      exact (hcounted.other k e' hget fun t ht heq => hk ⟨t, ht, heq⟩).symm
  · intro k hno
    rw [tagLinkCount, Table.count_insertAll, tagLinkCount, countP_unwritten, Nat.add_zero]
    intro hin
    obtain ⟨t, ht, rfl⟩ := (hwanted k).mp hin
    obtain ⟨e, hget, -⟩ := hcounted.asked t ht
    exact hno e (List.mem_mergeSort.mpr (List.mem_map_of_mem (JsMap.mem_entries_iff.mpr hget))) (hcounted.named _ e hget)

variable (lang tx store) in
/-- **Tagging does what its preview announced.** -/
theorem tag_previewed (bookmarkIds : List Uuid) (a : Uuid) (tagIds : List String) :
    (∃ why why', store.previewTags lang tx bookmarkIds a tagIds = .error (.threw why) ∧
      store.tag lang tx bookmarkIds a tagIds .add = (.error (.threw why'), store)) ∨
    (store.previewTags lang tx bookmarkIds a tagIds = .error (.refused .targetNotFound) ∧
      store.tag lang tx bookmarkIds a tagIds .add = (.error (.refused .targetNotFound), store)) ∨
    ∃ tags store', store.previewTags lang tx bookmarkIds a tagIds =
        .ok ((store.ownedLiveBookmarks tx a bookmarkIds).length, tags) ∧
      store.tag lang tx bookmarkIds a tagIds .add =
        (.ok (store.ownedLiveBookmarks tx a bookmarkIds).length, store') ∧ Announced store store' tags := by
  unfold BulkStore.previewTags BulkStore.tag
  rcases requireAccountOwner_cases tx a with howner | howner
  swap
  · obtain ⟨why, hwhy⟩ := howner "previews"
    obtain ⟨why', hwhy'⟩ := howner "tags"
    exact .inl ⟨why, why', by rw [hwhy]; rfl, by rw [hwhy']⟩
  rcases requireIdentifiers_cases (distinctIdentifiers lang tagIds) "tagging bookmarks" with hids | ⟨why, hids⟩
  swap
  · refine .inl ⟨why, why, ?_, ?_⟩
    · simp only [howner, BulkStore.ownedTags, hids, bind, Except.bind]
    · simp only [howner, BulkStore.lockTaggingTags, hids, bind, Except.bind]
  have hlock := lockTaggingTags_iff tx store a tagIds hids
  have howned : store.ownedTags lang tx a tagIds = .ok ((store.tagsAmong lang tx a tagIds).mergeSort (BulkStore.tagLe lang)) := by
    simp only [BulkStore.ownedTags, hids, bind, Except.bind, pure, Except.pure]
  have hlength : ((store.tagsAmong lang tx a tagIds).mergeSort (BulkStore.tagLe lang)).length =
      (store.tagsAmong lang tx a tagIds).length := List.length_mergeSort _
  by_cases hall : (store.tagsAmong lang tx a tagIds).length = (distinctIdentifiers lang tagIds).length
  swap
  · refine .inr (.inl ⟨?_, ?_⟩)
    · simp only [howner, howned, bind, Except.bind, stopIf, hlength, ne_eq, hall, not_false_eq_true, if_true]
    · simp only [howner, hlock, decide_eq_false hall]
  obtain ⟨store', hinsert, hannounced⟩ := announced_insert bookmarkIds a tagIds hids hall
  refine .inr (.inr ⟨_, store', ?_, ?_, hannounced⟩)
  · simp only [howner, howned, bind, Except.bind, stopIf, hlength, hall, ne_eq, not_true_eq_false, if_false]
    rfl
  · simp only [howner, hlock, decide_eq_true hall, hinsert]

/-! ## Sharing -/

theorem columns_cases (target : ShareTargetAsk) :
    (∃ columns, target.columns = .ok columns) ∨ ∃ why, target.columns = .error (.threw why) := by
  cases target with
  | member accountId =>
    cases h : uuidOf accountId with
    | some a => exact .inl ⟨_, by rw [ShareTargetAsk.columns, h]⟩
    | none => exact .inr ⟨_, by rw [ShareTargetAsk.columns, h]⟩
  | team teamId =>
    cases h : uuidOf teamId with
    | some t => exact .inl ⟨_, by rw [ShareTargetAsk.columns, h]⟩
    | none => exact .inr ⟨_, by rw [ShareTargetAsk.columns, h]⟩

variable (tx) in
/-- **Sharing does what its preview announced.** -/
theorem share_previewed (hfresh : Fresh newId store) (bookmarkIds : List Uuid) (a : Uuid) (target : ShareTargetAsk) :
    (∃ why why', store.previewShare tx bookmarkIds a target = .error (.threw why) ∧
      store.share tx newId bookmarkIds a target = (.error (.threw why'), store)) ∨
    (∃ why, store.previewShare tx bookmarkIds a target = .error (.refused why) ∧
      store.share tx newId bookmarkIds a target = (.error (.refused why), store)) ∨
    ∃ audience shared store' written, store.previewShare tx bookmarkIds a target =
        .ok ((store.ownedLiveBookmarks tx a bookmarkIds).length, audience) ∧
      store.share tx newId bookmarkIds a target = (.ok shared, store') ∧
      shared.affected = (store.ownedLiveBookmarks tx a bookmarkIds).length ∧
      audience.kind = target.kind ∧ audience.id = target.id ∧
      store'.content.bookmarkShares.rows = store.content.bookmarkShares.rows ++ written ∧
      written.length = audience.added ∧
      ∀ s ∈ written, s.workspaceId = tx.workspaceId ∧ target.columns = .ok s.toShareTarget := by
  unfold BulkStore.previewShare BulkStore.share
  rcases requireAccountOwner_cases tx a with howner | howner
  swap
  · obtain ⟨why, hwhy⟩ := howner "shares"
    exact .inl ⟨why, why, by rw [hwhy]; rfl, by rw [hwhy]⟩
  rcases columns_cases target with ⟨columns, hcolumns⟩ | ⟨why, hcolumns⟩
  swap
  · refine .inl ⟨why, why, ?_, ?_⟩
    · simp only [howner, hcolumns, bind, Except.bind]
    · simp only [howner, hcolumns]
  simp only [howner, hcolumns, bind, Except.bind]
  cases hname : store.targetName tx columns with
  | none => exact .inr (.inl ⟨_, rfl, rfl⟩)
  | some name =>
    obtain ⟨store', written, hgrant, hrows, hlength, hwith⟩ :=
      grant_fresh tx a hfresh bookmarkIds columns
    refine .inr (.inr ⟨_, ⟨_, (store.unsharedWith tx (store.ownedLiveBookmarks tx a bookmarkIds) columns).length, name⟩,
      store', written, rfl, ?_, rfl, rfl, rfl, hrows, hlength, fun s hs => ?_⟩)
    · simp only [hgrant]
    · obtain ⟨hw, htarget⟩ := hwith s hs
      exact ⟨hw, by rw [htarget]⟩

/-! ## The requests -/

/-- What a request names: as many bookmarks as it asks for, and no more rows. -/
theorem namedBookmarks_ok {a : Uuid} {target : BookmarkBulkTarget} {named : NamedBookmarks}
    (h : namedBookmarks lang filtering tx store a target = .ok named) :
    named.requested = distinctAsked lang filtering tx store a target ∧ named.bookmarkIds.length ≤ named.requested := by
  cases target with
  | ids ids =>
    simp only [namedBookmarks] at h
    split_ifs at h
    obtain rfl := Except.ok.inj h
    refine ⟨?_, List.length_filterMap_le _ _⟩
    have hset : (ids.map lang.toLowerCase).toFinset = (unique (ids.map lang.toLowerCase)).toFinset := by
      ext text
      rw [List.mem_toFinset, List.mem_toFinset, mem_unique]
    rw [distinctAsked, hset, List.toFinset_card_of_nodup (unique_nodup _)]
  | filter ask =>
    simp only [namedBookmarks] at h
    split at h
    · cases h
    · rename_i parsed hparsed
      obtain ⟨ids, hids, h⟩ := ok_of_bind h
      have hrows : ids = (idsRows store.content filtering tx.workspaceId parsed (BOOKMARK_SELECT_ALL_CAP + 1)).map
          Bookmark.id := by
        unfold BulkStore.ids at hids
        obtain ⟨-, -, hids⟩ := ok_of_bind hids
        obtain ⟨-, -, hids⟩ := ok_of_bind hids
        obtain ⟨-, -, hids⟩ := ok_of_bind hids
        exact (Except.ok.inj hids).symm
      obtain ⟨-, -, h⟩ := ok_of_bind h
      obtain rfl := Except.ok.inj h
      refine ⟨?_, le_refl _⟩
      rw [distinctAsked, hparsed]
      simp only
      rw [List.toFinset_card_of_nodup idsRows_nodup, hrows]

theorem selection_ok {a : Uuid} {target : BookmarkBulkTarget} {named : NamedBookmarks}
    (h : selection lang filtering tx store a target = .ok named) :
    namedBookmarks lang filtering tx store a target = .ok named := by
  unfold selection at h
  obtain ⟨named', hnamed, h⟩ := ok_of_bind h
  obtain ⟨shared, -, h⟩ := ok_of_bind h
  obtain ⟨⟨⟩, -, h⟩ := ok_of_bind h
  rw [hnamed, ← Except.ok.inj h]

theorem counts_balanced {a : Uuid} {target : BookmarkBulkTarget} {named : NamedBookmarks}
    (h : selection lang filtering tx store a target = .ok named) :
    Balanced (distinctAsked lang filtering tx store a target)
      (counts named.requested (store.ownedLiveBookmarks tx a named.bookmarkIds).length) := by
  obtain ⟨hrequested, hle⟩ := namedBookmarks_ok (selection_ok h)
  have howned := (length_ownedLiveBookmarks_le tx store a named.bookmarkIds).trans hle
  constructor
  · show ((store.ownedLiveBookmarks tx a named.bookmarkIds).length : ℤ) + (0 + (named.requested - _)) = _
    rw [← hrequested]
    omega
  · exact Int.natCast_nonneg _
  · rfl
  · exact sub_nonneg.mpr (Int.ofNat_le.mpr howned)

/-- **A selection that holds a bookmark which is shared with the caller is refused.** -/
theorem selection_forbidden {a : Uuid} {target : BookmarkBulkTarget} {named : NamedBookmarks}
    (hnamed : namedBookmarks lang filtering tx store a target = .ok named) (haccount : a = tx.accountId) {row : Bookmark}
    (hrow : row ∈ store.content.bookmarks) (hw : row.workspaceId = tx.workspaceId) (hid : row.id ∈ named.bookmarkIds)
    (hlive : row.planArchivedAt = none) (hother : row.ownerId ≠ some a) (hread : CanRead store.content a row) :
    selection lang filtering tx store a target = .error (.refused .forbidden) := by
  have hsome : named.bookmarkIds ≠ [] := List.ne_nil_of_mem hid
  have hshared : ∃ ids, store.sharedAmong tx named.bookmarkIds a = .ok ids ∧ ids ≠ [] := by
    unfold BulkStore.sharedAmong requireAccountOwner
    rw [if_pos haccount]
    refine ⟨_, rfl, List.ne_nil_of_mem (List.mem_map_of_mem (List.mem_filter.mpr ⟨hrow, ?_⟩))⟩
    simp only [hw, hid, hlive, hother, bookmarkReadableBy_iff.mpr hread, Option.isNone_none, decide_true, Bool.and_self,
      ne_eq, not_false_eq_true]
  obtain ⟨ids, hids, hne⟩ := hshared
  unfold selection
  simp only [hnamed, hids, bind, Except.bind, if_neg hsome, stopIf, ne_eq, hne, not_false_eq_true, if_true]

theorem requiredTags_cases (lang : Language) (tagIds : Option (List String)) :
    (∃ ids, requiredTags lang tagIds = .ok ids) ∨ ∃ why, requiredTags lang tagIds = .error (.threw why) := by
  unfold requiredTags
  split
  · exact .inr ⟨_, rfl⟩
  · exact .inl ⟨_, rfl⟩

variable (lang filtering newId tx store)

/-- **The preview of a tagging agrees with the tagging.** -/
theorem tags_agree (w a : Uuid) (target : BookmarkBulkTarget) (tagIds : List String) (st : Option ShareTargetAsk) :
    TagsAgree store (previewBulkTags lang filtering tx store a target tagIds)
      (runBulk lang filtering newId tx store ⟨w, a, .addTags, target, some tagIds, st⟩) ∧
    ∀ c tags, previewBulkTags lang filtering tx store a target tagIds = .ok (c, tags) →
      Balanced (distinctAsked lang filtering tx store a target) c := by
  unfold previewBulkTags runBulk bulkBookmarks bulkTags
  cases hselection : selection lang filtering tx store a target with
  | error stop =>
    simp only [bind, Except.bind]
    cases stop with
    | refused why => exact ⟨.refused why, fun c tags h => by cases h⟩
    | threw why => exact ⟨.threw why why, fun c tags h => by cases h⟩
  | ok named =>
    rcases requiredTags_cases lang (some tagIds) with ⟨ids, hids⟩ | ⟨why, hids⟩
    swap
    · simp only [bind, Except.bind, hids]
      exact ⟨.threw why why, fun c tags h => by cases h⟩
    simp only [bind, Except.bind, hids]
    rcases tag_previewed lang tx store named.bookmarkIds a ids with
      ⟨why, why', hpreview, hrun⟩ | ⟨hpreview, hrun⟩ | ⟨tags, store', hpreview, hrun, hannounced⟩
    · simp only [hpreview, hrun]
      exact ⟨.threw why why', fun c tags h => by cases h⟩
    · simp only [hpreview, hrun]
      exact ⟨.refused _, fun c tags h => by cases h⟩
    · simp only [hpreview, hrun, pure, Except.pure]
      refine ⟨.done _ tags store' hannounced, fun c tags' h => ?_⟩
      obtain ⟨rfl, -⟩ := Prod.mk.inj (Except.ok.inj h)
      exact counts_balanced hselection

theorem requiredShareTarget_some (lang : Language) (target : ShareTargetAsk) :
    ∃ lowered, requiredShareTarget lang (some target) = .ok lowered := by
  cases target with
  | member accountId => exact ⟨_, rfl⟩
  | team teamId => exact ⟨_, rfl⟩

variable {newId store} in
/-- **The preview of a share agrees with the share.** -/
theorem share_agrees (hfresh : Fresh newId store) (w a : Uuid) (target : BookmarkBulkTarget) (shareTarget : ShareTargetAsk)
    (tagIds : Option (List String)) :
    ShareAgrees tx.workspaceId store (previewBulkShare lang filtering tx store a target shareTarget)
      (runBulk lang filtering newId tx store ⟨w, a, .share, target, tagIds, some shareTarget⟩) ∧
    ∀ c audience, previewBulkShare lang filtering tx store a target shareTarget = .ok (c, audience) →
      Balanced (distinctAsked lang filtering tx store a target) c := by
  unfold previewBulkShare runBulk bulkBookmarks bulkShare
  obtain ⟨lowered, hlowered⟩ := requiredShareTarget_some lang shareTarget
  cases hselection : selection lang filtering tx store a target with
  | error stop =>
    simp only [bind, Except.bind]
    cases stop with
    | refused why => exact ⟨.refused why, fun c audience h => by cases h⟩
    | threw why => exact ⟨.threw why why, fun c audience h => by cases h⟩
  | ok named =>
    by_cases hself : lowered.isSelf a = true
    · simp only [bind, Except.bind, hlowered, stopIf, hself, if_true]
      exact ⟨.refused .self, fun c audience h => by cases h⟩
    simp only [bind, Except.bind, hlowered, stopIf, hself, if_false, Bool.false_eq_true]
    rcases share_previewed tx hfresh named.bookmarkIds a lowered with
      ⟨why, why', hpreview, hrun⟩ | ⟨why, hpreview, hrun⟩ |
        ⟨audience, shared, store', written, hpreview, hrun, haffected, hkind, hid, hrows, hlength, hwith⟩
    · simp only [hpreview, hrun]
      exact ⟨.threw why why', fun c audience h => by cases h⟩
    · simp only [hpreview, hrun]
      exact ⟨.refused why, fun c audience h => by cases h⟩
    · simp only [hpreview, hrun, pure, Except.pure, haffected]
      refine ⟨.done _ audience lowered written _ hkind hid ?_ hlength hwith, fun c audience' h => ?_⟩
      · split
        · exact hrows
        · exact hrows
      · obtain ⟨rfl, -⟩ := Prod.mk.inj (Except.ok.inj h)
        exact counts_balanced hselection

variable {newId store} in
/-- **A preview agrees with the run of its request**: over one store they refuse alike, with nothing written, or reach
the same bookmarks, and the links and shares announced are the ones added; the bookmarks reached and skipped are those
asked for; and a selection that holds a bookmark which is shared with the caller is refused as a whole. -/
theorem preview_agrees (hfresh : Fresh newId store) (w a : Uuid) (target : BookmarkBulkTarget) (tagIds : List String)
    (shareTarget : ShareTargetAsk) :
    TagsAgree store (previewBulkTags lang filtering tx store a target tagIds)
      (runBulk lang filtering newId tx store ⟨w, a, .addTags, target, some tagIds, none⟩) ∧
    ShareAgrees tx.workspaceId store (previewBulkShare lang filtering tx store a target shareTarget)
      (runBulk lang filtering newId tx store ⟨w, a, .share, target, none, some shareTarget⟩) ∧
    (∀ c tags, previewBulkTags lang filtering tx store a target tagIds = .ok (c, tags) →
      Balanced (distinctAsked lang filtering tx store a target) c) ∧
    (∀ c audience, previewBulkShare lang filtering tx store a target shareTarget = .ok (c, audience) →
      Balanced (distinctAsked lang filtering tx store a target) c) ∧
    ∀ named, namedBookmarks lang filtering tx store a target = .ok named → a = tx.accountId →
      (∃ row ∈ store.content.bookmarks, row.workspaceId = tx.workspaceId ∧ row.id ∈ named.bookmarkIds ∧
        row.planArchivedAt = none ∧ row.ownerId ≠ some a ∧ CanRead store.content a row) →
      previewBulkTags lang filtering tx store a target tagIds = .error (.refused .forbidden) ∧
      previewBulkShare lang filtering tx store a target shareTarget = .error (.refused .forbidden) ∧
      ∀ ask : BulkAsk, ask.accountId = a → ask.target = target →
        runBulk lang filtering newId tx store ask = (.error (.refused .forbidden), store) := by
  obtain ⟨htags, htagsCounts⟩ := tags_agree lang filtering newId tx store w a target tagIds none
  obtain ⟨hshare, hshareCounts⟩ := share_agrees lang filtering tx hfresh w a target shareTarget none
  refine ⟨htags, hshare, htagsCounts, hshareCounts, fun named hnamed haccount hheld => ?_⟩
  obtain ⟨row, hrow, hw, hid, hlive, hother, hread⟩ := hheld
  have hforbidden := selection_forbidden hnamed haccount hrow hw hid hlive hother hread
  refine ⟨?_, ?_, fun ask hask htarget => ?_⟩
  · simp only [previewBulkTags, hforbidden, bind, Except.bind]
  · simp only [previewBulkShare, hforbidden, bind, Except.bind]
  · unfold runBulk bulkBookmarks
    rw [hask, htarget, hforbidden]

/-! ## One request -/

theorem isUpper_def (c : Char) : c.isUpper = decide (65 ≤ c.toNat ∧ c.toNat ≤ 90) := by
  show decide (c.val ≥ 'A'.val ∧ c.val ≤ 'Z'.val) = _
  simp [UInt32.le_iff_toNat_le, ← Char.toNat_val]

theorem toNat_toLower (c : Char) : c.toLower.toNat = if c.isUpper then c.toNat + 32 else c.toNat := by
  have hvalid : ∀ h : c.val ≥ 'A'.val ∧ c.val ≤ 'Z'.val, (c.val + ('a'.val - 'A'.val)).toNat = c.toNat + 32 := by
    intro h
    have hle : c.toNat ≤ 90 := UInt32.le_iff_toNat_le.mp h.2
    rw [UInt32.toNat_add]
    show (c.toNat + 32) % 2 ^ 32 = _
    omega
  delta Char.toLower
  by_cases h : c.val ≥ 'A'.val ∧ c.val ≤ 'Z'.val
  · rw [dif_pos h, if_pos (show c.isUpper = true from decide_eq_true h)]
    exact hvalid h
  · rw [dif_neg h, if_neg (by rw [show c.isUpper = false from decide_eq_false h]; exact Bool.false_ne_true)]

theorem isUpper_toLower (c : Char) : c.toLower.isUpper = false := by
  rw [isUpper_def, toNat_toLower, isUpper_def]
  split_ifs with h <;> simp at h ⊢ <;> omega

theorem toLower_toLower (c : Char) : c.toLower.toLower = c.toLower := by
  apply Char.toNat_inj.mp
  rw [toNat_toLower, isUpper_toLower]
  rfl

/-- The language on texts of ASCII characters. -/
def asciiLanguage : Language where
  toLowerCase s := String.ofList (s.toList.map Char.toLower)
  toLowerCase_idem s := by
    rw [String.toList_ofList, List.map_map]
    exact congrArg String.ofList (List.map_congr_left fun c _ => toLower_toLower c)
  toLowerCase_noUpper s c hc := by
    rw [String.toList_ofList, List.mem_map] at hc
    obtain ⟨d, -, rfl⟩ := hc
    exact isUpper_toLower d
  localeCompare := compare
  citextLe a b := decide (a ≤ b)

/-- Filters without a text search. -/
def plainFiltering : Filtering := ⟨.ok, id, fun _ _ => false, fun _ _ => false⟩

/-- A bookmark of the workspace 7. -/
def plainBookmark (id owner : Uuid) : Bookmark :=
  ⟨id, 7, some owner, none, none, none, "https://example.org", "https://example.org", "example.org", "Example", none, none,
    false, none, none, 0, none, 1, 0, 0⟩

/-- The members 1 and 2 own the bookmarks 5 and 6; the first has the tag 3. -/
def twoMembers : BulkStore where
  content :=
    { members := ⟨[⟨7, 1, .owner⟩, ⟨7, 2, .member⟩], by decide⟩
      bookmarks := ⟨[plainBookmark 5 1, plainBookmark 6 2], by decide⟩
      tags := ⟨[⟨3, 7, 1, "read"⟩], by decide⟩ }
  displayNames a := if a = 2 then some "Bo" else none
  teamNames _ := ""
  audit := []
  bookmark_tags_bookmark_fkey l hl := absurd hl (Table.not_mem_empty l)
  bookmark_shares_bookmark_fkey s hs := absurd hs (Table.not_mem_empty s)

theorem twoMembers_fresh : Fresh (100 + ·) twoMembers where
  injective _ _ h := Nat.add_left_cancel h
  unused s hs := absurd hs (Table.not_mem_empty s)

/-- A request of the member 1 that names both bookmarks: the other member's is skipped. -/
theorem preview_agrees_played :
    previewBulkTags asciiLanguage plainFiltering ⟨1, 7⟩ twoMembers 1
        (.ids ["00000000-0000-0000-0000-000000000005", "00000000-0000-0000-0000-000000000006"])
        ["00000000-0000-0000-0000-000000000003"] = .ok (counts 2 1, [⟨3, "read", 1, 1⟩]) ∧
      ∃ store', runBulk asciiLanguage plainFiltering (100 + ·) ⟨1, 7⟩ twoMembers
          ⟨7, 1, .addTags, .ids ["00000000-0000-0000-0000-000000000005", "00000000-0000-0000-0000-000000000006"],
            some ["00000000-0000-0000-0000-000000000003"], none⟩ = (.ok (counts 2 1), store') ∧
        Announced twoMembers store' [⟨3, "read", 1, 1⟩] := by
  have hpreview : previewBulkTags asciiLanguage plainFiltering ⟨1, 7⟩ twoMembers 1
      (.ids ["00000000-0000-0000-0000-000000000005", "00000000-0000-0000-0000-000000000006"])
      ["00000000-0000-0000-0000-000000000003"] = .ok (counts 2 1, [⟨3, "read", 1, 1⟩]) := by
    decide +kernel
  refine ⟨hpreview, ?_⟩
  have hagree := (preview_agrees asciiLanguage plainFiltering ⟨1, 7⟩ twoMembers_fresh 7 1
    (.ids ["00000000-0000-0000-0000-000000000005", "00000000-0000-0000-0000-000000000006"])
    ["00000000-0000-0000-0000-000000000003"] (.member "00000000-0000-0000-0000-000000000002")).1
  rw [hpreview] at hagree
  generalize runBulk asciiLanguage plainFiltering (100 + ·) ⟨1, 7⟩ twoMembers _ = run at hagree ⊢
  cases hagree with
  | done c tags store' h => exact ⟨store', rfl, h⟩

/-- **Another member's bookmark is skipped, not refused**: the selection holds one the account may not change, and the
request reaches the rest. -/
theorem skips_anothers_bookmark :
    (∃ row ∈ twoMembers.content.bookmarks, row.id = 6 ∧ row.ownerId = some 2) ∧
      namedBookmarks asciiLanguage plainFiltering ⟨1, 7⟩ twoMembers 1
        (.ids ["00000000-0000-0000-0000-000000000005", "00000000-0000-0000-0000-000000000006"]) = .ok ⟨2, [5, 6]⟩ ∧
      (runBulk asciiLanguage plainFiltering (100 + ·) ⟨1, 7⟩ twoMembers
        ⟨7, 1, .addTags, .ids ["00000000-0000-0000-0000-000000000005", "00000000-0000-0000-0000-000000000006"],
          some ["00000000-0000-0000-0000-000000000003"], none⟩).1 = .ok (counts 2 1) := by
  refine ⟨⟨plainBookmark 6 2, List.mem_cons_of_mem _ List.mem_cons_self, rfl, rfl⟩, ?_, ?_⟩
  · decide +kernel
  · decide +kernel

end SlugBase.Bulk
