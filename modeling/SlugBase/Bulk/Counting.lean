import SlugBase.Bulk.Actions

/-!
# What the previews count and what the writes add

* `lockTaggingTags_iff`: the tags are locked if and only if as many are the account's as are named;
* **`added_preview`**: the preview's number of a tag is the number of bookmarks that do not carry it, and
  nothing for a tag that was not asked for;
* **`countP_written`**: the links that the insert writes, for each tag;
* `insertShares_fresh`, **`grant_fresh`**: with unused identifiers one pass writes every missing share.
-/

namespace SlugBase.Bulk

open Relational

variable {lang : Language} {tx : TenantTx} {store : BulkStore} {ownerId : Uuid}

/-! ## The bookmarks and the tags of the caller -/

theorem mem_ownedLiveBookmarks {bookmarkIds : List Uuid} {id : Uuid} :
    id ∈ store.ownedLiveBookmarks tx ownerId bookmarkIds ↔
      ∃ b ∈ store.content.bookmarks, b.id = id ∧ b.workspaceId = tx.workspaceId ∧ b.ownerId = some ownerId ∧
        b.planArchivedAt = none ∧ id ∈ bookmarkIds := by
  simp only [BulkStore.ownedLiveBookmarks, List.mem_insertionSort, List.mem_map, List.mem_filter, Bool.and_eq_true,
    decide_eq_true_eq, sqlEq_some, Option.isNone_iff_eq_none, Table.mem_iff]
  constructor
  · rintro ⟨b, ⟨hb, ⟨⟨hw, ho⟩, hlive⟩, hid⟩, rfl⟩
    exact ⟨b, hb, rfl, hw, ho, hlive, hid⟩
  · rintro ⟨b, hb, rfl, hw, ho, hlive, hid⟩
    exact ⟨b, ⟨hb, ⟨⟨hw, ho⟩, hlive⟩, hid⟩, rfl⟩

theorem ownedLiveBookmarks_nodup (bookmarkIds : List Uuid) :
    (store.ownedLiveBookmarks tx ownerId bookmarkIds).Nodup :=
  (List.perm_insertionSort _ _).nodup_iff.mpr
    (store.content.bookmarks.keyed.sublist (List.filter_sublist.map Bookmark.id))

variable (tx store ownerId) in
theorem length_ownedLiveBookmarks_le (bookmarkIds : List Uuid) :
    (store.ownedLiveBookmarks tx ownerId bookmarkIds).length ≤ bookmarkIds.length := by
  refine (List.Nodup.subperm (ownedLiveBookmarks_nodup bookmarkIds) fun id hid => ?_).length_le
  obtain ⟨b, -, -, -, -, -, hin⟩ := mem_ownedLiveBookmarks.mp hid
  exact hin

theorem mem_tagsAmong {tagIds : List String} {t : Tag} :
    t ∈ store.tagsAmong lang tx ownerId tagIds ↔ t ∈ store.content.tags ∧ t.workspaceId = tx.workspaceId ∧
      t.ownerId = ownerId ∧ t.id ∈ uuidArray (distinctIdentifiers lang tagIds) := by
  simp only [BulkStore.tagsAmong, List.mem_filter, Bool.and_eq_true, decide_eq_true_eq, Table.mem_iff, and_assoc]

theorem tagsAmong_nodup (tagIds : List String) : ((store.tagsAmong lang tx ownerId tagIds).map Tag.id).Nodup :=
  store.content.tags.keyed.sublist (List.filter_sublist.map Tag.id)

theorem mem_uuidArray {ids : List String} {u : Uuid} : u ∈ uuidArray ids ↔ ∃ id ∈ ids, uuidOf id = some u :=
  List.mem_filterMap

theorem tagsAmong_subset (tagIds : List String) :
    (store.tagsAmong lang tx ownerId tagIds).map Tag.id ⊆ uuidArray (distinctIdentifiers lang tagIds) := by
  intro u hu
  obtain ⟨t, ht, rfl⟩ := List.mem_map.mp hu
  exact (mem_tagsAmong.mp ht).2.2.2

theorem tagsAmong_perm (tagIds : List String)
    (h : requireIdentifiers (distinctIdentifiers lang tagIds) "tagging bookmarks" = .ok ())
    (heq : (store.tagsAmong lang tx ownerId tagIds).length = (distinctIdentifiers lang tagIds).length) :
    ((store.tagsAmong lang tx ownerId tagIds).map Tag.id).Perm (uuidArray (distinctIdentifiers lang tagIds)) := by
  refine (List.Nodup.subperm (tagsAmong_nodup tagIds) (tagsAmong_subset tagIds)).perm_of_length_le ?_
  rw [List.length_map, (uuidArray_distinct h).2]
  exact heq.ge

variable (tx store ownerId) in
/-- **Locked and counted alike**: every tag named is the account's if and only if as many of them are. -/
theorem lockTaggingTags_iff (tagIds : List String)
    (h : requireIdentifiers (distinctIdentifiers lang tagIds) "tagging bookmarks" = .ok ()) :
    store.lockTaggingTags lang tx ownerId tagIds =
      .ok (decide ((store.tagsAmong lang tx ownerId tagIds).length = (distinctIdentifiers lang tagIds).length)) := by
  have hall := requireIdentifiers_ok h
  obtain ⟨hnodup, hlength⟩ := uuidArray_distinct h
  have hlow : ∀ id ∈ distinctIdentifiers lang tagIds, lang.toLowerCase id = id := by
    intro id hid
    obtain ⟨id', -, rfl⟩ := mem_distinctIdentifiers.mp hid
    exact lang.toLowerCase_idem id'
  unfold BulkStore.lockTaggingTags
  simp only [h, bind, Except.bind, pure, Except.pure]
  refine congrArg Except.ok (Bool.eq_iff_iff.mpr ?_)
  rw [List.all_eq_true, decide_eq_true_iff]
  constructor
  · intro hfound
    have hsuper : uuidArray (distinctIdentifiers lang tagIds) ⊆ (store.tagsAmong lang tx ownerId tagIds).map Tag.id := by
      intro u hu
      obtain ⟨id, hid, hu⟩ := mem_uuidArray.mp hu
      have hin := hfound id hid
      rw [hlow id hid, hu] at hin
      exact of_decide_eq_true hin
    have hle := (List.Nodup.subperm hnodup hsuper).length_le
    have hsub : (store.tagsAmong lang tx ownerId tagIds).map Tag.id ⊆ _ := tagsAmong_subset tagIds
    have hge := (List.Nodup.subperm (tagsAmong_nodup tagIds) hsub).length_le
    rw [List.length_map, hlength] at hle hge
    exact Nat.le_antisymm hge hle
  · intro heq id hid
    obtain ⟨u, hu⟩ := hall id hid
    rw [hlow id hid, hu]
    exact decide_eq_true ((tagsAmong_perm tagIds h heq).mem_iff.mpr (mem_uuidArray.mpr ⟨id, hid, hu⟩))

/-! ## Links -/

/-- The bookmark carries the tag. -/
def hasLink (c : Content) (b t : Uuid) : Bool := c.bookmarkTags.any fun l => decide (l.bookmarkId = b ∧ l.tagId = t)

/-- What the account sees of its own bookmark is every link it has to a tag of the account. -/
theorem mem_tagsOfBookmark {bookmarkIds : List Uuid} {id : Uuid} (hid : id ∈ store.ownedLiveBookmarks tx ownerId bookmarkIds)
    {t : Tag} (ht : t ∈ store.content.tags) (hw : t.workspaceId = tx.workspaceId) (ho : t.ownerId = ownerId) :
    t.id ∈ (store.tagsOfBookmark lang tx ownerId id).map Tag.id ↔ hasLink store.content id t.id = true := by
  obtain ⟨b, hb, hbid, hbw, -⟩ := mem_ownedLiveBookmarks.mp hid
  simp only [BulkStore.tagsOfBookmark, hasLink, Table.any_iff, List.mem_map, List.mem_mergeSort, List.mem_flatMap,
    List.mem_filter, decide_eq_true_eq, Table.mem_iff]
  constructor
  · rintro ⟨t', ⟨l, ⟨hl, -, hlb⟩, ht', -, hid', -⟩, heq⟩
    exact ⟨l, hl, hlb, hid'.symm.trans heq⟩
  · rintro ⟨l, hl, hlb, hlt⟩
    obtain ⟨b', hb', hbid', hbw'⟩ := store.bookmark_tags_bookmark_fkey l hl
    have hsame : b' = b := Table.eq_of_key hb' hb (hbid'.trans (hlb.trans hbid.symm))
    have hlw : l.workspaceId = tx.workspaceId := by rw [← hbw', hsame, hbw]
    exact ⟨t, ⟨l, ⟨hl, hlw, hlb⟩, ht, hw.trans hlw.symm, hlt.symm, ho⟩, rfl⟩

/-- The links of a tag. -/
def tagLinkCount (c : Content) (t : Uuid) : ℕ := c.bookmarkTags.count fun l => decide (l.tagId = t)

theorem countP_tagLinks {w : Uuid} {tagIds : List Uuid} (hnodup : tagIds.Nodup) {t : Uuid} (ht : t ∈ tagIds)
    (free : BookmarkTag → Bool) (bookmarkIds : List Uuid) :
    (tagLinks w bookmarkIds tagIds).countP (fun l => decide (l.tagId = t) && free l) =
      bookmarkIds.countP fun b => free ⟨w, b, t⟩ := by
  have hone (b : Uuid) : (tagIds.map fun t => (⟨w, b, t⟩ : BookmarkTag)).countP (fun l => decide (l.tagId = t) && free l) =
      if free ⟨w, b, t⟩ then 1 else 0 := by
    rw [List.countP_map]
    have hcount : tagIds.countP ((fun l : BookmarkTag => decide (l.tagId = t) && free l) ∘ fun t => ⟨w, b, t⟩) =
        tagIds.countP fun t' => decide (t' = t) && free ⟨w, b, t⟩ := by
      refine List.countP_congr fun t' _ => ?_
      by_cases heq : t' = t <;> simp [heq]
    rw [hcount]
    cases hfree : free ⟨w, b, t⟩
    · simp
    · have honly := List.count_eq_one_of_mem hnodup ht
      rw [List.count_eq_countP] at honly
      rw [if_pos rfl, ← honly]
      refine List.countP_congr fun t' _ => ?_
      simp
  induction bookmarkIds with
  | nil => rfl
  | cons b rest ih =>
    rw [tagLinks, List.flatMap_cons, List.countP_append, hone b, List.countP_cons]
    rw [tagLinks] at ih
    rw [ih, Nat.add_comm]

theorem tagLinks_pairwise {w : Uuid} {bookmarkIds tagIds : List Uuid} (hb : bookmarkIds.Nodup) (ht : tagIds.Nodup) :
    (tagLinks w bookmarkIds tagIds).Pairwise fun l l' => Table.conflicts BookmarkTag.key noIndex l' l = false := by
  have hkeys : ((tagLinks w bookmarkIds tagIds).map BookmarkTag.key).Nodup := by
    have hproduct : (tagLinks w bookmarkIds tagIds).map BookmarkTag.key = bookmarkIds ×ˢ tagIds := by
      rw [tagLinks, List.map_flatMap]
      refine List.flatMap_congr fun b _ => ?_
      rw [List.map_map]
      rfl
    rw [hproduct]
    exact hb.product ht
  refine (List.pairwise_map.mp hkeys).imp fun {l l'} hne => ?_
  rw [Table.conflicts, noIndex, Bool.or_false]
  exact decide_eq_false (Ne.symm hne)

/-- **What the insert writes of a tag**: one link for each bookmark that does not carry it. -/
theorem countP_written {w : Uuid} {bookmarkIds tagIds : List Uuid} (hb : bookmarkIds.Nodup) (ht : tagIds.Nodup) {t : Uuid}
    (c : Content) (hin : t ∈ tagIds) :
    ((c.bookmarkTags.insertAll noIndex (tagLinks w bookmarkIds tagIds)).2).countP (fun l => decide (l.tagId = t)) =
      bookmarkIds.countP fun b => !hasLink c b t := by
  rw [Table.insertAll_inserted _ (tagLinks_pairwise hb ht), List.countP_filter]
  refine (countP_tagLinks ht hin (fun l => !c.bookmarkTags.any (Table.conflicts BookmarkTag.key noIndex l)) bookmarkIds).trans
    (List.countP_congr fun b _ => ?_)
  have hsame : c.bookmarkTags.any (Table.conflicts BookmarkTag.key noIndex ⟨w, b, t⟩) = hasLink c b t := by
    refine congrArg (List.any c.bookmarkTags.rows) (funext fun l => ?_)
    rw [Table.conflicts, noIndex, Bool.or_false, BookmarkTag.key, BookmarkTag.key]
    exact decide_eq_decide.mpr ⟨fun h => ⟨(congrArg Prod.fst h).symm, (congrArg Prod.snd h).symm⟩,
      fun h => Prod.ext h.1.symm h.2.symm⟩
  rw [hsame]

theorem countP_unwritten {w : Uuid} {bookmarkIds tagIds : List Uuid} (c : Content) {t : Uuid} (hout : t ∉ tagIds) :
    ((c.bookmarkTags.insertAll noIndex (tagLinks w bookmarkIds tagIds)).2).countP (fun l => decide (l.tagId = t)) = 0 := by
  refine List.countP_eq_zero.mpr fun l hl => ?_
  have hin := (mem_tagLinks.mp ((Table.inserted_sublist _ _).subset hl)).2.2
  intro heq
  exact hout (of_decide_eq_true heq ▸ hin)

/-! ## The preview of the tags -/

/-- The state of the preview: the tags asked for have their number, every other one has none. -/
structure Counted (wanted : List Tag) (n : Uuid → ℕ) (preview : Preview) : Prop where
  asked : ∀ t ∈ wanted, ∃ e, preview.get t.id = some e ∧ e.added = n t.id
  other : ∀ k e, preview.get k = some e → (∀ t ∈ wanted, t.id ≠ k) → e.added = 0
  named : ∀ k e, preview.get k = some e → e.id = k

variable {wanted : List Tag} {n n' : Uuid → ℕ} {preview : Preview}

theorem Counted.congr (h : Counted wanted n preview) (hn : ∀ t ∈ wanted, n t.id = n' t.id) :
    Counted wanted n' preview where
  asked t ht := by
    obtain ⟨e, he, hadded⟩ := h.asked t ht
    exact ⟨e, he, hadded.trans (hn t ht)⟩
  other := h.other
  named := h.named

/-- A tag that the bookmark carries adds nothing. -/
theorem Counted.carried (h : Counted wanted n preview) (t : Tag) : Counted wanted n (countCarried preview t) := by
  have hentry : ((preview.get t.id).getD (Tag.uncounted t)).id = t.id := by
    cases hget : preview.get t.id with
    | none => rfl
    | some e => exact h.named t.id e hget
  constructor
  · intro t' ht'
    obtain ⟨e, he, hadded⟩ := h.asked t' ht'
    rw [countCarried, JsMap.get_set]
    split
    · rename_i heq
      exact ⟨_, rfl, by rw [heq, he]; exact hadded⟩
    · exact ⟨e, he, hadded⟩
  · intro k e hget hno
    rw [countCarried, JsMap.get_set] at hget
    split at hget
    · rename_i heq
      cases hget
      cases hold : preview.get t.id with
      | none => rfl
      | some e' => exact h.other t.id e' hold (heq ▸ hno)
    · exact h.other k e hget hno
  · intro k e hget
    rw [countCarried, JsMap.get_set] at hget
    split at hget
    · rename_i heq
      cases hget
      exact hentry.trans heq
    · exact h.named k e hget

theorem Counted.carriedAll (h : Counted wanted n preview) (tags : List Tag) :
    Counted wanted n (tags.foldl countCarried preview) := by
  induction tags generalizing preview with
  | nil => exact h
  | cons t rest ih => exact ih (h.carried t)

/-- A tag asked for counts once, unless the bookmark carries it. -/
theorem Counted.added (h : Counted wanted n preview) (has : List Uuid) {t : Tag} (ht : t ∈ wanted) :
    Counted wanted (fun k => n k + if k = t.id ∧ k ∉ has then 1 else 0) (countAdded has preview t) := by
  obtain ⟨e, he, hadded⟩ := h.asked t ht
  by_cases hhas : t.id ∈ has
  · have hsame : countAdded has preview t = preview := by
      rw [countAdded, he]
      exact if_pos hhas
    rw [hsame]
    refine h.congr fun t' _ => ?_
    rw [if_neg fun hboth => hboth.2 (hboth.1 ▸ hhas), Nat.add_zero]
  · have hset : countAdded has preview t =
        preview.set t.id { e with bookmarkCount := e.bookmarkCount + 1, added := e.added + 1 } := by
      rw [countAdded, he]
      exact if_neg hhas
    rw [hset]
    constructor
    · intro t' ht'
      rw [JsMap.get_set]
      split
      · rename_i heq
        refine ⟨_, rfl, ?_⟩
        rw [if_pos ⟨heq.symm, heq ▸ hhas⟩, ← heq, ← hadded]
      · rename_i hne
        obtain ⟨e', he', hadded'⟩ := h.asked t' ht'
        exact ⟨e', he', by rw [if_neg fun hboth => hne hboth.1.symm, Nat.add_zero, hadded']⟩
    · intro k e' hget hno
      rw [JsMap.get_set, if_neg (hno t ht)] at hget
      exact h.other k e' hget hno
    · intro k e' hget
      rw [JsMap.get_set] at hget
      split at hget
      · rename_i heq
        cases hget
        exact (h.named t.id e he).trans heq
      · exact h.named k e' hget

theorem Counted.addedAll (h : Counted wanted n preview) (has : List Uuid) {tags : List Tag}
    (hnodup : (tags.map Tag.id).Nodup) (hsub : ∀ t ∈ tags, t ∈ wanted) :
    Counted wanted (fun k => n k + if k ∈ tags.map Tag.id ∧ k ∉ has then 1 else 0)
      (tags.foldl (countAdded has) preview) := by
  induction tags generalizing n preview with
  | nil =>
    refine h.congr fun t _ => ?_
    rw [if_neg fun hboth => List.not_mem_nil hboth.1, Nat.add_zero]
  | cons t rest ih =>
    rw [List.map_cons, List.nodup_cons] at hnodup
    have hrest := ih (h.added has (hsub t List.mem_cons_self)) hnodup.2 fun t' ht' => hsub t' (List.mem_cons_of_mem t ht')
    refine hrest.congr fun t' _ => ?_
    by_cases heq : t'.id = t.id
    · have hnot : t'.id ∉ rest.map Tag.id := heq ▸ hnodup.1
      simp [heq, hnodup.1]
    · simp [heq]

theorem Counted.bookmark (h : Counted wanted n preview) (hnodup : (wanted.map Tag.id).Nodup) (carried : Uuid → List Tag)
    (b : Uuid) : Counted wanted (fun k => n k + if k ∉ (carried b).map Tag.id then 1 else 0)
      (countBookmark wanted carried preview b) := by
  refine ((h.carriedAll (carried b)).addedAll ((carried b).map Tag.id) hnodup fun t ht => ht).congr fun t ht => ?_
  have hin : t.id ∈ wanted.map Tag.id := List.mem_map_of_mem ht
  simp [hin]

theorem Counted.bookmarks (h : Counted wanted n preview) (hnodup : (wanted.map Tag.id).Nodup) (carried : Uuid → List Tag)
    (owned : List Uuid) : Counted wanted (fun k => n k + owned.countP fun b => decide (k ∉ (carried b).map Tag.id))
      (owned.foldl (countBookmark wanted carried) preview) := by
  induction owned generalizing n preview with
  | nil => exact h
  | cons b rest ih =>
    refine (ih (h.bookmark hnodup carried b)).congr fun t _ => ?_
    rw [List.countP_cons]
    simp only [decide_eq_true_eq]
    omega

/-- The preview at its start: every tag asked for, counted for nothing. -/
theorem counted_start (wanted : List Tag) :
    Counted wanted (fun _ => 0) (wanted.foldl (fun preview t => preview.set t.id (Tag.uncounted t)) ∅) := by
  have hfold : ∀ (tags : List Tag) (preview : Preview),
      (∀ k e, preview.get k = some e → e.added = 0 ∧ e.id = k) →
      (∀ k e, (tags.foldl (fun preview t => preview.set t.id (Tag.uncounted t)) preview).get k = some e →
        e.added = 0 ∧ e.id = k) ∧
      ∀ k, (∃ e, preview.get k = some e) ∨ k ∈ tags.map Tag.id →
        ∃ e, (tags.foldl (fun preview t => preview.set t.id (Tag.uncounted t)) preview).get k = some e := by
    intro tags
    induction tags with
    | nil =>
      intro preview h
      exact ⟨h, fun k hk => hk.elim id fun hmem => absurd hmem List.not_mem_nil⟩
    | cons t rest ih =>
      intro preview h
      have hset : ∀ k e, (preview.set t.id (Tag.uncounted t)).get k = some e → e.added = 0 ∧ e.id = k := by
        intro k e hget
        rw [JsMap.get_set] at hget
        split at hget
        · rename_i heq
          cases hget
          exact ⟨rfl, heq⟩
        · exact h k e hget
      obtain ⟨hall, hthere⟩ := ih _ hset
      refine ⟨hall, fun k hk => hthere k ?_⟩
      by_cases heq : t.id = k
      · exact .inl ⟨_, by rw [JsMap.get_set, if_pos heq]⟩
      · rcases hk with ⟨e, he⟩ | hmem
        · exact .inl ⟨e, by rw [JsMap.get_set, if_neg heq]; exact he⟩
        · rw [List.map_cons, List.mem_cons] at hmem
          exact .inr (hmem.resolve_left fun hk => heq hk.symm)
  obtain ⟨hall, hthere⟩ := hfold wanted ∅ fun k e hget => absurd hget (by simp)
  constructor
  · intro t ht
    obtain ⟨e, he⟩ := hthere t.id (.inr (List.mem_map_of_mem ht))
    exact ⟨e, he, (hall _ e he).1⟩
  · exact fun k e hget _ => (hall k e hget).1
  · exact fun k e hget => (hall k e hget).2

/-! ## Shares -/

/-- The identifiers of the shares to come are unused, and no two of them are the same. -/
structure Fresh (newId : ℕ → Uuid) (store : BulkStore) : Prop where
  injective : Function.Injective newId
  unused : ∀ s ∈ store.content.bookmarkShares, ∀ i, s.id ≠ newId i

theorem sqlEq_self {α : Type*} [DecidableEq α] (a : Option α) : sqlEq a a = a.isSome := by
  cases a with
  | none => rfl
  | some x => exact decide_eq_true rfl

theorem target_isSome (target : ShareTarget) :
    (target.targetAccountId.isSome || target.targetTeamId.isSome) = true := by
  have hcheck := target.target_check
  cases ha : target.targetAccountId with
  | some a => rfl
  | none =>
    cases ht : target.targetTeamId with
    | some t => rfl
    | none => exact absurd (by rw [ha, ht]) hcheck

theorem isShared_iff {w : Uuid} {target : ShareTarget} {b : Uuid} :
    store.isShared w target b = true ↔ ∃ s ∈ store.content.bookmarkShares, (s.workspaceId = w ∧ s.bookmarkId = b) ∧
      (sqlEq s.targetAccountId target.targetAccountId || sqlEq s.targetTeamId target.targetTeamId) = true := by
  simp only [BulkStore.isShared, Table.any_iff, Bool.and_eq_true, decide_eq_true_eq]

theorem mem_unsharedWith {bookmarkIds : List Uuid} {target : ShareTarget} {b : Uuid} :
    b ∈ store.unsharedWith tx bookmarkIds target ↔ b ∈ bookmarkIds ∧ store.isShared tx.workspaceId target b = false := by
  simp only [BulkStore.unsharedWith, List.mem_filter, Bool.not_eq_true']

/-- The identifiers that a pass draws. -/
def drawnIds (newId : ℕ → Uuid) (drawn count : ℕ) : List Uuid := (List.range count).map fun i => newId (drawn + i)

theorem sqlEq_comm {α : Type*} [DecidableEq α] (a b : Option α) : sqlEq a b = sqlEq b a := by
  rw [Bool.eq_iff_iff, sqlEq_iff, sqlEq_iff]
  exact exists_congr fun x => and_comm

theorem map_newShares (w : Uuid) (target : ShareTarget) {ids missing : List Uuid} (h : ids.length = missing.length) :
    (BulkStore.newShares w target ids missing).map BookmarkShare.id = ids ∧
      (BulkStore.newShares w target ids missing).map BookmarkShare.bookmarkId = missing := by
  induction ids generalizing missing with
  | nil =>
    cases missing with
    | nil => exact ⟨rfl, rfl⟩
    | cons b missing => cases h
  | cons id ids ih =>
    cases missing with
    | nil => cases h
    | cons b missing =>
      obtain ⟨hids, hmissing⟩ := ih (Nat.succ.inj h)
      exact ⟨congrArg (id :: ·) hids, congrArg (b :: ·) hmissing⟩

/-- **A pass with unused identifiers writes every missing share.** -/
theorem inserted_newShares {w : Uuid} {target : ShareTarget} {ids missing : List Uuid}
    (hlength : ids.length = missing.length) (hids : ids.Nodup) (hunused : ∀ s ∈ store.content.bookmarkShares, s.id ∉ ids)
    (hnodup : missing.Nodup)
    (hmissing : ∀ b ∈ missing, store.isShared w target b = false ∧ bookmarkIn store.content w b = true) :
    (store.content.bookmarkShares.insertAll BulkStore.sameTarget (BulkStore.newShares w target ids missing)).2 =
      BulkStore.newShares w target ids missing := by
  obtain ⟨hmapIds, hmapMissing⟩ := map_newShares w target hlength
  have hpairwise : (BulkStore.newShares w target ids missing).Pairwise fun s s' =>
      Table.conflicts BookmarkShare.id BulkStore.sameTarget s' s = false := by
    have hone := List.pairwise_map.mp (hmapIds ▸ hids : ((BulkStore.newShares w target ids missing).map _).Nodup)
    have htwo := List.pairwise_map.mp (hmapMissing ▸ hnodup : ((BulkStore.newShares w target ids missing).map _).Nodup)
    refine (hone.and htwo).imp fun {s s'} hne => ?_
    simp [Table.conflicts, BulkStore.sameTarget, Ne.symm hne.1, Ne.symm hne.2]
  rw [Table.insertAll_inserted _ hpairwise, List.filter_eq_self]
  intro s hs
  obtain ⟨hw, hb, hid, htarget⟩ := BulkStore.mem_newShares hs
  obtain ⟨hno, hin⟩ := hmissing _ hb
  rw [Bool.not_eq_true', Table.any, List.any_eq_false]
  intro s₀ hs₀ hconflict
  rw [Table.conflicts, Bool.or_eq_true, decide_eq_true_eq] at hconflict
  rcases hconflict with hsame | hsame
  · exact hunused s₀ hs₀ (hsame ▸ hid)
  · rw [BulkStore.sameTarget, Bool.and_eq_true, decide_eq_true_eq] at hsame
    obtain ⟨hbook, hsame⟩ := hsame
    obtain ⟨b, hbmem, hbid, hbw⟩ := bookmarkIn_iff.mp hin
    obtain ⟨b₀, hb₀, hid₀, hw₀⟩ := store.bookmark_shares_bookmark_fkey s₀ hs₀
    have hb : b₀ = b := Table.eq_of_key hb₀ hbmem (hid₀.trans (hbook.symm.trans hbid.symm))
    have hshared : store.isShared w target s.bookmarkId = true := by
      refine isShared_iff.mpr ⟨s₀, hs₀, ⟨?_, hbook.symm⟩, ?_⟩
      · rw [← hw₀, hb, hbw]
      · rw [← htarget, sqlEq_comm s₀.targetAccountId, sqlEq_comm s₀.targetTeamId]
        exact hsame
    rw [hshared] at hno
    cases hno

/-- The store after a pass. -/
theorem insertShares_fresh {w : Uuid} {target : ShareTarget} {ids missing : List Uuid}
    (hlength : ids.length = missing.length) (hids : ids.Nodup) (hunused : ∀ s ∈ store.content.bookmarkShares, s.id ∉ ids)
    (hnodup : missing.Nodup)
    (hmissing : ∀ b ∈ missing, store.isShared w target b = false ∧ bookmarkIn store.content w b = true) :
    ∃ store', store.insertShares w target ids missing = (.ok missing.length, store') ∧
      store'.content.bookmarkShares.rows =
        store.content.bookmarkShares.rows ++ BulkStore.newShares w target ids missing ∧
      (∀ b, store.isShared w target b = true ∨ b ∈ missing → store'.isShared w target b = true) := by
  have hwritten := inserted_newShares hlength hids hunused hnodup hmissing
  have hcount : (BulkStore.newShares w target ids missing).length = missing.length := by
    rw [BulkStore.newShares, List.length_zipWith, hlength, Nat.min_self]
  unfold BulkStore.insertShares
  rw [dif_pos fun id hid => (hmissing id hid).2]
  simp only [hwritten, hcount]
  refine ⟨_, rfl, (Table.rows_insertAll _ _).trans (congrArg (store.content.bookmarkShares.rows ++ ·) hwritten),
    fun b hb => ?_⟩
  rw [isShared_iff]
  rcases hb with hb | hb
  · obtain ⟨s, hs, hrest⟩ := isShared_iff.mp hb
    exact ⟨s, Table.mem_insertAll.mpr (.inl hs), hrest⟩
  · have hmap := (map_newShares w target hlength).2
    obtain ⟨s, hs, hsb⟩ := List.mem_map.mp (hmap.symm ▸ hb : b ∈ (BulkStore.newShares w target ids missing).map _)
    obtain ⟨hw, -, -, htarget⟩ := BulkStore.mem_newShares hs
    refine ⟨s, Table.mem_insertAll.mpr (.inr (hwritten.symm ▸ hs)), ⟨hw, hsb⟩, ?_⟩
    rw [htarget, sqlEq_self, sqlEq_self]
    exact target_isSome target

variable (tx ownerId) in
/-- **A share with unused identifiers ends after its first pass**, with every missing share written. -/
theorem grant_fresh {newId : ℕ → Uuid} (hfresh : Fresh newId store) (bookmarkIds : List Uuid) (target : ShareTarget) :
    ∃ store' written, BulkStore.grant tx newId (store.ownedLiveBookmarks tx ownerId bookmarkIds) target 0 0
        BulkStore.GRANT_ATTEMPTS store =
        (.ok (store.unsharedWith tx (store.ownedLiveBookmarks tx ownerId bookmarkIds) target).length, store') ∧
      store'.content.bookmarkShares.rows = store.content.bookmarkShares.rows ++ written ∧
      written.length = (store.unsharedWith tx (store.ownedLiveBookmarks tx ownerId bookmarkIds) target).length ∧
      ∀ s ∈ written, s.workspaceId = tx.workspaceId ∧ s.toShareTarget = target := by
  generalize howned : store.ownedLiveBookmarks tx ownerId bookmarkIds = owned
  generalize hmissing : store.unsharedWith tx owned target = missing
  by_cases hnone : missing = []
  · refine ⟨store, [], ?_, (List.append_nil _).symm, congrArg List.length hnone.symm,
      fun s hs => absurd hs List.not_mem_nil⟩
    rw [BulkStore.GRANT_ATTEMPTS, BulkStore.grant, hmissing, if_pos hnone, hnone]
    rfl
  · have hnodup : missing.Nodup := by
      rw [← hmissing, ← howned]
      exact (ownedLiveBookmarks_nodup bookmarkIds).filter _
    have hids : (drawnIds newId 0 missing.length).Nodup :=
      List.Nodup.map (fun i j hij => Nat.add_left_cancel (hfresh.injective hij)) List.nodup_range
    have hunused : ∀ s ∈ store.content.bookmarkShares, s.id ∉ drawnIds newId 0 missing.length := by
      intro s hs hin
      obtain ⟨i, -, hi⟩ := List.mem_map.mp hin
      exact hfresh.unused s hs _ hi.symm
    have hlength : (drawnIds newId 0 missing.length).length = missing.length := by
      rw [drawnIds, List.length_map, List.length_range]
    obtain ⟨store', hinsert, hrows, hafter⟩ := insertShares_fresh hlength hids hunused hnodup fun b hb => by
      rw [← hmissing] at hb
      obtain ⟨hin, hno⟩ := mem_unsharedWith.mp hb
      rw [← howned] at hin
      obtain ⟨row, hrow, hid, hw, -⟩ := mem_ownedLiveBookmarks.mp hin
      exact ⟨hno, bookmarkIn_iff.mpr ⟨row, hrow, hid, hw⟩⟩
    have hdone : store'.unsharedWith tx owned target = [] := by
      refine List.filter_eq_nil_iff.mpr fun b hb => ?_
      rw [Bool.not_eq_true', Bool.not_eq_false]
      refine hafter b ?_
      by_cases hshared : store.isShared tx.workspaceId target b = true
      · exact .inl hshared
      · exact .inr (hmissing ▸ mem_unsharedWith.mpr ⟨hb, Bool.not_eq_true _ ▸ hshared⟩)
    refine ⟨store', _, ?_, hrows, ?_, fun s hs => ?_⟩
    · rw [BulkStore.GRANT_ATTEMPTS, BulkStore.grant]
      simp only [hmissing, if_neg hnone]
      rw [drawnIds] at hinsert
      rw [hinsert]
      simp only
      rw [BulkStore.grant]
      simp only [hdone, if_pos, Nat.zero_add]
    · rw [BulkStore.newShares, List.length_zipWith, hlength, Nat.min_self]
    · obtain ⟨hw, -, -, htarget⟩ := BulkStore.mem_newShares hs
      exact ⟨hw, htarget⟩

end SlugBase.Bulk
