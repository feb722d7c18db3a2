import SlugBase.Import.Run

/-!
# Places and batches

What the two loops of an import do: the loop that gives out the places, and the loop over the batches.

* **`settle_created`**, `settle_positions`: the first candidates get the places that were taken, and every
  bookmark of the file is created, skipped or failed;
* `batchesOf_flatten`: the batches are the created bookmarks in their order;
* `Written.Holds`: what the batches so far have written; **`writeBatch_holds`** for one batch and
  **`writeBatches_holds`** for all, whatever other transactions do between them.
-/

namespace SlugBase.Import

open JavaScript Relational

/-! ## Places -/

theorem settle_created (taken created : ℕ) (placed : List Placed) :
    (settle taken created placed).created = (candidatesOf placed).take (taken - created) := by
  induction placed generalizing created with
  | nil => simp [settle, candidatesOf]
  | cons item placed ih =>
    cases item with
    | refused r => exact ih created
    | duplicate b => exact ih created
    | candidate b =>
      have hcons : candidatesOf (.candidate b :: placed) = b :: candidatesOf placed := rfl
      rw [settle, hcons]
      split_ifs with hroom
      · obtain ⟨n, hn⟩ : ∃ n, taken - created = n + 1 := ⟨taken - created - 1, by omega⟩
        have hnext : taken - (created + 1) = n := by omega
        rw [hn, List.take_succ_cons, ← hnext]
        exact congrArg (b :: ·) (ih (created + 1))
      · have hnone : taken - created = 0 := by omega
        rw [hnone, List.take_zero]
        have := ih created
        rwa [hnone, List.take_zero] at this

/-- Every bookmark of the file is in exactly one of the three lists. -/
theorem settle_positions (taken created : ℕ) (placed : List Placed) :
    (settle taken created placed).positions.Perm (placed.map Placed.position) := by
  induction placed generalizing created with
  | nil => exact List.Perm.nil
  | cons item placed ih =>
    have hfailed : ∀ (j : Judged) (f : Failed), ({ j with failed := f :: j.failed } : Judged).positions.Perm
        (f.entry.position :: j.positions) := by
      intro j f
      simp only [Judged.positions, List.map_cons]
      exact ((List.perm_middle.append_left _).trans List.perm_middle)
    have hskipped : ∀ (j : Judged) (s : Skipped), ({ j with skipped := s :: j.skipped } : Judged).positions.Perm
        (s.entry.position :: j.positions) := by
      intro j s
      simp only [Judged.positions, List.map_cons]
      exact List.perm_middle
    cases item with
    | refused r => exact (hfailed _ _).trans ((ih created).cons _)
    | duplicate b => exact (hskipped _ _).trans ((ih created).cons _)
    | candidate b =>
      rw [settle]
      split_ifs
      · exact (ih (created + 1)).cons _
      · exact (hskipped _ _).trans ((ih created).cons _)

/-! ## Batches -/

theorem batchesOf_flatten {α : Type} (l : List α) : (batchesOf l).flatten = l := by
  have hprefix : ∀ n, (((List.range n).map fun k => (l.drop (importBatchSize * k)).take importBatchSize).flatten) =
      l.take (importBatchSize * n) := by
    intro n
    induction n with
    | zero => simp
    | succ n ih =>
      rw [List.range_succ, List.map_append, List.flatten_append, ih, Nat.mul_succ, List.take_add]
      simp
  rw [batchesOf, hprefix, List.take_of_length_le]
  simp only [importBatchSize]
  omega

/-! ## Identifiers and links -/

theorem idOf_ok {spelledAs : List (JsString × JsString)} {ids : List (JsString × Uuid)} {name : JsString} {id : Uuid} :
    idOf spelledAs ids name = .ok id ↔ ∃ wanted, spelledAs.lookup name = some wanted ∧ ids.lookup wanted = some id := by
  unfold idOf
  cases hs : spelledAs.lookup name with
  | none => simp
  | some wanted => cases hi : ids.lookup wanted <;> simp [hi]

/-- **The pairs of one bookmark**: one for the identifier of each of its names, and no more than the names it is
linked by. -/
theorem pairsOf_ok {spelledAs : List (JsString × JsString)} {ids : List (JsString × Uuid)} {names : List JsString}
    {bookmarkId : Uuid} {pairs : List (Uuid × Uuid)} (h : pairsOf spelledAs ids names bookmarkId = .ok pairs) :
    (∀ name ∈ names, ∃ id, idOf spelledAs ids name = .ok id ∧ (bookmarkId, id) ∈ pairs) ∧
      (∀ l ∈ pairs, ∃ name ∈ names, ∃ id, idOf spelledAs ids name = .ok id ∧ l = (bookmarkId, id)) ∧
      pairs.length ≤ (linkedNames spelledAs names).length := by
  obtain ⟨found, hfound, h⟩ := ok_of_bind h
  cases h
  obtain ⟨hto, hfrom⟩ := mem_of_mapM hfound
  refine ⟨fun name hname => ?_, fun l hl => ?_, ?_⟩
  · obtain ⟨id, hid, hok⟩ := hto name hname
    exact ⟨id, hok, List.mem_map.mpr ⟨id, mem_unique.mpr hid, rfl⟩⟩
  · obtain ⟨id, hid, rfl⟩ := List.mem_map.mp hl
    obtain ⟨name, hname, hok⟩ := hfrom id (mem_unique.mp hid)
    exact ⟨name, hname, id, hok, rfl⟩
  · rw [List.length_map, linkedNames]
    refine length_unique_le (fun wanted => ids.lookup wanted) fun id hid => ?_
    obtain ⟨name, hname, hok⟩ := hfrom id hid
    obtain ⟨wanted, hwanted, hlookup⟩ := idOf_ok.mp hok
    exact ⟨wanted, List.mem_map.mpr ⟨name, hname, by rw [hwanted]; rfl⟩, hlookup⟩

/-- The links of one kind are those of these bookmarks: one of each name, none besides, and no more than the
names they are linked by. -/
structure LinksExactly (ids : ImportIds) (spelledAs : List (JsString × JsString)) (resolved : List (JsString × Uuid))
    (namesOf : ImportBookmark → List JsString) (done : List Numbered) (links : List (Uuid × Uuid)) : Prop where
  linked : ∀ p ∈ done, ∀ name ∈ namesOf p.1,
    ∃ id, idOf spelledAs resolved name = .ok id ∧ (ids.newBookmarkId p.2, id) ∈ links
  only : ∀ l ∈ links, ∃ p ∈ done, ∃ name ∈ namesOf p.1,
    ∃ id, idOf spelledAs resolved name = .ok id ∧ l = (ids.newBookmarkId p.2, id)
  count : links.length ≤ total (fun p => (linkedNames spelledAs (namesOf p.1)).length) done

namespace LinksExactly

variable {ids : ImportIds} {spelledAs : List (JsString × JsString)} {resolved : List (JsString × Uuid)}
  {namesOf : ImportBookmark → List JsString} {done batch : List Numbered} {links more : List (Uuid × Uuid)}

theorem nil : LinksExactly ids spelledAs resolved namesOf [] [] :=
  ⟨fun _ hp => absurd hp List.not_mem_nil, fun _ hl => absurd hl List.not_mem_nil, Nat.le_refl _⟩

theorem append (h : LinksExactly ids spelledAs resolved namesOf done links)
    (h' : LinksExactly ids spelledAs resolved namesOf batch more) :
    LinksExactly ids spelledAs resolved namesOf (done ++ batch) (links ++ more) where
  linked p hp name hname := by
    rcases List.mem_append.mp hp with hp | hp
    · obtain ⟨id, hid, hmem⟩ := h.linked p hp name hname
      exact ⟨id, hid, List.mem_append_left _ hmem⟩
    · obtain ⟨id, hid, hmem⟩ := h'.linked p hp name hname
      exact ⟨id, hid, List.mem_append_right _ hmem⟩
  only l hl := by
    rcases List.mem_append.mp hl with hl | hl
    · obtain ⟨p, hp, hrest⟩ := h.only l hl
      exact ⟨p, List.mem_append_left _ hp, hrest⟩
    · obtain ⟨p, hp, hrest⟩ := h'.only l hl
      exact ⟨p, List.mem_append_right _ hp, hrest⟩
  count := by
    have hdone := h.count
    have hbatch := h'.count
    rw [List.length_append, total_append]
    omega

theorem of_linksOfBatch (h : linksOfBatch ids spelledAs resolved namesOf batch = .ok links) :
    LinksExactly ids spelledAs resolved namesOf batch links := by
  induction batch generalizing links with
  | nil =>
    cases h
    exact nil
  | cons p batch ih =>
    obtain ⟨pairs, hpairs, h⟩ := ok_of_bind h
    cases h
    rw [List.mapM_cons] at hpairs
    obtain ⟨first, hfirst, hpairs⟩ := ok_of_bind hpairs
    obtain ⟨rest, hrest, hpairs⟩ := ok_of_bind hpairs
    cases hpairs
    obtain ⟨hto, hfrom, hcount⟩ := pairsOf_ok hfirst
    have hone : LinksExactly ids spelledAs resolved namesOf [p] first := by
      refine ⟨fun q hq name hname => ?_, fun l hl => ?_, by simpa only [total, Nat.add_zero] using hcount⟩
      · obtain rfl := List.mem_singleton.mp hq
        exact hto name hname
      · exact ⟨p, List.mem_singleton_self p, hfrom l hl⟩
    exact hone.append (ih (by rw [linksOfBatch, hrest]; rfl))

end LinksExactly

/-! ## What the batches have written -/

/-- The row of a created bookmark as it is in the table: without its slug when that was lost. -/
def rowWritten (ids : ImportIds) (ask : ImportAsk) (kept : List (ℕ × JsString)) (lost : List Uuid) (p : Numbered) :
    ImportNewBookmark :=
  if ids.newBookmarkId p.2 ∈ lost then (rowOf ids ask kept p).withoutSlug else rowOf ids ask kept p

/-- The batches so far have written the bookmarks of `done`: a row and an event of each, their links, and no slug
twice or of the account's already; `lost` are those that lost their slug. -/
structure Written.Holds (ids : ImportIds) (shelfAt : History) (ask : ImportAsk) (plan : WritePlan)
    (done : List Numbered) (lost : List Uuid) (st : Written) : Prop where
  rows : st.bookmarks.Perm (done.map (rowWritten ids ask plan.kept lost))
  events : st.events = done.map (eventOf ids ask plan)
  lostOf : st.lost = lostOf ids plan lost done
  lostSlug : ∀ p ∈ done, ids.newBookmarkId p.2 ∈ lost → plan.kept.lookup p.1.position ≠ none
  lostDone : ∀ id ∈ lost, ∃ p ∈ done, ids.newBookmarkId p.2 = id
  forwarding : st.forwarding = forwardingOf ids plan lost done
  slugs : (st.bookmarks.filterMap (·.slug)).Nodup
  free : ∀ b ∈ st.bookmarks, ∀ slug, b.slug = some slug →
    ∃ batch, ∀ r ∈ (shelfAt (.insertBookmarks batch)).bookmarks, r.slug ≠ some slug
  folders : LinksExactly ids plan.names.folderOf plan.folderIds (·.folders) done st.folderLinks
  tags : LinksExactly ids plan.names.tagOf plan.tagIds (·.tags) done st.tagLinks

section

variable {ids : ImportIds} {shelfAt : History} {ask : ImportAsk} {plan : WritePlan}

theorem Written.holds_nil : Written.Holds ids shelfAt ask plan [] [] {} where
  rows := List.Perm.nil
  events := rfl
  lostOf := rfl
  lostSlug _ hp := absurd hp List.not_mem_nil
  lostDone _ hid := absurd hid List.not_mem_nil
  forwarding := rfl
  slugs := List.nodup_nil
  free _ hb := absurd hb List.not_mem_nil
  folders := .nil
  tags := .nil

theorem rowWritten_congr {lost lost' : List Uuid} {p : Numbered}
    (h : ids.newBookmarkId p.2 ∈ lost ↔ ids.newBookmarkId p.2 ∈ lost') :
    rowWritten ids ask plan.kept lost p = rowWritten ids ask plan.kept lost' p := by
  simp only [rowWritten, h]

/-- **One batch** writes the bookmarks of the batch, and leaves what was written before. -/
theorem writeBatch_holds {done batch : List Numbered} {lost : List Uuid} {st st' : Written} {number : ℕ}
    (hst : st.Holds ids shelfAt ask plan done lost) (hnumbers : ((done ++ batch).map (·.2)).Nodup)
    (h : writeBatch ids shelfAt ask plan st number batch = .ok st') :
    ∃ lost', st'.Holds ids shelfAt ask plan (done ++ batch) (lost ++ lost') := by
  obtain ⟨⟨rows, slugsLost⟩, hinsert, h⟩ := ok_of_bind h
  dsimp only at h
  split at h
  · cases h
  rename_i hinside
  obtain ⟨folderLinks, hfolders, h⟩ := ok_of_bind h
  obtain ⟨tagLinks, htags, h⟩ := ok_of_bind h
  cases h
  have hid : ∀ p q : Numbered, p ∈ done → q ∈ batch → ids.newBookmarkId p.2 ≠ ids.newBookmarkId q.2 := by
    intro p q hp hq heq
    rw [List.map_append, List.nodup_append] at hnumbers
    exact hnumbers.2.2 _ (List.mem_map_of_mem hp) _ (List.mem_map_of_mem hq) (ids.ascending.injective heq)
  have hbatchIds : ((batch.map (rowOf ids ask plan.kept)).map (·.id)).Nodup := by
    rw [List.map_append, List.nodup_append] at hnumbers
    rw [List.map_map]
    have hcomp : (fun r : ImportNewBookmark => r.id) ∘ rowOf ids ask plan.kept = ids.newBookmarkId ∘ fun p => p.2 := rfl
    rw [hcomp, ← List.map_map]
    exact hnumbers.2.1.map ids.ascending.injective
  obtain ⟨added, rfl, hperm, hslug, hfree, hnodup⟩ := insertBookmarks_ok hbatchIds hinsert
  have hlostBatch : ∀ id ∈ slugsLost, ∃ p ∈ batch, ids.newBookmarkId p.2 = id := by
    intro id hmem
    by_contra hno
    refine hinside (List.any_eq_true.mpr ⟨id, hmem, ?_⟩)
    rw [List.map_map, Bool.not_eq_true', List.contains_eq_mem, decide_eq_false_iff_not, List.mem_map]
    exact fun ⟨p, hp, hpid⟩ => hno ⟨p, hp, hpid⟩
  -- a slug that this batch lost is none of an earlier batch, and the other way round
  have hdone : ∀ p ∈ done, (ids.newBookmarkId p.2 ∈ lost ++ slugsLost ↔ ids.newBookmarkId p.2 ∈ lost) := by
    intro p hp
    rw [List.mem_append]
    refine or_iff_left fun hmem => ?_
    obtain ⟨q, hq, hqid⟩ := hlostBatch _ hmem
    exact hid p q hp hq hqid.symm
  have hbatch : ∀ p ∈ batch, (ids.newBookmarkId p.2 ∈ lost ++ slugsLost ↔ ids.newBookmarkId p.2 ∈ slugsLost) := by
    intro p hp
    rw [List.mem_append]
    refine or_iff_right fun hmem => ?_
    obtain ⟨q, hq, hqid⟩ := hst.lostDone _ hmem
    exact hid q p hq hp hqid
  refine ⟨slugsLost, ?_, ?_, ?_, ?_, ?_, ?_, ?_, ?_, ?_, ?_⟩
  · rw [List.map_append]
    refine (hst.rows.trans (List.Perm.of_eq ?_)).append (hperm.trans (List.Perm.of_eq ?_))
    · exact List.map_congr_left fun p hp => (rowWritten_congr (hdone p hp)).symm
    · rw [List.map_map]
      exact List.map_congr_left fun p hp => rowWritten_congr (hbatch p hp).symm
  · rw [List.map_append, ← hst.events]
  · simp only [lostOf, List.filter_append, List.map_append, hst.lostOf]
    congr 2
    · refine List.filter_congr fun p hp => ?_
      simp only [List.contains_eq_mem, hdone p hp]
    · refine List.filter_congr fun p hp => ?_
      simp only [List.contains_eq_mem, hbatch p hp]
  · intro p hp hmem
    rcases List.mem_append.mp hp with hp | hp
    · exact hst.lostSlug p hp ((hdone p hp).mp hmem)
    · exact hslug _ (List.mem_map_of_mem hp) ((hbatch p hp).mp hmem)
  · intro id hmem
    rcases List.mem_append.mp hmem with hmem | hmem
    · obtain ⟨p, hp, hpid⟩ := hst.lostDone id hmem
      exact ⟨p, List.mem_append_left _ hp, hpid⟩
    · obtain ⟨p, hp, hpid⟩ := hlostBatch id hmem
      exact ⟨p, List.mem_append_right _ hp, hpid⟩
  · simp only [forwardingOf, List.filterMap_append, hst.forwarding]
    congr 1
    · refine List.filterMap_congr fun p hp => ?_
      simp only [List.contains_eq_mem, hdone p hp]
    · refine List.filterMap_congr fun p hp => ?_
      simp only [List.contains_eq_mem, hbatch p hp]
  · rw [List.filterMap_append, List.nodup_append]
    refine ⟨hst.slugs, hnodup, fun s hs t ht hst' => ?_⟩
    obtain ⟨b, hb, hbs⟩ := List.mem_filterMap.mp hs
    obtain ⟨a, ha, hat⟩ := List.mem_filterMap.mp ht
    exact (hfree a ha t hat).2 b hb (hst' ▸ hbs)
  · intro b hb slug hbs
    rcases List.mem_append.mp hb with hb | hb
    · exact hst.free b hb slug hbs
    · exact ⟨number, (hfree b hb slug hbs).1⟩
  · exact hst.folders.append (.of_linksOfBatch hfolders)
  · exact hst.tags.append (.of_linksOfBatch htags)

/-- **The batches** write every created bookmark once. -/
theorem writeBatches_holds {batches : List (List Numbered × ℕ)} {done : List Numbered} {lost : List Uuid}
    {st st' : Written} (hst : st.Holds ids shelfAt ask plan done lost)
    (hnumbers : ((done ++ (batches.map (·.1)).flatten).map (·.2)).Nodup)
    (h : writeBatches ids shelfAt ask plan batches st = .ok st') :
    ∃ lost', st'.Holds ids shelfAt ask plan (done ++ (batches.map (·.1)).flatten) lost' := by
  induction batches generalizing done lost st with
  | nil =>
    cases h
    exact ⟨lost, by simpa using hst⟩
  | cons b batches ih =>
    obtain ⟨batch, number⟩ := b
    obtain ⟨next, hnext, h⟩ := ok_of_bind h
    rw [List.map_cons, List.flatten_cons, ← List.append_assoc] at hnumbers ⊢
    have hfirst : ((done ++ batch).map (·.2)).Nodup := by
      rw [List.map_append] at hnumbers
      exact (List.nodup_append.mp hnumbers).1
    obtain ⟨lost', hholds⟩ := writeBatch_holds hst hfirst hnext
    exact ih hholds hnumbers h

/-- **The batches of the created bookmarks**, each bookmark with its number, from nothing written. -/
theorem writeBatches_created {created : List ImportBookmark} {written : Written}
    (h : writeBatches ids shelfAt ask plan (batchesOf created.zipIdx).zipIdx {} = .ok written) :
    ∃ lost, written.Holds ids shelfAt ask plan created.zipIdx lost := by
  have hbatches : (((batchesOf created.zipIdx).zipIdx).map (·.1)).flatten = created.zipIdx := by
    rw [List.zipIdx_map_fst, batchesOf_flatten]
  have hnumbers : ((([] : List Numbered) ++ (((batchesOf created.zipIdx).zipIdx).map (·.1)).flatten).map
      (·.2)).Nodup := by
    rw [hbatches, List.nil_append, List.zipIdx_map_snd]
    exact List.nodup_range'
  obtain ⟨lost, hholds⟩ := writeBatches_holds Written.holds_nil hnumbers h
  rw [hbatches, List.nil_append] at hholds
  exact ⟨lost, hholds⟩

end

end SlugBase.Import
