import SlugBase.Import.Exact

/-!
# The preview announces the import

On rows that no other transaction changes, the import answers what the preview announced.

* **`spendRoom_eq_settle`**: the preview's loop over the room and the import's loop over the places judge alike;
* `writeBatches_steady`: on rows that stay every batch is written, and no slug is lost;
* **`importBookmarks_as_previewed`**: the same refusals, and the same result from the same created bookmarks with
  the same slugs, new folders and new tags.
-/

namespace SlugBase.Import

open JavaScript Relational

/-! ## Places -/

theorem takePlaces_eq {shelf : Shelf} {used : ℤ} (h : shelf.bookmarkCount = some used) (ceiling : Option ℕ) (wanted : ℕ) :
    ∃ used', shelf.takePlaces ceiling wanted =
      .taken ((roomUnder ceiling used).elim wanted fun room => min wanted room) used' := by
  refine ⟨used + placesTaken (ceiling.map fun max : ℕ => (max : ℤ)) wanted used, ?_⟩
  simp only [Shelf.takePlaces, h]
  congr 1
  cases ceiling with
  | none => simp [roomUnder, placesTaken]
  | some max =>
    simp only [roomUnder, placesTaken, Option.map_some, Option.elim_some]
    omega

/-- **The two loops judge alike** when as many places are taken as there is room for. -/
theorem spendRoom_eq_settle {skipDuplicates : Bool} {existing seen : List JsString} {room : Option ℕ}
    {taken created wanted : ℕ} {reads : List Read}
    (hwanted : (candidatesOf (place skipDuplicates existing seen reads)).length = wanted)
    (h : (room.elim wanted fun room => min wanted room) = min wanted (taken - created)) :
    spendRoom skipDuplicates existing seen room reads =
      settle taken created (place skipDuplicates existing seen reads) := by
  induction reads generalizing seen room created wanted with
  | nil => rfl
  | cons read reads ih =>
    cases read with
    | refusal r =>
      simp only [spendRoom, place, settle]
      rw [ih hwanted h]
    | bookmark b =>
      simp only [spendRoom, place]
      by_cases hduplicate : isDuplicate skipDuplicates existing seen b = true
      · rw [place, if_pos hduplicate] at hwanted
        rw [if_pos hduplicate, if_pos hduplicate, settle, ih hwanted h]
      rw [place, if_neg hduplicate] at hwanted
      rw [if_neg hduplicate, if_neg hduplicate, settle]
      obtain ⟨rest, hrest⟩ : ∃ n, (candidatesOf (place skipDuplicates existing (b.canonical :: seen) reads)).length = n :=
        ⟨_, rfl⟩
      have hnext : wanted = rest + 1 := hrest ▸ hwanted.symm
      have hih : ∀ room' created', (room'.elim rest fun room => min rest room) = min rest (taken - created') →
          spendRoom skipDuplicates existing (b.canonical :: seen) room' reads =
            settle taken created' (place skipDuplicates existing (b.canonical :: seen) reads) :=
        fun _ _ => ih hrest
      rcases room with _ | _ | room
      · simp only [Option.elim_none] at h
        have hroom : created < taken := by omega
        rw [if_pos hroom]
        simp only [Option.map_none]
        rw [hih none (created + 1) (by rw [Option.elim_none]; omega)]
      · simp only [Option.elim_some] at h
        have hfull : ¬ created < taken := by omega
        rw [if_neg hfull]
        simp only
        rw [hih (some 0) created (by rw [Option.elim_some]; omega)]
      · simp only [Option.elim_some] at h
        have hroom : created < taken := by omega
        rw [if_pos hroom]
        simp only [Option.map_some, Nat.add_sub_cancel]
        rw [hih (some room) (created + 1) (by rw [Option.elim_some]; omega)]

/-! ## Batches on rows that stay -/

section

variable {ids : ImportIds} {shelf : Shelf} {ask : ImportAsk} {plan : WritePlan}

theorem linksOfBatch_resolved {spelledAs : List (JsString × JsString)} {resolved : List (JsString × Uuid)}
    {namesOf : ImportBookmark → List JsString} {batch : List Numbered}
    (h : ∀ p ∈ batch, ∀ name ∈ namesOf p.1, ∃ id, idOf spelledAs resolved name = .ok id) :
    ∃ links, linksOfBatch ids spelledAs resolved namesOf batch = .ok links := by
  obtain ⟨pairs, hpairs⟩ := mapM_ok (f := fun p : Numbered =>
      pairsOf spelledAs resolved (namesOf p.1) (ids.newBookmarkId p.2)) fun p hp => by
    obtain ⟨found, hfound⟩ := mapM_ok (h p hp)
    exact ⟨_, by rw [pairsOf, hfound]; rfl⟩
  exact ⟨pairs.flatten, by rw [linksOfBatch, hpairs]; rfl⟩

/-- Every name of the created bookmarks has an identifier. -/
def WritePlan.Resolves (plan : WritePlan) (created : List Numbered) : Prop :=
  ∀ p ∈ created, (∀ name ∈ p.1.folders, ∃ id, idOf plan.names.folderOf plan.folderIds name = .ok id) ∧
    ∀ name ∈ p.1.tags, ∃ id, idOf plan.names.tagOf plan.tagIds name = .ok id

/-- The row of a bookmark clashes with none of the account's and none of an earlier bookmark. -/
def WritePlan.Fits (plan : WritePlan) (ids : ImportIds) (shelf : Shelf) (ask : ImportAsk) (created : List Numbered) :
    Prop :=
  (∀ p ∈ created, (rowOf ids ask plan.kept p).conflicts shelf.bookmarks [] = false) ∧
    (created.map (rowOf ids ask plan.kept)).Pairwise fun a b => b.clashes a.id a.slug = false

theorem writeBatches_steady {batches : List (List Numbered × ℕ)} {done : List Numbered} {st : Written}
    (hrows : st.bookmarks = done.map (rowOf ids ask plan.kept)) (hlost : st.lost = [])
    (hfits : plan.Fits ids shelf ask (done ++ (batches.map (·.1)).flatten))
    (hresolves : plan.Resolves (batches.map (·.1)).flatten) :
    ∃ st', writeBatches ids (fun _ => shelf) ask plan batches st = .ok st' ∧
      st'.bookmarks = (done ++ (batches.map (·.1)).flatten).map (rowOf ids ask plan.kept) ∧ st'.lost = [] := by
  induction batches generalizing done st with
  | nil => exact ⟨st, rfl, by simpa using hrows, hlost⟩
  | cons b batches ih =>
    obtain ⟨batch, number⟩ := b
    rw [List.map_cons, List.flatten_cons, ← List.append_assoc] at hfits
    rw [List.map_cons, List.flatten_cons] at hresolves
    obtain ⟨hfree, hpairwise⟩ := hfits
    have hbatch : ((done ++ batch).map (rowOf ids ask plan.kept)).Pairwise fun a b => b.clashes a.id a.slug = false := by
      rw [List.map_append] at hpairwise
      exact (List.pairwise_append.mp hpairwise).1
    rw [List.map_append, List.pairwise_append] at hbatch
    obtain ⟨-, hwithin, hacross⟩ := hbatch
    have hinsert : insertBookmarks shelf shelf st.bookmarks (batch.map (rowOf ids ask plan.kept)) =
        .ok (st.bookmarks ++ batch.map (rowOf ids ask plan.kept), []) := by
      refine insertBookmarks_steady hwithin fun r hr => ?_
      obtain ⟨p, hp, rfl⟩ := List.mem_map.mp hr
      have hshelf := hfree p (List.mem_append_left _ (List.mem_append_right _ hp))
      simp only [ImportNewBookmark.conflicts, List.any_nil, Bool.or_false] at hshelf
      simp only [ImportNewBookmark.conflicts, hshelf, Bool.false_or, List.any_eq_false, Bool.not_eq_true]
      exact fun a ha => hacross a (hrows ▸ ha) _ hr
    obtain ⟨folderLinks, hfolders⟩ : ∃ links, linksOfBatch ids plan.names.folderOf plan.folderIds (·.folders) batch =
        .ok links := linksOfBatch_resolved fun p hp => (hresolves p (List.mem_append_left _ hp)).1
    obtain ⟨tagLinks, htags⟩ : ∃ links, linksOfBatch ids plan.names.tagOf plan.tagIds (·.tags) batch =
        .ok links := linksOfBatch_resolved fun p hp => (hresolves p (List.mem_append_left _ hp)).2
    obtain ⟨next, hnext, hbookmarks, hnextLost⟩ : ∃ next, writeBatch ids (fun _ => shelf) ask plan st number batch =
        .ok next ∧ next.bookmarks = (done ++ batch).map (rowOf ids ask plan.kept) ∧ next.lost = [] := by
      refine ⟨_, by simp only [writeBatch, hinsert, hfolders, htags]; rfl, ?_, ?_⟩
      · rw [hrows, List.map_append]
      · simp [hlost, lostOf]
    have hrest : plan.Resolves (batches.map (·.1)).flatten := fun p hp => hresolves p (List.mem_append_right _ hp)
    obtain ⟨st', hst', hdone, hst'Lost⟩ := ih hbookmarks hnextLost ⟨hfree, hpairwise⟩ hrest
    refine ⟨st', ?_, ?_, hst'Lost⟩
    · rw [writeBatches, hnext]
      exact hst'
    · rw [hdone, List.map_cons, List.flatten_cons, List.append_assoc]

/-- The identifiers of new bookmarks are none of the account's bookmarks. -/
def ImportIds.FreshFor (ids : ImportIds) (shelf : Shelf) : Prop :=
  ∀ n, ∀ b ∈ shelf.bookmarks, b.id ≠ ids.newBookmarkId n

theorem mem_of_lookup {l : List (ℕ × JsString)} {n : ℕ} {s : JsString} (h : l.lookup n = some s) : (n, s) ∈ l := by
  obtain ⟨l₁, l₂, rfl, -⟩ := List.lookup_eq_some_iff.mp h
  exact List.mem_append_right _ List.mem_cons_self

/-- The created bookmarks with the slugs of the plan clash with nothing. -/
theorem fits_of_slugPlan {created : List ImportBookmark} (hfresh : ids.FreshFor shelf)
    (hpositions : (created.map (·.position)).Nodup) (names : NamePlan) (folderIds tagIds : List (JsString × Uuid)) :
    WritePlan.Fits ⟨names, folderIds, tagIds, (slugPlanOf (fun _ => shelf) created).kept⟩ ids shelf ask
      created.zipIdx := by
  obtain ⟨hdistinct, hnew, -⟩ := planSlugs_kept (shelf.existingSlugs (slugsToCheck created)) [] created
  constructor
  · intro p hp
    simp only [ImportNewBookmark.conflicts, List.any_nil, Bool.or_false, List.any_eq_false,
      ImportNewBookmark.clashes, Bool.or_eq_true, Bool.and_eq_true, beq_iff_eq, not_or, not_and]
    intro r hr
    refine ⟨hfresh p.2 r hr, fun hsome hslug => ?_⟩
    obtain ⟨slug, hkept⟩ := Option.isSome_iff_exists.mp hsome
    obtain ⟨hfree, -, c, hc, -, hcslug⟩ := hnew _ (mem_of_lookup hkept)
    refine hfree (List.mem_filter.mpr ⟨?_, List.any_eq_true.mpr ⟨r, hr, ?_⟩⟩)
    · exact mem_unique.mpr (List.mem_filterMap.mpr ⟨c, hc, by rw [hcslug]⟩)
    · rw [hslug, beq_iff_eq]
      exact hkept
  · rw [List.pairwise_map]
    have hnumbers : (created.zipIdx.map (·.2)).Nodup := by
      rw [List.zipIdx_map_snd]
      exact List.nodup_range'
    have hplaces : (created.zipIdx.map fun p => p.1.position).Nodup := by
      have hcomp : (fun p : Numbered => p.1.position) = (fun b : ImportBookmark => b.position) ∘ Prod.fst := rfl
      rw [hcomp, ← List.map_map, List.zipIdx_map_fst]
      exact hpositions
    refine List.Nodup.pairwise_of_forall_ne (List.Nodup.of_map _ hnumbers) fun p hp q hq hne => ?_
    simp only [ImportNewBookmark.clashes, Bool.or_eq_false_iff, beq_eq_false_iff_ne, Bool.and_eq_false_iff]
    refine ⟨fun hid => hne (List.inj_on_of_nodup_map hnumbers hp hq (ids.ascending.injective hid)), ?_⟩
    rw [or_iff_not_imp_left, Bool.not_eq_false]
    intro hsome hslug
    obtain ⟨slug, hkept⟩ := Option.isSome_iff_exists.mp hsome
    have hsame := List.inj_on_of_nodup_map hdistinct (mem_of_lookup (hslug.trans hkept)) (mem_of_lookup hkept) rfl
    exact hne (List.inj_on_of_nodup_map hplaces hp hq (Prod.mk.inj hsame).1)

theorem idOf_of_covers {rt : Runtime} {set : NameSet} {spellings : List JsString} {readAt insertAt : ℕ → List NamedRow}
    {toResolve : List NameToResolve} {resolved : ImportResolved} (hcovers : set.Covers rt spellings)
    (hnames : toResolve.map (·.name) = set.wanted)
    (hresolved : resolveNames rt readAt insertAt toResolve = .ok resolved) :
    ∀ name ∈ spellings, ∃ id, idOf set.spelledAs resolved.ids name = .ok id := by
  intro name hname
  obtain ⟨m, hm, hspelled, -⟩ := hcovers.spelled name hname
  rw [← hnames] at hm
  obtain ⟨e, he, rfl⟩ := List.mem_map.mp hm
  obtain ⟨p, hp, hpe⟩ := (resolveNames_ok hresolved).2 e he
  have hsome : (resolved.ids.lookup e.name).isSome := List.lookup_isSome_iff.mpr ⟨p, hp, by rw [hpe, BEq.rfl]⟩
  obtain ⟨id, hid⟩ := Option.isSome_iff_exists.mp hsome
  exact ⟨id, idOf_ok.mpr ⟨e.name, hspelled, hid⟩⟩

end

/-! ## The announcement -/

/-- The outcome of the import that an outcome of the preview announces. -/
def ImportPreviewOutcome.announced : ImportPreviewOutcome → ImportOutcome
  | .unavailable => .unavailable
  | .previewed result => .imported result
  | .tooManyNames newNames => .tooManyNames newNames
  | .tooManyDistinctNames names => .tooManyDistinctNames names
  | .tooManyLinks links => .tooManyLinks links

/-- What the import has written is what the preview judged: the created bookmarks with the slugs they were to
keep, and the folders and tags that its plan of the names misses. -/
structure Announced (rt : Runtime) (ids : ImportIds) (shelf : Shelf) (ask : ImportAsk) (writes : ImportWrites)
    (created : List ImportBookmark) : Prop where
  judged : ∃ used, shelf.bookmarkCount = some used ∧
    created = (previewJudged rt (fun _ => shelf) ask.toImportPreviewAsk used).created
  bookmarks : writes.bookmarks = created.zipIdx.map (rowOf ids ask (slugPlanOf (fun _ => shelf) created).kept)
  names : ∃ names, planNames rt ask.file created = .ok names ∧
    (writes.folders.map (·.name)).Perm (missingIn rt shelf.folders (names.folders.map (·.name))) ∧
    (writes.tags.map (·.name)).Perm (missingIn rt shelf.tags names.tags)

section

variable {rt : Runtime} {ids : ImportIds} {shelf : Shelf} {ask : ImportAsk}

theorem resolveNames_missing (rt : Runtime) (rows : List NamedRow) {toResolve : List NameToResolve} {names : List JsString}
    (hnames : toResolve.map (·.name) = names) (hd : names.Pairwise fun m n => rt.citext m ≠ rt.citext n) :
    ∃ resolved, resolveNames rt (fun _ => rows) (fun _ => rows) toResolve = .ok resolved ∧
      (resolved.created.map (·.name)).Perm (missingIn rt rows names) := by
  rw [← hnames, List.pairwise_map] at hd
  obtain ⟨resolved, hresolved, hcreated⟩ := resolveNames_steady hd
  refine ⟨resolved, hresolved, (hcreated.map _).trans (List.Perm.of_eq ?_)⟩
  rw [missingIn_eq, ← hnames, List.filter_map]
  rfl

theorem droppedSlugs_sorted (existing : List JsString) {created : List ImportBookmark}
    (hpositions : (created.map (·.position)).Pairwise (· < ·)) :
    ((planSlugs existing [] created).dropped).insertionSort (fun a b => a.entry.position ≤ b.entry.position) =
      (planSlugs existing [] created).dropped := by
  refine List.Pairwise.insertionSort_eq ?_
  have hsorted := hpositions.sublist (planSlugs_dropped existing [] created)
  rw [List.pairwise_map] at hsorted
  exact hsorted.imp fun h => h.le

/-- On rows that stay, the import of a plan within its limits answers what the preview announces. -/
theorem writeImport_steady (taken : ℕ) {names : NamePlan} {judged : Judged} (hfresh : ids.FreshFor shelf)
    (hpositions : (judged.created.map (·.position)).Pairwise (· < ·))
    (hcovers : names.Covers rt ask.file judged.created) :
    ∃ writes, writeImport rt ids (fun _ => shelf) ask taken names judged = .ok (.imported
        { detectedBookmarks := (readsOf rt ask.file).length
          detectedFolders := names.detectedFolders
          detectedTags := names.detectedTags
          created := judged.created.length
          skipped := judged.skipped
          failed := judged.failed
          slugsDropped := (slugPlanOf (fun _ => shelf) judged.created).dropped.length
          droppedSlugs := (slugPlanOf (fun _ => shelf) judged.created).dropped
          foldersCreated := (missingNames rt shelf.folders shelf.tags names).folders
          tagsCreated := (missingNames rt shelf.folders shelf.tags names).tags }, writes) ∧
      writes.bookmarks = judged.created.zipIdx.map
        (rowOf ids ask (slugPlanOf (fun _ => shelf) judged.created).kept) ∧
      (writes.folders.map (·.name)).Perm (missingIn rt shelf.folders (names.folders.map (·.name))) ∧
      (writes.tags.map (·.name)).Perm (missingIn rt shelf.tags names.tags) := by
  obtain ⟨folders, hfolders, hnewFolders⟩ := resolveNames_missing rt shelf.folders
    (foldersToResolve_names ids names) hcovers.folders.distinct
  obtain ⟨tags, htags, hnewTags⟩ := resolveNames_missing rt shelf.tags
    (tagsToResolve_names ids names) hcovers.tags.distinct
  have hresolves : WritePlan.Resolves
      ⟨names, folders.ids, tags.ids, (slugPlanOf (fun _ => shelf) judged.created).kept⟩ judged.created.zipIdx := by
    intro p hp
    have hcreated := List.fst_mem_of_mem_zipIdx hp
    constructor
    · intro name hname
      exact idOf_of_covers hcovers.folders (foldersToResolve_names ids names) hfolders name
        (List.mem_append_right _ (List.mem_flatMap.mpr ⟨p.1, hcreated, hname⟩))
    · intro name hname
      exact idOf_of_covers hcovers.tags (tagsToResolve_names ids names) htags name
        (List.mem_append_right _ (List.mem_flatMap.mpr ⟨p.1, hcreated, hname⟩))
  have hbatches : (((batchesOf judged.created.zipIdx).zipIdx).map (·.1)).flatten = judged.created.zipIdx := by
    rw [List.zipIdx_map_fst, batchesOf_flatten]
  have hfits : WritePlan.Fits ⟨names, folders.ids, tags.ids, (slugPlanOf (fun _ => shelf) judged.created).kept⟩ ids
      shelf ask judged.created.zipIdx := fits_of_slugPlan hfresh (hpositions.imp fun h => h.ne) names folders.ids tags.ids
  rw [← hbatches] at hfits hresolves
  have hstart : ({} : Written).bookmarks =
      ([] : List Numbered).map (rowOf ids ask (slugPlanOf (fun _ => shelf) judged.created).kept) := rfl
  obtain ⟨written, hwritten, hbookmarks, hlost⟩ := writeBatches_steady hstart rfl hfits hresolves
  rw [hbatches, List.nil_append] at hbookmarks
  have hfolderCount : folders.created.length = (missingNames rt shelf.folders shelf.tags names).folders := by
    rw [← List.length_map (fun e : NameToResolve => e.name), hnewFolders.length_eq]
    rfl
  have htagCount : tags.created.length = (missingNames rt shelf.folders shelf.tags names).tags := by
    rw [← List.length_map (fun e : NameToResolve => e.name), hnewTags.length_eq]
    rfl
  have hdropped := droppedSlugs_sorted (shelf.existingSlugs (slugsToCheck judged.created)) hpositions
  refine ⟨
    { toWritten := written
      taken
      folders := folders.created
      tags := tags.created
      choices := choicesToRestore rt ask.file written.forwarding
      audit := some ⟨judged.created.length, judged.skipped.length, judged.failed.length,
        (slugPlanOf (fun _ => shelf) judged.created).dropped.length,
        (missingNames rt shelf.folders shelf.tags names).folders,
        (missingNames rt shelf.folders shelf.tags names).tags⟩ }, ?_, hbookmarks, hnewFolders, hnewTags⟩
  simp only [writeImport, hfolders, htags, slugPlanOf, ← hfolderCount, ← htagCount]
  simp only [slugPlanOf] at hwritten
  simp only [bind, Except.bind, hwritten, hlost, List.append_nil, hdropped]
  rfl

/-- The import gives places to the bookmarks the preview has room for. -/
theorem previewJudged_eq {used : ℤ} {taken : ℕ} (ask : ImportPreviewAsk)
    (htaken : taken = (roomUnder ask.ceiling used).elim (candidatesOf (placedOf rt (fun _ => shelf) ask)).length
      fun room => min (candidatesOf (placedOf rt (fun _ => shelf) ask)).length room) :
    previewJudged rt (fun _ => shelf) ask used = settle taken 0 (placedOf rt (fun _ => shelf) ask) ∧
      (settle taken 0 (placedOf rt (fun _ => shelf) ask)).created =
        withinRoom (roomUnder ask.ceiling used) (candidatesOf (placedOf rt (fun _ => shelf) ask)) := by
  constructor
  · refine spendRoom_eq_settle rfl ?_
    rw [htaken, Nat.sub_zero]
    cases roomUnder ask.ceiling used with
    | none => simp only [Option.elim_none, placedOf, Nat.min_self]
    | some room => simp only [Option.elim_some, placedOf, Nat.min_self, ← Nat.min_assoc]
  · rw [settle_created, htaken, Nat.sub_zero]
    cases roomUnder ask.ceiling used with
    | none => exact List.take_length
    | some room =>
      simp only [Option.elim_some, withinRoom]
      rw [Nat.min_comm]
      exact List.take_eq_take_min.symm

theorem created_positions (taken : ℕ) :
    ((settle taken 0 (placedOf rt (fun _ => shelf) ask.toImportPreviewAsk)).created.map (·.position)).Pairwise
      (· < ·) := by
  have hpositions := candidatesOf_positions (placedOf rt (fun _ => shelf) ask.toImportPreviewAsk)
  rw [placedOf, place_positions, readsOf_positions] at hpositions
  rw [settle_created]
  exact (List.pairwise_lt_range' 1).sublist (((List.take_sublist _ _).map _).trans hpositions)

end

/-- **The import answers what the preview announced**, on rows that no other transaction changes: the same refusal,
or the same result from the bookmarks that the preview judged to be created. -/
theorem importBookmarks_as_previewed (rt : Runtime) (ids : ImportIds) (shelf : Shelf) (ask : ImportAsk)
    (hfresh : ids.FreshFor shelf) :
    ∃ outcome writes, previewImport rt (fun _ => shelf) ask.toImportPreviewAsk = .ok outcome ∧
      importBookmarks rt ids (fun _ => shelf) ask = .ok (outcome.announced, writes) ∧
      ∀ result, outcome = .previewed result →
        ∃ created, result.created = created.length ∧ Announced rt ids shelf ask writes created := by
  unfold previewImport importBookmarks
  cases hdistinct : overDistinctNames ask.file with
  | some names => exact ⟨_, _, rfl, rfl, fun _ h => by cases h⟩
  | none =>
    dsimp only
    cases hcount : shelf.bookmarkCount with
    | none => exact ⟨_, _, rfl, rfl, fun _ h => by cases h⟩
    | some used =>
      obtain ⟨used', htake⟩ := takePlaces_eq hcount ask.ceiling
        (candidatesOf (placedOf rt (fun _ => shelf) ask.toImportPreviewAsk)).length
      obtain ⟨taken, htaken⟩ : ∃ taken, taken = (roomUnder ask.ceiling used).elim
        (candidatesOf (placedOf rt (fun _ => shelf) ask.toImportPreviewAsk)).length fun room =>
          min (candidatesOf (placedOf rt (fun _ => shelf) ask.toImportPreviewAsk)).length room := ⟨_, rfl⟩
      obtain ⟨hjudged, hassumed⟩ := previewJudged_eq ask.toImportPreviewAsk htaken
      rw [← htaken] at htake
      obtain ⟨judged, hjudgedEq⟩ :
        ∃ judged, judged = settle taken 0 (placedOf rt (fun _ => shelf) ask.toImportPreviewAsk) := ⟨_, rfl⟩
      have hpositions : (judged.created.map (·.position)).Pairwise (· < ·) := hjudgedEq ▸ created_positions taken
      rw [← hjudgedEq] at hjudged hassumed
      have hwanted : ¬ taken > (candidatesOf (placedOf rt (fun _ => shelf) ask.toImportPreviewAsk)).length := by
        rw [htaken]
        cases roomUnder ask.ceiling used with
        | none => exact lt_irrefl _
        | some room => exact Nat.not_lt.mpr (Nat.min_le_left _ _)
      obtain ⟨names, hnames, hcovers, hplanned⟩ := plannedNames_ok rt (fun _ => shelf) false ask.file judged.created
      simp only [hjudged, ← hassumed, hplanned, htake, if_neg hwanted, ← hjudgedEq, if_true, bind, Except.bind]
      cases hlimits : withinLimits judged.created names (missingNames rt shelf.folders shelf.tags names) with
      | tooManyNames newNames => exact ⟨_, _, rfl, rfl, fun _ h => by cases h⟩
      | tooManyLinks links => exact ⟨_, _, rfl, rfl, fun _ h => by cases h⟩
      | within names' missing =>
        obtain ⟨rfl, rfl, -⟩ := withinLimits_within hlimits
        obtain ⟨writes, hwrites, hbookmarks, hfolders, htags⟩ :=
          writeImport_steady taken hfresh hpositions hcovers
        refine ⟨_, writes, rfl, hwrites, fun result hresult => ⟨judged.created, ?_, ?_⟩⟩
        · cases hresult
          rfl
        · exact ⟨⟨used, hcount, hjudged ▸ rfl⟩, hbookmarks, names', hnames, hfolders, htags⟩

/-- An account with a folder `f`, a bookmark that has the slug `x`, and room for one more. -/
def roomForOne : Shelf where
  bookmarkCount := some 1
  bookmarks := [⟨7, js "http://b", some (js "x"), false⟩]
  folders := [⟨8, js "f"⟩]

theorem importBookmarks_as_previewed_roomForOne :
    ∃ outcome writes,
      previewImport plainRuntime (fun _ => roomForOne) ⟨twoAndOneRefused, true, some 2⟩ = .ok outcome ∧
      importBookmarks plainRuntime countingIds (fun _ => roomForOne)
        { file := twoAndOneRefused, skipDuplicates := true, ceiling := some 2, workspaceId := 1, accountId := 2 } =
          .ok (outcome.announced, writes) ∧
      ∀ result, outcome = .previewed result → ∃ created, result.created = created.length ∧
        Announced plainRuntime countingIds roomForOne
          { file := twoAndOneRefused, skipDuplicates := true, ceiling := some 2, workspaceId := 1, accountId := 2 }
          writes created :=
  importBookmarks_as_previewed plainRuntime countingIds roomForOne
    { file := twoAndOneRefused, skipDuplicates := true, ceiling := some 2, workspaceId := 1, accountId := 2 } (by
      intro n b hb
      obtain rfl := List.mem_singleton.mp hb
      change 7 ≠ n + 100
      omega)

end SlugBase.Import
