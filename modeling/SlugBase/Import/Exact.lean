import SlugBase.Import.Settled

/-!
# What an import has done

The plan of an import can be wrong by the time the lock is taken: the places that are taken decide, and the
names, the links and the slugs are those of the bookmarks that got them.

* `NamesExactly`: the folders or the tags of the created bookmarks and of the document's lists, all of them and
  no others, and one link for each name of each created bookmark;
* `ImportExact`: everything an answer `imported` stands for;
* **`importBookmarks_exact`**: whatever other transactions do between the statements of an import, an answer
  `imported` is exact.
-/

namespace SlugBase.Import

open JavaScript Relational

/-! ## Names and links -/

/-- A row the account had at some round or that the import has made. -/
def IsRow (committed : ℕ → List NamedRow) (made : List NameToResolve) (row : NamedRow) : Prop :=
  (∃ round, row ∈ committed round) ∨ row ∈ made.map NameToResolve.row

/-- The names of one kind an import has dealt with: it created no name but those of the lists and of the created
bookmarks, each of these has a row, and the links are those of the created bookmarks. -/
structure NamesExactly (rt : Runtime) (ids : ImportIds) (committed : ℕ → List NamedRow) (listed : List JsString)
    (namesOf : ImportBookmark → List JsString) (created : List ImportBookmark) (made : List NameToResolve)
    (links : List (Uuid × Uuid)) : Prop where
  asked : ∀ e ∈ made, e.name ∈ listed ++ created.flatMap namesOf
  sure : ∀ name ∈ listed ++ created.flatMap namesOf,
    ∃ row, IsRow committed made row ∧ rt.citext row.name = rt.citext name
  linked : ∀ p ∈ created.zipIdx, ∀ name ∈ namesOf p.1,
    ∃ row, IsRow committed made row ∧ rt.citext row.name = rt.citext name ∧ (ids.newBookmarkId p.2, row.id) ∈ links
  only : ∀ l ∈ links, ∃ p ∈ created.zipIdx, ∃ name ∈ namesOf p.1,
    ∃ row, IsRow committed made row ∧ rt.citext row.name = rt.citext name ∧ l = (ids.newBookmarkId p.2, row.id)

section

variable {rt : Runtime} {ids : ImportIds} {shelfAt : History} {ask : ImportAsk}

theorem namesExactly_of_resolved {set : NameSet} {listed : List JsString} {namesOf : ImportBookmark → List JsString}
    {created : List ImportBookmark} {readAt insertAt : ℕ → List NamedRow} {toResolve : List NameToResolve}
    {resolved : ImportResolved} {links : List (Uuid × Uuid)}
    (hcovers : set.Covers rt (listed ++ created.flatMap namesOf)) (hnames : toResolve.map (·.name) = set.wanted)
    (hresolved : resolveNames rt readAt insertAt toResolve = .ok resolved)
    (hlinks : LinksExactly ids set.spelledAs resolved.ids namesOf created.zipIdx links) :
    NamesExactly rt ids readAt listed namesOf created resolved.created links := by
  obtain ⟨hsound, hall⟩ := resolveNames_ok hresolved
  have hasked : ∀ p ∈ created.zipIdx, ∀ name ∈ namesOf p.1, name ∈ listed ++ created.flatMap namesOf := by
    intro p hp name hname
    exact List.mem_append_right _ (List.mem_flatMap.mpr ⟨p.1, List.fst_mem_of_mem_zipIdx hp, hname⟩)
  have hrow : ∀ name ∈ listed ++ created.flatMap namesOf, ∀ id, idOf set.spelledAs resolved.ids name = .ok id →
      ∃ row, IsRow readAt resolved.created row ∧
        rt.citext row.name = rt.citext name ∧ row.id = id := by
    intro name hname id hid
    obtain ⟨wanted, hwanted, hlookup⟩ := idOf_ok.mp hid
    obtain ⟨m, -, hm, hfold⟩ := hcovers.spelled name hname
    obtain rfl : m = wanted := Option.some.inj (hm.symm.trans hwanted)
    obtain ⟨l₁, l₂, hsplit, -⟩ := List.lookup_eq_some_iff.mp hlookup
    obtain ⟨row, hrow, hrowId, hrowName⟩ := hsound.ids (m, id) (hsplit ▸ List.mem_append_right _ List.mem_cons_self)
    exact ⟨row, hrow, hrowName.trans hfold, hrowId⟩
  refine ⟨fun e he => ?_, fun name hname => ?_, fun p hp name hname => ?_, fun l hl => ?_⟩
  · exact hcovers.asked _ (hnames ▸ List.mem_map_of_mem (hsound.created e he))
  · obtain ⟨m, hm, -, hfold⟩ := hcovers.spelled name hname
    rw [← hnames] at hm
    obtain ⟨e, he, rfl⟩ := List.mem_map.mp hm
    obtain ⟨p, hp, hpe⟩ := hall e he
    obtain ⟨row, hrow, -, hrowName⟩ := hsound.ids p hp
    exact ⟨row, hrow, (hrowName.trans (congrArg rt.citext hpe)).trans hfold⟩
  · obtain ⟨id, hid, hmem⟩ := hlinks.linked p hp name hname
    obtain ⟨row, hrow, hfold, rfl⟩ := hrow name (hasked p hp name hname) id hid
    exact ⟨row, hrow, hfold, hmem⟩
  · obtain ⟨p, hp, name, hname, id, hid, rfl⟩ := hlinks.only l hl
    obtain ⟨row, hrow, hfold, rfl⟩ := hrow name (hasked p hp name hname) id hid
    exact ⟨p, hp, name, hname, row, hrow, hfold, rfl⟩

/-! ## The answer `imported` -/

/-- The candidates of the file: not refused and not a duplicate. -/
def candidates (rt : Runtime) (shelfAt : History) (ask : ImportAsk) : List ImportBookmark :=
  candidatesOf (placedOf rt shelfAt ask.toImportPreviewAsk)

/-- Everything an answer `imported` with these writes stands for, `created` being the created bookmarks. -/
structure ImportExact (rt : Runtime) (ids : ImportIds) (shelfAt : History) (ask : ImportAsk) (result : ImportResult)
    (writes : ImportWrites) (created : List ImportBookmark) : Prop where
  /-- The places are those the counter had room for when its row was locked. -/
  places : ∃ used, (shelfAt .takePlaces).takePlaces ask.ceiling (candidates rt shelfAt ask).length =
    .taken writes.taken used
  /-- The created bookmarks are the first candidates, as many as places were taken, in the order of the file. -/
  first : created = (candidates rt shelfAt ask).take writes.taken
  order : (created.map (·.position)).Sublist (List.range' 1 ask.file.bookmarks.length)
  /-- Every bookmark of the file is in exactly one of created, skipped and failed. -/
  entries : (created.map (·.position) ++ (result.skipped.map (·.entry.position) ++
    result.failed.map (·.entry.position))).Perm (List.range' 1 ask.file.bookmarks.length)
  counted : result.created = writes.taken ∧ created.length = writes.taken
  /-- The rows are those of the created bookmarks, each with its slug or without one that it lost. -/
  inserted : writes.bookmarks.length = writes.taken ∧ ∃ lost, writes.bookmarks.Perm
    (created.zipIdx.map (rowWritten ids ask (slugPlanOf shelfAt created).kept lost))
  folders : NamesExactly rt ids (fun round => (shelfAt (.readFolders round)).folders)
    (ask.file.wantedFolders.map (·.name)) (·.folders) created writes.folders writes.folderLinks
  tags : NamesExactly rt ids (fun round => (shelfAt (.readTags round)).tags) ask.file.wantedTags (·.tags) created
    writes.tags writes.tagLinks
  links : writes.folderLinks.length + writes.tagLinks.length ≤ importMaxLinks
  /-- The slugs are distinct, and none is one the account had when it was asked or when the row was inserted. -/
  slugs : (writes.bookmarks.filterMap (·.slug)).Nodup
  newSlugs : ∀ b ∈ writes.bookmarks, ∀ slug, b.slug = some slug →
    (∀ r ∈ (shelfAt .existingSlugs).bookmarks, r.slug ≠ some slug) ∧
      ∃ batch, ∀ r ∈ (shelfAt (.insertBookmarks batch)).bookmarks, r.slug ≠ some slug

theorem prefix_withinRoom (room : Option ℕ) (l : List ImportBookmark) : withinRoom room l <+: l := by
  cases room with
  | none => exact List.prefix_rfl
  | some n => exact List.take_prefix n l

/-- What an answer `imported` was written from: the places that were taken, and a plan of the names of the
bookmarks that got them. -/
theorem importBookmarks_imported {result : ImportResult} {writes : ImportWrites}
    (h : importBookmarks rt ids shelfAt ask = .ok (.imported result, writes)) :
    ∃ taken used names, (shelfAt .takePlaces).takePlaces ask.ceiling (candidates rt shelfAt ask).length =
        .taken taken used ∧
      taken ≤ (candidates rt shelfAt ask).length ∧
      names.Covers rt ask.file (settle taken 0 (placedOf rt shelfAt ask.toImportPreviewAsk)).created ∧
      linksOf (settle taken 0 (placedOf rt shelfAt ask.toImportPreviewAsk)).created names ≤ importMaxLinks ∧
      writeImport rt ids shelfAt ask taken names (settle taken 0 (placedOf rt shelfAt ask.toImportPreviewAsk)) =
        .ok (.imported result, writes) := by
  unfold importBookmarks at h
  split at h
  · cases h
  dsimp only at h
  split at h
  · cases h
  rename_i used _
  obtain ⟨planned, hplanned, h⟩ := ok_of_bind h
  split at h
  · cases h
  · cases h
  rename_i names missing
  split at h
  · cases h
  rename_i taken used' hplaces
  split at h
  · cases h
  rename_i hwanted
  have hle := Nat.le_of_not_lt hwanted
  split at h
  · rename_i hlength
    obtain ⟨hcovers, hlinks⟩ := plannedNames_within hplanned
    -- as many places as the count assumed are the same bookmarks
    have hsame : (settle taken 0 (placedOf rt shelfAt ask.toImportPreviewAsk)).created =
        withinRoom (roomUnder ask.ceiling used) (candidates rt shelfAt ask) := by
      refine (List.prefix_of_prefix_length_le ?_ (prefix_withinRoom _ _) hlength.le).eq_of_length hlength
      rw [settle_created]
      exact List.take_prefix _ _
    refine ⟨taken, used', names, hplaces, hle, ?_, ?_, h⟩
    · exact hsame ▸ hcovers
    · exact hsame ▸ hlinks
  · obtain ⟨again, hagain, h⟩ := ok_of_bind h
    split at h
    · cases h
    · cases h
    rename_i names' missing'
    obtain ⟨hcovers, hlinks⟩ := plannedNames_within hagain
    exact ⟨taken, used', names', hplaces, hle, hcovers, hlinks, h⟩

theorem foldersToResolve_names (ids : ImportIds) (names : NamePlan) :
    (foldersToResolve ids names).map (·.name) = names.folders.map (·.name) := by
  rw [foldersToResolve, List.map_map]
  conv_rhs => rw [← List.zipIdx_map_fst 0 names.folders, List.map_map]
  rfl

theorem tagsToResolve_names (ids : ImportIds) (names : NamePlan) : (tagsToResolve ids names).map (·.name) = names.tags := by
  rw [tagsToResolve, List.map_map]
  exact List.zipIdx_map_fst 0 names.tags

theorem kept_of_rowWritten {kept : List (ℕ × JsString)} {lost : List Uuid} {p : Numbered} {slug : JsString}
    (h : (rowWritten ids ask kept lost p).slug = some slug) : kept.lookup p.1.position = some slug := by
  unfold rowWritten at h
  split_ifs at h
  · cases h
  · exact h

/-- **An answer `imported` is exact**, whatever other transactions do between the statements of the import. -/
theorem importBookmarks_exact (rt : Runtime) (ids : ImportIds) (shelfAt : History) (ask : ImportAsk)
    (result : ImportResult) (writes : ImportWrites)
    (h : importBookmarks rt ids shelfAt ask = .ok (.imported result, writes)) :
    ∃ created, ImportExact rt ids shelfAt ask result writes created := by
  obtain ⟨taken, used, names, hplaces, hle, hcovers, hlinks, h⟩ := importBookmarks_imported h
  obtain ⟨judged, hjudged⟩ :
    ∃ judged, judged = settle taken 0 (placedOf rt shelfAt ask.toImportPreviewAsk) := ⟨_, rfl⟩
  rw [← hjudged] at hcovers hlinks h
  have hfirst : judged.created = (candidates rt shelfAt ask).take taken := hjudged ▸ settle_created taken 0 _
  have hlength : judged.created.length = taken := by
    rw [hfirst, List.length_take]
    exact Nat.min_eq_left hle
  obtain ⟨folders, hfolders, h⟩ := ok_of_bind h
  obtain ⟨tags, htags, h⟩ := ok_of_bind h
  obtain ⟨written, hwritten, h⟩ := ok_of_bind h
  cases h
  obtain ⟨lost, hholds⟩ := writeBatches_created hwritten
  have hrows : written.bookmarks.length = taken := by
    rw [hholds.rows.length_eq, List.length_map, List.length_zipIdx, hlength]
  refine ⟨judged.created, ⟨⟨used, hplaces⟩, hfirst, ?_, ?_, ⟨hlength, hlength⟩,
    ⟨hrows, lost, hholds.rows⟩, ?_, ?_, ?_, hholds.slugs, ?_⟩⟩
  · have hpositions := candidatesOf_positions (placedOf rt shelfAt ask.toImportPreviewAsk)
    rw [placedOf, place_positions, readsOf_positions] at hpositions
    rw [hfirst]
    exact ((List.take_sublist _ _).map _).trans hpositions
  · have hpositions := settle_positions taken 0 (placedOf rt shelfAt ask.toImportPreviewAsk)
    rw [← hjudged, placedOf, place_positions, readsOf_positions] at hpositions
    exact hpositions
  · exact namesExactly_of_resolved hcovers.folders (foldersToResolve_names ids names) hfolders hholds.folders
  · exact namesExactly_of_resolved hcovers.tags (tagsToResolve_names ids names) htags hholds.tags
  · have hsum : linksOf judged.created names =
        total (fun p => (linkedNames names.folderOf p.1.folders).length) judged.created.zipIdx +
          total (fun p => (linkedNames names.tagOf p.1.tags).length) judged.created.zipIdx := by
      rw [← total_add, linksOf]
      conv_lhs => rw [← List.zipIdx_map_fst 0 judged.created, total_map]
    calc written.folderLinks.length + written.tagLinks.length
        ≤ _ + _ := Nat.add_le_add hholds.folders.count hholds.tags.count
      _ = linksOf judged.created names := hsum.symm
      _ ≤ importMaxLinks := hlinks
  · intro b hb slug hslug
    refine ⟨?_, hholds.free b hb slug hslug⟩
    -- the plan of the slugs asked the store about this one
    obtain ⟨p, hp, hrow⟩ := List.mem_map.mp (hholds.rows.mem_iff.mp hb)
    obtain ⟨l₁, l₂, hsplit, -⟩ := List.lookup_eq_some_iff.mp (kept_of_rowWritten (hrow ▸ hslug))
    obtain ⟨hnew, -, c, hc, -, hcslug⟩ := (planSlugs_kept _ [] judged.created).2.1 (p.1.position, slug)
      (hsplit ▸ List.mem_append_right _ List.mem_cons_self)
    intro r hr hrslug
    refine hnew (List.mem_filter.mpr ⟨?_, List.any_eq_true.mpr ⟨r, hr, by simpa using hrslug⟩⟩)
    exact mem_unique.mpr (List.mem_filterMap.mpr ⟨c, hc, by rw [hcslug]⟩)

end

/-! ## A plan that the lock changes -/

/-- A runtime of ASCII names whose parser reads every address as one host. -/
def plainRuntime : Runtime where
  parseUrl href := some ⟨href, js "http:", js "a", js "a", js "/", []⟩
  toLowerCase := id
  citext := List.map asciiLower

def countingIds : ImportIds where
  newBookmarkId n := n + 100
  ascending _ _ h := Nat.add_lt_add_right h 100
  newId n := n + 1000

/-- Two bookmarks with a folder each, and one that is refused. -/
def twoAndOneRefused : ImportRequest where
  envelope := none
  bookmarks :=
    [{ url := js "http://a", slug := some (js "x"), folders := some [js "F", js "f"] },
      { url := js "http://a", folders := some [js "G"] }, { url := js "ftp:" }]
  atMost := by decide

/-- A workspace with room for two bookmarks that has room for one when its row is locked. -/
def oneTakenMeanwhile : History := fun moment =>
  { bookmarkCount := some (if moment = .takePlaces then 1 else 0) }

set_option maxRecDepth 4000 in
theorem importBookmarks_exact_oneTakenMeanwhile :
    ∃ result writes, (∃ created, ImportExact plainRuntime countingIds oneTakenMeanwhile
        { file := twoAndOneRefused, skipDuplicates := false, ceiling := some 2, workspaceId := 1, accountId := 2 }
        result writes created) ∧ result.created = 1 ∧ writes.folders.map (·.name) = [js "F"] :=
  ⟨_, _, importBookmarks_exact plainRuntime countingIds oneTakenMeanwhile _ _ _ rfl, rfl, rfl⟩

end SlugBase.Import
