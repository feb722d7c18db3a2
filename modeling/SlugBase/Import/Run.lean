import SlugBase.Import.Preview

/-!
# The import

The JSON import in one transaction: judged exactly as the preview judges, with the places taken under the
lock of the workspace's row and the names planned again when these are not as many as the count assumed.

* `settle`: the bookmarks of the file in its order, a place for each of the first `taken` candidates;
* `writeBatch`: the rows of a batch, their lost slugs, their links and the bookmarks that forward;
* `choicesToRestore`: the remembered choices of the file that the import restores;
* `importBookmarks`: the outcome, with everything the transaction has written.
-/

namespace SlugBase.Import

open JavaScript Relational

/-! ## What an import is asked and what it writes -/

structure ImportAsk extends ImportPreviewAsk where
  workspaceId : Uuid
  accountId : Uuid

/-- The generators of identifiers, by the number of the call; those of bookmarks ascend. -/
structure ImportIds where
  newBookmarkId : ℕ → Uuid
  ascending : StrictMono newBookmarkId
  newId : ℕ → Uuid

inductive ImportOutcome
  | unavailable
  | imported (result : ImportResult)
  | tooManyNames (newNames : ℕ)
  | tooManyDistinctNames (names : ℕ)
  | tooManyLinks (links : ℕ)
  deriving DecidableEq, Repr

/-- The event `bookmark.created`. -/
structure BookmarkCreated where
  eventId : Uuid
  workspaceId : Uuid
  bookmarkId : Uuid
  accountId : Uuid
  deriving DecidableEq, Repr

/-- What the batches have written so far, and what they report. -/
structure Written where
  bookmarks : List ImportNewBookmark := []
  events : List BookmarkCreated := []
  lost : List DroppedSlug := []
  forwarding : List (ℕ × Uuid × JsString) := []
  folderLinks : List (Uuid × Uuid) := []
  tagLinks : List (Uuid × Uuid) := []
  deriving DecidableEq, Repr

/-- The counts of the audit event `import.completed`. -/
structure ImportCompleted where
  created : ℕ
  skipped : ℕ
  failed : ℕ
  slugsDropped : ℕ
  foldersCreated : ℕ
  tagsCreated : ℕ
  deriving DecidableEq, Repr

/-- Everything the transaction has written: the places it raised the counter by, the folders and tags it
created, the rows of its batches, the choices it restored and the audit event. -/
structure ImportWrites extends Written where
  taken : ℕ := 0
  folders : List NameToResolve := []
  tags : List NameToResolve := []
  choices : List (JsString × Uuid) := []
  audit : Option ImportCompleted := none
  deriving DecidableEq, Repr

/-! ## Places -/

/-- The bookmarks of the file in its order: refused, a duplicate, or one of the first `taken` candidates. -/
def settle (taken : ℕ) : (created : ℕ) → List Placed → Judged
  | _, [] => {}
  | created, .refused r :: placed =>
    let judged := settle taken created placed
    { judged with failed := ⟨r.entry, r.reason⟩ :: judged.failed }
  | created, .duplicate b :: placed =>
    let judged := settle taken created placed
    { judged with skipped := ⟨b.entry, .duplicate⟩ :: judged.skipped }
  | created, .candidate b :: placed =>
    if created < taken then
      let judged := settle taken (created + 1) placed
      { judged with created := b :: judged.created }
    else
      let judged := settle taken created placed
      { judged with skipped := ⟨b.entry, .bookmarkLimitReached⟩ :: judged.skipped }

/-- `candidates.slice(0, room)`. -/
def withinRoom (room : Option ℕ) (candidates : List ImportBookmark) : List ImportBookmark :=
  match room with
  | none => candidates
  | some n => candidates.take n

/-! ## Batches -/

/-- The most bookmarks one insert statement writes. -/
def importBatchSize : ℕ := 500

/-- The slices of the loop over the created bookmarks. -/
def batchesOf {α : Type} (l : List α) : List (List α) :=
  (List.range ((l.length + importBatchSize - 1) / importBatchSize)).map fun n =>
    (l.drop (importBatchSize * n)).take importBatchSize

/-- The identifier the store resolved for a spelling of a name: that of the wanted name it stands for. -/
def idOf (spelledAs : List (JsString × JsString)) (ids : List (JsString × Uuid)) (name : JsString) :
    Except String Uuid :=
  match (spelledAs.lookup name).bind fun wanted => ids.lookup wanted with
  | some id => .ok id
  | none => .error "the store did not resolve a folder or a tag the import needs"

/-- The pairs of one bookmark: one for each folder or tag, however many spellings of its name it has. -/
def pairsOf (spelledAs : List (JsString × JsString)) (ids : List (JsString × Uuid)) (names : List JsString)
    (bookmarkId : Uuid) : Except String (List (Uuid × Uuid)) := do
  let found ← names.mapM (idOf spelledAs ids)
  return (unique found).map fun id => (bookmarkId, id)

/-- What the batches are written from: the plan of the names with the identifiers the store resolved, and the
slugs that are kept. -/
structure WritePlan where
  names : NamePlan
  folderIds : List (JsString × Uuid)
  tagIds : List (JsString × Uuid)
  kept : List (ℕ × JsString)

/-- A created bookmark with its number among them. -/
abbrev Numbered := ImportBookmark × ℕ

/-- The row of a created bookmark, with the slug that the plan keeps for its place. -/
def rowOf (ids : ImportIds) (ask : ImportAsk) (kept : List (ℕ × JsString)) (p : Numbered) :
    ImportNewBookmark :=
  let slug := kept.lookup p.1.position
  { id := ids.newBookmarkId p.2
    ownerId := ask.accountId
    url := p.1.url
    urlCanonical := p.1.canonical
    host := p.1.host
    title := p.1.title
    description := p.1.description
    pinned := p.1.pinned
    slug
    forwarding := slug.isSome && p.1.forwarding }

section

variable (ids : ImportIds) (shelfAt : History) (ask : ImportAsk) (plan : WritePlan)

/-- The event of a created bookmark; the folders and tags had their identifiers first. -/
def eventOf (p : Numbered) : BookmarkCreated :=
  ⟨ids.newId (plan.names.folders.length + plan.names.tags.length + p.2), ask.workspaceId, ids.newBookmarkId p.2,
    ask.accountId⟩

/-- The pairs of a batch for one kind of names. -/
def linksOfBatch (spelledAs : List (JsString × JsString)) (resolved : List (JsString × Uuid))
    (namesOf : ImportBookmark → List JsString) (batch : List Numbered) : Except String (List (Uuid × Uuid)) := do
  let pairs ← batch.mapM fun p => pairsOf spelledAs resolved (namesOf p.1) (ids.newBookmarkId p.2)
  return pairs.flatten

/-- The slugs of the batch that another transaction took meanwhile. -/
def lostOf (slugsLost : List Uuid) (batch : List Numbered) : List DroppedSlug :=
  (batch.filter fun p => slugsLost.contains (ids.newBookmarkId p.2)).map fun p =>
    ⟨p.1.entry, (plan.kept.lookup p.1.position).getD [], .slugConflict⟩

/-- The bookmarks of the batch that kept their slug and forward, by their place. -/
def forwardingOf (slugsLost : List Uuid) (batch : List Numbered) : List (ℕ × Uuid × JsString) :=
  batch.filterMap fun p =>
    if slugsLost.contains (ids.newBookmarkId p.2) then none
    else match plan.kept.lookup p.1.position with
      | some slug => if p.1.forwarding then some (p.1.position, ids.newBookmarkId p.2, slug) else none
      | none => none

/-- One batch: its rows, its events, its lost slugs and its links. -/
def writeBatch (st : Written) (number : ℕ) (batch : List Numbered) : Except String Written := do
  let rows := batch.map (rowOf ids ask plan.kept)
  let (bookmarks, slugsLost) ← insertBookmarks (shelfAt (.insertBookmarks number)) (shelfAt (.insertAgain number))
    st.bookmarks rows
  if slugsLost.any fun id => !(rows.map (·.id)).contains id then
    throw "the store reported a lost slug for a bookmark outside the batch"
  let folderLinks ← linksOfBatch ids plan.names.folderOf plan.folderIds (·.folders) batch
  let tagLinks ← linksOfBatch ids plan.names.tagOf plan.tagIds (·.tags) batch
  return {
    bookmarks
    events := st.events ++ batch.map (eventOf ids ask plan)
    lost := st.lost ++ lostOf ids plan slugsLost batch
    forwarding := st.forwarding ++ forwardingOf ids plan slugsLost batch
    folderLinks := st.folderLinks ++ folderLinks
    tagLinks := st.tagLinks ++ tagLinks }

/-- The batches, one after the other. -/
def writeBatches : List (List Numbered × ℕ) → Written → Except String Written
  | [], st => .ok st
  | (batch, number) :: rest, st => do
    let st' ← writeBatch ids shelfAt ask plan st number batch
    writeBatches rest st'

end

/-! ## Remembered choices -/

/-- The place of the one bookmark of the file that has the reference; none when no bookmark or more than one
has it. -/
def placeOfRef (bookmarks : List ImportFileBookmark) (ref : JsString) : Option ℕ :=
  let map := bookmarks.zipIdx.foldl (fun (known : Option (Option ℕ)) p =>
    if p.1.ref = some ref then (if known.isSome then some none else some (some (p.2 + 1))) else known) none
  map.join

/-- The choices of the file to restore, one for each slug, in the order of the file. -/
def choicesToRestore (rt : Runtime) (file : ImportRequest) (forwarding : List (ℕ × Uuid × JsString)) :
    List (JsString × Uuid) :=
  file.goPreferences.foldl (fun chosen preference =>
    match parseSlug rt.toLowerCase preference.slug,
        ((placeOfRef file.bookmarks preference.bookmarkRef).bind fun place => forwarding.lookup place) with
    | some slug, some (id, kept) => if kept = slug then chosen.filter (·.1 ≠ slug) ++ [(slug, id)] else chosen
    | _, _ => chosen) []

/-! ## The import -/

section

variable (rt : Runtime) (ids : ImportIds) (shelfAt : History) (ask : ImportAsk)

/-- The folders of a plan, with the identifiers they have when they are created. -/
def foldersToResolve (names : NamePlan) : List NameToResolve :=
  names.folders.zipIdx.map fun p => ⟨ids.newId p.2, p.1.name, some p.1.icon, some p.1.color⟩

/-- The tags of a plan, with the identifiers they have when they are created. -/
def tagsToResolve (names : NamePlan) : List NameToResolve :=
  names.tags.zipIdx.map fun p => { id := ids.newId (names.folders.length + p.2), name := p.1 }

/-- What is written once the places are taken and the names of the created bookmarks are planned. -/
def writeImport (taken : ℕ) (names : NamePlan) (judged : Judged) : Except String (ImportOutcome × ImportWrites) := do
  let slugPlan := slugPlanOf shelfAt judged.created
  let folders ← resolveNames rt (fun round => (shelfAt (.readFolders round)).folders)
    (fun round => (shelfAt (.insertFolders round)).folders) (foldersToResolve ids names)
  let tags ← resolveNames rt (fun round => (shelfAt (.readTags round)).tags)
    (fun round => (shelfAt (.insertTags round)).tags) (tagsToResolve ids names)
  let written ← writeBatches ids shelfAt ask ⟨names, folders.ids, tags.ids, slugPlan.kept⟩
    (batchesOf judged.created.zipIdx).zipIdx {}
  let droppedSlugs := (slugPlan.dropped ++ written.lost).insertionSort fun a b => a.entry.position ≤ b.entry.position
  let result : ImportResult :=
    { detectedBookmarks := (readsOf rt ask.file).length
      detectedFolders := names.detectedFolders
      detectedTags := names.detectedTags
      created := judged.created.length
      skipped := judged.skipped
      failed := judged.failed
      slugsDropped := droppedSlugs.length
      droppedSlugs
      foldersCreated := folders.created.length
      tagsCreated := tags.created.length }
  return (.imported result,
    { toWritten := written
      taken
      folders := folders.created
      tags := tags.created
      choices := choicesToRestore rt ask.file written.forwarding
      audit := some ⟨result.created, result.skipped.length, result.failed.length, result.slugsDropped,
        result.foldersCreated, result.tagsCreated⟩ })

/-- The bookmarks of the file as the import places them. -/
def placedOf (ask : ImportPreviewAsk) : List Placed :=
  let reads := readsOf rt ask.file
  place ask.skipDuplicates (existingOf shelfAt ask.skipDuplicates reads) [] reads

/-- Imports the file; answers the outcome and what the transaction has written. -/
def importBookmarks : Except String (ImportOutcome × ImportWrites) :=
  match overDistinctNames ask.file with
  | some names => .ok (.tooManyDistinctNames names, {})
  | none =>
    let placed := placedOf rt shelfAt ask.toImportPreviewAsk
    let candidates := candidatesOf placed
    match (shelfAt .bookmarkCount).bookmarkCount with
    | none => .ok (.unavailable, {})
    | some used => do
      let assumed := withinRoom (roomUnder ask.ceiling used) candidates
      match ← plannedNames rt shelfAt false ask.file assumed with
      | .tooManyNames newNames => return (.tooManyNames newNames, {})
      | .tooManyLinks links => return (.tooManyLinks links, {})
      | .within names _ =>
        match (shelfAt .takePlaces).takePlaces ask.ceiling candidates.length with
        | .unavailable => return (.unavailable, {})
        | .taken taken _ =>
          if taken > candidates.length then throw "the store took more places than the import wanted"
          else
            let judged := settle taken 0 placed
            if judged.created.length = assumed.length then writeImport rt ids shelfAt ask taken names judged
            else
              match ← plannedNames rt shelfAt true ask.file judged.created with
              | .tooManyNames newNames => return (.tooManyNames newNames, { taken })
              | .tooManyLinks links => return (.tooManyLinks links, { taken })
              | .within names _ => writeImport rt ids shelfAt ask taken names judged

end

end SlugBase.Import
