import SlugBase.Bookmark.Row
import Mathlib.Data.List.Dedup
import Mathlib.Data.List.Sort

/-!
# Changing a bookmark

`BookmarkRepository.update`, statement by statement: what each reads of the committed rows, and what the
change writes when it has found no reason to refuse. Texts are well formed and without NUL: the contract refuses a NUL, and a
lone surrogate, which the driver stores as U+FFFD, is in no text here.

* `BookmarkPatch`, `changesOf`: what `updateBookmark` checks before it asks the store;
* `BookmarkChanges`, `BookmarkUpdateRequest`, `BookmarkUpdateResult`: the request and its answers;
* `setOf`, `BookmarkSet.applied`: the columns that differ; `patched`: the row as the patch says;
  **`applied_setOf`**, **`setOf_isEmpty`**: the two agree;
* `Stage`, `statement`: the statements of the change; `Writes`, `applyWrites`: what it commits.
-/

namespace SlugBase.Editing

open Relational

/-! ## Requests and answers -/

/-- A destination with the columns derived from it. -/
structure BookmarkUrl where
  url : String
  canonical : String
  host : String
  deriving DecidableEq, Repr

/-- A tag of a selection by its name, with the identifier it gets when it is created. -/
structure BookmarkTagName where
  newId : Uuid
  name : String
  deriving DecidableEq, Repr

/-- The tags a bookmark is to carry. -/
structure BookmarkTagSelection where
  ids : List Uuid
  names : List BookmarkTagName
  deriving DecidableEq, Repr

/-- `BookmarkChanges`. -/
structure BookmarkChanges where
  url : Option BookmarkUrl := none
  title : Option String := none
  description : Option (Option String) := none
  pinned : Option Bool := none
  slug : Option (Option String) := none
  forwarding : Option Bool := none
  folderIds : Option (List Uuid) := none
  tags : Option BookmarkTagSelection := none
  deriving DecidableEq, Repr

/-- `BookmarkUpdateRequest`, in a workspace. -/
structure BookmarkUpdateRequest where
  workspaceId : Uuid
  bookmarkId : Uuid
  ownerId : Uuid
  changes : BookmarkChanges
  expectedVersions : Option (List ℤ)
  deriving DecidableEq, Repr

/-- The refusals, with the `RangeError` that a text outside its limits is refused with. -/
inductive Refusal
  | rangeError (message : String)
  | urlRefused
  | slugInvalid
  | notFound
  | stale
  | forwardingRequiresSlug
  | slugTaken
  | folderNotFound
  | tagNotFound
  deriving DecidableEq, Repr

/-- `BookmarkRecord`: a bookmark with the folders and the tags its owner has put it under. -/
structure BookmarkRecord where
  row : Bookmark
  folders : List Uuid
  tags : List Uuid
  deriving DecidableEq, Repr

/-- `BookmarkUpdateResult`. -/
inductive BookmarkUpdateResult
  | updated (bookmark : BookmarkRecord)
  | unchanged (bookmark : BookmarkRecord)
  | refused (why : Refusal)
  deriving DecidableEq, Repr

/-! ## The patch of a member -/

/-- `BookmarkPatch`, with the tags it names as `bookmarkTagSelection` leaves them. -/
structure BookmarkPatch where
  url : Option String := none
  title : Option String := none
  description : Option (Option String) := none
  pinned : Option Bool := none
  slug : Option (Option String) := none
  forwarding : Option Bool := none
  folderIds : Option (List Uuid) := none
  tags : Option BookmarkTagSelection := none
  deriving DecidableEq, Repr

/-- The two checks of text that a patch goes through. -/
structure TextChecks where
  normalizeBookmarkUrl : String → Option BookmarkUrl
  parseSlug : String → Option String

def BOOKMARK_TITLE_MAX_LENGTH : ℕ := 300

def BOOKMARK_DESCRIPTION_MAX_LENGTH : ℕ := 1000

/-- `checkLength`: the characters are counted by code points. -/
def checkLength (field value : String) (least most : ℕ) : Except Refusal Unit :=
  if value.length < least ∨ most < value.length then
    throw (.rangeError s!"a bookmark {field} has {least} to {most} characters")
  else pure ()

/-- What `updateBookmark` makes of a patch before it asks the store, or the refusal it answers. -/
def changesOf (checks : TextChecks) (patch : BookmarkPatch) : Except Refusal BookmarkChanges := do
  let url ← match patch.url with
    | none => pure none
    | some url => match checks.normalizeBookmarkUrl url with
      | none => throw .urlRefused
      | some normalized => pure (some normalized)
  if let some title := patch.title then
    checkLength "title" title 1 BOOKMARK_TITLE_MAX_LENGTH
  let description := patch.description.map fun description => if description = some "" then none else description
  if let some (some description) := description then
    checkLength "description" description 1 BOOKMARK_DESCRIPTION_MAX_LENGTH
  let slug ← match patch.slug with
    | none => pure none
    | some none => pure (some none)
    | some (some slug) => match checks.parseSlug slug with
      | none => throw .slugInvalid
      | some parsed => pure (some (some parsed))
  if patch.forwarding = some true ∧ slug = some none then throw .forwardingRequiresSlug
  return {
    url := url
    title := patch.title
    description := description
    pinned := patch.pinned
    slug := slug
    forwarding := patch.forwarding
    folderIds := patch.folderIds.map List.dedup
    tags := patch.tags }

/-! ## The columns that change -/

/-- The columns an `UPDATE` sets. -/
structure BookmarkSet where
  url : Option BookmarkUrl
  title : Option String
  description : Option (Option String)
  slug : Option (Option String)
  forwarding : Option Bool
  pinnedAt : Option (Option Timestamp)
  deriving DecidableEq

/-- The columns of a change that differ from the row. -/
def setOf (changes : BookmarkChanges) (current : Bookmark) (now : Timestamp) : BookmarkSet where
  url := changes.url.filter fun u =>
    decide (u.url ≠ current.url ∨ u.canonical ≠ current.urlCanonical ∨ u.host ≠ current.host)
  title := changes.title.filter fun title => decide (title ≠ current.title)
  description := changes.description.filter fun description => decide (description ≠ current.description)
  slug := changes.slug.filter fun slug => decide (slug ≠ current.slug)
  forwarding := changes.forwarding.filter fun forwarding => decide (forwarding ≠ current.forwarding)
  pinnedAt := (changes.pinned.filter fun pinned => decide (pinned ≠ current.pinnedAt.isSome)).map fun pinned =>
    if pinned then some now else none

namespace BookmarkSet

/-- `Object.keys(set).length === 0`. -/
def isEmpty (set : BookmarkSet) : Bool :=
  set.url.isNone && set.title.isNone && set.description.isNone && set.slug.isNone && set.forwarding.isNone &&
    set.pinnedAt.isNone

/-- The row with the columns set. -/
def applied (set : BookmarkSet) (b : Bookmark) : Bookmark :=
  { b with
    url := (set.url.map BookmarkUrl.url).getD b.url
    urlCanonical := (set.url.map BookmarkUrl.canonical).getD b.urlCanonical
    host := (set.url.map BookmarkUrl.host).getD b.host
    title := set.title.getD b.title
    description := set.description.getD b.description
    slug := set.slug.getD b.slug
    forwarding := set.forwarding.getD b.forwarding
    pinnedAt := set.pinnedAt.getD b.pinnedAt }

end BookmarkSet

/-- The row as the patch says: every column it names has the value it names. -/
def patched (changes : BookmarkChanges) (now : Timestamp) (b : Bookmark) : Bookmark :=
  { b with
    url := (changes.url.map BookmarkUrl.url).getD b.url
    urlCanonical := (changes.url.map BookmarkUrl.canonical).getD b.urlCanonical
    host := (changes.url.map BookmarkUrl.host).getD b.host
    title := changes.title.getD b.title
    description := changes.description.getD b.description
    slug := changes.slug.getD b.slug
    forwarding := changes.forwarding.getD b.forwarding
    pinnedAt := (changes.pinned.map fun pinned =>
      if pinned = b.pinnedAt.isSome then b.pinnedAt else if pinned then some now else none).getD b.pinnedAt }

section

variable {changes : BookmarkChanges} {now : Timestamp} {b : Bookmark}

theorem getD_filter {α : Type} [DecidableEq α] (wanted : Option α) (value : α) :
    (wanted.filter fun v => decide (v ≠ value)).getD value = wanted.getD value := by
  cases wanted with
  | none => rfl
  | some v =>
    by_cases h : v = value
    · simp [Option.filter, h]
    · simp [Option.filter, h]

theorem isNone_filter {α : Type} [DecidableEq α] (wanted : Option α) (value : α) :
    (wanted.filter fun v => decide (v ≠ value)).isNone = true ↔ wanted.getD value = value := by
  cases wanted with
  | none => simp
  | some v =>
    by_cases h : v = value
    · simp [Option.filter, h]
    · simp [Option.filter, h]

/-- **The columns that differ are what the patch asks for.** -/
theorem applied_setOf : (setOf changes b now).applied b = patched changes now b := by
  have hurl : ((setOf changes b now).url.map BookmarkUrl.url).getD b.url =
        (changes.url.map BookmarkUrl.url).getD b.url ∧
      ((setOf changes b now).url.map BookmarkUrl.canonical).getD b.urlCanonical =
        (changes.url.map BookmarkUrl.canonical).getD b.urlCanonical ∧
      ((setOf changes b now).url.map BookmarkUrl.host).getD b.host = (changes.url.map BookmarkUrl.host).getD b.host := by
    unfold setOf
    cases changes.url with
    | none => exact ⟨rfl, rfl, rfl⟩
    | some u =>
      by_cases h : u.url ≠ b.url ∨ u.canonical ≠ b.urlCanonical ∨ u.host ≠ b.host
      · simp [Option.filter, h]
      · have hsame : u.url = b.url ∧ u.canonical = b.urlCanonical ∧ u.host = b.host := by simpa using h
        simp [Option.filter, hsame]
  have hpinned : (setOf changes b now).pinnedAt.getD b.pinnedAt = (changes.pinned.map fun pinned =>
      if pinned = b.pinnedAt.isSome then b.pinnedAt else if pinned then some now else none).getD b.pinnedAt := by
    unfold setOf
    cases changes.pinned with
    | none => rfl
    | some pinned =>
      by_cases h : pinned = b.pinnedAt.isSome
      · simp [Option.filter, h]
      · simp [Option.filter, h]
  unfold BookmarkSet.applied patched
  rw [hurl.1, hurl.2.1, hurl.2.2, hpinned]
  simp only [setOf, getD_filter]

/-- **Nothing is set exactly when the patch leaves every column as it was.** -/
theorem setOf_isEmpty :
    (setOf changes b now).isEmpty = true ↔ (patched changes now b).visible = b.visible := by
  have hurl : (setOf changes b now).url.isNone = true ↔ (changes.url.map BookmarkUrl.url).getD b.url = b.url ∧
      (changes.url.map BookmarkUrl.canonical).getD b.urlCanonical = b.urlCanonical ∧
      (changes.url.map BookmarkUrl.host).getD b.host = b.host := by
    unfold setOf
    cases changes.url with
    | none => simp
    | some u =>
      by_cases h : u.url ≠ b.url ∨ u.canonical ≠ b.urlCanonical ∨ u.host ≠ b.host
      · have hsome : ¬(u.url = b.url ∧ u.canonical = b.urlCanonical ∧ u.host = b.host) := by
          simpa [imp_iff_not_or] using h
        simp [Option.filter, h, hsome]
      · have hsame : u.url = b.url ∧ u.canonical = b.urlCanonical ∧ u.host = b.host := by simpa using h
        simp [Option.filter, hsame]
  have hpinned : (setOf changes b now).pinnedAt.isNone = true ↔ (changes.pinned.map fun pinned =>
      if pinned = b.pinnedAt.isSome then b.pinnedAt else if pinned then some now else none).getD b.pinnedAt =
        b.pinnedAt := by
    unfold setOf
    cases changes.pinned with
    | none => simp
    | some pinned =>
      by_cases h : pinned = b.pinnedAt.isSome
      · simp [Option.filter, h]
      · cases hpin : b.pinnedAt with
        | none => cases pinned <;> simp_all [Option.filter]
        | some since => cases pinned <;> simp_all [Option.filter]
  have hcolumns : (setOf changes b now).isEmpty = true ↔ (setOf changes b now).url.isNone = true ∧
      changes.title.getD b.title = b.title ∧ changes.description.getD b.description = b.description ∧
      changes.slug.getD b.slug = b.slug ∧ changes.forwarding.getD b.forwarding = b.forwarding ∧
      (setOf changes b now).pinnedAt.isNone = true := by
    simp only [BookmarkSet.isEmpty, Bool.and_eq_true, and_assoc]
    refine and_congr_right fun _ => ?_
    simp only [setOf, isNone_filter]
  rw [hcolumns, hurl, hpinned]
  simp only [patched, Bookmark.visible, Bookmark.Visible.mk.injEq]
  tauto

end

/-! ## The rows a change reads -/

/-- How the database matches names, and the order a call creates them in. -/
structure Names where
  citext : String → String
  notAfter : String → String → Bool

variable (names : Names) (c : Content) (r : BookmarkUpdateRequest)

/-- The row that the change locks: the owner's, and not plan-archived. -/
def lockedRow : Option Bookmark :=
  c.bookmarks.find? fun b =>
    decide (b.workspaceId = r.workspaceId ∧ b.id = r.bookmarkId ∧ b.ownerId = some r.ownerId ∧ b.planArchivedAt = none)

/-- `lockTaggingOwner`: whether the workspace is there and the owner is a member of it. -/
def lockTaggingOwner : Bool :=
  c.workspaces.any (fun w => decide (w.id = r.workspaceId)) && c.isMember r.workspaceId r.ownerId

/-- `ownerHasSlug`, of a bookmark other than the one that changes. -/
def ownerHasSlug (slug : String) : Bool :=
  c.bookmarks.any fun b =>
    decide (b.workspaceId = r.workspaceId ∧ b.ownerId = some r.ownerId ∧ b.slug = some slug ∧ b.id ≠ r.bookmarkId)

/-- Whether the folder is one of the owner's. -/
def ownsFolder (id : Uuid) : Bool :=
  c.folders.any fun f => decide (f.workspaceId = r.workspaceId ∧ f.ownerId = some r.ownerId ∧ f.id = id)

/-- Whether the tag is one of the owner's. -/
def ownsTag (id : Uuid) : Bool :=
  c.tags.any fun t => decide (t.workspaceId = r.workspaceId ∧ t.ownerId = r.ownerId ∧ t.id = id)

/-- `lockOwnedFolders`: whether every folder is one of the owner's. -/
def lockOwnedFolders (folderIds : List Uuid) : Bool := folderIds.all (ownsFolder c r)

/-- `lockTaggingTags`: whether every tag named by its identifier is one of the owner's. -/
def lockTaggingTags (tags : BookmarkTagSelection) : Bool := tags.ids.all (ownsTag c r)

/-- `foldersOfBookmarks`, of the bookmark that changes. -/
def foldersOfBookmarks : List Uuid :=
  (c.folderBookmarks.rows.filter fun l =>
    decide (l.workspaceId = r.workspaceId ∧ l.bookmarkId = r.bookmarkId) && ownsFolder c r l.folderId).map (·.folderId)

/-- `tagsOfBookmarks`, of the bookmark that changes. -/
def tagsOfBookmarks : List Uuid :=
  (c.bookmarkTags.rows.filter fun l =>
    decide (l.workspaceId = r.workspaceId ∧ l.bookmarkId = r.bookmarkId) && ownsTag c r l.tagId).map (·.tagId)

/-- The owner's tag of a name, among the rows that `made` adds to the committed ones. -/
def tagByName (made : List BookmarkTagName) (name : String) : Option Uuid :=
  ((made.find? fun tag => decide (names.citext tag.name = names.citext name)).map (·.newId)).or
    ((c.tags.find? fun t => decide (t.workspaceId = r.workspaceId ∧ t.ownerId = r.ownerId ∧
      names.citext t.name = names.citext name)).map (·.id))

/-- The names the owner has no tag of, in the order they are created in. -/
def missingNames (wanted : List BookmarkTagName) : List BookmarkTagName :=
  (wanted.filter fun tag => (tagByName names c r [] tag.name).isNone).insertionSort
    fun a b => names.notAfter a.name b.name = true

/-- The tags that `INSERT INTO tags … ON CONFLICT DO NOTHING` makes. -/
def insertNames (missing : List BookmarkTagName) : List BookmarkTagName :=
  missing.foldl (fun made tag => if (tagByName names c r made tag.name).isNone then made ++ [tag] else made) []

/-- `tagIdsOf`, once the names are read back; `none` when one of them has no tag. -/
def tagIdsOf (made : List BookmarkTagName) (tags : BookmarkTagSelection) : Option (List Uuid) :=
  if tags.names.all fun tag => (tagByName names c r made tag.name).isSome then
    some (tags.ids ++ tags.names.filterMap fun tag => tagByName names c r made tag.name).dedup
  else none

/-! ## What a change writes -/

/-- What a change has decided to write. -/
structure Writes where
  set : BookmarkSet
  made : List BookmarkTagName
  leaving : List Uuid
  joining : List Uuid
  detaching : List Uuid
  attaching : List Uuid
  deriving DecidableEq

theorem written_applied_id (s : Session) (set : BookmarkSet) (b : Bookmark) :
    (Bookmark.written s b (set.applied b)).id = b.id := rfl

/-- Rows inserted `ON CONFLICT DO NOTHING` on the primary key. -/
def insertAll {ρ κ : Type} [DecidableEq κ] {key : ρ → κ} (t : Table ρ key) (rows : List ρ) : Table ρ key :=
  rows.foldl (fun t row => (t.insert? row).getD t) t

/-- **The writes of a change**, on the committed rows. -/
def applyWrites (s : Session) (writes : Writes) : Content :=
  { c with
    bookmarks := if writes.set.isEmpty then c.bookmarks else
      c.bookmarks.updateWhere (fun b => decide (b.id = r.bookmarkId))
        (fun b => Bookmark.written s b (writes.set.applied b)) (written_applied_id s writes.set)
    tags := insertAll c.tags (writes.made.map fun tag =>
      { id := tag.newId, workspaceId := r.workspaceId, ownerId := r.ownerId, name := tag.name })
    folderBookmarks := insertAll
      (c.folderBookmarks.deleteWhere fun l =>
        decide (l.workspaceId = r.workspaceId ∧ l.bookmarkId = r.bookmarkId) && writes.leaving.contains l.folderId)
      (writes.joining.map fun folderId =>
        { workspaceId := r.workspaceId, folderId := folderId, bookmarkId := r.bookmarkId })
    bookmarkTags := insertAll
      (c.bookmarkTags.deleteWhere fun l =>
        decide (l.workspaceId = r.workspaceId ∧ l.bookmarkId = r.bookmarkId) && writes.detaching.contains l.tagId)
      (writes.attaching.map fun tagId =>
        { workspaceId := r.workspaceId, bookmarkId := r.bookmarkId, tagId := tagId }) }

/-! ## The statements of a change -/

/-- Where a change is: between which two of its statements, and what it has read. -/
inductive Stage
  | asked
  | ownerHeld
  | held (current : Bookmark)
  | slugJudged (current : Bookmark)
  | foldersHeld (current : Bookmark)
  | tagsHeld (current : Bookmark)
  | filedRead (current : Bookmark) (filedBefore : List Uuid)
  | linksRead (current : Bookmark) (filedBefore carriedBefore : List Uuid)
  | namesRead (current : Bookmark) (filedBefore carriedBefore : List Uuid) (tags : BookmarkTagSelection)
      (missing : List BookmarkTagName)
  | tagsMade (current : Bookmark) (filedBefore carriedBefore : List Uuid) (tags : BookmarkTagSelection)
      (made : List BookmarkTagName)
  | tagsNamed (current : Bookmark) (filedBefore carriedBefore : List Uuid) (made : List BookmarkTagName)
      (wantedTags : Option (List Uuid))
  deriving DecidableEq

/-- The row a change holds. -/
def Stage.row : Stage → Option Bookmark
  | .asked | .ownerHeld => none
  | .held current | .slugJudged current | .foldersHeld current | .tagsHeld current | .filedRead current _
  | .linksRead current _ _ | .namesRead current _ _ _ _ | .tagsMade current _ _ _ _
  | .tagsNamed current _ _ _ _ => some current

/-- How a statement ends: the change goes on, commits its writes with an answer, or is rolled back. -/
inductive Outcome
  | go (stage : Stage)
  | commit (answer : BookmarkUpdateResult) (writes : Option Writes)
  | rollback (answer : BookmarkUpdateResult)

/-- A refusal, with nothing written. -/
def Outcome.refuse (why : Refusal) : Outcome := .commit (.refused why) none

/-- What a change decides to write, and whether it sets a column or moves a link. -/
def decided (current : Bookmark) (filedBefore carriedBefore : List Uuid) (made : List BookmarkTagName)
    (wantedTags : Option (List Uuid)) (now : Timestamp) : Writes where
  set := setOf r.changes current now
  made := made
  detaching := (wantedTags.map fun wanted => carriedBefore.filter fun id => !wanted.contains id).getD []
  attaching := (wantedTags.map fun wanted => wanted.filter fun id => !carriedBefore.contains id).getD []
  leaving := (r.changes.folderIds.map fun wanted => filedBefore.filter fun id => !wanted.contains id).getD []
  joining := (r.changes.folderIds.map fun wanted => wanted.filter fun id => !filedBefore.contains id).getD []

/-- Whether the bookmark and its links stay as they are. -/
def Writes.nothing (writes : Writes) : Bool :=
  writes.set.isEmpty && writes.leaving.isEmpty && writes.joining.isEmpty && writes.detaching.isEmpty &&
    writes.attaching.isEmpty

/-- **The statements of `BookmarkRepository.update`**: what each does with the rows committed when it starts. -/
def statement (s : Session) (now : Timestamp) : Stage → Outcome
  | .asked =>
    match r.changes.tags with
    | some tags => if !tags.names.isEmpty && !lockTaggingOwner c r then .refuse .notFound else .go .ownerHeld
    | none => .go .ownerHeld
  | .ownerHeld =>
    match lockedRow c r with
    | none => .refuse .notFound
    | some current =>
      if (r.expectedVersions.map fun versions => !versions.contains current.version).getD false then .refuse .stale
      else if r.changes.forwarding.getD current.forwarding && (r.changes.slug.getD current.slug).isNone then
        .refuse .forwardingRequiresSlug
      else .go (.held current)
  | .held current =>
    match r.changes.slug with
    | some (some slug) =>
      if current.slug ≠ some slug ∧ ownerHasSlug c r slug = true then .refuse .slugTaken else .go (.slugJudged current)
    | _ => .go (.slugJudged current)
  | .slugJudged current =>
    match r.changes.folderIds with
    | some folderIds => if lockOwnedFolders c r folderIds then .go (.foldersHeld current) else .refuse .folderNotFound
    | none => .go (.foldersHeld current)
  | .foldersHeld current =>
    match r.changes.tags with
    | some tags => if lockTaggingTags c r tags then .go (.tagsHeld current) else .refuse .tagNotFound
    | none => .go (.tagsHeld current)
  | .tagsHeld current => .go (.filedRead current (foldersOfBookmarks c r))
  | .filedRead current filed => .go (.linksRead current filed (tagsOfBookmarks c r))
  | .linksRead current filed carried =>
    match r.changes.tags with
    | some tags =>
      -- every name has a tag: nothing is inserted and nothing read back
      match tagIdsOf names c r [] tags with
      | some wanted => .go (.tagsNamed current filed carried [] (some wanted))
      | none => .go (.namesRead current filed carried tags (missingNames names c r tags.names))
    | none => .go (.tagsNamed current filed carried [] none)
  | .namesRead current filed carried tags missing =>
    .go (.tagsMade current filed carried tags (insertNames names c r missing))
  | .tagsMade current filed carried tags made =>
    match tagIdsOf names c r made tags with
    | some wanted => .go (.tagsNamed current filed carried made (some wanted))
    -- the savepoint of the names is rolled back
    | none => .refuse .tagNotFound
  | .tagsNamed current filed carried made wantedTags =>
    let writes := decided r current filed carried made wantedTags now
    if writes.nothing then .commit (.unchanged ⟨current, filed, carried⟩) (some writes)
    -- the key of the slugs is violated: the error rolls the transaction back
    else if writes.set.isEmpty = false ∧ ((writes.set.applied current).slug.map (ownerHasSlug c r)).getD false = true then
      .rollback (.refused .slugTaken)
    else
      let after := applyWrites c r s writes
      .commit (.updated ⟨(after.bookmarks.find? fun b => decide (b.id = r.bookmarkId)).getD current,
        foldersOfBookmarks after r, tagsOfBookmarks after r⟩) (some writes)

end SlugBase.Editing
