import SlugBase.Keyset.Names
import SlugBase.Lib.Keyset

/-!
# The pages of the folders

A page of the folders a member sees, by name, by number of bookmarks, or by the time of the last change.

* `foldersOf`: the statement of a page; `folderCursorScope`, `listFolders`: the operation;
* **`listFolders_resumes`**: the cursor of a folder asks for the folders after it.
-/

set_option linter.unusedSectionVars false

namespace SlugBase.Keyset

open Relational Bulk OrderDual

variable {κ : Type} [LinearOrder κ] (T : KeysetTexts κ) (rt : CursorRuntime) (c : Content)

/-! ## Folders -/

inductive FolderScope
  | mine
  | shared
  | all
deriving DecidableEq, Repr

inductive FolderSort
  | name
  | count
  | updated
deriving DecidableEq, Repr

def FolderScope.text : FolderScope → String
  | .mine => "mine"
  | .shared => "shared"
  | .all => "all"

def FolderSort.text : FolderSort → String
  | .name => "name"
  | .count => "count"
  | .updated => "updated"

/-- `FolderListRow`, without its owner and how it is shared. -/
structure FolderListRow where
  folder : Folder
  updatedKey : String
  bookmarkCount : ℕ
deriving DecidableEq, Repr

def FolderListRow.key (row : FolderListRow) : NameKey := ⟨row.bookmarkCount, row.folder.name, row.folder.id⟩

structure FolderPosition where
  count : Option ℕ
  updated : Option String
  name : String
  id : String
deriving DecidableEq, Repr

/-- The bookmarks that a link leads to and that no plan has archived. -/
def linkedBookmarks (workspaceId bookmarkId : Uuid) : List Bookmark :=
  c.bookmarks.rows.filter fun b => decide (b.workspaceId = workspaceId ∧ b.id = bookmarkId) && b.planArchivedAt.isNone

/-- `count(bookmarks.id)` of a folder. -/
def folderBookmarkCount (f : Folder) : ℕ :=
  ((c.folderBookmarks.rows.filter fun l => decide (l.workspaceId = f.workspaceId ∧ l.folderId = f.id)).flatMap fun l =>
    linkedBookmarks c l.workspaceId l.bookmarkId).length

/-- `inScope`. -/
def inScope (workspaceId viewerId : Uuid) (scope : FolderScope) (f : Folder) : Bool :=
  let own := sqlEq f.ownerId (some viewerId)
  let shared := decide (f.ownerId ≠ some viewerId) && folderSharedWith c viewerId f.workspaceId f.id
  decide (f.workspaceId = workspaceId) && match scope with
    | .mine => own
    | .shared => shared
    | .all => own || shared

/-- `matchesSearch`. -/
def matchesSearch (search : Option String) (f : Folder) : Bool := search.all fun text => T.contains text f.name

def folderRowOf (f : Folder) : FolderListRow := ⟨f, T.timestampText f.updatedAt, folderBookmarkCount c f⟩

/-- The folders of the scope that the search finds. -/
def folderRows (workspaceId viewerId : Uuid) (scope : FolderScope) (search : Option String) : List FolderListRow :=
  (c.folders.rows.filter fun f => inScope c workspaceId viewerId scope f && matchesSearch T search f).map (folderRowOf T c)

/-- `ORDERS`. -/
def folderRank (sort : FolderSort) (row : FolderListRow) : (ℕᵒᵈ ×ₗ (κ ×ₗ ℕ)) ⊕ₗ (ℕ ×ₗ ℕ)ᵒᵈ :=
  match sort with
  | .name => Sum.inlₗ (row.key.rank T false)
  | .count => Sum.inlₗ (row.key.rank T true)
  | .updated => Sum.inrₗ (toDual (toLex (row.folder.updatedAt, row.folder.id)))

/-- `rowsAfter` and `groupsAfter`. -/
def afterFolder (sort : FolderSort) (after : FolderPosition) (row : FolderListRow) : Bool :=
  match sort with
  | .name => afterName T after.name after.id row.key
  | .count => after.count.all fun count => afterCount T count after.name after.id row.key
  | .updated => after.updated.all fun updated =>
    decide (row.folder.updatedAt < T.readTimestamp updated ∨
      row.folder.updatedAt = T.readTimestamp updated ∧ row.folder.id < T.readUuid after.id)

/-- `foldersOf`, in the workspace of the transaction. -/
def foldersOf (workspaceId viewerId : Uuid) (scope : FolderScope) (search : Option String) (sort : FolderSort)
    (after : Option FolderPosition) (limit : ℕ) : List FolderListRow :=
  top (folderRank T sort) limit ((folderRows T c workspaceId viewerId scope search).filter fun row =>
    after.all fun position => afterFolder T sort position row)

/-- The parts of a position: the cursor of a list of folders. -/
def FolderPosition.parts (position : FolderPosition) : List (Option String) :=
  [position.count.map countText, position.updated, some position.name, some position.id]

def folderPositionOf : List (Option String) → Option FolderPosition
  | [none, updated, some name, some id] => some ⟨none, updated, name, id⟩
  | [some count, updated, some name, some id] => (readCount count).map fun count => ⟨some count, updated, name, id⟩
  | _ => none

/-- `folderCursors`. -/
def sealFolder (position : FolderPosition) (scope : String) : String := encodeKey rt "folders" position.parts scope

def openFolder (cursor scope : String) : Option FolderPosition := (decodeKey rt "folders" cursor scope).bind folderPositionOf

structure FolderListAsk where
  workspaceId : Uuid
  accountId : Uuid
  scope : FolderScope
  search : Option String
  sort : FolderSort
  limit : PageSize
  cursor : Option String
deriving DecidableEq, Repr

/-- `cursorScope` of a list of folders. -/
def folderCursorScope (ask : FolderListAsk) : String :=
  rt.stringify (.list [textPart (T.uuidText ask.workspaceId), textPart (T.uuidText ask.accountId), textPart ask.scope.text,
    ask.search.map .inl, textPart ask.sort.text])

/-- `fitsSort`. -/
def fitsSort (position : FolderPosition) (sort : FolderSort) : Bool :=
  decide (sort = .count) == position.count.isSome && decide (sort = .updated) == position.updated.isSome

/-- The position of the last folder of a page. -/
def folderPosition (sort : FolderSort) (row : FolderListRow) : FolderPosition where
  count := if sort = .count then some row.bookmarkCount else none
  updated := if sort = .updated then some row.updatedKey else none
  name := row.folder.name
  id := T.uuidText row.folder.id

/-- The position a cursor resumes from: of no cursor none; refused when it is of another list or sort. -/
def folderAfter (ask : FolderListAsk) : Option (Option FolderPosition) :=
  match ask.cursor with
  | none => some none
  | some cursor =>
    match openFolder rt cursor (folderCursorScope T rt ask) with
    | none => none
    | some after => if fitsSort after ask.sort then some (some after) else none

/-- `listFolders`; none for a cursor that is refused. -/
def listFolders (ask : FolderListAsk) : Option (Counted FolderListRow) :=
  (folderAfter T rt ask).map fun after =>
    let fetched := foldersOf T c ask.workspaceId ask.accountId ask.scope ask.search ask.sort after (ask.limit.val + 1)
    let counted := ((folderRows T c ask.workspaceId ask.accountId ask.scope ask.search).take (LIST_TOTAL_CAP + 1)).length
    ⟨cut (fun row => sealFolder rt (folderPosition T ask.sort row) (folderCursorScope T rt ask)) ask.limit.val fetched,
      cappedTotal counted⟩

/-! ## The pages of the folders -/

/-- The counts fit their column type: `count(...)::int` fails on a count that does not. -/
def FolderCountsFit (c : Content) : Prop := ∀ f ∈ c.folders.rows, folderBookmarkCount c f < 2 ^ 31

section

variable {T rt c} {sort : FolderSort} {x y : FolderListRow} {scope : String} {w viewer : Uuid} {folderScope : FolderScope}
  {search : Option String}

theorem openFolder_sealFolder {position : FolderPosition} (h : ∀ count, position.count = some count → count < 10 ^ 15) :
    openFolder rt (sealFolder rt position scope) scope = some position := by
  obtain ⟨count, updated, name, id⟩ := position
  rw [openFolder, sealFolder, decodeKey_encodeKey, Option.bind_some, FolderPosition.parts]
  cases count with
  | none => rfl
  | some count =>
    rw [Option.map_some, folderPositionOf, readCount_countText (h count rfl), Option.map_some]

theorem fitsSort_folderPosition (sort : FolderSort) (row : FolderListRow) : fitsSort (folderPosition T sort row) sort = true := by
  cases sort <;> rfl

/-- **The position of a folder selects the folders after it.** -/
theorem afterFolder_iff (hx : x.updatedKey = T.timestampText x.folder.updatedAt) :
    afterFolder T sort (folderPosition T sort x) y = decide (folderRank T sort x < folderRank T sort y) := by
  rw [Bool.eq_iff_iff, decide_eq_true_eq]
  cases sort with
  | name =>
    rw [folderRank, folderRank, Sum.Lex.inl_lt_inl_iff]
    exact afterName_iff (k := y.key) (p := x.key)
  | count =>
    rw [folderRank, folderRank, Sum.Lex.inl_lt_inl_iff]
    exact afterCount_iff (k := y.key) (p := x.key)
  | updated =>
    rw [folderRank, folderRank, Sum.Lex.inr_lt_inr_iff, toDual_lt_toDual, Prod.Lex.toLex_lt_toLex]
    simp only [afterFolder, folderPosition, if_true, Option.all_some, decide_eq_true_eq, hx, T.readTimestamp_text,
      T.readUuid_text]

theorem mem_folderRows (h : x ∈ folderRows T c w viewer folderScope search) :
    x.folder ∈ c.folders.rows ∧ x = folderRowOf T c x.folder := by
  obtain ⟨f, hf, rfl⟩ := List.mem_map.mp h
  exact ⟨List.mem_of_mem_filter hf, rfl⟩

theorem folderRank_injective (h : folderRank T sort x = folderRank T sort y) : x.folder.id = y.folder.id := by
  cases sort with
  | name => exact rank_injective (k := x.key) (p := y.key) (Sum.inl_injective (toLex_inj.mp h))
  | count => exact rank_injective (k := x.key) (p := y.key) (Sum.inl_injective (toLex_inj.mp h))
  | updated =>
    have hpair := toLex_inj.mp (toDual_inj.mp (Sum.inr_injective (toLex_inj.mp h)))
    exact (Prod.mk.inj hpair).2

theorem separates_folderRows : Separates (folderRank T sort) (folderRows T c w viewer folderScope search) := by
  intro x hx y hy h
  obtain ⟨hxmem, hxrow⟩ := mem_folderRows hx
  obtain ⟨hymem, hyrow⟩ := mem_folderRows hy
  rw [hxrow, hyrow, Table.eq_of_key hxmem hymem (folderRank_injective h)]

theorem folderRows_nodup : (folderRows T c w viewer folderScope search).Nodup := by
  refine ((List.Nodup.of_map _ c.folders.keyed).filter _).map fun f g h => ?_
  exact congrArg FolderListRow.folder h

theorem folderPosition_count (hcounts : FolderCountsFit c) (hx : x ∈ folderRows T c w viewer folderScope search) {count : ℕ}
    (h : (folderPosition T sort x).count = some count) : count < 10 ^ 15 := by
  obtain ⟨hmem, hrow⟩ := mem_folderRows hx
  have hfits : x.bookmarkCount < 2 ^ 31 := by
    rw [hrow]
    exact hcounts _ hmem
  unfold folderPosition at h
  dsimp only at h
  split_ifs at h
  rw [← Option.some.inj h]
  omega

/-- **The cursor of a folder asks for the folders after it.** -/
theorem listFolders_resumes (hcounts : FolderCountsFit c) (ask : FolderListAsk) :
    Resumes (folderRank T ask.sort) (fun row => sealFolder rt (folderPosition T ask.sort row) (folderCursorScope T rt ask))
      ask.limit.val (folderRows T c ask.workspaceId ask.accountId ask.scope ask.search)
      fun cursor => (listFolders T rt c { ask with cursor := cursor }).map Counted.toKeysetPage where
  first := by
    rw [listFolders, folderAfter, Option.map_some, Option.map_some, foldersOf]
    simp only [Option.all_none, List.filter_true]
    rfl
  after := by
    intro x hx
    obtain ⟨hmem, hrow⟩ := mem_folderRows hx
    have hcount : ∀ count, (folderPosition T ask.sort x).count = some count → count < 10 ^ 15 :=
      fun _ => folderPosition_count hcounts hx
    have hkey : x.updatedKey = T.timestampText x.folder.updatedAt := by rw [hrow]; rfl
    have hopen : openFolder rt (sealFolder rt (folderPosition T ask.sort x) (folderCursorScope T rt ask))
        (folderCursorScope T rt ask) = some (folderPosition T ask.sort x) := openFolder_sealFolder hcount
    have hafter : folderAfter T rt { ask with
        cursor := some (sealFolder rt (folderPosition T ask.sort x) (folderCursorScope T rt ask)) } =
          some (some (folderPosition T ask.sort x)) := by
      rw [folderAfter]
      dsimp only
      have hscope : folderCursorScope T rt { ask with
          cursor := some (sealFolder rt (folderPosition T ask.sort x) (folderCursorScope T rt ask)) } =
            folderCursorScope T rt ask := rfl
      rw [hscope, hopen]
      dsimp only
      rw [if_pos (fitsSort_folderPosition _ _)]
    rw [listFolders, hafter, Option.map_some, Option.map_some, foldersOf, rowsAfter]
    simp only [Option.all_some, afterFolder_iff hkey]
    rfl

end

end SlugBase.Keyset
