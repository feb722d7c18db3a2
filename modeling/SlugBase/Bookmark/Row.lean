import SlugBase.Schema

/-!
# Writing a bookmark's row

What the database does with every row of `bookmarks` that a statement inserts or updates: the checks
and keys of the table and its `BEFORE UPDATE` triggers.

* `Bookmark.bumpVersion`, `Bookmark.setUpdatedAt`: the triggers of every update;
* `NewBookmark`, `Content.insertBookmark`: a row as a creation writes it, with the constraints that
  can refuse it;
* `Content.live`: the number of a workspace's bookmarks that are not plan-archived, which the
  counter of the workspace stands for.
-/

namespace SlugBase

open Relational

/-! ## The triggers -/

namespace Bookmark

/-- The columns whose change moves the version of a bookmark. -/
structure Visible where
  ownerId : Option Uuid
  url : String
  urlCanonical : String
  host : String
  title : String
  description : Option String
  slug : Option String
  forwarding : Bool
  pinnedAt : Option Timestamp
  planArchivedAt : Option Timestamp
  deriving DecidableEq

/-- The visible columns of a row. -/
def visible (b : Bookmark) : Visible where
  ownerId := b.ownerId
  url := b.url
  urlCanonical := b.urlCanonical
  host := b.host
  title := b.title
  description := b.description
  slug := b.slug
  forwarding := b.forwarding
  pinnedAt := b.pinnedAt
  planArchivedAt := b.planArchivedAt

/-- `bookmarks_bump_version()`. -/
def bumpVersion (old new : Bookmark) : Bookmark :=
  { new with version := if new.visible = old.visible then old.version else old.version + 1 }

/-- `set_updated_at()`. -/
def setUpdatedAt (s : Session) (new : Bookmark) : Bookmark :=
  { new with updatedAt := s.now }

/-- The row an update that does not take the owner away leaves. -/
def written (s : Session) (old new : Bookmark) : Bookmark :=
  (bumpVersion old new).setUpdatedAt s

section

variable (s : Session) (old new : Bookmark)

@[simp] theorem written_id : (written s old new).id = new.id := rfl

@[simp] theorem written_workspaceId : (written s old new).workspaceId = new.workspaceId := rfl

@[simp] theorem written_ownerId : (written s old new).ownerId = new.ownerId := rfl

@[simp] theorem written_planArchivedAt : (written s old new).planArchivedAt = new.planArchivedAt := rfl

end

/-- Whether the bookmark is one that the counter of workspace `w` counts. -/
def countedIn (w : Uuid) (b : Bookmark) : Bool := decide (b.workspaceId = w) && b.planArchivedAt.isNone

@[simp] theorem countedIn_iff {w : Uuid} {b : Bookmark} :
    b.countedIn w = true ↔ b.workspaceId = w ∧ b.planArchivedAt = none := by
  simp [countedIn, Option.isNone_iff_eq_none]

theorem countedIn_congr {w : Uuid} {b b' : Bookmark} (hw : b.workspaceId = b'.workspaceId)
    (hp : b.planArchivedAt = b'.planArchivedAt) : b.countedIn w = b'.countedIn w := by
  rw [countedIn, countedIn, hw, hp]

/-- Whether two rows meet in the key `bookmarks_owner_slug_key` (`NULLS NOT DISTINCT`). -/
def sameSlug (b b' : Bookmark) : Bool :=
  decide (b.workspaceId = b'.workspaceId ∧ b.ownerId = b'.ownerId) && sqlEq b.slug b'.slug

end Bookmark

/-! ## Insertion -/

/-- What a creation writes of a new bookmark. -/
structure NewBookmark where
  id : Uuid
  ownerId : Uuid
  url : String
  urlCanonical : String
  host : String
  title : String
  description : Option String
  pinned : Bool
  slug : Option String
  forwarding : Bool
  deriving DecidableEq, Repr

/-- The row of a new bookmark: never archived, not used yet. -/
def NewBookmark.row (s : Session) (workspaceId : Uuid) (b : NewBookmark) : Bookmark where
  id := b.id
  workspaceId := workspaceId
  ownerId := some b.ownerId
  departureId := none
  departureSlug := none
  departureForwarding := none
  url := b.url
  urlCanonical := b.urlCanonical
  host := b.host
  title := b.title
  description := b.description
  slug := b.slug
  forwarding := b.forwarding
  pinnedAt := if b.pinned then some s.now else none
  planArchivedAt := none
  openCount := 0
  lastOpenedAt := none
  version := 1
  createdAt := s.now
  updatedAt := s.now

namespace Content

variable (c : Content)

/-- The number of bookmarks of workspace `w` that are not plan-archived. -/
def live (w : Uuid) : ℕ := c.bookmarks.count (·.countedIn w)

/-- Whether a bookmark other than `b` holds its slug in the namespace of its owner. -/
def slugHeld (b : Bookmark) : Bool := c.bookmarks.any fun r => decide (r.id ≠ b.id) && r.sameSlug b

/-- `INSERT INTO bookmarks` of a new bookmark of workspace `workspaceId`. -/
def insertBookmark (s : Session) (workspaceId : Uuid) (b : NewBookmark) : Except SqlError Content :=
  let row := b.row s workspaceId
  if row.forwarding && row.slug.isNone then .error (.checkViolation "bookmarks_forwarding_check")
  else if !c.isMember workspaceId b.ownerId then .error (.foreignKeyViolation "bookmarks_owner_fkey")
  else if c.slugHeld row then .error (.uniqueViolation "bookmarks_owner_slug_key")
  else match c.bookmarks.insert? row with
    | none => .error (.uniqueViolation "bookmarks_pkey")
    | some bookmarks => .ok { c with bookmarks := bookmarks }

variable {c}

theorem insertBookmark_ok {s : Session} {w : Uuid} {b : NewBookmark} {c' : Content}
    (h : c.insertBookmark s w b = .ok c') :
    ∃ t, c.bookmarks.insert? (b.row s w) = some t ∧ c' = { c with bookmarks := t } := by
  unfold insertBookmark at h
  simp only at h
  split_ifs at h
  split at h
  · cases h
  · exact ⟨_, by assumption, (Except.ok.inj h).symm⟩

theorem live_insertBookmark {s : Session} {w v : Uuid} {b : NewBookmark} {c' : Content}
    (h : c.insertBookmark s w b = .ok c') : c'.live v = c.live v + if v = w then 1 else 0 := by
  obtain ⟨t, ht, rfl⟩ := insertBookmark_ok h
  rw [live, Table.count_insert? ht, ← live]
  have hrow : (b.row s w).countedIn v = true ↔ v = w := by
    rw [Bookmark.countedIn_iff]
    exact ⟨fun hw => hw.1.symm, fun hw => ⟨hw.symm, rfl⟩⟩
  simp only [hrow]

theorem live_deleteBookmarks (p : Bookmark → Bool) (w : Uuid) :
    (c.deleteBookmarks p).live w + c.bookmarks.count (fun b => p b && b.countedIn w) = c.live w :=
  Table.count_deleteWhere _ _ _

theorem live_of_bookmarks {c' : Content} (h : c'.bookmarks = c.bookmarks) (w : Uuid) :
    c'.live w = c.live w := by
  rw [live, h, live]

end Content

end SlugBase
