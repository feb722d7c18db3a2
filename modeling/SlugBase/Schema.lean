import SlugBase.Lib.Table
import SlugBase.Lib.Sql

/-!
# The tables of a workspace's content

The rows that bookmarks, folders, tags, teams and shares are kept in, with the columns the modelled
functions read or write, and the settings of the transaction that reads them.

* `Bookmark`, `Workspace`, `Member`, `Folder`, `Team`, `BookmarkShare`, …: the rows;
* `Content`: the tables of one database under their primary keys;
* `Session`: the tenant settings of a transaction (`app_account_id()`, `app_workspace_id()`,
  `app_departure_id()`) and its time `now()`;
* `Content.deleteBookmarks`, `Content.deleteMember`: a deletion with what the foreign keys do to the
  rows that reference it.
-/

namespace SlugBase

open Relational

/-- A row identifier. -/
abbrev Uuid := ℕ

/-- A `timestamptz`, in microseconds. -/
abbrev Timestamp := ℕ

/-- The enumeration `member_role`. -/
inductive MemberRole
  | owner
  | admin
  | member
  deriving DecidableEq, Repr

/-- The column `access_mode` of `accounts`. -/
inductive AccessMode
  | full
  | exportOnly
  deriving DecidableEq, Repr

/-- A row of `workspaces`. -/
structure Workspace where
  id : Uuid
  bookmarkCount : ℤ
  deletingAt : Option Timestamp
  deriving DecidableEq, Repr

/-- A row of `workspace_members`. -/
structure Member where
  workspaceId : Uuid
  accountId : Uuid
  role : MemberRole
  deriving DecidableEq, Repr

/-- The key of `workspace_members`. -/
def Member.key (m : Member) : Uuid × Uuid := (m.workspaceId, m.accountId)

/-- A row of `bookmarks`. -/
structure Bookmark where
  id : Uuid
  workspaceId : Uuid
  ownerId : Option Uuid
  departureId : Option Uuid
  departureSlug : Option String
  departureForwarding : Option Bool
  url : String
  urlCanonical : String
  host : String
  title : String
  description : Option String
  slug : Option String
  forwarding : Bool
  pinnedAt : Option Timestamp
  planArchivedAt : Option Timestamp
  openCount : ℕ
  lastOpenedAt : Option Timestamp
  version : ℤ
  createdAt : Timestamp
  updatedAt : Timestamp
  deriving DecidableEq, Repr

/-- A row of `folders`; `name` and `departure_name` are `citext`. -/
structure Folder where
  id : Uuid
  workspaceId : Uuid
  ownerId : Option Uuid
  departureId : Option Uuid
  departureName : Option String
  name : String
  icon : String
  color : ℕ
  version : ℤ
  createdAt : Timestamp
  updatedAt : Timestamp
  deriving DecidableEq, Repr

/-- A row of `folder_bookmarks`. -/
structure FolderBookmark where
  workspaceId : Uuid
  folderId : Uuid
  bookmarkId : Uuid
  deriving DecidableEq, Repr

/-- The key of `folder_bookmarks`. -/
def FolderBookmark.key (l : FolderBookmark) : Uuid × Uuid := (l.folderId, l.bookmarkId)

/-- A row of `tags`; `name` is `citext`. -/
structure Tag where
  id : Uuid
  workspaceId : Uuid
  ownerId : Uuid
  name : String
  deriving DecidableEq, Repr

/-- A row of `bookmark_tags`. -/
structure BookmarkTag where
  workspaceId : Uuid
  bookmarkId : Uuid
  tagId : Uuid
  deriving DecidableEq, Repr

/-- The key of `bookmark_tags`. -/
def BookmarkTag.key (l : BookmarkTag) : Uuid × Uuid := (l.bookmarkId, l.tagId)

/-- A row of `teams`. -/
structure Team where
  id : Uuid
  workspaceId : Uuid
  deriving DecidableEq, Repr

/-- A row of `team_members`. -/
structure TeamMember where
  workspaceId : Uuid
  teamId : Uuid
  accountId : Uuid
  deriving DecidableEq, Repr

/-- The key of `team_members`. -/
def TeamMember.key (m : TeamMember) : Uuid × Uuid := (m.teamId, m.accountId)

/-- Whom a share is with: the table's CHECK allows exactly one of the two columns. -/
structure ShareTarget where
  targetAccountId : Option Uuid
  targetTeamId : Option Uuid
  target_check : targetAccountId.isNone ≠ targetTeamId.isNone
  deriving DecidableEq

/-- A row of `bookmark_shares`. -/
structure BookmarkShare extends ShareTarget where
  id : Uuid
  workspaceId : Uuid
  bookmarkId : Uuid
  deriving DecidableEq

/-- A row of `folder_shares`. -/
structure FolderShare extends ShareTarget where
  id : Uuid
  workspaceId : Uuid
  folderId : Uuid
  deriving DecidableEq

/-- A row of `slug_preferences`. -/
structure SlugPreference where
  workspaceId : Uuid
  accountId : Uuid
  slug : String
  bookmarkId : Uuid
  deriving DecidableEq, Repr

/-- The key of `slug_preferences`. -/
def SlugPreference.key (p : SlugPreference) : Uuid × Uuid × String :=
  (p.workspaceId, p.accountId, p.slug)

/-- **The content tables of a database.** -/
structure Content where
  workspaces : Table Workspace Workspace.id := ∅
  members : Table Member Member.key := ∅
  bookmarks : Table Bookmark Bookmark.id := ∅
  folders : Table Folder Folder.id := ∅
  folderBookmarks : Table FolderBookmark FolderBookmark.key := ∅
  tags : Table Tag Tag.id := ∅
  bookmarkTags : Table BookmarkTag BookmarkTag.key := ∅
  teams : Table Team Team.id := ∅
  teamMembers : Table TeamMember TeamMember.key := ∅
  bookmarkShares : Table BookmarkShare BookmarkShare.id := ∅
  folderShares : Table FolderShare FolderShare.id := ∅
  slugPreferences : Table SlugPreference SlugPreference.key := ∅

/-- The tenant settings of a transaction and the time it began. -/
structure Session where
  appAccountId : Option Uuid
  appWorkspaceId : Option Uuid
  appDepartureId : Option Uuid := none
  now : Timestamp := 0
  deriving DecidableEq, Repr

namespace Content

variable (c : Content)

/-- Whether the account is a member of the workspace. -/
def isMember (workspaceId accountId : Uuid) : Bool :=
  c.members.any fun m => decide (m.workspaceId = workspaceId ∧ m.accountId = accountId)

/-- The row of a workspace that is not being deleted, which the system operations lock. -/
def liveWorkspace (workspaceId : Uuid) : Option Workspace :=
  c.workspaces.find? fun w => decide (w.id = workspaceId) && w.deletingAt.isNone

/-- `DELETE` from `bookmarks`, with the rows that reference a deleted bookmark (`ON DELETE CASCADE`). -/
def deleteBookmarks (p : Bookmark → Bool) : Content :=
  let gone (id : Uuid) := c.bookmarks.any fun b => decide (b.id = id) && p b
  { c with
    bookmarks := c.bookmarks.deleteWhere p
    folderBookmarks := c.folderBookmarks.deleteWhere fun l => gone l.bookmarkId
    bookmarkTags := c.bookmarkTags.deleteWhere fun l => gone l.bookmarkId
    bookmarkShares := c.bookmarkShares.deleteWhere fun s => gone s.bookmarkId
    slugPreferences := c.slugPreferences.deleteWhere fun p => gone p.bookmarkId }

/-- `DELETE` from `folders`, with the rows that reference a deleted folder. -/
def deleteFolders (p : Folder → Bool) : Content :=
  let gone (id : Uuid) := c.folders.any fun f => decide (f.id = id) && p f
  { c with
    folders := c.folders.deleteWhere p
    folderBookmarks := c.folderBookmarks.deleteWhere fun l => gone l.folderId
    folderShares := c.folderShares.deleteWhere fun s => gone s.folderId }

@[simp] theorem bookmarks_deleteBookmarks (p : Bookmark → Bool) :
    (c.deleteBookmarks p).bookmarks = c.bookmarks.deleteWhere p := rfl

@[simp] theorem workspaces_deleteBookmarks (p : Bookmark → Bool) :
    (c.deleteBookmarks p).workspaces = c.workspaces := rfl

variable {c} in
theorem deleteBookmarks_of_none {p : Bookmark → Bool} (h : ∀ b ∈ c.bookmarks, p b = false) :
    c.deleteBookmarks p = c := by
  have hgone (id : Uuid) : (c.bookmarks.any fun b => decide (b.id = id) && p b) = false := by
    rw [Bool.eq_false_iff, Ne, Table.any_iff]
    rintro ⟨b, hb, hp⟩
    rw [h b hb, Bool.and_false] at hp
    cases hp
  simp only [deleteBookmarks, hgone, Table.deleteWhere_of_none h,
    Table.deleteWhere_of_none fun _ _ => rfl]

@[simp] theorem bookmarks_deleteFolders (p : Folder → Bool) :
    (c.deleteFolders p).bookmarks = c.bookmarks := rfl

@[simp] theorem workspaces_deleteFolders (p : Folder → Bool) :
    (c.deleteFolders p).workspaces = c.workspaces := rfl

end Content

end SlugBase
