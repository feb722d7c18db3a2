import SlugBase.Bulk.Selection
import SlugBase.Lib.JsMap
import SlugBase.Lib.OnConflict

/-!
# Tagging and sharing many bookmarks, and their previews

What a bulk request writes for the actions `add_tags`, `remove_tags` and `share`, and what the previews of
the first and the last of them count without writing.

* `BulkStore.tag`, `BulkStore.share`: the writes; a share draws identifiers and tries again while a bookmark
  is still not shared with the target;
* `BulkStore.previewTags`, `BulkStore.previewShare`: the counts;
* `bulkBookmarks`, `previewBulkTags`, `previewBulkShare`: the requests.
-/

namespace SlugBase.Bulk

open Relational

/-- What a call answers, with the store it leaves. -/
abbrev Call (α : Type) := Reply α × BulkStore

/-! ## The bookmarks and the tags of the caller -/

namespace BulkStore

variable (lang : Language) (tx : TenantTx) (store : BulkStore) (ownerId : Uuid)

/-- `ownedLiveBookmarks`: those of the bookmarks that the account owns and that are not plan-archived. -/
def ownedLiveBookmarks (bookmarkIds : List Uuid) : List Uuid :=
  ((store.content.bookmarks.rows.filter fun row =>
    decide (row.workspaceId = tx.workspaceId) && sqlEq row.ownerId (some ownerId) && row.planArchivedAt.isNone &&
      decide (row.id ∈ bookmarkIds)).map Bookmark.id).insertionSort (· ≤ ·)

/-- The account's tags among the texts, which `lockTaggingTags` locks and `ownedTags` reads. -/
def tagsAmong (tagIds : List String) : List Tag :=
  store.content.tags.rows.filter fun t =>
    decide (t.workspaceId = tx.workspaceId) && decide (t.ownerId = ownerId) &&
      decide (t.id ∈ uuidArray (distinctIdentifiers lang tagIds))

/-- `lockTaggingTags` for tags named by identifier: whether every one of them is the account's. -/
def lockTaggingTags (tagIds : List String) : Reply Bool := do
  let wanted := distinctIdentifiers lang tagIds
  requireIdentifiers wanted "tagging bookmarks"
  let found := (store.tagsAmong lang tx ownerId tagIds).map Tag.id
  return wanted.all fun id => (uuidOf (lang.toLowerCase id)).any fun u => decide (u ∈ found)

/-- The order of tags: by name, then by identifier. -/
def tagLe (t t' : Tag) : Bool :=
  lang.citextLe t.name t'.name && (!lang.citextLe t'.name t.name || decide (t.id ≤ t'.id))

/-- `ownedTags`. -/
def ownedTags (tagIds : List String) : Reply (List Tag) := do
  requireIdentifiers (distinctIdentifiers lang tagIds) "tagging bookmarks"
  return (store.tagsAmong lang tx ownerId tagIds).mergeSort (tagLe lang)

/-- `tagsOfBookmarks`: the tags that the account has put on the bookmark. -/
def tagsOfBookmark (bookmarkId : Uuid) : List Tag :=
  ((store.content.bookmarkTags.rows.filter fun l =>
    decide (l.workspaceId = tx.workspaceId ∧ l.bookmarkId = bookmarkId)).flatMap fun l =>
      store.content.tags.rows.filter fun t =>
        decide (t.workspaceId = l.workspaceId ∧ t.id = l.tagId ∧ t.ownerId = ownerId)).mergeSort (tagLe lang)

end BulkStore

/-! ## Tagging -/

/-- Every combination of a bookmark and a tag. -/
def tagLinks (w : Uuid) (bookmarkIds tagIds : List Uuid) : List BookmarkTag :=
  bookmarkIds.flatMap fun b => tagIds.map fun t => ⟨w, b, t⟩

/-- Whether the foreign key of a link or a share finds its bookmark. -/
def bookmarkIn (c : Content) (w id : Uuid) : Bool := c.bookmarks.any fun b => decide (b.id = id ∧ b.workspaceId = w)

theorem bookmarkIn_iff {c : Content} {w id : Uuid} :
    bookmarkIn c w id = true ↔ ∃ b ∈ c.bookmarks, b.id = id ∧ b.workspaceId = w := by
  simp only [bookmarkIn, Table.any_iff, decide_eq_true_eq]

theorem mem_tagLinks {w : Uuid} {bookmarkIds tagIds : List Uuid} {l : BookmarkTag} :
    l ∈ tagLinks w bookmarkIds tagIds ↔ l.workspaceId = w ∧ l.bookmarkId ∈ bookmarkIds ∧ l.tagId ∈ tagIds := by
  simp only [tagLinks, List.mem_flatMap, List.mem_map]
  constructor
  · rintro ⟨b, hb, t, ht, rfl⟩
    exact ⟨rfl, hb, ht⟩
  · rintro ⟨rfl, hb, ht⟩
    exact ⟨_, hb, _, ht, rfl⟩

/-- No unique index besides the primary key. -/
def noIndex {ρ : Type} (_ _ : ρ) : Bool := false

/-- `insertTagLinksMany`: a link names a bookmark of the workspace, or the statement raises. -/
def BulkStore.insertTagLinksMany (store : BulkStore) (w : Uuid) (bookmarkIds tagIds : List Uuid) : Call Unit :=
  if h : ∀ id ∈ bookmarkIds, bookmarkIn store.content w id = true then
    (.ok (), { store with
      content := { store.content with
        bookmarkTags := (store.content.bookmarkTags.insertAll noIndex (tagLinks w bookmarkIds tagIds)).1 }
      bookmark_tags_bookmark_fkey := by
        intro l hl
        rcases Table.mem_insertAll.mp hl with hl | hl
        · exact store.bookmark_tags_bookmark_fkey l hl
        · obtain ⟨hw, hb, -⟩ := mem_tagLinks.mp ((Table.inserted_sublist _ _).subset hl)
          obtain ⟨b, hmem, hid, hbw⟩ := bookmarkIn_iff.mp (h _ hb)
          exact ⟨b, hmem, hid, hbw.trans hw.symm⟩ })
  else (.error (.threw (.sql (.foreignKeyViolation "bookmark_tags_bookmark_fkey"))), store)

/-- `deleteTagLinksMany`. -/
def BulkStore.deleteTagLinksMany (store : BulkStore) (bookmarkIds tagIds : List Uuid) : BulkStore :=
  { store with
    content := { store.content with
      bookmarkTags := store.content.bookmarkTags.deleteWhere fun l =>
        decide (l.bookmarkId ∈ bookmarkIds ∧ l.tagId ∈ tagIds) }
    bookmark_tags_bookmark_fkey := fun l hl =>
      store.bookmark_tags_bookmark_fkey l (Table.mem_deleteWhere.mp hl).1 }

inductive TaggingMode
  | add
  | remove
  deriving DecidableEq, Repr

/-- `tag`: puts the tags on the account's bookmarks, or takes them off, and answers how many such bookmarks
there are. -/
def BulkStore.tag (lang : Language) (tx : TenantTx) (store : BulkStore) (bookmarkIds : List Uuid) (ownerId : Uuid)
    (tagIds : List String) (mode : TaggingMode) : Call ℕ :=
  match requireAccountOwner tx ownerId "tags" with
  | .error stop => (.error stop, store)
  | .ok () =>
    let owned := store.ownedLiveBookmarks tx ownerId bookmarkIds
    match store.lockTaggingTags lang tx ownerId tagIds with
    | .error stop => (.error stop, store)
    | .ok false => (.error (.refused .targetNotFound), store)
    | .ok true =>
      match mode with
      | .add =>
        match store.insertTagLinksMany tx.workspaceId owned (uuidArray (distinctIdentifiers lang tagIds)) with
        | (.error stop, store') => (.error stop, store')
        | (.ok (), store') => (.ok owned.length, store')
      | .remove => (.ok owned.length, store.deleteTagLinksMany owned (uuidArray (distinctIdentifiers lang tagIds)))

/-- A tag of the preview: how many of the bookmarks reached carry it afterwards, and how many of them get it. -/
structure BookmarkPreviewTag where
  id : Uuid
  name : String
  bookmarkCount : ℕ
  added : ℕ
  deriving DecidableEq, Repr

/-- A tag that nothing was counted for yet. -/
def Tag.uncounted (t : Tag) : BookmarkPreviewTag := ⟨t.id, t.name, 0, 0⟩

/-- The preview as it is built: the entries by tag. -/
abbrev Preview := JsMap Uuid BookmarkPreviewTag

/-- A tag that the bookmark carries. -/
def countCarried (preview : Preview) (t : Tag) : Preview :=
  let entry := (preview.get t.id).getD (Tag.uncounted t)
  preview.set t.id { entry with bookmarkCount := entry.bookmarkCount + 1 }

/-- A tag that the bookmark would get, unless it carries it. -/
def countAdded (has : List Uuid) (preview : Preview) (t : Tag) : Preview :=
  match preview.get t.id with
  | none => preview
  | some entry =>
    if t.id ∈ has then preview
    else preview.set t.id { entry with bookmarkCount := entry.bookmarkCount + 1, added := entry.added + 1 }

/-- One bookmark of the preview. -/
def countBookmark (wanted : List Tag) (carried : Uuid → List Tag) (preview : Preview) (bookmarkId : Uuid) : Preview :=
  wanted.foldl (countAdded ((carried bookmarkId).map Tag.id)) ((carried bookmarkId).foldl countCarried preview)

/-- The order of the preview: by the lower-cased name, then by identifier. -/
def previewLe (lang : Language) (e e' : BookmarkPreviewTag) : Bool :=
  match lang.localeCompare (lang.toLowerCase e.name) (lang.toLowerCase e'.name) with
  | .lt => true
  | .eq => decide (e.id ≤ e'.id)
  | .gt => false

/-- `previewTags`: how many bookmarks `tag` reaches, and the tag set they would carry. -/
def BulkStore.previewTags (lang : Language) (tx : TenantTx) (store : BulkStore) (bookmarkIds : List Uuid)
    (ownerId : Uuid) (tagIds : List String) : Reply (ℕ × List BookmarkPreviewTag) := do
  requireAccountOwner tx ownerId "previews"
  let wanted ← store.ownedTags lang tx ownerId tagIds
  stopIf (wanted.length ≠ (distinctIdentifiers lang tagIds).length) (.refused .targetNotFound)
  let owned := store.ownedLiveBookmarks tx ownerId bookmarkIds
  let preview := owned.foldl (countBookmark wanted (store.tagsOfBookmark lang tx ownerId))
    (wanted.foldl (fun preview t => preview.set t.id (Tag.uncounted t)) ∅)
  return (owned.length, (preview.entries.map Prod.snd).mergeSort (previewLe lang))

/-! ## Sharing -/

/-- The member or the team of a request. -/
inductive ShareTargetAsk
  | member (accountId : String)
  | team (teamId : String)
  deriving DecidableEq, Repr

namespace ShareTargetAsk

def kind : ShareTargetAsk → String
  | member _ => "member"
  | team _ => "team"

/-- `targetIdOf`. -/
def id : ShareTargetAsk → String
  | member accountId => accountId
  | team teamId => teamId

/-- `targetFieldOf`. -/
def field : ShareTargetAsk → String
  | member _ => "accountId"
  | team _ => "teamId"

/-- The columns of a share with the target; the cast `::uuid` refuses a text that is no identifier. -/
def columns : ShareTargetAsk → Reply ShareTarget
  | member accountId =>
    match uuidOf accountId with
    | some a => .ok ⟨some a, none, Bool.false_ne_true⟩
    | none => .error (.threw (.sql (.invalidParameterValue "invalid input syntax for type uuid")))
  | team teamId =>
    match uuidOf teamId with
    | some t => .ok ⟨none, some t, Ne.symm Bool.false_ne_true⟩
    | none => .error (.threw (.sql (.invalidParameterValue "invalid input syntax for type uuid")))

end ShareTargetAsk

namespace BulkStore

variable (tx : TenantTx) (store : BulkStore)

/-- `targetName`: the name of a member or a team of the workspace. -/
def targetName (target : ShareTarget) : Option String :=
  match target.targetAccountId, target.targetTeamId with
  | some a, _ =>
    if store.content.members.any fun m => decide (m.workspaceId = tx.workspaceId ∧ m.accountId = a) then
      store.displayNames a
    else none
  | none, some t =>
    if store.content.teams.any fun row => decide (row.workspaceId = tx.workspaceId ∧ row.id = t) then
      some (store.teamNames t)
    else none
  | none, none => none

/-- Two shares of one bookmark with one target (`bookmark_shares_account_key`, `bookmark_shares_team_key`). -/
def sameTarget (s s' : BookmarkShare) : Bool :=
  decide (s.bookmarkId = s'.bookmarkId) &&
    (sqlEq s.targetAccountId s'.targetAccountId || sqlEq s.targetTeamId s'.targetTeamId)

/-- The shares of the bookmark with the target. -/
def isShared (w : Uuid) (target : ShareTarget) (bookmarkId : Uuid) : Bool :=
  store.content.bookmarkShares.any fun s =>
    decide (s.workspaceId = w ∧ s.bookmarkId = bookmarkId) &&
      (sqlEq s.targetAccountId target.targetAccountId || sqlEq s.targetTeamId target.targetTeamId)

/-- `unsharedWith`: those of the bookmarks that are not shared with the target. -/
def unsharedWith (bookmarkIds : List Uuid) (target : ShareTarget) : List Uuid :=
  bookmarkIds.filter fun id => !store.isShared tx.workspaceId target id

/-- The shares that one pass writes. -/
def newShares (w : Uuid) (target : ShareTarget) (ids missing : List Uuid) : List BookmarkShare :=
  List.zipWith (fun id bookmarkId => { target with id := id, workspaceId := w, bookmarkId := bookmarkId }) ids missing

theorem mem_newShares {w : Uuid} {target : ShareTarget} {ids missing : List Uuid} {s : BookmarkShare}
    (h : s ∈ newShares w target ids missing) :
    s.workspaceId = w ∧ s.bookmarkId ∈ missing ∧ s.id ∈ ids ∧ s.toShareTarget = target := by
  induction ids generalizing missing with
  | nil => exact absurd h List.not_mem_nil
  | cons id ids ih =>
    cases missing with
    | nil => exact absurd h List.not_mem_nil
    | cons b missing =>
      rcases List.mem_cons.mp h with rfl | h
      · exact ⟨rfl, List.mem_cons_self, List.mem_cons_self, rfl⟩
      · obtain ⟨hw, hb, hid, htarget⟩ := ih h
        exact ⟨hw, List.mem_cons_of_mem _ hb, List.mem_cons_of_mem _ hid, htarget⟩

/-- The insert of one pass: how many shares it made. -/
def insertShares (w : Uuid) (target : ShareTarget) (ids missing : List Uuid) : Call ℕ :=
  if h : ∀ id ∈ missing, bookmarkIn store.content w id = true then
    let written := store.content.bookmarkShares.insertAll sameTarget (newShares w target ids missing)
    (.ok written.2.length, { store with
      content := { store.content with bookmarkShares := written.1 }
      bookmark_shares_bookmark_fkey := by
        intro s hs
        rcases Table.mem_insertAll.mp hs with hs | hs
        · exact store.bookmark_shares_bookmark_fkey s hs
        · obtain ⟨hw, hb, -, -⟩ := mem_newShares ((Table.inserted_sublist _ _).subset hs)
          obtain ⟨b, hmem, hid, hbw⟩ := bookmarkIn_iff.mp (h _ hb)
          exact ⟨b, hmem, hid, hbw.trans hw.symm⟩ })
  else (.error (.threw (.sql (.foreignKeyViolation "bookmark_shares_bookmark_fkey"))), store)

/-- How often a share that met one another transaction revoked tries again. -/
def GRANT_ATTEMPTS : ℕ := 3

/-- The passes of `share`: `left` attempts are left, and `drawn` identifiers were drawn. -/
def grant (newId : ℕ → Uuid) (owned : List Uuid) (target : ShareTarget) (drawn granted : ℕ) :
    ℕ → BulkStore → Call ℕ
  | left, store =>
    let missing := store.unsharedWith tx owned target
    if missing = [] then (.ok granted, store)
    else
      match left with
      | 0 => (.error (.threw (.error "shares could neither be written nor found")), store)
      | left + 1 =>
        match store.insertShares tx.workspaceId target ((List.range missing.length).map fun i => newId (drawn + i))
            missing with
        | (.error stop, store') => (.error stop, store')
        | (.ok inserted, store') =>
          grant newId owned target (drawn + missing.length) (granted + inserted) left store'

/-- What `share` answers: the bookmarks reached, the shares made, and the name of the target. -/
structure Shared where
  affected : ℕ
  granted : ℕ
  targetName : String
  deriving DecidableEq, Repr

/-- `share`: one share for each of the account's bookmarks that is not shared with the target already. -/
def share (newId : ℕ → Uuid) (bookmarkIds : List Uuid) (ownerId : Uuid) (target : ShareTargetAsk) : Call Shared :=
  match requireAccountOwner tx ownerId "shares", target.columns with
  | .error stop, _ => (.error stop, store)
  | .ok (), .error stop => (.error stop, store)
  | .ok (), .ok columns =>
    let owned := store.ownedLiveBookmarks tx ownerId bookmarkIds
    match store.targetName tx columns with
    | none => (.error (.refused (.unknownTarget target.field)), store)
    | some name =>
      match grant tx newId owned columns 0 0 GRANT_ATTEMPTS store with
      | (.error stop, store') => (.error stop, store')
      | (.ok granted, store') => (.ok ⟨owned.length, granted, name⟩, store')

/-- `memberCountOf`: the members other than the owner who read through the target. -/
def memberCountOf (target : ShareTarget) (ownerId : Uuid) : ℕ :=
  match target.targetTeamId with
  | none => 1
  | some t => store.content.teamMembers.count fun m =>
      decide (m.workspaceId = tx.workspaceId ∧ m.teamId = t ∧ m.accountId ≠ ownerId)

/-- Who the bookmarks of a share are shared with afterwards. -/
structure Audience where
  kind : String
  id : String
  name : String
  memberCount : ℕ
  added : ℕ
  deriving DecidableEq, Repr

/-- `previewShare`. -/
def previewShare (bookmarkIds : List Uuid) (ownerId : Uuid) (target : ShareTargetAsk) : Reply (ℕ × Audience) := do
  requireAccountOwner tx ownerId "shares"
  let columns ← target.columns
  let owned := store.ownedLiveBookmarks tx ownerId bookmarkIds
  match store.targetName tx columns with
  | none => throw (.refused (.unknownTarget target.field))
  | some name =>
    return (owned.length,
      ⟨target.kind, target.id, name, store.memberCountOf tx columns ownerId, (store.unsharedWith tx owned columns).length⟩)

end BulkStore

/-! ## The requests -/

/-- What a request reached: `skipped` holds the two reasons. -/
structure Counts where
  requested : ℤ
  affected : ℤ
  skippedNotOwner : ℤ
  skippedNotFound : ℤ
  deriving DecidableEq, Repr

def counts (requested affected : ℕ) : Counts := ⟨requested, affected, 0, requested - affected⟩

/-- `requiredTags`. -/
def requiredTags (lang : Language) (tagIds : Option (List String)) : Reply (List String) :=
  match tagIds.getD [] with
  | [] => .error (.threw (.rangeError "a tag action names tags"))
  | ids => .ok (unique (ids.map lang.toLowerCase))

/-- `requiredShareTarget`. -/
def requiredShareTarget (lang : Language) : Option ShareTargetAsk → Reply ShareTargetAsk
  | none => .error (.threw (.rangeError "a share names a member or a team"))
  | some (.member accountId) => .ok (.member (lang.toLowerCase accountId))
  | some (.team teamId) => .ok (.team (lang.toLowerCase teamId))

/-- Whether a target is the caller. -/
def ShareTargetAsk.isSelf (accountId : Uuid) : ShareTargetAsk → Bool
  | .member text => decide (uuidOf text = some accountId)
  | .team _ => false

/-- The actions whose target is a tag, a member or a team. -/
inductive BulkAction
  | addTags
  | removeTags
  | share
  deriving DecidableEq, Repr

structure BulkAsk where
  workspaceId : Uuid
  accountId : Uuid
  action : BulkAction
  target : BookmarkBulkTarget
  tagIds : Option (List String)
  shareTarget : Option ShareTargetAsk
  deriving DecidableEq, Repr

section

variable (lang : Language) (filtering : Filtering) (newId : ℕ → Uuid) (tx : TenantTx) (store : BulkStore)

/-- The actions `add_tags` and `remove_tags` of `bulkBookmarks`. -/
def bulkTags (ask : BulkAsk) (named : NamedBookmarks) (mode : TaggingMode) : Call Counts :=
  match requiredTags lang ask.tagIds with
  | .error stop => (.error stop, store)
  | .ok tagIds =>
    match store.tag lang tx named.bookmarkIds ask.accountId tagIds mode with
    | (.error stop, store') => (.error stop, store')
    | (.ok affected, store') => (.ok (counts named.requested affected), store')

/-- The action `share` of `bulkBookmarks`, which writes its audit event when it made a share. -/
def bulkShare (ask : BulkAsk) (named : NamedBookmarks) : Call Counts :=
  match requiredShareTarget lang ask.shareTarget with
  | .error stop => (.error stop, store)
  | .ok target =>
    if target.isSelf ask.accountId then (.error (.refused .self), store)
    else
      match store.share tx newId named.bookmarkIds ask.accountId target with
      | (.error stop, store') => (.error stop, store')
      | (.ok shared, store') =>
        (.ok (counts named.requested shared.affected),
          if shared.granted = 0 then store'
          else { store' with
            audit := store'.audit ++ [⟨ask.workspaceId, shared.granted, target.kind, target.id, shared.targetName⟩] })

/-- `bulkBookmarks`. -/
def bulkBookmarks (ask : BulkAsk) : Call Counts :=
  match selection lang filtering tx store ask.accountId ask.target with
  | .error stop => (.error stop, store)
  | .ok named =>
    match ask.action with
    | .addTags => bulkTags lang tx store ask named .add
    | .removeTags => bulkTags lang tx store ask named .remove
    | .share => bulkShare lang newId tx store ask named

/-- The transaction of a request: an exception undoes it, an answer does not. -/
def runBulk (ask : BulkAsk) : Call Counts :=
  match bulkBookmarks lang filtering newId tx store ask with
  | (.error (.threw why), _) => (.error (.threw why), store)
  | result => result

/-- `previewBulkTags`. -/
def previewBulkTags (accountId : Uuid) (target : BookmarkBulkTarget) (tagIds : List String) :
    Reply (Counts × List BookmarkPreviewTag) := do
  let named ← selection lang filtering tx store accountId target
  let tagIds ← requiredTags lang (some tagIds)
  let previewed ← store.previewTags lang tx named.bookmarkIds accountId tagIds
  return (counts named.requested previewed.1, previewed.2)

/-- `previewBulkShare`. -/
def previewBulkShare (accountId : Uuid) (target : BookmarkBulkTarget) (shareTarget : ShareTargetAsk) :
    Reply (Counts × BulkStore.Audience) := do
  let named ← selection lang filtering tx store accountId target
  let shareTarget ← requiredShareTarget lang (some shareTarget)
  stopIf (shareTarget.isSelf accountId = true) (.refused .self)
  let previewed ← store.previewShare tx named.bookmarkIds accountId shareTarget
  return (counts named.requested previewed.1, previewed.2)

end

end SlugBase.Bulk
