import SlugBase.Bookmark.Count
import Mathlib.Data.List.Sort
import Mathlib.Data.List.DropRight

/-!
# The departure of a member

Ending a membership clears the owner of the member's bookmarks and folders by foreign key, with the
release triggers on every such row; the departure's content choice is applied later.

* `bookmarksClearSlugOnRelease`, `foldersRenameOnRelease`: the triggers, each judged against the rows
  that the statement has released before;
* `Content.deleteMember`: the deletion of a membership with everything its foreign keys do;
* `sysMemberDepartureApply`: the content choice `transfer` or `delete`;
* **`sysMemberDepartureApply_ok`**, **`Content.deleteMember_moves`**: how far each moves the counter.
-/

namespace SlugBase

open Relational

/-! ## Names -/

/-- `left(text, n)`. -/
def left (text : String) (n : ℕ) : String := String.ofList (text.toList.take n)

/-- `rtrim(text)`. -/
def rtrim (text : String) : String := String.ofList (text.toList.rdropWhile (· = ' '))

/-- The name with the suffix ` (n)`, cut to 64 characters. -/
def suffixed (base : String) (n : ℕ) : String :=
  let suffix := " (" ++ toString n ++ ")"
  rtrim (left base (64 - suffix.length)) ++ suffix

/-- The loop over the suffixes from `n` on: the first name that is not taken. -/
def firstFree (taken : String → Bool) (base : String) : ℕ → ℕ → String
  | 0, n => suffixed base n
  | fuel + 1, n => if taken (suffixed base n) then firstFree taken base fuel (n + 1) else suffixed base n

section

variable (lower : String → String) (s : Session)

/-! ## The release triggers -/

/-- `bookmarks_clear_slug_on_release()` with the other triggers of the update that takes the owner. -/
def bookmarksClearSlugOnRelease (c : Content) (old : Bookmark) : Bookmark :=
  let new := Bookmark.bumpVersion old { old with ownerId := none }
  let new := { new with departureId := s.appDepartureId, departureSlug := none, departureForwarding := none }
  let held := c.bookmarks.any fun g => decide (g.workspaceId = new.workspaceId ∧ g.ownerId = none ∧ g.id ≠ new.id)
    && sqlEq g.slug new.slug
  let new := if held then
      { new with
        departureSlug := if new.departureId.isSome then new.slug else none
        departureForwarding := if new.departureId.isSome then some new.forwarding else none
        slug := none
        forwarding := false }
    else new
  new.setUpdatedAt s

/-- The row of a folder an update leaves (`folders_bump_version()`, `set_updated_at()`); the name is
compared as text. -/
def Folder.written (old new : Folder) : Folder :=
  { new with
    version := if new.ownerId = old.ownerId ∧ new.name = old.name ∧ new.icon = old.icon ∧ new.color = old.color
      then old.version else old.version + 1
    updatedAt := s.now }

/-- `folders_rename_on_release()` with the other triggers of the update that takes the owner. -/
def foldersRenameOnRelease (c : Content) (old : Folder) : Folder :=
  let taken (name : String) := c.folders.any fun g =>
    decide (g.workspaceId = old.workspaceId ∧ g.ownerId = none ∧ g.id ≠ old.id ∧ lower g.name = lower name)
  let new := Folder.written s old { old with ownerId := none }
  let new := { new with departureId := s.appDepartureId, departureName := none }
  if taken new.name then
    { new with
      departureName := if new.departureId.isSome then some new.name else none
      name := firstFree taken new.name (c.folders.rows.length + 1) 2 }
  else new

theorem bookmarksClearSlugOnRelease_same (c : Content) (b : Bookmark) :
    (bookmarksClearSlugOnRelease s c b).id = b.id ∧
      (bookmarksClearSlugOnRelease s c b).workspaceId = b.workspaceId ∧
      (bookmarksClearSlugOnRelease s c b).planArchivedAt = b.planArchivedAt := by
  unfold bookmarksClearSlugOnRelease
  simp only
  split <;> exact ⟨rfl, rfl, rfl⟩

theorem foldersRenameOnRelease_id (c : Content) (f : Folder) :
    (foldersRenameOnRelease lower s c f).id = f.id := by
  unfold foldersRenameOnRelease
  simp only
  split <;> rfl

/-- The foreign key's update of one bookmark. -/
def releaseBookmark (c : Content) (id : Uuid) : Content :=
  { c with
    bookmarks := c.bookmarks.updateWhere (fun b => decide (b.id = id)) (bookmarksClearSlugOnRelease s c)
      fun b => (bookmarksClearSlugOnRelease_same s c b).1 }

/-- The foreign key's update of one folder. -/
def releaseFolder (c : Content) (id : Uuid) : Content :=
  { c with
    folders := c.folders.updateWhere (fun f => decide (f.id = id)) (foldersRenameOnRelease lower s c)
      (foldersRenameOnRelease_id lower s c) }

/-- The update of the foreign key on the bookmarks of a member, one row after the other. -/
def releaseBookmarks (mine : Bookmark → Bool) (c : Content) : Content :=
  ((c.bookmarks.rows.filter mine).map Bookmark.id).foldl (releaseBookmark s) c

/-- The update of the foreign key on the folders of a member, one row after the other. -/
def releaseFolders (mine : Folder → Bool) (c : Content) : Content :=
  ((c.folders.rows.filter mine).map Folder.id).foldl (releaseFolder lower s) c

/-- The rows that go with a row of `workspace_members` (`ON DELETE CASCADE`). -/
def Content.withoutMember (w a : Uuid) (c : Content) : Content :=
  let tagGone (id : Uuid) := c.tags.any fun t => decide (t.id = id ∧ t.workspaceId = w ∧ t.ownerId = a)
  { c with
    members := c.members.deleteWhere fun m => decide (m.workspaceId = w ∧ m.accountId = a)
    teamMembers := c.teamMembers.deleteWhere fun m => decide (m.workspaceId = w ∧ m.accountId = a)
    bookmarkShares := c.bookmarkShares.deleteWhere fun r =>
      decide (r.workspaceId = w ∧ r.targetAccountId = some a)
    folderShares := c.folderShares.deleteWhere fun r =>
      decide (r.workspaceId = w ∧ r.targetAccountId = some a)
    slugPreferences := c.slugPreferences.deleteWhere fun p => decide (p.workspaceId = w ∧ p.accountId = a)
    tags := c.tags.deleteWhere fun t => decide (t.workspaceId = w ∧ t.ownerId = a)
    bookmarkTags := c.bookmarkTags.deleteWhere fun l => tagGone l.tagId }

/-- `DELETE` of one row of `workspace_members`, with the actions of the foreign keys that name it. -/
def Content.deleteMember (w a : Uuid) (c : Content) : Content :=
  let c := releaseBookmarks s (fun b => decide (b.workspaceId = w ∧ b.ownerId = some a)) (c.withoutMember w a)
  releaseFolders lower s (fun f => decide (f.workspaceId = w ∧ f.ownerId = some a)) c

/-! ## The content choice -/

/-- The answer of `sys_member_departure_apply`. -/
structure DepartureApplied where
  bookmarksMoved : ℕ := 0
  foldersMoved : ℕ := 0
  slugsCleared : ℕ := 0
  foldersRenamed : ℕ := 0
  bookmarksDeleted : ℕ := 0
  foldersDeleted : ℕ := 0
  leftOwnerless : ℕ := 0
  deriving DecidableEq, Repr

/-- A released bookmark of the departure. -/
def Bookmark.releasedBy (w departure : Uuid) (b : Bookmark) : Bool :=
  decide (b.workspaceId = w ∧ b.ownerId = none ∧ b.departureId = some departure)

/-- A released folder of the departure. -/
def Folder.releasedBy (w departure : Uuid) (f : Folder) : Bool :=
  decide (f.workspaceId = w ∧ f.ownerId = none ∧ f.departureId = some departure)

/-- The name a released folder gets from its new owner: its own, or with the first free suffix. -/
def transferName (c : Content) (w recipient : Uuid) (f : Folder) : String :=
  let taken (name : String) := c.folders.any fun g =>
    decide (g.workspaceId = w ∧ g.ownerId = some recipient ∧ lower g.name = lower name)
  let base := f.departureName.getD f.name
  if taken base then firstFree taken base (c.folders.rows.length + 1) 2 else base

/-- One turn of the loop over the released folders. -/
def transferFolder (w recipient : Uuid) (f : Folder) (c : Content) : Content :=
  { c with
    folders := c.folders.updateWhere (fun g => decide (g.id = f.id))
      (fun g => Folder.written s g
        { g with
          ownerId := some recipient
          departureId := none
          departureName := none
          name := transferName lower c w recipient f })
      fun _ => rfl }

/-- The slug a released bookmark had before its release. -/
def Bookmark.releasedSlug (b : Bookmark) : Option String := b.slug <|> b.departureSlug

/-- Whether the recipient already owns the slug of a released bookmark. -/
def Bookmark.clash (c : Content) (recipient : Uuid) (b : Bookmark) : Bool :=
  c.bookmarks.any fun r => decide (r.workspaceId = b.workspaceId ∧ r.ownerId = some recipient)
    && sqlEq r.slug b.releasedSlug

/-- A released bookmark as the recipient gets it. -/
def transferBookmark (c : Content) (recipient : Uuid) (b : Bookmark) : Bookmark :=
  let clash := b.clash c recipient
  b.written s
    { b with
      ownerId := some recipient
      departureId := none
      departureSlug := none
      departureForwarding := none
      slug := if clash then none else b.releasedSlug
      forwarding := if clash then false
        else if b.departureSlug.isSome then b.departureForwarding.getD b.forwarding else b.forwarding }

/-- The statement that hands the released bookmarks to the recipient. -/
def transferBookmarks (w departure recipient : Uuid) (c : Content) : Content :=
  { c with
    bookmarks := c.bookmarks.updateWhere (·.releasedBy w departure) (transferBookmark s c recipient)
      fun _ => rfl }

/-- A released bookmark that stays ownerless because the recipient has left. -/
def Bookmark.keptOwnerless (b : Bookmark) : Bookmark :=
  b.written s { b with departureId := none, departureSlug := none, departureForwarding := none }

/-- The content of a departure whose recipient has left. -/
def keepOwnerless (w departure : Uuid) (c : Content) : Content :=
  { c with
    bookmarks := c.bookmarks.updateWhere (·.releasedBy w departure) (·.keptOwnerless s) fun _ => rfl
    folders := c.folders.updateWhere (·.releasedBy w departure)
      (fun f => Folder.written s f { f with departureId := none, departureName := none }) fun _ => rfl }

/-- Whether two bookmarks break `bookmarks_owner_slug_key`. -/
def Content.slugKeyBroken (c : Content) : Bool :=
  c.bookmarks.any fun b => c.bookmarks.any fun b' => decide (b.id ≠ b'.id) && b.sameSlug b'

/-- `sys_member_departure_apply(workspace_id, departure_id, content, recipient)`. -/
def sysMemberDepartureApply (pWorkspaceId pDepartureId : Option Uuid) (pContent : Option String)
    (pRecipient : Option Uuid) (c : Content) : Except SqlError (DepartureApplied × Content) :=
  match pWorkspaceId, pDepartureId, pContent, pRecipient with
  | some w, some departure, some content, some recipient =>
    if content ≠ "transfer" ∧ content ≠ "delete" then .error (.invalidParameterValue
      "sys_member_departure_apply needs a workspace, a departure, a content choice of transfer or delete and a recipient")
    else if s.appAccountId ≠ some recipient ∨ s.appWorkspaceId ≠ some w then .ok ({}, c)
    else match c.liveWorkspace w with
      | none => .ok ({}, c)
      | some _ =>
        let folders := c.folders.rows.filter (·.releasedBy w departure)
        if content = "delete" then do
          let deleted := c.bookmarks.count (·.releasedBy w departure)
          let released := c.bookmarks.count fun b => b.releasedBy w departure && b.planArchivedAt.isNone
          let c₁ := c.deleteBookmarks (·.releasedBy w departure)
          let lowered := if released > 0 then c₁.addToCount w (-released) else .ok c₁
          let c₂ ← lowered
          .ok ({ bookmarksDeleted := deleted, foldersDeleted := folders.length },
            c₂.deleteFolders (·.releasedBy w departure))
        else if !c.isMember w recipient then
          .ok ({ leftOwnerless := c.bookmarks.count (·.releasedBy w departure) + folders.length },
            keepOwnerless s w departure c)
        else
          let order := folders.insertionSort fun f g =>
            f.createdAt < g.createdAt ∨ f.createdAt = g.createdAt ∧ f.id ≤ g.id
          let c₁ := order.foldl (fun c f => transferFolder lower s w recipient f c) c
          let renamed := order.filter fun f =>
            (c₁.folders.find? fun g => decide (g.id = f.id)).any fun g =>
              decide (g.name ≠ f.departureName.getD f.name)
          let c₂ := transferBookmarks s w departure recipient c₁
          if c₂.slugKeyBroken then .error (.uniqueViolation "bookmarks_owner_slug_key")
          else .ok
            ({ bookmarksMoved := c.bookmarks.count (·.releasedBy w departure)
               foldersMoved := folders.length
               slugsCleared := c.bookmarks.count fun b => b.releasedBy w departure && b.clash c recipient
               foldersRenamed := renamed.length },
              c₂)
  | _, _, _, _ => .error (.invalidParameterValue
      "sys_member_departure_apply needs a workspace, a departure, a content choice of transfer or delete and a recipient")

end

/-! ## The counter -/

variable {lower : String → String} {s : Session}

/-- Two databases whose bookmarks the counters see alike. -/
structure Content.SameCounted (c c' : Content) : Prop where
  workspaces : c'.workspaces = c.workspaces
  live : ∀ v, c'.live v = c.live v
  homes : ∀ b ∈ c'.bookmarks, ∃ b₀ ∈ c.bookmarks, b₀.workspaceId = b.workspaceId

namespace Content.SameCounted

variable {c c' c'' : Content}

theorem of_bookmarks (hw : c'.workspaces = c.workspaces) (hb : c'.bookmarks = c.bookmarks) :
    c.SameCounted c' :=
  ⟨hw, live_of_bookmarks hb, fun b h => ⟨b, hb ▸ h, rfl⟩⟩

theorem refl (c : Content) : c.SameCounted c := of_bookmarks rfl rfl

theorem trans (h : c.SameCounted c') (h' : c'.SameCounted c'') : c.SameCounted c'' where
  workspaces := h'.workspaces.trans h.workspaces
  live v := (h'.live v).trans (h.live v)
  homes b hb := by
    obtain ⟨b₁, hb₁, h₁⟩ := h'.homes b hb
    obtain ⟨b₀, hb₀, h₀⟩ := h.homes b₁ hb₁
    exact ⟨b₀, hb₀, h₀.trans h₁⟩

/-- An update that keeps the workspace and the archive state of every row. -/
theorem of_update {p : Bookmark → Bool} {f : Bookmark → Bookmark} (hf : ∀ b, (f b).id = b.id)
    (hw : c'.workspaces = c.workspaces) (hb : c'.bookmarks = c.bookmarks.updateWhere p f hf)
    (hsame : ∀ b, (f b).workspaceId = b.workspaceId ∧ (f b).planArchivedAt = b.planArchivedAt) :
    c.SameCounted c' where
  workspaces := hw
  live v := by
    rw [Content.live, hb, Content.live]
    exact Table.count_updateWhere_of_same fun b _ _ => Bookmark.countedIn_congr (hsame b).1 (hsame b).2
  homes b h := by
    obtain ⟨b₀, hb₀, rfl⟩ := Table.mem_updateWhere.mp (hb ▸ h)
    refine ⟨b₀, hb₀, ?_⟩
    split_ifs
    · exact (hsame b₀).1.symm
    · rfl

theorem foldl {α : Type} (f : Content → α → Content) (h : ∀ c a, SameCounted c (f c a)) (l : List α)
    (c : Content) : SameCounted c (l.foldl f c) := by
  induction l generalizing c with
  | nil => exact refl c
  | cons a l ih => exact (h c a).trans (ih (f c a))

theorem moves (h : c.SameCounted c') (w : Uuid) : c.Moves c' w 0 :=
  .zero w h.workspaces h.live h.homes

end Content.SameCounted

theorem releaseBookmark_sameCounted (c : Content) (id : Uuid) : c.SameCounted (releaseBookmark s c id) :=
  .of_update (fun b => (bookmarksClearSlugOnRelease_same s c b).1) rfl rfl
    fun b => (bookmarksClearSlugOnRelease_same s c b).2

theorem releaseFolder_sameCounted (c : Content) (id : Uuid) :
    c.SameCounted (releaseFolder lower s c id) :=
  .of_bookmarks rfl rfl

theorem keepOwnerless_sameCounted (c : Content) (w departure : Uuid) :
    c.SameCounted (keepOwnerless s w departure c) :=
  .of_update (f := (·.keptOwnerless s)) (fun _ => rfl) rfl rfl fun _ => ⟨rfl, rfl⟩

theorem transferBookmarks_sameCounted (c : Content) (w departure recipient : Uuid) :
    c.SameCounted (transferBookmarks s w departure recipient c) :=
  .of_update (f := transferBookmark s c recipient) (fun _ => rfl) rfl rfl fun _ => ⟨rfl, rfl⟩

/-- **The end of a membership leaves every counter and what it counts alone.** -/
theorem Content.deleteMember_sameCounted (c : Content) (w a : Uuid) :
    c.SameCounted (c.deleteMember lower s w a) := by
  have hb (mine : Bookmark → Bool) (c : Content) : c.SameCounted (releaseBookmarks s mine c) :=
    .foldl _ releaseBookmark_sameCounted _ c
  have hf (mine : Folder → Bool) (c : Content) : c.SameCounted (releaseFolders lower s mine c) :=
    .foldl _ releaseFolder_sameCounted _ c
  have hwithout : c.SameCounted (c.withoutMember w a) := .of_bookmarks rfl rfl
  exact (hwithout.trans (hb _ _)).trans (hf _ _)

/-- What `sys_member_departure_apply` can do: nothing, or move the counter by the bookmarks it deletes;
an answer of no rows stands for a departure that released none. -/
theorem sysMemberDepartureApply_ok {pw pd : Option Uuid} {pc : Option String} {pr : Option Uuid}
    {c c' : Content} {applied : DepartureApplied}
    (h : sysMemberDepartureApply lower s pw pd pc pr c = .ok (applied, c')) :
    c' = c ∨ ∃ w departure n, pw = some w ∧ pd = some departure ∧ c.Moves c' w n ∧
      (applied = {} → ∀ b ∈ c.bookmarks, b.releasedBy w departure = false) ∧
      ((∀ b ∈ c.bookmarks, b.releasedBy w departure = false) →
        c'.bookmarks = c.bookmarks ∧ c'.workspaces = c.workspaces) := by
  unfold sysMemberDepartureApply at h
  split at h
  swap
  · cases h
  rename_i w departure content recipient
  split at h
  · cases h
  split at h
  · cases h
    exact .inl rfl
  split at h
  · cases h
    exact .inl rfl
  simp only at h
  split at h
  · -- delete: the rows and their places go together
    obtain ⟨c₂, hc, h⟩ := ok_of_bind h
    cases h
    refine .inr ⟨w, departure, -(c.bookmarks.count fun b =>
      b.releasedBy w departure && b.planArchivedAt.isNone : ℕ), rfl, rfl, ?_, ?_, ?_⟩
    · have hmine (b : Bookmark) (hb : b.releasedBy w departure = true) : b.workspaceId = w :=
        (of_decide_eq_true hb).1
      split_ifs at hc with hpos
      · obtain rfl := Content.addToCount_ok hc
        exact .delete rfl rfl hmine rfl
      · obtain rfl := Except.ok.inj hc
        refine .delete rfl ?_ hmine rfl
        rw [Nat.eq_zero_of_not_pos hpos]
        exact (Content.shiftCount_zero w).symm
    · intro he
      exact Table.count_eq_zero.mp (congrArg DepartureApplied.bookmarksDeleted he)
    · intro hnone
      rw [Table.count_eq_zero.mpr fun b hb => by rw [hnone b hb, Bool.false_and],
        Content.deleteBookmarks_of_none hnone] at hc
      obtain rfl := Except.ok.inj hc
      exact ⟨rfl, rfl⟩
  split at h
  · -- the recipient has left: the content stays ownerless
    cases h
    refine .inr ⟨w, departure, 0, rfl, rfl, (keepOwnerless_sameCounted c w departure).moves w, ?_, ?_⟩
    · intro he
      have hleft := congrArg DepartureApplied.leftOwnerless he
      exact Table.count_eq_zero.mp (Nat.eq_zero_of_add_eq_zero_right hleft)
    · intro hnone
      exact ⟨Table.updateWhere_of_none (f := Bookmark.keptOwnerless s) (fun _ => rfl) hnone, rfl⟩
  · -- transfer: the folders one after the other, then the bookmarks
    split at h
    · cases h
    cases h
    have hfolders (l : List Folder) := Content.SameCounted.foldl
      (fun c f => transferFolder lower s w recipient f c) (fun c f => .of_bookmarks rfl rfl) l c
    have hrows (l : List Folder) (c : Content) :
        (l.foldl (fun c f => transferFolder lower s w recipient f c) c).bookmarks = c.bookmarks := by
      induction l generalizing c with
      | nil => rfl
      | cons f l ih => exact ih _
    refine .inr ⟨w, departure, 0, rfl, rfl, ?_, ?_, ?_⟩
    · exact ((hfolders _).trans (transferBookmarks_sameCounted _ w departure recipient)).moves w
    · intro he
      exact Table.count_eq_zero.mp (congrArg DepartureApplied.bookmarksMoved he)
    · intro hnone
      refine ⟨?_, (hfolders _).workspaces⟩
      refine (Table.updateWhere_of_none (f := transferBookmark s _ recipient) (fun _ => rfl) ?_).trans (hrows _ c)
      rw [hrows]
      exact hnone

theorem Content.bookmarks_deleteMember_of_none {c : Content} {w a : Uuid}
    (h : ∀ b ∈ c.bookmarks, ¬(b.workspaceId = w ∧ b.ownerId = some a)) :
    (c.deleteMember lower s w a).bookmarks = c.bookmarks := by
  have hfolders (l : List Uuid) (c : Content) :
      (l.foldl (releaseFolder lower s) c).bookmarks = c.bookmarks := by
    induction l generalizing c with
    | nil => rfl
    | cons id l ih => exact ih _
  have hnone : (c.withoutMember w a).bookmarks.rows.filter
      (fun b => decide (b.workspaceId = w ∧ b.ownerId = some a)) = [] :=
    List.filter_eq_nil_iff.mpr fun b hb => by simpa using h b hb
  rw [deleteMember, releaseFolders, hfolders, releaseBookmarks, hnone]
  rfl

end SlugBase
