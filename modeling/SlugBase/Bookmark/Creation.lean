import SlugBase.Bookmark.Count

/-!
# Creating bookmarks

The two transactions that take places under the ceiling and insert the rows that fill them.

* `createBookmark`: one bookmark with its folders and tags, undone when a folder or a tag it was to
  have is gone by the time it is locked;
* `importBookmarks`: the places of an import and its rows, each without its slug when the slug was
  taken meanwhile;
* **`createBookmark_ok`**, **`importBookmarks_ok`**: places taken and rows inserted are as many, and
  the count stays below the ceiling.
-/

namespace SlugBase

open Relational

/-! ## One bookmark -/

/-- The answer of the repository's `create`. -/
inductive Creation
  | created (id : Uuid)
  | limitReached (used : ℤ)
  | unavailable
  | folderNotFound
  | tagNotFound
  | slugTaken
  deriving DecidableEq, Repr

/-- What a creation asks for, and what other transactions do to it: whether a folder or a tag that the
first reads found is gone when it is locked. -/
structure CreationRequest where
  bookmark : NewBookmark
  ceiling : Option ℤ
  folderIds : List Uuid := []
  tagIds : List Uuid := []
  folderGone : Bool := false
  tagGone : Bool := false
  deriving DecidableEq, Repr

namespace Content

variable (c : Content)

/-- Whether every folder of the list is one `ownerId` has in the workspace. -/
def ownsFolders (w ownerId : Uuid) (ids : List Uuid) : Bool :=
  ids.all fun id => c.folders.any fun f => decide (f.id = id ∧ f.workspaceId = w ∧ f.ownerId = some ownerId)

/-- Whether every tag of the list is one `ownerId` has in the workspace. -/
def ownsTags (w ownerId : Uuid) (ids : List Uuid) : Bool :=
  ids.all fun id => c.tags.any fun t => decide (t.id = id ∧ t.workspaceId = w ∧ t.ownerId = ownerId)

/-- Whether a bookmark of `ownerId` has the slug, whatever its archive state. -/
def ownerHasSlug (w ownerId : Uuid) (slug : String) : Bool :=
  c.bookmarks.any fun b => decide (b.workspaceId = w ∧ b.ownerId = some ownerId ∧ b.slug = some slug)

/-- `INSERT INTO folder_bookmarks`, leaving the links that exist. -/
def insertLinks (w : Uuid) (folderIds : List Uuid) (bookmarkId : Uuid) : Content :=
  { c with
    folderBookmarks := folderIds.foldl
      (fun t id => (t.insert? ⟨w, id, bookmarkId⟩).getD t) c.folderBookmarks }

/-- `INSERT INTO bookmark_tags`, leaving the links that exist. -/
def insertTagLinks (w : Uuid) (tagIds : List Uuid) (bookmarkId : Uuid) : Content :=
  { c with
    bookmarkTags := tagIds.foldl (fun t id => (t.insert? ⟨w, bookmarkId, id⟩).getD t) c.bookmarkTags }

end Content

/-- The repository's `create`: one transaction. -/
def createBookmark (s : Session) (r : CreationRequest) (c : Content) :
    Except SqlError (Creation × Content) :=
  match s.appWorkspaceId with
  | none => .error (.raised "creating a bookmark needs a tenant transaction opened with a workspace")
  | some w =>
    if !c.ownsFolders w r.bookmark.ownerId r.folderIds then .ok (.folderNotFound, c)
    else if !c.ownsTags w r.bookmark.ownerId r.tagIds then .ok (.tagNotFound, c)
    else if r.bookmark.slug.any (c.ownerHasSlug w r.bookmark.ownerId) then .ok (.slugTaken, c)
    else do
      let (taken, c₁) ← sysBookmarkCountTake s (some w) r.ceiling c
      match taken with
      | .unavailable => .ok (.unavailable, c₁)
      | .limitReached used => .ok (.limitReached used, c₁)
      | .taken _ => do
        let c₂ ← c₁.insertBookmark s w r.bookmark
        -- the savepoint set before the place was taken
        if r.folderGone then .ok (.folderNotFound, c)
        else if r.tagGone then .ok (.tagNotFound, c)
        else .ok (.created r.bookmark.id,
          (c₂.insertLinks w r.folderIds r.bookmark.id).insertTagLinks w r.tagIds r.bookmark.id)

/-! ## Many bookmarks -/

/-- The answer of an import's transaction. -/
inductive Imported
  | imported (taken used : ℤ)
  | unavailable
  deriving DecidableEq, Repr

/-- The places an answer of `sys_bookmark_count_take_many` gave, and the count after it. -/
def TakenMany.places : TakenMany → Option (ℤ × ℤ)
  | .taken n used => some (n, used)
  | .limitReached n used => some (n, used)
  | .unavailable => none

/-- One row of the import: inserted, or inserted without a slug that the owner took meanwhile. -/
def Content.insertImported (c : Content) (s : Session) (w : Uuid) (b : NewBookmark) :
    Except SqlError Content :=
  if s.appAccountId ≠ some b.ownerId then
    .error (.raised "only the account of the transaction imports its own bookmarks")
  else match c.insertBookmark s w b with
    | .ok c' => .ok c'
    | .error (.uniqueViolation _) => c.insertBookmark s w { b with slug := none, forwarding := false }
    | .error e => .error e

/-- The rows of an import, one after the other. -/
def Content.insertAllImported (s : Session) (w : Uuid) : List NewBookmark → Content → Except SqlError Content
  | [], c => .ok c
  | b :: bs, c => do
    let c' ← c.insertImported s w b
    Content.insertAllImported s w bs c'

/-- The transaction of an import: it takes as many places as there is room for and inserts the first
bookmarks; a refusal found after the places were taken ends it. -/
def importBookmarks (s : Session) (ceiling : Option ℤ) (bookmarks : List NewBookmark)
    (refusal : Option String) (c : Content) : Except SqlError (Imported × Content) :=
  match s.appWorkspaceId with
  | none => .error (.raised "importing needs a tenant transaction opened with a workspace")
  | some w => do
    let (answer, c₁) ← sysBookmarkCountTakeMany s (some w) ceiling (some bookmarks.length) c
    match answer.places with
    | none => .ok (.unavailable, c₁)
    | some (taken, used) =>
      match refusal with
      | some message => .error (.raised message)
      | none => do
        let c₂ ← Content.insertAllImported s w (bookmarks.take taken.toNat) c₁
        .ok (.imported taken used, c₂)

/-! ## What they do -/

namespace Content

variable {c c' : Content} {s : Session} {w : Uuid}

/-- The step from `c` to `c'` inserts `n` live bookmarks of `w` and touches no workspace. -/
structure Inserts (c c' : Content) (w : Uuid) (n : ℕ) : Prop where
  workspaces : c'.workspaces = c.workspaces
  live : ∀ v, c'.live v = c.live v + if v = w then n else 0
  homes : ∀ b ∈ c'.bookmarks, b ∈ c.bookmarks ∨ b.workspaceId = w

theorem insertBookmark_inserts {b : NewBookmark} (h : c.insertBookmark s w b = .ok c') :
    c.Inserts c' w 1 := by
  have hl (v : Uuid) := live_insertBookmark (v := v) h
  obtain ⟨t, ht, rfl⟩ := insertBookmark_ok h
  refine ⟨rfl, hl, fun r hr => ?_⟩
  rcases (Table.mem_insert? ht).mp hr with hr | rfl
  · exact .inl hr
  · exact .inr rfl

theorem insertImported_inserts {b : NewBookmark} (h : c.insertImported s w b = .ok c') :
    c.Inserts c' w 1 := by
  unfold insertImported at h
  split_ifs at h
  split at h
  · rename_i hi
    cases h
    exact insertBookmark_inserts hi
  · exact insertBookmark_inserts h
  · cases h

theorem insertAllImported_inserts {bs : List NewBookmark} (h : insertAllImported s w bs c = .ok c') :
    c.Inserts c' w bs.length := by
  induction bs generalizing c with
  | nil =>
    cases h
    exact ⟨rfl, fun v => by simp, fun b hb => .inl hb⟩
  | cons b bs ih =>
    obtain ⟨c₁, h₁, h⟩ := ok_of_bind h
    have hb := insertImported_inserts h₁
    have hbs := ih h
    refine ⟨hbs.workspaces.trans hb.workspaces, fun v => ?_, fun r hr => ?_⟩
    · rw [hbs.live, hb.live, List.length_cons]
      split_ifs <;> omega
    · rcases hbs.homes r hr with hr | hr
      · exact hb.homes r hr
      · exact .inr hr

theorem Inserts.moves {n : ℕ} (h : Inserts { c with workspaces := c.shiftCount w n } c' w n)
    (hw : ∃ r ∈ c.workspaces, r.id = w) : c.Moves c' w n where
  count := h.workspaces
  live v := by
    have hl := h.live v
    have hc : ({ c with workspaces := c.shiftCount w n } : Content).live v = c.live v := rfl
    rw [hc] at hl
    rw [hl]
    split_ifs <;> simp
  placed b hb := by
    rcases h.homes b hb with hb | hb
    · exact .inr ⟨b, hb, rfl⟩
    · exact .inl (hb ▸ hw)

end Content

/-- What a creation can do: nothing, or take one place and fill it. -/
theorem createBookmark_ok {s : Session} {r : CreationRequest} {c c' : Content} {a : Creation}
    (h : createBookmark s r c = .ok (a, c')) :
    (c' = c ∧ ∀ id, a ≠ .created id) ∨
      ∃ w row, a = .created r.bookmark.id ∧ c.liveWorkspace w = some row ∧ c.Moves c' w 1 ∧
        ∀ m, r.ceiling = some m → row.bookmarkCount + 1 ≤ m := by
  unfold createBookmark at h
  split at h
  · cases h
  rename_i w _
  split at h
  · cases h
    exact .inl ⟨rfl, fun _ => Creation.noConfusion⟩
  split at h
  · cases h
    exact .inl ⟨rfl, fun _ => Creation.noConfusion⟩
  split at h
  · cases h
    exact .inl ⟨rfl, fun _ => Creation.noConfusion⟩
  obtain ⟨⟨taken, c₁⟩, ht, h⟩ := ok_of_bind h
  rcases sysBookmarkCountTake_ok ht with ⟨rfl, hrefused⟩ | ⟨w', row, hw, hrow, rfl, hmax, rfl⟩
  · cases taken with
    | unavailable =>
      cases h
      exact .inl ⟨rfl, fun _ => Creation.noConfusion⟩
    | limitReached used =>
      cases h
      exact .inl ⟨rfl, fun _ => Creation.noConfusion⟩
    | taken used => exact absurd rfl (hrefused used)
  · obtain rfl := Option.some.inj hw
    obtain ⟨c₂, hi, h⟩ := ok_of_bind h
    split at h
    · cases h
      exact .inl ⟨rfl, fun _ => Creation.noConfusion⟩
    split at h
    · cases h
      exact .inl ⟨rfl, fun _ => Creation.noConfusion⟩
    · cases h
      have hins := Content.insertBookmark_inserts hi
      have hplace : ∃ x ∈ c.workspaces, x.id = w :=
        ⟨row, (Content.liveWorkspace_some hrow).1, (Content.liveWorkspace_some hrow).2.1⟩
      -- the links are written to other tables
      have hlinked : Content.Inserts { c with workspaces := c.shiftCount w ((1 : ℕ) : ℤ) }
          ((c₂.insertLinks w r.folderIds r.bookmark.id).insertTagLinks w r.tagIds r.bookmark.id) w 1 :=
        ⟨hins.workspaces, hins.live, hins.homes⟩
      exact .inr ⟨w, row, rfl, hrow, hlinked.moves hplace, hmax⟩

/-- What an import can do: nothing, or take a number of places and fill each of them. -/
theorem importBookmarks_ok {s : Session} {ceiling : Option ℤ} {bookmarks : List NewBookmark}
    {refusal : Option String} {c c' : Content} {a : Imported}
    (h : importBookmarks s ceiling bookmarks refusal c = .ok (a, c')) :
    (c' = c ∧ a = .unavailable) ∨
      ∃ (w : Uuid) (row : Workspace) (n : ℕ), a = .imported n (row.bookmarkCount + n) ∧ n ≤ bookmarks.length ∧
        c.liveWorkspace w = some row ∧ c.Moves c' w n ∧ (n = 0 → c' = c) ∧
        ∀ m, ceiling = some m → 0 < n → row.bookmarkCount + n ≤ m := by
  unfold importBookmarks at h
  split at h
  · cases h
  rename_i w _
  obtain ⟨⟨answer, c₁⟩, ht, h⟩ := ok_of_bind h
  rcases sysBookmarkCountTakeMany_ok ht with ⟨rfl, rfl⟩ |
    ⟨w', row, n, hw, hrow, hanswer, hnonneg, hwanted, hmax, rfl⟩
  · cases h
    exact .inl ⟨rfl, rfl⟩
  · obtain rfl := Option.some.inj hw
    obtain ⟨k, rfl⟩ := Int.eq_ofNat_of_zero_le hnonneg
    have hplaces : answer.places = some ((k : ℤ), row.bookmarkCount + k) := by
      rcases hanswer with rfl | rfl <;> rfl
    simp only [hplaces] at h
    split at h
    · cases h
    obtain ⟨c₂, hi, h⟩ := ok_of_bind h
    cases h
    have hk : k ≤ bookmarks.length := by simpa using hwanted
    have hins := Content.insertAllImported_inserts hi
    rw [List.length_take, Int.toNat_natCast, min_eq_left hk] at hins
    have hplace : ∃ x ∈ c.workspaces, x.id = w :=
      ⟨row, (Content.liveWorkspace_some hrow).1, (Content.liveWorkspace_some hrow).2.1⟩
    refine .inr ⟨w, row, k, rfl, hk, hrow, hins.moves hplace, ?_, fun m hm hpos => hmax m hm (by simpa using hpos)⟩
    rintro rfl
    have hnone : c' = { c with workspaces := c.shiftCount w ((0 : ℕ) : ℤ) } := (Except.ok.inj hi).symm
    rw [hnone]
    exact congrArg (fun t => { c with workspaces := t }) (Content.shiftCount_zero w)

end SlugBase
