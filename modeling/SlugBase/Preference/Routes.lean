import SlugBase.Access.Restated
import SlugBase.Departure

/-!
# The ways to a remembered choice

A choice names a bookmark that its account reads: as its owner, through a share with it or with a team it is
in, or through a shared folder. What a transaction writes takes such ways away, or writes a choice.

* `Row`: the rows of the four tables that give access; `Need`, `IsRoute`: what a way consists of;
  `readable_iff`: a choice is readable when the content holds one of its ways;
* `Write`, `view`: what a transaction writes, and what it sees under its own writes;
* **`in_view`**, **`mem_view`**: what is left of a way, and of the choices, under the writes;
* `forgetUnreadable`: the trigger of a deleted row; **`looksAt_of_route`**: it looks at the choices the row
  gave a way to.
-/

namespace SlugBase.Preference

open Relational

/-- A row of one of the four tables that give access: each has the trigger that forgets choices. -/
inductive Row
  | bookmarkShare (s : BookmarkShare)
  | folderBookmark (l : FolderBookmark)
  | folderShare (s : FolderShare)
  | teamMember (m : TeamMember)
  deriving DecidableEq

/-- The row is in its table. -/
def Row.In (c : Content) : Row → Prop
  | .bookmarkShare s => s ∈ c.bookmarkShares
  | .folderBookmark l => l ∈ c.folderBookmarks
  | .folderShare s => s ∈ c.folderShares
  | .teamMember m => m ∈ c.teamMembers

/-- `slug_preference_bookmark_readable`, of the columns of a choice. -/
def readable (c : Content) (p : SlugPreference) : Bool :=
  slugPreferenceBookmarkReadable c p.accountId p.workspaceId p.bookmarkId

/-- The choices that the trigger of a deleted row looks at. -/
def looksAt (c : Content) (p : SlugPreference) : Row → Bool
  | .bookmarkShare s => decide (p.workspaceId = s.workspaceId ∧ p.bookmarkId = s.bookmarkId)
  | .folderBookmark l => decide (p.workspaceId = l.workspaceId ∧ p.bookmarkId = l.bookmarkId)
  | .folderShare s => decide (p.workspaceId = s.workspaceId) && c.folderBookmarks.any fun l =>
      decide (l.workspaceId = s.workspaceId ∧ l.folderId = s.folderId ∧ l.bookmarkId = p.bookmarkId)
  | .teamMember m => decide (p.workspaceId = m.workspaceId ∧ p.accountId = m.accountId)

/-- `slug_preferences_forget_unreadable()`: the choices that the trigger of a deleted row deletes. -/
def forgetUnreadable (c : Content) (row : Row) : List SlugPreference :=
  c.slugPreferences.rows.filter fun p => looksAt c p row && !readable c p

/-! ## Ways -/

/-- What a way to a bookmark needs: the bookmark, its owner, and rows that give access. -/
inductive Need
  | bookmark (w id : Uuid)
  | owned (w id a : Uuid)
  | row (r : Row)

/-- The content has what is needed. -/
def Need.In (c : Content) : Need → Prop
  | .bookmark w id => ∃ b ∈ c.bookmarks, b.workspaceId = w ∧ b.id = id
  | .owned w id a => ∃ b ∈ c.bookmarks, b.workspaceId = w ∧ b.id = id ∧ b.ownerId = some a
  | .row r => r.In c

/-- **The ways to the bookmark of a choice.** -/
inductive IsRoute (p : SlugPreference) : List Need → Prop
  | own : IsRoute p [.owned p.workspaceId p.bookmarkId p.accountId]
  | direct (s : BookmarkShare) (hw : s.workspaceId = p.workspaceId) (hb : s.bookmarkId = p.bookmarkId)
      (ha : s.targetAccountId = some p.accountId) :
      IsRoute p [.bookmark p.workspaceId p.bookmarkId, .row (.bookmarkShare s)]
  | team (s : BookmarkShare) (m : TeamMember) (hw : s.workspaceId = p.workspaceId) (hb : s.bookmarkId = p.bookmarkId)
      (ht : s.targetTeamId = some m.teamId) (hmw : m.workspaceId = p.workspaceId) (hma : m.accountId = p.accountId) :
      IsRoute p [.bookmark p.workspaceId p.bookmarkId, .row (.bookmarkShare s), .row (.teamMember m)]
  | folder (l : FolderBookmark) (s : FolderShare) (hw : s.workspaceId = p.workspaceId)
      (hlw : l.workspaceId = s.workspaceId) (hlf : l.folderId = s.folderId) (hb : l.bookmarkId = p.bookmarkId)
      (ha : s.targetAccountId = some p.accountId) :
      IsRoute p [.bookmark p.workspaceId p.bookmarkId, .row (.folderBookmark l), .row (.folderShare s)]
  | folderTeam (l : FolderBookmark) (s : FolderShare) (m : TeamMember) (hw : s.workspaceId = p.workspaceId)
      (hlw : l.workspaceId = s.workspaceId) (hlf : l.folderId = s.folderId) (hb : l.bookmarkId = p.bookmarkId)
      (ht : s.targetTeamId = some m.teamId) (hmw : m.workspaceId = p.workspaceId) (hma : m.accountId = p.accountId) :
      IsRoute p [.bookmark p.workspaceId p.bookmarkId, .row (.folderBookmark l), .row (.folderShare s),
        .row (.teamMember m)]

/-- The content holds a way. -/
def Holds (c : Content) (route : List Need) : Prop := ∀ need ∈ route, need.In c

variable {c : Content} {p : SlugPreference} {route : List Need} {row : Row} {need : Need}

/-- **A choice is readable when the content holds one of its ways.** -/
theorem readable_iff : readable c p = true ↔ ∃ route, IsRoute p route ∧ Holds c route := by
  rw [readable, slugPreferenceBookmarkReadable, Table.any_iff]
  simp only [Bool.and_eq_true, decide_eq_true_eq, existsReadable_iff]
  constructor
  · rintro ⟨b, hb, ⟨hw, hid⟩, hown | ⟨via, hgrant⟩⟩
    · exact ⟨_, .own, by simpa [Holds, Need.In] using ⟨b, hb, hw, hid, hown⟩⟩
    · have hbook : ∃ b ∈ c.bookmarks, b.workspaceId = p.workspaceId ∧ b.id = p.bookmarkId := ⟨b, hb, hw, hid⟩
      rw [hw, hid] at hgrant
      generalize hbid : p.bookmarkId = id at hgrant
      cases hgrant with
      | direct s hs hsw ha =>
        exact ⟨_, .direct s hsw hbid.symm ha, by simpa [Holds, Need.In, Row.In] using ⟨hbook, hs⟩⟩
      | team s hs hsw t ht hm =>
        obtain ⟨m, hm, hmw, hma, rfl⟩ := hm
        exact ⟨_, .team s m hsw hbid.symm ht hmw hma, by simpa [Holds, Need.In, Row.In] using ⟨hbook, hs, hm⟩⟩
      | folder s hs hsw ha l hl hlw hlf =>
        cases ha with
        | account ha =>
          exact ⟨_, .folder l s hsw hlw hlf hbid.symm ha, by simpa [Holds, Need.In, Row.In] using ⟨hbook, hl, hs⟩⟩
        | team t ht hm =>
          obtain ⟨m, hm, hmw, hma, rfl⟩ := hm
          exact ⟨_, .folderTeam l s m hsw hlw hlf hbid.symm ht hmw hma,
            by simpa [Holds, Need.In, Row.In] using ⟨hbook, hl, hs, hm⟩⟩
  · rintro ⟨route, hroute, hholds⟩
    cases hroute with
    | own =>
      obtain ⟨b, hb, hw, hid, hown⟩ := hholds _ List.mem_cons_self
      exact ⟨b, hb, ⟨hw, hid⟩, .inl hown⟩
    | direct s hw hb ha =>
      obtain ⟨⟨b, hbook, hbw, hbid⟩, hs⟩ : (∃ b ∈ c.bookmarks, b.workspaceId = p.workspaceId ∧ b.id = p.bookmarkId) ∧
          s ∈ c.bookmarkShares := by simpa [Holds, Need.In, Row.In] using hholds
      refine ⟨b, hbook, ⟨hbw, hbid⟩, .inr ⟨.direct, ?_⟩⟩
      rw [hbw, hbid, ← hb]
      exact .direct s hs hw ha
    | team s m hw hb ht hmw hma =>
      obtain ⟨⟨b, hbook, hbw, hbid⟩, hs, hm⟩ : (∃ b ∈ c.bookmarks, b.workspaceId = p.workspaceId ∧
          b.id = p.bookmarkId) ∧ s ∈ c.bookmarkShares ∧ m ∈ c.teamMembers := by
        simpa [Holds, Need.In, Row.In] using hholds
      refine ⟨b, hbook, ⟨hbw, hbid⟩, .inr ⟨.team, ?_⟩⟩
      rw [hbw, hbid, ← hb]
      exact .team s hs hw m.teamId ht ⟨m, hm, hmw, hma, rfl⟩
    | folder l s hw hlw hlf hb ha =>
      obtain ⟨⟨b, hbook, hbw, hbid⟩, hl, hs⟩ : (∃ b ∈ c.bookmarks, b.workspaceId = p.workspaceId ∧
          b.id = p.bookmarkId) ∧ l ∈ c.folderBookmarks ∧ s ∈ c.folderShares := by
        simpa [Holds, Need.In, Row.In] using hholds
      refine ⟨b, hbook, ⟨hbw, hbid⟩, .inr ⟨.folder, ?_⟩⟩
      rw [hbw, hbid, ← hb]
      exact .folder s hs hw (.account ha) l hl hlw hlf
    | folderTeam l s m hw hlw hlf hb ht hmw hma =>
      obtain ⟨⟨b, hbook, hbw, hbid⟩, hl, hs, hm⟩ : (∃ b ∈ c.bookmarks, b.workspaceId = p.workspaceId ∧
          b.id = p.bookmarkId) ∧ l ∈ c.folderBookmarks ∧ s ∈ c.folderShares ∧ m ∈ c.teamMembers := by
        simpa [Holds, Need.In, Row.In] using hholds
      refine ⟨b, hbook, ⟨hbw, hbid⟩, .inr ⟨.folder, ?_⟩⟩
      rw [hbw, hbid, ← hb]
      exact .folder s hs hw (.team m.teamId ht ⟨m, hm, hmw, hma, rfl⟩) l hl hlw hlf

/-- **The trigger of a row looks at the choices the row gave a way to.** A folder share finds them by what is
filed in its folder, so the filing is still to be there. -/
theorem looksAt_of_route (hroute : IsRoute p route) (hrow : .row row ∈ route)
    (hfiled : ∀ s, row = .folderShare s → ∀ l, .row (.folderBookmark l) ∈ route → l ∈ c.folderBookmarks) :
    looksAt c p row = true := by
  cases hroute with
  | own => simp at hrow
  | direct s hw hb ha =>
    obtain rfl : row = .bookmarkShare s := by simpa using hrow
    simp [looksAt, hw, hb]
  | team s m hw hb ht hmw hma =>
    obtain rfl | rfl : row = .bookmarkShare s ∨ row = .teamMember m := by simpa using hrow
    · simp [looksAt, hw, hb]
    · simp [looksAt, hmw, hma]
  | folder l s hw hlw hlf hb ha =>
    obtain rfl | rfl : row = .folderBookmark l ∨ row = .folderShare s := by simpa using hrow
    · simp [looksAt, hlw, hw, hb]
    · have hl := hfiled s rfl l (by simp)
      simp only [looksAt, Bool.and_eq_true, decide_eq_true_eq, Table.any_iff]
      exact ⟨hw.symm, l, hl, hlw, hlf, hb⟩
  | folderTeam l s m hw hlw hlf hb ht hmw hma =>
    obtain rfl | rfl | rfl : row = .folderBookmark l ∨ row = .folderShare s ∨ row = .teamMember m := by simpa using hrow
    · simp [looksAt, hlw, hw, hb]
    · have hl := hfiled s rfl l (by simp)
      simp only [looksAt, Bool.and_eq_true, decide_eq_true_eq, Table.any_iff]
      exact ⟨hw.symm, l, hl, hlw, hlf, hb⟩
    · simp [looksAt, hmw, hma]

/-! ## What a transaction writes -/

/-- **What a transaction writes**: a deleted row, a deleted bookmark with the choices of it, a member who has
left, with what was theirs, a remembered choice, and a choice the triggers deleted. -/
inductive Write
  | deleted (r : Row)
  | bookmarkGone (id : Uuid)
  | left (s : Session) (w a : Uuid)
  | chosen (p : SlugPreference)
  | forgotten (p : SlugPreference)

/-- `INSERT … ON CONFLICT (workspace_id, account_id, slug) DO UPDATE`. -/
def remembered (t : Table SlugPreference SlugPreference.key) (p : SlugPreference) :
    Table SlugPreference SlugPreference.key where
  rows := t.rows.filter (fun q => decide (q.key ≠ p.key)) ++ [p]
  keyed := by
    rw [List.map_append, List.map_singleton, List.nodup_append]
    refine ⟨t.keyed.sublist (List.filter_sublist.map _), List.nodup_singleton _, fun key hkey key' hkey' heq => ?_⟩
    obtain ⟨q, hq, rfl⟩ := List.mem_map.mp hkey
    exact of_decide_eq_true (List.mem_filter.mp hq).2 (heq.trans (List.mem_singleton.mp hkey'))

def Write.apply (c : Content) : Write → Content
  | .deleted (.bookmarkShare s) => { c with bookmarkShares := c.bookmarkShares.deleteWhere fun r => decide (r = s) }
  | .deleted (.folderBookmark l) => { c with folderBookmarks := c.folderBookmarks.deleteWhere fun r => decide (r = l) }
  | .deleted (.folderShare s) => { c with folderShares := c.folderShares.deleteWhere fun r => decide (r = s) }
  | .deleted (.teamMember m) => { c with teamMembers := c.teamMembers.deleteWhere fun r => decide (r = m) }
  | .bookmarkGone id => { c with
      bookmarks := c.bookmarks.deleteWhere fun b => decide (b.id = id)
      slugPreferences := c.slugPreferences.deleteWhere fun p => decide (p.bookmarkId = id) }
  | .left s w a => releaseBookmarks s (fun b => decide (b.workspaceId = w ∧ b.ownerId = some a)) { c with
      members := c.members.deleteWhere fun m => decide (m.workspaceId = w ∧ m.accountId = a)
      slugPreferences := c.slugPreferences.deleteWhere fun p => decide (p.workspaceId = w ∧ p.accountId = a) }
  | .chosen p => { c with slugPreferences := remembered c.slugPreferences p }
  | .forgotten p => { c with slugPreferences := c.slugPreferences.deleteWhere fun q => decide (q = p) }

/-- What a transaction sees: what is committed, under its own writes. -/
def view (c : Content) (writes : List Write) : Content := writes.foldl Write.apply c

/-- A write takes away what a way needs. -/
def Write.removes : Write → Need → Prop
  | .deleted r, need => need = .row r
  | .bookmarkGone id, need => (∃ w, need = .bookmark w id) ∨ ∃ w a, need = .owned w id a
  | .left _ w a, need => ∃ id, need = .owned w id a
  | .chosen _, _ => False
  | .forgotten _, _ => False

/-- A write deletes a choice. -/
def Write.erases : Write → SlugPreference → Prop
  | .deleted _, _ => False
  | .bookmarkGone id, p => p.bookmarkId = id
  | .left _ w a, p => p.workspaceId = w ∧ p.accountId = a
  | .chosen q, p => p.key = q.key
  | .forgotten q, p => p = q

/-! ## What is left under the writes -/

variable {w : Write} {writes : List Write}

theorem mem_releaseBookmark {s : Session} {id : Uuid} {b : Bookmark} :
    b ∈ (releaseBookmark s c id).bookmarks ↔
      ∃ b' ∈ c.bookmarks, (if b'.id = id then bookmarksClearSlugOnRelease s c b' else b') = b := by
  have hrows := Table.mem_updateWhere (t := c.bookmarks) (p := fun b => decide (b.id = id))
    (f := bookmarksClearSlugOnRelease s c) (h := fun b => (bookmarksClearSlugOnRelease_same s c b).1) (r := b)
  simp only [decide_eq_true_eq] at hrows
  exact hrows

theorem bookmarksClearSlugOnRelease_owner (s : Session) (c : Content) (b : Bookmark) :
    (bookmarksClearSlugOnRelease s c b).ownerId = none := by
  unfold bookmarksClearSlugOnRelease
  simp only
  split <;> rfl

/-- A released bookmark is the bookmark it was, without its owner. -/
theorem in_releaseBookmark {s : Session} (id : Uuid) :
    (∀ w id', (Need.bookmark w id').In (releaseBookmark s c id) ↔ (Need.bookmark w id').In c) ∧
    ∀ w id' a, (Need.owned w id' a).In (releaseBookmark s c id) ↔ (Need.owned w id' a).In c ∧ id' ≠ id := by
  have hsame (b : Bookmark) := bookmarksClearSlugOnRelease_same s c b
  have hback {b : Bookmark} (hb : b ∈ (releaseBookmark s c id).bookmarks) : ∃ b' ∈ c.bookmarks,
      b = if b'.id = id then bookmarksClearSlugOnRelease s c b' else b' := by
    obtain ⟨b', hb', heq⟩ := mem_releaseBookmark.mp hb
    exact ⟨b', hb', heq.symm⟩
  constructor
  · intro w id'
    constructor
    · rintro ⟨b, hb, hw, hid⟩
      obtain ⟨b', hb', rfl⟩ := hback hb
      refine ⟨b', hb', ?_, ?_⟩
      · split_ifs at hw
        · exact (hsame b').2.1.symm.trans hw
        · exact hw
      · split_ifs at hid
        · exact (hsame b').1.symm.trans hid
        · exact hid
    · rintro ⟨b, hb, hw, hid⟩
      refine ⟨_, mem_releaseBookmark.mpr ⟨b, hb, rfl⟩, ?_, ?_⟩
      · split_ifs
        · exact (hsame b).2.1.trans hw
        · exact hw
      · split_ifs
        · exact (hsame b).1.trans hid
        · exact hid
  · intro w id' a
    constructor
    · rintro ⟨b, hb, hw, hid, howner⟩
      obtain ⟨b', hb', rfl⟩ := hback hb
      by_cases hreleased : b'.id = id
      · rw [if_pos hreleased, bookmarksClearSlugOnRelease_owner] at howner
        cases howner
      · rw [if_neg hreleased] at hw hid howner
        exact ⟨⟨b', hb', hw, hid, howner⟩, fun heq => hreleased (hid.trans heq)⟩
    · rintro ⟨⟨b, hb, hw, hid, howner⟩, hne⟩
      refine ⟨_, mem_releaseBookmark.mpr ⟨b, hb, rfl⟩, ?_⟩
      rw [if_neg fun heq => hne (hid.symm.trans heq)]
      exact ⟨hw, hid, howner⟩

theorem in_releaseBookmarks {s : Session} (ids : List Uuid) :
    (∀ w id, (Need.bookmark w id).In (ids.foldl (releaseBookmark s) c) ↔ (Need.bookmark w id).In c) ∧
    ∀ w id a, (Need.owned w id a).In (ids.foldl (releaseBookmark s) c) ↔ (Need.owned w id a).In c ∧ id ∉ ids := by
  induction ids generalizing c with
  | nil => exact ⟨fun _ _ => Iff.rfl, fun _ _ _ => (and_iff_left List.not_mem_nil).symm⟩
  | cons x ids ih =>
    obtain ⟨hbooks, howned⟩ := in_releaseBookmark (s := s) (c := c) x
    refine ⟨fun w id => (ih.1 w id).trans (hbooks w id), fun w id a => ?_⟩
    rw [List.foldl_cons, ih.2, howned, List.mem_cons, not_or, and_assoc]

theorem mem_released {w id a : Uuid} :
    id ∈ (c.bookmarks.rows.filter fun b => decide (b.workspaceId = w ∧ b.ownerId = some a)).map Bookmark.id ↔
      (Need.owned w id a).In c := by
  simp only [List.mem_map, List.mem_filter, decide_eq_true_eq]
  constructor
  · rintro ⟨b, ⟨hb, hw, ha⟩, hid⟩
    exact ⟨b, hb, hw, hid, ha⟩
  · rintro ⟨b, hb, hw, hid, ha⟩
    exact ⟨b, ⟨hb, hw, ha⟩, hid⟩

theorem owned_unique {w id a w' a' : Uuid} (h : (Need.owned w id a).In c) (h' : (Need.owned w' id a').In c) :
    w' = w ∧ a' = a := by
  obtain ⟨b, hb, hw, hid, ha⟩ := h
  obtain ⟨b', hb', hw', hid', ha'⟩ := h'
  obtain rfl := Table.eq_of_key hb hb' (hid.trans hid'.symm)
  exact ⟨hw'.symm.trans hw, Option.some.inj (ha'.symm.trans ha)⟩

theorem releaseBookmarks_same {s : Session} (ids : List Uuid) :
    ∃ t, ids.foldl (releaseBookmark s) c = { c with bookmarks := t } := by
  induction ids generalizing c with
  | nil => exact ⟨c.bookmarks, rfl⟩
  | cons x ids ih =>
    obtain ⟨t, ht⟩ := ih (c := releaseBookmark s c x)
    exact ⟨t, ht⟩

theorem left_apply (s : Session) (w a : Uuid) (c : Content) :
    ∃ t, (Write.left s w a).apply c = { c with
      members := c.members.deleteWhere fun m => decide (m.workspaceId = w ∧ m.accountId = a)
      bookmarks := t
      slugPreferences := c.slugPreferences.deleteWhere fun p => decide (p.workspaceId = w ∧ p.accountId = a) } :=
  releaseBookmarks_same _

/-- **What is left of a way under a write.** -/
theorem in_apply : need.In (w.apply c) ↔ need.In c ∧ ¬w.removes need := by
  cases w with
  | chosen q => cases need <;> simp [Write.apply, Write.removes, Need.In, Row.In]
  | forgotten q => cases need <;> simp [Write.apply, Write.removes, Need.In, Row.In]
  | deleted r =>
    cases need with
    | bookmark w id => cases r <;> simp [Write.apply, Write.removes, Need.In]
    | owned w id a => cases r <;> simp [Write.apply, Write.removes, Need.In]
    | row r' => cases r <;> cases r' <;> simp [Write.apply, Write.removes, Need.In, Row.In]
  | bookmarkGone id =>
    cases need with
    | bookmark w id' =>
      simp only [Write.apply, Write.removes, Need.In, Table.mem_deleteWhere, decide_eq_false_iff_not]
      constructor
      · rintro ⟨b, ⟨hb, hne⟩, hw, rfl⟩
        exact ⟨⟨b, hb, hw, rfl⟩, by simpa using hne⟩
      · rintro ⟨⟨b, hb, hw, rfl⟩, hne⟩
        exact ⟨b, ⟨hb, by simpa using hne⟩, hw, rfl⟩
    | owned w id' a =>
      simp only [Write.apply, Write.removes, Need.In, Table.mem_deleteWhere, decide_eq_false_iff_not]
      constructor
      · rintro ⟨b, ⟨hb, hne⟩, hw, rfl, ha⟩
        exact ⟨⟨b, hb, hw, rfl, ha⟩, by simpa using hne⟩
      · rintro ⟨⟨b, hb, hw, rfl, ha⟩, hne⟩
        exact ⟨b, ⟨hb, by simpa using hne⟩, hw, rfl, ha⟩
    | row r' => cases r' <;> simp [Write.apply, Write.removes, Need.In, Row.In]
  | left s v a =>
    cases need with
    | bookmark w id =>
      refine ((in_releaseBookmarks _).1 w id).trans (Iff.symm (and_iff_left ?_))
      rintro ⟨id', h⟩
      cases h
    | owned w id a' =>
      refine ((in_releaseBookmarks _).2 w id a').trans (and_congr_right fun howned => not_congr ?_)
      refine mem_released.trans ⟨fun h => ?_, ?_⟩
      · obtain ⟨rfl, rfl⟩ := owned_unique h howned
        exact ⟨id, rfl⟩
      · rintro ⟨id', h⟩
        obtain ⟨rfl, rfl, rfl⟩ := Need.owned.inj h
        exact howned
    | row r =>
      obtain ⟨t, ht⟩ := left_apply s v a c
      rw [ht]
      cases r <;> simp [Write.removes, Need.In, Row.In]

/-- **What is left of a way under the writes of a transaction.** -/
theorem in_view : need.In (view c writes) ↔ need.In c ∧ ∀ w ∈ writes, ¬w.removes need := by
  induction writes generalizing c with
  | nil => exact (and_iff_left fun w hw => absurd hw List.not_mem_nil).symm
  | cons w writes ih =>
    refine (ih (c := w.apply c)).trans ?_
    rw [in_apply, List.forall_mem_cons, and_assoc]

theorem mem_remembered {t : Table SlugPreference SlugPreference.key} {q : SlugPreference} :
    p ∈ remembered t q ↔ p = q ∨ p ∈ t ∧ p.key ≠ q.key := by
  rw [Table.mem_iff, remembered, List.mem_append, List.mem_filter, List.mem_singleton, decide_eq_true_eq, or_comm]
  rfl

/-- **What is left of the choices under a write.** -/
theorem mem_apply : p ∈ (w.apply c).slugPreferences ↔ w = .chosen p ∨ p ∈ c.slugPreferences ∧ ¬w.erases p := by
  cases w with
  | deleted r => cases r <;> simp [Write.apply, Write.erases]
  | bookmarkGone id => simp [Write.apply, Write.erases]
  | left s v a =>
    obtain ⟨t, ht⟩ := left_apply s v a c
    rw [ht]
    simp [Write.erases]
  | chosen q =>
    simp only [Write.apply, Write.erases, mem_remembered, Write.chosen.injEq]
    exact or_congr_left eq_comm
  | forgotten q => simp [Write.apply, Write.erases]

theorem view_append {more : List Write} : view c (writes ++ more) = view (view c writes) more :=
  List.foldl_append

theorem mem_of_mem_view (h : p ∈ (view c writes).slugPreferences) : p ∈ c.slugPreferences ∨ .chosen p ∈ writes := by
  induction writes generalizing c with
  | nil => exact .inl h
  | cons w writes ih =>
    rcases ih h with h | h
    · rcases mem_apply.mp h with rfl | ⟨h, -⟩
      · exact .inr List.mem_cons_self
      · exact .inl h
    · exact .inr (List.mem_cons_of_mem _ h)

/-- **A choice that is seen over one content is seen over another that has it too, or that the transaction wrote
it over.** -/
theorem mem_view {c' : Content} (h : p ∈ (view c' writes).slugPreferences)
    (hboth : (p ∈ c'.slugPreferences → p ∈ c.slugPreferences) ∨ .chosen p ∈ writes) :
    p ∈ (view c writes).slugPreferences := by
  induction writes generalizing c c' with
  | nil => exact (hboth.resolve_right List.not_mem_nil) h
  | cons w writes ih =>
    refine ih h ?_
    by_cases hw : w = .chosen p
    · exact .inl fun _ => mem_apply.mpr (.inl hw)
    · rcases hboth with hboth | hboth
      · refine .inl fun h' => ?_
        obtain ⟨h', hkept⟩ := (mem_apply.mp h').resolve_left hw
        exact mem_apply.mpr (.inr ⟨hboth h', hkept⟩)
      · exact .inr ((List.mem_cons.mp hboth).resolve_left fun heq => hw heq.symm)

end SlugBase.Preference
