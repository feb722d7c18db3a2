import SlugBase.Departure
import SlugBase.Bookmark.CountRuns
import SlugBase.Editing.Update
import SlugBase.Lib.PrefixCode
import Mathlib.Data.List.Perm.Subperm

/-!
# Departures keep names and slugs apart

What the release triggers, and the content choice of a departure, do to the keys `bookmarks_owner_slug_key` and
`folders_owner_name_key`; and whole runs, in which members create, change and delete bookmarks and folders and leave, and
the content choices of their departures are applied, in any order.

* `KeepsSuffix`: what case folding does with the suffix of a name; **`firstFree_free`**: the loop over the suffixes
  ends with a name that is not taken;
* `SlugsApart`, `FoldersApart`: the two keys; `Tidy`: both, and the departures whose content is still to be placed;
* **`SlugsApart.releaseBookmark`**, **`FoldersApart.releaseFolder`**: the triggers of one row keep them;
  **`Tidy.deleteMember`**: so does the end of a membership;
* `Chosen`, **`sysMemberDepartureApply_cases`**: what a content choice can do to the rows; **`Tidy.apply`**,
  **`Tidy.apply_ne_unique`**: it keeps the keys, and meets none of them;
* **`held_of_apply`**: it leaves what another departure released; **`Tidy.transfer`**: a transfer is carried out;
* `Content.createFolder`, `Content.changeFolder`, `Content.changeBookmark`: the writes of the repositories that the keys
  judge; `DepartureOp`, `departureSystem`: the steps;
* **`departures_tidy`**: in every reachable state the keys hold, and no row that a departure releases and no content
  choice meets a key.
-/

namespace SlugBase

open Relational

/-! ## The loop over the suffixes -/

/-- Folding the case of a name leaves its suffix ` (n)` as it is. -/
def KeepsSuffix (lower : String → String) : Prop :=
  ∀ (base : String) (n : ℕ), ∃ folded, lower (base ++ (" (" ++ toString n ++ ")")) = folded ++ (" (" ++ toString n ++ ")")

theorem suffix_injective {a b : String} {n m : ℕ}
    (h : a ++ (" (" ++ toString n ++ ")") = b ++ (" (" ++ toString m ++ ")")) : n = m := by
  have hopen (k : ℕ) : '(' ∉ (Nat.toDigits 10 k).reverse := by
    intro hmem
    have hdigit := Nat.isDigit_of_mem_toDigits (by decide) (by decide) (List.mem_reverse.mp hmem)
    exact absurd hdigit (by decide)
  have htext (s : String) (k : ℕ) : (s ++ (" (" ++ toString k ++ ")")).toList.reverse =
      ')' :: ((Nat.toDigits 10 k).reverse ++ '(' :: ' ' :: s.toList.reverse) := by
    simp [toString, Nat.repr, String.toList_append]
  have hreverse := congrArg (fun s : String => s.toList.reverse) h
  simp only [htext, List.cons.injEq, true_and] at hreverse
  have hdigits := List.reverse_injective (PrefixCode.split_mark (hopen n) (hopen m) hreverse).1
  have hvalue := congrArg (fun digits => Nat.ofDigitChars 10 digits 0) hdigits
  simpa only [Nat.ofDigitChars_ten_toDigits] using hvalue

section

variable {lower : String → String} (hlower : KeepsSuffix lower)

include hlower in
theorem lower_suffixed_injective (base : String) {n m : ℕ} (h : lower (suffixed base n) = lower (suffixed base m)) :
    n = m := by
  obtain ⟨a, ha⟩ := hlower (rtrim (left base (64 - (" (" ++ toString n ++ ")").length))) n
  obtain ⟨b, hb⟩ := hlower (rtrim (left base (64 - (" (" ++ toString m ++ ")").length))) m
  exact suffix_injective (ha.symm.trans (h.trans hb))

/-- The loop ends at the first name that is free, if there is one within reach. -/
theorem firstFree_of_free {taken : String → Bool} {base : String} :
    ∀ {fuel n : ℕ}, (∃ j ≤ fuel, taken (suffixed base (n + j)) = false) → taken (firstFree taken base fuel n) = false := by
  intro fuel
  induction fuel with
  | zero =>
    rintro n ⟨j, hj, hfree⟩
    obtain rfl := Nat.le_zero.mp hj
    exact hfree
  | succ fuel ih =>
    rintro n ⟨j, hj, hfree⟩
    rw [firstFree]
    split
    · next htaken =>
      cases j with
      | zero => exact absurd (htaken.symm.trans hfree) (by decide)
      | succ j => exact ih ⟨j, Nat.le_of_succ_le_succ hj, by rwa [Nat.add_right_comm n 1 j]⟩
    · next hnot => exact Bool.eq_false_iff.mpr hnot

include hlower in
/-- **The loop over the suffixes ends with a free name**: among one more suffix than there are folders one is free. -/
theorem firstFree_free (t : Table Folder Folder.id) (p : Folder → Bool) (base : String) (n : ℕ) :
    (t.any fun g => p g && decide (lower g.name = lower (firstFree
      (fun name => t.any fun g => p g && decide (lower g.name = lower name)) base (t.rows.length + 1) n))) = false := by
  refine @firstFree_of_free (fun name => t.any fun g => p g && decide (lower g.name = lower name)) _ _ _ ?_
  by_contra hall
  push Not at hall
  have htaken (j : ℕ) (hj : j ≤ t.rows.length + 1) :
      lower (suffixed base (n + j)) ∈ t.rows.map fun g => lower g.name := by
    obtain ⟨g, hg, hname⟩ := Table.any_iff.mp (Bool.eq_true_of_not_eq_false (hall j hj))
    rw [Bool.and_eq_true, decide_eq_true_eq] at hname
    exact List.mem_map.mpr ⟨g, hg, hname.2⟩
  have hnodup : ((List.range (t.rows.length + 2)).map fun j => lower (suffixed base (n + j))).Nodup := by
    refine (List.nodup_map_iff_inj_on List.nodup_range).mpr fun i _ j _ h => ?_
    exact Nat.add_left_cancel (lower_suffixed_injective hlower base h)
  have hsubset : ((List.range (t.rows.length + 2)).map fun j => lower (suffixed base (n + j))) ⊆
      t.rows.map fun g => lower g.name := by
    intro name hname
    obtain ⟨j, hj, rfl⟩ := List.mem_map.mp hname
    exact htaken j (Nat.le_of_lt_succ (List.mem_range.mp hj))
  have hlength := (List.subperm_of_subset hnodup hsubset).length_le
  rw [List.length_map, List.length_map, List.length_range] at hlength
  omega

end

/-! ## The keys -/

/-- The key `bookmarks_owner_slug_key`: the bookmarks of one owner, and those of a workspace without one, have distinct
slugs. -/
def SlugsApart (c : Content) : Prop := ∀ b ∈ c.bookmarks, ∀ b' ∈ c.bookmarks, b.sameSlug b' = true → b.id = b'.id

/-- The key `folders_owner_name_key`, without regard to case. -/
def FoldersApart (lower : String → String) (c : Content) : Prop :=
  ∀ f ∈ c.folders, ∀ f' ∈ c.folders, f.workspaceId = f'.workspaceId → f.ownerId = f'.ownerId →
    lower f.name = lower f'.name → f.id = f'.id

/-- The bookmarks that one departure released have distinct slugs to give back. -/
def ReleasesApart (c : Content) : Prop :=
  ∀ b ∈ c.bookmarks, ∀ b' ∈ c.bookmarks, ∀ w d, b.releasedBy w d = true → b'.releasedBy w d = true →
    sqlEq b.releasedSlug b'.releasedSlug = true → b.id = b'.id

/-- **The keys hold**, and the departures whose content is still to be placed can give every slug back. -/
structure Tidy (lower : String → String) (c : Content) : Prop where
  slugs : SlugsApart c
  folders : FoldersApart lower c
  releases : ReleasesApart c

/-- No row is of the departure. -/
def Content.departureFresh (c : Content) (d : Uuid) : Bool :=
  !(c.bookmarks.any fun b => decide (b.departureId = some d)) && !(c.folders.any fun f => decide (f.departureId = some d))

section

variable {lower : String → String} {c c' : Content}

theorem sameSlug_iff {b b' : Bookmark} : b.sameSlug b' = true ↔
    b.workspaceId = b'.workspaceId ∧ b.ownerId = b'.ownerId ∧ ∃ slug, b.slug = some slug ∧ b'.slug = some slug := by
  rw [Bookmark.sameSlug, Bool.and_eq_true, decide_eq_true_eq, sqlEq_iff, and_assoc]

theorem sameSlug_symm {b b' : Bookmark} (h : b.sameSlug b' = true) : b'.sameSlug b = true := by
  obtain ⟨hw, ho, slug, hb, hb'⟩ := sameSlug_iff.mp h
  exact sameSlug_iff.mpr ⟨hw.symm, ho.symm, slug, hb', hb⟩

theorem Tidy.of_subset (h : Tidy lower c) (hb : ∀ b ∈ c'.bookmarks, b ∈ c.bookmarks)
    (hf : ∀ f ∈ c'.folders, f ∈ c.folders) : Tidy lower c' where
  slugs b hx b' hy := h.slugs b (hb b hx) b' (hb b' hy)
  folders f hx f' hy := h.folders f (hf f hx) f' (hf f' hy)
  releases b hx b' hy := h.releases b (hb b hx) b' (hb b' hy)

theorem departureFresh_bookmarks {d : Uuid} (h : c.departureFresh d = true) {b : Bookmark} (hb : b ∈ c.bookmarks) :
    b.departureId ≠ some d := by
  intro hd
  rw [Content.departureFresh, Bool.and_eq_true, Bool.not_eq_true', Bool.eq_false_iff] at h
  exact h.1 (Table.any_iff.mpr ⟨b, hb, decide_eq_true hd⟩)

end

/-! ## The release of a bookmark -/

/-- A bookmark after the end of its owner's membership. -/
structure Bookmark.Released (s : Session) (b b' : Bookmark) : Prop where
  id : b'.id = b.id
  workspaceId : b'.workspaceId = b.workspaceId
  ownerId : b'.ownerId = none
  departureId : b'.departureId = s.appDepartureId
  /-- A bookmark of a departure keeps its slug, or remembers it. -/
  slug : s.appDepartureId ≠ none →
    b'.slug = b.slug ∧ b'.departureSlug = none ∧ b'.forwarding = b.forwarding ∨
      b'.slug = none ∧ b'.departureSlug = b.slug ∧ b.slug ≠ none ∧ b'.departureForwarding = some b.forwarding
  same : b'.url = b.url ∧ b'.title = b.title ∧ b'.description = b.description ∧ b'.planArchivedAt = b.planArchivedAt

theorem Bookmark.Released.releasedSlug {s : Session} {b b' : Bookmark} (h : b.Released s b')
    (hd : s.appDepartureId ≠ none) : b'.releasedSlug = b.slug := by
  rcases h.slug hd with ⟨hslug, hkept, -⟩ | ⟨hslug, hkept, -⟩ <;> simp [Bookmark.releasedSlug, hslug, hkept]

/-- The other bookmarks of the member and those the departure has released have distinct slugs. -/
def OwnApart (w a d : Uuid) (c : Content) : Prop :=
  ∀ b ∈ c.bookmarks, ∀ b' ∈ c.bookmarks, b.releasedBy w d = true → b'.workspaceId = w → b'.ownerId = some a →
    sqlEq b.releasedSlug b'.slug = false

section

variable {s : Session} {c c' : Content} {b b' : Bookmark} {id w a d : Uuid}

theorem bookmarksClearSlugOnRelease_released (s : Session) (c : Content) (b : Bookmark) :
    b.Released s (bookmarksClearSlugOnRelease s c b) := by
  unfold bookmarksClearSlugOnRelease
  simp only
  split
  · next hheld =>
    refine ⟨rfl, rfl, rfl, rfl, fun hd => .inr ?_, rfl, rfl, rfl, rfl⟩
    obtain ⟨d, hd⟩ := Option.ne_none_iff_exists'.mp hd
    obtain ⟨g, -, hg⟩ := Table.any_iff.mp hheld
    rw [Bool.and_eq_true, sqlEq_iff] at hg
    obtain ⟨-, slug, -, hslug⟩ := hg
    replace hslug : b.slug = some slug := hslug
    simp [Bookmark.setUpdatedAt, Bookmark.bumpVersion, hd, hslug]
  · exact ⟨rfl, rfl, rfl, rfl, fun _ => .inl ⟨rfl, rfl, rfl⟩, rfl, rfl, rfl, rfl⟩

/-- A released bookmark has no slug that another ownerless bookmark of the workspace has. -/
theorem bookmarksClearSlugOnRelease_apart (hb' : b' ∈ c.bookmarks) (hid : b'.id ≠ b.id)
    (hsame : (bookmarksClearSlugOnRelease s c b).sameSlug b' = true) : False := by
  obtain ⟨hw, ho, slug, hslug, hslug'⟩ := sameSlug_iff.mp hsame
  have hreleased := bookmarksClearSlugOnRelease_released s c b
  rw [hreleased.workspaceId] at hw
  rw [hreleased.ownerId] at ho
  unfold bookmarksClearSlugOnRelease at hslug
  simp only at hslug
  split at hslug
  · cases hslug
  · next hnot =>
    refine hnot (Table.any_iff.mpr ⟨b', hb', ?_⟩)
    rw [Bool.and_eq_true, decide_eq_true_eq, sqlEq_iff]
    exact ⟨⟨hw.symm, ho.symm, hid⟩, slug, hslug', hslug⟩

theorem mem_releaseBookmark {x : Bookmark} : x ∈ (releaseBookmark s c id).bookmarks ↔
    ∃ b ∈ c.bookmarks, (b.id = id ∧ x = bookmarksClearSlugOnRelease s c b) ∨ (b.id ≠ id ∧ x = b) := by
  refine (Table.mem_updateWhere (h := fun b => (bookmarksClearSlugOnRelease_same s c b).1)).trans ?_
  refine exists_congr fun b => and_congr_right fun _ => ?_
  by_cases hid : b.id = id
  · simp [hid, eq_comm]
  · simp [hid, eq_comm]

/-- **The release of one bookmark** keeps the slugs apart. -/
theorem SlugsApart.releaseBookmark (h : SlugsApart c) (id : Uuid) : SlugsApart (releaseBookmark s c id) := by
  intro x hx y hy hsame
  obtain ⟨b, hb, ⟨hid, rfl⟩ | ⟨hid, rfl⟩⟩ := mem_releaseBookmark.mp hx <;>
    obtain ⟨b', hb', ⟨hid', rfl⟩ | ⟨hid', rfl⟩⟩ := mem_releaseBookmark.mp hy
  · rw [(bookmarksClearSlugOnRelease_released s c b).id, (bookmarksClearSlugOnRelease_released s c b').id, hid, hid']
  · exact (bookmarksClearSlugOnRelease_apart hb' (fun heq => hid' (heq.trans hid)) hsame).elim
  · exact (bookmarksClearSlugOnRelease_apart hb (fun heq => hid (heq.trans hid')) (sameSlug_symm hsame)).elim
  · exact h x hb y hb' hsame

/-- **The release of one bookmark of the member** keeps what the departures can give back apart. -/
theorem ReleasesApart.releaseBookmark (h : ReleasesApart c) (hslugs : SlugsApart c)
    (hown : ∀ d, s.appDepartureId = some d → OwnApart w a d c)
    (hmine : ∀ b ∈ c.bookmarks, b.id = id → b.workspaceId = w ∧ b.ownerId = some a) :
    ReleasesApart (releaseBookmark s c id) ∧ ∀ d, s.appDepartureId = some d → OwnApart w a d (releaseBookmark s c id) := by
  -- the bookmark that is released is compared by the slug it had
  have hnew {b : Bookmark} {v e : Uuid} (hr : (bookmarksClearSlugOnRelease s c b).releasedBy v e = true) :
      v = b.workspaceId ∧ s.appDepartureId = some e ∧ (bookmarksClearSlugOnRelease s c b).releasedSlug = b.slug := by
    have hreleased := bookmarksClearSlugOnRelease_released s c b
    obtain ⟨hw, -, hd⟩ := of_decide_eq_true hr
    rw [hreleased.departureId] at hd
    exact ⟨hw.symm.trans hreleased.workspaceId, hd, hreleased.releasedSlug (by rw [hd]; exact nofun)⟩
  refine ⟨?_, ?_⟩
  · intro x hx y hy v e hrx hry hsame
    obtain ⟨b, hb, ⟨hid, rfl⟩ | ⟨hid, rfl⟩⟩ := mem_releaseBookmark.mp hx <;>
      obtain ⟨b', hb', ⟨hid', rfl⟩ | ⟨hid', rfl⟩⟩ := mem_releaseBookmark.mp hy
    · rw [(bookmarksClearSlugOnRelease_released s c b).id, (bookmarksClearSlugOnRelease_released s c b').id, hid, hid']
    · obtain ⟨rfl, hd, hslug⟩ := hnew hrx
      obtain ⟨hw, ho⟩ := hmine b hb hid
      rw [hslug, sqlEq_iff] at hsame
      obtain ⟨slug, hx', hy'⟩ := hsame
      exact absurd (sqlEq_iff.mpr ⟨slug, hy', hx'⟩) (by rw [hown e hd y hb' b hb (hw ▸ hry) hw ho]; decide)
    · obtain ⟨rfl, hd, hslug⟩ := hnew hry
      obtain ⟨hw, ho⟩ := hmine b' hb' hid'
      rw [hslug] at hsame
      exact absurd hsame (by rw [hown e hd x hb b' hb' (hw ▸ hrx) hw ho]; decide)
    · exact h x hb y hb' v e hrx hry hsame
  · intro d hd x hx y hy hrx hyw hyo
    obtain ⟨b', hb', ⟨hid', rfl⟩ | ⟨hid', rfl⟩⟩ := mem_releaseBookmark.mp hy
    · rw [(bookmarksClearSlugOnRelease_released s c b').ownerId] at hyo
      exact absurd hyo nofun
    obtain ⟨b, hb, ⟨hid, rfl⟩ | ⟨hid, rfl⟩⟩ := mem_releaseBookmark.mp hx
    · obtain ⟨-, -, hslug⟩ := hnew hrx
      obtain ⟨hw, ho⟩ := hmine b hb hid
      rw [hslug, Bool.eq_false_iff]
      intro hsame
      refine hid' ((hslugs b hb y hb' ?_).symm.trans hid)
      rw [Bookmark.sameSlug, Bool.and_eq_true, decide_eq_true_eq]
      exact ⟨⟨hw.trans hyw.symm, ho.trans hyo.symm⟩, hsame⟩
    · exact hown d hd x hb y hb' hrx hyw hyo

end

/-! ## The release of a folder -/

section

variable {lower : String → String} (hlower : KeepsSuffix lower) {s : Session} {c : Content} {f g : Folder} {id : Uuid}

theorem foldersRenameOnRelease_place (s : Session) (c : Content) (f : Folder) :
    (foldersRenameOnRelease lower s c f).workspaceId = f.workspaceId ∧
      (foldersRenameOnRelease lower s c f).ownerId = none := by
  unfold foldersRenameOnRelease
  simp only
  split <;> exact ⟨rfl, rfl⟩

include hlower in
/-- **A released folder has no name that another ownerless folder of the workspace has.** -/
theorem foldersRenameOnRelease_apart (hg : g ∈ c.folders) (hid : g.id ≠ f.id) (hw : g.workspaceId = f.workspaceId)
    (ho : g.ownerId = none) : lower g.name ≠ lower (foldersRenameOnRelease lower s c f).name := by
  intro hname
  have hplace : g.workspaceId = f.workspaceId ∧ g.ownerId = none ∧ g.id ≠ f.id := ⟨hw, ho, hid⟩
  unfold foldersRenameOnRelease at hname
  simp only at hname
  split at hname
  · have hfree := firstFree_free hlower c.folders
      (fun g => decide (g.workspaceId = f.workspaceId ∧ g.ownerId = none ∧ g.id ≠ f.id)) f.name 2
    rw [Bool.eq_false_iff] at hfree
    simp only [← Bool.decide_and, and_assoc] at hfree
    exact hfree (Table.any_iff.mpr ⟨g, hg, decide_eq_true ⟨hw, ho, hid, hname⟩⟩)
  · next hnot => exact hnot (Table.any_iff.mpr ⟨g, hg, decide_eq_true ⟨hw, ho, hid, hname⟩⟩)

theorem mem_releaseFolder {x : Folder} : x ∈ (releaseFolder lower s c id).folders ↔
    ∃ f ∈ c.folders, (f.id = id ∧ x = foldersRenameOnRelease lower s c f) ∨ (f.id ≠ id ∧ x = f) := by
  refine (Table.mem_updateWhere (h := foldersRenameOnRelease_id lower s c)).trans ?_
  refine exists_congr fun f => and_congr_right fun _ => ?_
  by_cases hid : f.id = id
  · simp [hid, eq_comm]
  · simp [hid, eq_comm]

include hlower in
/-- **The release of one folder** keeps the names apart. -/
theorem FoldersApart.releaseFolder (h : FoldersApart lower c) (id : Uuid) :
    FoldersApart lower (releaseFolder lower s c id) := by
  have hapart {f g : Folder} (hg : g ∈ c.folders) (hid : g.id ≠ f.id)
      (hw : g.workspaceId = (foldersRenameOnRelease lower s c f).workspaceId)
      (ho : g.ownerId = (foldersRenameOnRelease lower s c f).ownerId) :
      lower g.name ≠ lower (foldersRenameOnRelease lower s c f).name :=
    foldersRenameOnRelease_apart hlower hg hid (hw.trans (foldersRenameOnRelease_place s c f).1)
      (ho.trans (foldersRenameOnRelease_place s c f).2)
  intro x hx y hy hw ho hname
  obtain ⟨f, hf, ⟨hid, rfl⟩ | ⟨hid, rfl⟩⟩ := mem_releaseFolder.mp hx <;>
    obtain ⟨g, hg, ⟨hid', rfl⟩ | ⟨hid', rfl⟩⟩ := mem_releaseFolder.mp hy
  · rw [foldersRenameOnRelease_id, foldersRenameOnRelease_id, hid, hid']
  · exact (hapart hg (fun heq => hid' (heq.trans hid)) hw.symm ho.symm hname.symm).elim
  · exact (hapart hf (fun heq => hid (heq.trans hid')) hw ho hname).elim
  · exact h x hf y hg hw ho hname

end

/-! ## The end of a membership -/

section

variable {lower : String → String} (hlower : KeepsSuffix lower) {s : Session} {c : Content} {w a : Uuid}

theorem SlugsApart.releaseAll (h : SlugsApart c) (ids : List Uuid) : SlugsApart (ids.foldl (SlugBase.releaseBookmark s) c) := by
  induction ids generalizing c with
  | nil => exact h
  | cons id ids ih => exact ih (h.releaseBookmark id)

include hlower in
theorem FoldersApart.releaseAll (h : FoldersApart lower c) (ids : List Uuid) :
    FoldersApart lower (ids.foldl (SlugBase.releaseFolder lower s) c) := by
  induction ids generalizing c with
  | nil => exact h
  | cons id ids ih => exact ih (h.releaseFolder hlower id)

/-- The releases of the member's bookmarks, one after the other. -/
theorem ReleasesApart.releaseAll {ids : List Uuid} (hnodup : ids.Nodup) (h : ReleasesApart c) (hslugs : SlugsApart c)
    (hown : ∀ d, s.appDepartureId = some d → OwnApart w a d c)
    (hmine : ∀ b ∈ c.bookmarks, b.id ∈ ids → b.workspaceId = w ∧ b.ownerId = some a) :
    ReleasesApart (ids.foldl (SlugBase.releaseBookmark s) c) := by
  induction ids generalizing c with
  | nil => exact h
  | cons id ids ih =>
    rw [List.nodup_cons] at hnodup
    obtain ⟨hreleases, hown'⟩ := h.releaseBookmark hslugs hown fun b hb hid => hmine b hb (hid ▸ List.mem_cons_self)
    refine ih hnodup.2 hreleases (hslugs.releaseBookmark id) hown' fun x hx hid => ?_
    obtain ⟨b, hb, ⟨hfirst, rfl⟩ | ⟨-, rfl⟩⟩ := mem_releaseBookmark.mp hx
    · rw [(bookmarksClearSlugOnRelease_released s c b).id, hfirst] at hid
      exact absurd hid hnodup.1
    · exact hmine x hb (List.mem_cons_of_mem id hid)

/-- What the releases of several bookmarks make of each row. -/
theorem exists_releaseAll {ids : List Uuid} (hnodup : ids.Nodup) {b : Bookmark} (hb : b ∈ c.bookmarks) :
    ∃ b' ∈ (ids.foldl (SlugBase.releaseBookmark s) c).bookmarks, (b.id ∈ ids ∧ b.Released s b') ∨ (b.id ∉ ids ∧ b' = b) := by
  induction ids generalizing c b with
  | nil => exact ⟨b, hb, .inr ⟨List.not_mem_nil, rfl⟩⟩
  | cons id ids ih =>
    rw [List.nodup_cons] at hnodup
    have hreleased := bookmarksClearSlugOnRelease_released s c b
    by_cases hid : b.id = id
    · obtain ⟨b', hb', ⟨hin, -⟩ | ⟨-, rfl⟩⟩ := ih hnodup.2 (mem_releaseBookmark.mpr ⟨b, hb, .inl ⟨hid, rfl⟩⟩)
      · rw [hreleased.id, hid] at hin
        exact absurd hin hnodup.1
      · exact ⟨_, hb', .inl ⟨hid ▸ List.mem_cons_self, hreleased⟩⟩
    · obtain ⟨b', hb', hcase⟩ := ih hnodup.2 (mem_releaseBookmark.mpr ⟨b, hb, .inr ⟨hid, rfl⟩⟩)
      refine ⟨b', hb', ?_⟩
      rwa [List.mem_cons, or_iff_right hid]

theorem releaseBookmarks_folders (mine : Bookmark → Bool) (c : Content) : (releaseBookmarks s mine c).folders = c.folders := by
  unfold releaseBookmarks
  generalize (c.bookmarks.rows.filter mine).map Bookmark.id = ids
  induction ids generalizing c with
  | nil => rfl
  | cons id ids ih => exact ih _

theorem releaseFolders_bookmarks (mine : Folder → Bool) (c : Content) :
    (releaseFolders lower s mine c).bookmarks = c.bookmarks := by
  unfold releaseFolders
  generalize (c.folders.rows.filter mine).map Folder.id = ids
  induction ids generalizing c with
  | nil => rfl
  | cons id ids ih => exact ih _

theorem mem_ids {b : Bookmark} (hb : b ∈ c.bookmarks) :
    b.id ∈ (c.bookmarks.rows.filter fun b => decide (b.workspaceId = w ∧ b.ownerId = some a)).map Bookmark.id ↔
      b.workspaceId = w ∧ b.ownerId = some a := by
  refine ⟨fun hid => ?_, fun hmine => List.mem_map_of_mem (List.mem_filter.mpr ⟨hb, decide_eq_true hmine⟩)⟩
  obtain ⟨b', hb', heq⟩ := List.mem_map.mp hid
  obtain ⟨hmem, hp⟩ := List.mem_filter.mp hb'
  obtain rfl := Table.eq_of_key hmem hb heq
  exact of_decide_eq_true hp

/-- **What the end of a membership makes of each bookmark**: the member's are released, the others stay. -/
theorem exists_deleteMember {b : Bookmark} (hb : b ∈ c.bookmarks) :
    ∃ b' ∈ (c.deleteMember lower s w a).bookmarks, (b.workspaceId = w ∧ b.ownerId = some a) ∧ b.Released s b' ∨
      ¬(b.workspaceId = w ∧ b.ownerId = some a) ∧ b' = b := by
  rw [Content.deleteMember, releaseFolders_bookmarks]
  obtain ⟨b', hb', hcase⟩ := exists_releaseAll (s := s) (c := c.withoutMember w a)
    (c.bookmarks.keyed.sublist (List.filter_sublist.map _)) hb
  exact ⟨b', hb', hcase.imp (fun h => ⟨(mem_ids hb).mp h.1, h.2⟩) fun h => ⟨fun hmine => h.1 ((mem_ids hb).mpr hmine), h.2⟩⟩

include hlower in
/-- **The end of a membership keeps the keys**, when its departure is a new one. -/
theorem Tidy.deleteMember (h : Tidy lower c) (w a : Uuid)
    (hfresh : ∀ d, s.appDepartureId = some d → c.departureFresh d = true) : Tidy lower (c.deleteMember lower s w a) := by
  obtain ⟨hslugs, hfolders, hreleases⟩ := h
  have hown (d : Uuid) (hd : s.appDepartureId = some d) : OwnApart w a d (c.withoutMember w a) := fun b hb b' _ hr =>
    absurd (of_decide_eq_true hr).2.2 (departureFresh_bookmarks (hfresh d hd) hb)
  refine ⟨?_, ?_, ?_⟩
  · intro b hb b' hb'
    rw [Content.deleteMember, releaseFolders_bookmarks] at hb hb'
    exact SlugsApart.releaseAll (c := c.withoutMember w a) hslugs _ b hb b' hb'
  · refine FoldersApart.releaseAll hlower ?_ _
    intro f hf f' hf'
    rw [releaseBookmarks_folders] at hf hf'
    exact hfolders f hf f' hf'
  · intro b hb b' hb'
    rw [Content.deleteMember, releaseFolders_bookmarks] at hb hb'
    exact ReleasesApart.releaseAll (c := c.withoutMember w a) (c.bookmarks.keyed.sublist (List.filter_sublist.map _))
      hreleases hslugs hown (fun _ hb hid => (mem_ids hb).mp hid) b hb b' hb'

end

/-! ## The content choice -/

section

variable {lower : String → String} (hlower : KeepsSuffix lower) {s : Session} {c : Content} {w d r : Uuid}

theorem transferName_free (hlower : KeepsSuffix lower) {f g : Folder} (hg : g ∈ c.folders) (hw : g.workspaceId = w)
    (ho : g.ownerId = some r) : lower g.name ≠ lower (transferName lower c w r f) := by
  intro hname
  unfold transferName at hname
  simp only at hname
  split at hname
  · have hfree := firstFree_free hlower c.folders
      (fun g => decide (g.workspaceId = w ∧ g.ownerId = some r)) (f.departureName.getD f.name) 2
    rw [Bool.eq_false_iff] at hfree
    simp only [← Bool.decide_and, and_assoc] at hfree
    exact hfree (Table.any_iff.mpr ⟨g, hg, decide_eq_true ⟨hw, ho, hname⟩⟩)
  · next hnot => exact hnot (Table.any_iff.mpr ⟨g, hg, decide_eq_true ⟨hw, ho, hname⟩⟩)

theorem mem_transferFolder {f x : Folder} (hx : x ∈ (transferFolder lower s w r f c).folders) :
    ∃ g ∈ c.folders, x.id = g.id ∧ x.workspaceId = g.workspaceId ∧
      ((g.id = f.id ∧ x.ownerId = some r ∧ x.name = transferName lower c w r f) ∨ (g.id ≠ f.id ∧ x = g)) := by
  obtain ⟨g, hg, rfl⟩ := List.mem_map.mp hx
  refine ⟨g, hg, ?_⟩
  by_cases hid : g.id = f.id
  · simp [hid, Folder.written]
  · simp [hid]

/-- **One turn of the loop over the released folders** keeps the names apart. -/
theorem FoldersApart.transferFolder (hlower : KeepsSuffix lower) (h : FoldersApart lower c) {f : Folder}
    (hf : ∀ g ∈ c.folders, g.id = f.id → g.workspaceId = w) :
    FoldersApart lower (transferFolder lower s w r f c) := by
  intro x hx y hy hw ho hname
  obtain ⟨g, hg, hxid, hxw, ⟨hid, hxo, hxname⟩ | ⟨hid, rfl⟩⟩ := mem_transferFolder hx <;>
    obtain ⟨g', hg', hyid, hyw, ⟨hid', hyo, hyname⟩ | ⟨hid', rfl⟩⟩ := mem_transferFolder hy
  · rw [hxid, hyid, hid, hid']
  · rw [hxname] at hname
    exact absurd hname.symm
      (transferName_free hlower hg' (hw.symm.trans (hxw.trans (hf g hg hid))) (ho.symm.trans hxo))
  · rw [hyname] at hname
    exact absurd hname (transferName_free hlower hg (hw.trans (hyw.trans (hf g' hg' hid'))) (ho.trans hyo))
  · exact h x hg y hg' hw ho hname

theorem FoldersApart.transferAll (hlower : KeepsSuffix lower) {fs : List Folder} (h : FoldersApart lower c)
    (hfs : ∀ f ∈ fs, ∀ g ∈ c.folders, g.id = f.id → g.workspaceId = w) :
    FoldersApart lower (fs.foldl (fun c f => SlugBase.transferFolder lower s w r f c) c) := by
  induction fs generalizing c with
  | nil => exact h
  | cons f fs ih =>
    refine ih (h.transferFolder hlower (hfs f List.mem_cons_self)) fun f' hf' x hx hid => ?_
    obtain ⟨g, hg, hxid, hxw, -⟩ := mem_transferFolder hx
    exact hxw.trans (hfs f' (List.mem_cons_of_mem f hf') g hg (hxid.symm.trans hid))

theorem transferAll_bookmarks (fs : List Folder) (c : Content) :
    (fs.foldl (fun c f => SlugBase.transferFolder lower s w r f c) c).bookmarks = c.bookmarks := by
  induction fs generalizing c with
  | nil => rfl
  | cons f fs ih => exact ih _

theorem mem_transferBookmarks {x : Bookmark} : x ∈ (transferBookmarks s w d r c).bookmarks ↔
    ∃ b ∈ c.bookmarks, (b.releasedBy w d = true ∧ x = transferBookmark s c r b) ∨ (b.releasedBy w d = false ∧ x = b) := by
  refine (List.mem_map (f := fun b : Bookmark => if b.releasedBy w d then transferBookmark s c r b else b)).trans ?_
  refine exists_congr fun b => and_congr_right fun _ => ?_
  cases b.releasedBy w d <;> simp [eq_comm]

/-- **The transfer of the released bookmarks** meets no slug of the recipient and gives no slug twice. -/
theorem SlugsApart.transferBookmarks (h : SlugsApart c) (hreleases : ReleasesApart c) :
    SlugsApart (transferBookmarks s w d r c) := by
  have hmoved {b b' : Bookmark} (hb' : b' ∈ c.bookmarks) (hsame : (transferBookmark s c r b).sameSlug b' = true) :
      False := by
    obtain ⟨hw, ho, slug, hslug, hslug'⟩ := sameSlug_iff.mp hsame
    replace hslug : (if b.clash c r then none else b.releasedSlug) = some slug := hslug
    split at hslug
    · exact nomatch hslug
    · next hclash =>
      refine hclash (Table.any_iff.mpr ⟨b', hb', ?_⟩)
      rw [Bool.and_eq_true, decide_eq_true_eq, sqlEq_iff]
      exact ⟨⟨hw.symm, ho.symm⟩, slug, hslug', hslug⟩
  intro x hx y hy hsame
  obtain ⟨b, hb, ⟨hr, rfl⟩ | ⟨hr, rfl⟩⟩ := mem_transferBookmarks.mp hx <;>
    obtain ⟨b', hb', ⟨hr', rfl⟩ | ⟨hr', rfl⟩⟩ := mem_transferBookmarks.mp hy
  · refine hreleases b hb b' hb' w d hr hr' ?_
    obtain ⟨-, -, slug, hslug, hslug'⟩ := sameSlug_iff.mp hsame
    replace hslug : (if b.clash c r then none else b.releasedSlug) = some slug := hslug
    replace hslug' : (if b'.clash c r then none else b'.releasedSlug) = some slug := hslug'
    split at hslug <;> split at hslug' <;> first | contradiction | exact sqlEq_iff.mpr ⟨slug, hslug, hslug'⟩
  · exact (hmoved hb' hsame).elim
  · exact (hmoved hb (sameSlug_symm hsame)).elim
  · exact h x hb y hb' hsame

theorem ReleasesApart.transferBookmarks (h : ReleasesApart c) : ReleasesApart (transferBookmarks s w d r c) := by
  intro x hx y hy v e hrx hry
  obtain ⟨b, hb, ⟨hr, rfl⟩ | ⟨hr, rfl⟩⟩ := mem_transferBookmarks.mp hx
  · exact absurd (of_decide_eq_true hrx).2.1 nofun
  obtain ⟨b', hb', ⟨hr', rfl⟩ | ⟨hr', rfl⟩⟩ := mem_transferBookmarks.mp hy
  · exact absurd (of_decide_eq_true hry).2.1 nofun
  exact h x hb y hb' v e hrx hry

/-- The content of a departure whose recipient has left keeps the names and slugs it has. -/
theorem Tidy.keepOwnerless (h : Tidy lower c) : Tidy lower (keepOwnerless s w d c) := by
  obtain ⟨hslugs, hfolders, hreleases⟩ := h
  have hbookmark {x : Bookmark} (hx : x ∈ (SlugBase.keepOwnerless s w d c).bookmarks) : ∃ b ∈ c.bookmarks, x.id = b.id ∧
      x.workspaceId = b.workspaceId ∧ x.ownerId = b.ownerId ∧ x.slug = b.slug ∧ (x.departureId = none ∨ x = b) := by
    obtain ⟨b, hb, rfl⟩ := List.mem_map.mp hx
    refine ⟨b, hb, ?_⟩
    split
    · exact ⟨rfl, rfl, rfl, rfl, .inl rfl⟩
    · exact ⟨rfl, rfl, rfl, rfl, .inr rfl⟩
  have hfolder {x : Folder} (hx : x ∈ (SlugBase.keepOwnerless s w d c).folders) : ∃ f ∈ c.folders, x.id = f.id ∧
      x.workspaceId = f.workspaceId ∧ x.ownerId = f.ownerId ∧ x.name = f.name := by
    obtain ⟨f, hf, rfl⟩ := List.mem_map.mp hx
    refine ⟨f, hf, ?_⟩
    split <;> exact ⟨rfl, rfl, rfl, rfl⟩
  refine ⟨?_, ?_, ?_⟩
  · intro x hx y hy hsame
    obtain ⟨b, hb, hid, hw, ho, hslug, -⟩ := hbookmark hx
    obtain ⟨b', hb', hid', hw', ho', hslug', -⟩ := hbookmark hy
    rw [Bookmark.sameSlug, hw, ho, hslug, hw', ho', hslug'] at hsame
    rw [hid, hid']
    exact hslugs b hb b' hb' hsame
  · intro x hx y hy hw ho hname
    obtain ⟨f, hf, hid, hxw, hxo, hxname⟩ := hfolder hx
    obtain ⟨f', hf', hid', hyw, hyo, hyname⟩ := hfolder hy
    rw [hid, hid']
    exact hfolders f hf f' hf' (hxw.symm.trans (hw.trans hyw)) (hxo.symm.trans (ho.trans hyo))
      (by rw [← hxname, ← hyname, hname])
  · intro x hx y hy v e hrx hry
    obtain ⟨b, hb, -, -, -, -, hd | rfl⟩ := hbookmark hx
    · exact absurd ((of_decide_eq_true hrx).2.2.symm.trans hd) (Option.some_ne_none _)
    obtain ⟨b', hb', -, -, -, -, hd | rfl⟩ := hbookmark hy
    · exact absurd ((of_decide_eq_true hry).2.2.symm.trans hd) (Option.some_ne_none _)
    exact hreleases x hb y hb' v e hrx hry

theorem slugKeyBroken_of_apart (h : SlugsApart c) : c.slugKeyBroken = false := by
  rw [Content.slugKeyBroken, Bool.eq_false_iff, Ne, Table.any_iff]
  rintro ⟨b, hb, hbroken⟩
  obtain ⟨b', hb', hpair⟩ := Table.any_iff.mp hbroken
  rw [Bool.and_eq_true, decide_eq_true_eq] at hpair
  exact hpair.1 (h b hb b' hb' hpair.2)

end

/-- The released folders in the order of the loop. -/
def releasedFolders (w d : Uuid) (c : Content) : List Folder :=
  (c.folders.rows.filter (·.releasedBy w d)).insertionSort fun f g =>
    f.createdAt < g.createdAt ∨ f.createdAt = g.createdAt ∧ f.id ≤ g.id

/-- The content after a transfer: the folders one after the other, then the bookmarks. -/
def transferred (lower : String → String) (s : Session) (w d r : Uuid) (c : Content) : Content :=
  transferBookmarks s w d r ((releasedFolders w d c).foldl (fun c f => transferFolder lower s w r f c) c)

/-- What a content choice can do to the rows: nothing, or one of the three treatments of what the departure released. -/
inductive Chosen (lower : String → String) (s : Session) (w d : Uuid) (c c' : Content) : Prop
  | deleted (bookmarks : c'.bookmarks = c.bookmarks.deleteWhere (·.releasedBy w d))
      (folders : c'.folders = c.folders.deleteWhere (·.releasedBy w d))
  | kept (h : c' = keepOwnerless s w d c)
  | transferred (r : Uuid) (h : c' = SlugBase.transferred lower s w d r c)

section

variable {lower : String → String} {s : Session} {c c' : Content} {pw pd pr : Option Uuid} {pc : Option String}

theorem addToCount_ne_unique {w : Uuid} {n : ℤ} {key : String} : c.addToCount w n ≠ .error (.uniqueViolation key) := by
  intro h
  unfold Content.addToCount int4 at h
  split at h
  · cases h
  · simp only [bind, Except.bind] at h
    split_ifs at h
    · simp only at h
      split_ifs at h
      exact nomatch h
    · exact nomatch h

theorem sysMemberDepartureApply_cases {applied : DepartureApplied}
    (h : sysMemberDepartureApply lower s pw pd pc pr c = .ok (applied, c')) :
    c' = c ∨ ∃ w d, pw = some w ∧ pd = some d ∧ Chosen lower s w d c c' := by
  unfold sysMemberDepartureApply at h
  split at h
  swap
  · cases h
  rename_i w d content recipient
  split at h
  · cases h
  split at h
  · cases h
    exact .inl rfl
  split at h
  · cases h
    exact .inl rfl
  refine .inr ⟨w, d, rfl, rfl, ?_⟩
  simp only at h
  split at h
  · obtain ⟨c₂, hc, h⟩ := ok_of_bind h
    cases h
    have hrows : c₂.bookmarks = (c.deleteBookmarks (·.releasedBy w d)).bookmarks ∧ c₂.folders = c.folders := by
      split at hc
      · obtain rfl := Content.addToCount_ok hc
        exact ⟨rfl, rfl⟩
      · obtain rfl := Except.ok.inj hc
        exact ⟨rfl, rfl⟩
    refine .deleted hrows.1 ?_
    rw [Content.deleteFolders, hrows.2]
  split at h
  · cases h
    exact .kept rfl
  · split at h
    · cases h
    · cases h
      exact .transferred recipient rfl

/-- Every error of a content choice is not that of a key, unless the transfer breaks the key of the slugs. -/
theorem sysMemberDepartureApply_unique {key : String}
    (h : sysMemberDepartureApply lower s pw pd pc pr c = .error (.uniqueViolation key)) :
    ∃ w d r, (transferred lower s w d r c).slugKeyBroken = true := by
  unfold sysMemberDepartureApply at h
  split at h
  swap
  · cases h
  rename_i w d content recipient
  split at h
  · cases h
  split at h
  · cases h
  split at h
  · cases h
  simp only at h
  split at h
  · split at h
    · cases hc : (c.deleteBookmarks (·.releasedBy w d)).addToCount w
          (-(c.bookmarks.count fun b => b.releasedBy w d && b.planArchivedAt.isNone : ℕ)) with
      | error e =>
        rw [hc] at h
        cases h
        exact absurd hc addToCount_ne_unique
      | ok c₂ =>
        rw [hc] at h
        cases h
    · cases h
  split at h
  · cases h
  · split at h
    · next hkey => exact ⟨w, d, recipient, hkey⟩
    · cases h

theorem Tidy.transferred (hlower : KeepsSuffix lower) (h : Tidy lower c) (w d r : Uuid) :
    Tidy lower (transferred lower s w d r c) := by
  have hplace (f : Folder) (hf : f ∈ releasedFolders w d c) (g : Folder) (hg : g ∈ c.folders) (hid : g.id = f.id) :
      g.workspaceId = w := by
    obtain ⟨hmem, hr⟩ := List.mem_filter.mp ((List.mem_insertionSort _).mp hf)
    obtain rfl := Table.eq_of_key hg hmem hid
    exact (of_decide_eq_true hr).1
  have hfolders := FoldersApart.transferAll (s := s) (r := r) hlower h.folders hplace
  have hrows := @transferAll_bookmarks lower s w r (releasedFolders w d c) c
  unfold SlugBase.transferred
  generalize (releasedFolders w d c).foldl (fun c f => transferFolder lower s w r f c) c = c₁ at hfolders hrows ⊢
  have hslugs : SlugsApart c₁ := by
    rw [SlugsApart, hrows]
    exact h.slugs
  have hreleases : ReleasesApart c₁ := by
    rw [ReleasesApart, hrows]
    exact h.releases
  exact ⟨hslugs.transferBookmarks hreleases, hfolders, hreleases.transferBookmarks⟩

/-- **A content choice keeps the keys.** -/
theorem Tidy.apply (hlower : KeepsSuffix lower) (h : Tidy lower c) {applied : DepartureApplied}
    (hok : sysMemberDepartureApply lower s pw pd pc pr c = .ok (applied, c')) : Tidy lower c' := by
  obtain rfl | ⟨w, d, -, -, hchosen⟩ := sysMemberDepartureApply_cases hok
  · exact h
  cases hchosen with
  | deleted hb hf =>
    exact h.of_subset (fun b hmem => (Table.mem_deleteWhere.mp (hb ▸ hmem)).1) fun f hmem =>
      (Table.mem_deleteWhere.mp (hf ▸ hmem)).1
  | kept heq => exact heq ▸ h.keepOwnerless
  | transferred r heq => exact heq ▸ h.transferred hlower w d r

/-- **A content choice meets no key.** -/
theorem Tidy.apply_ne_unique (hlower : KeepsSuffix lower) (h : Tidy lower c) (key : String) :
    sysMemberDepartureApply lower s pw pd pc pr c ≠ .error (.uniqueViolation key) := by
  intro herror
  obtain ⟨w, d, r, hbroken⟩ := sysMemberDepartureApply_unique herror
  rw [slugKeyBroken_of_apart (h.transferred hlower w d r).slugs] at hbroken
  exact nomatch hbroken

/-- A released bookmark is changed by the content choice of its own departure only. -/
theorem held_of_apply {applied : DepartureApplied} (hok : sysMemberDepartureApply lower s pw pd pc pr c = .ok (applied, c'))
    {b : Bookmark} (hb : b ∈ c.bookmarks) (hnot : ∀ w d, pw = some w → pd = some d → b.releasedBy w d = false) :
    b ∈ c'.bookmarks := by
  obtain rfl | ⟨w, d, hw, hd, hchosen⟩ := sysMemberDepartureApply_cases hok
  · exact hb
  have hother := hnot w d hw hd
  cases hchosen with
  | deleted hrows => exact hrows ▸ Table.mem_deleteWhere.mpr ⟨hb, hother⟩
  | kept heq =>
    rw [heq]
    exact List.mem_map.mpr ⟨b, hb, if_neg (Bool.eq_false_iff.mp hother)⟩
  | transferred r heq =>
    rw [heq]
    exact mem_transferBookmarks.mpr ⟨b, (transferAll_bookmarks _ c).symm ▸ hb, .inr ⟨hother, rfl⟩⟩

theorem Tidy.transfer (hlower : KeepsSuffix lower) (h : Tidy lower c) {w d r : Uuid}
    (hsession : s.appAccountId = some r ∧ s.appWorkspaceId = some w)
    (hlive : (c.liveWorkspace w).isSome = true) (hmember : c.isMember w r = true) :
    ∃ applied, sysMemberDepartureApply lower s (some w) (some d) (some "transfer") (some r) c =
      .ok (applied, SlugBase.transferred lower s w d r c) := by
  obtain ⟨workspace, hworkspace⟩ := Option.isSome_iff_exists.mp hlive
  have hkey : ¬(SlugBase.transferred lower s w d r c).slugKeyBroken = true := by
    rw [slugKeyBroken_of_apart (h.transferred hlower w d r).slugs]
    decide
  unfold sysMemberDepartureApply
  simp only [hsession.1, hsession.2, hworkspace, hmember]
  rw [if_neg (by decide), if_neg (by simp), if_neg (by decide), if_neg (by decide)]
  exact ⟨_, if_neg hkey⟩

end

open Transition

/-! ## The writes of members -/

/-- The fields of a folder that a change names. -/
structure FolderChanges where
  name : Option String := none
  icon : Option String := none
  color : Option ℕ := none
  deriving DecidableEq, Repr

section

variable (lower : String → String) (s : Session) (workspaceId ownerId : Uuid)

/-- `FolderRepository.create`: a name that is taken is an answer and writes nothing. -/
def Content.createFolder (id : Uuid) (name icon : String) (color : ℕ) (c : Content) : Except SqlError Content :=
  if !c.isMember workspaceId ownerId then .error (.foreignKeyViolation "folders_owner_fkey")
  else if c.folders.any fun f =>
    decide (f.workspaceId = workspaceId ∧ f.ownerId = some ownerId ∧ lower f.name = lower name) then .ok c
  else match c.folders.insert? ⟨id, workspaceId, some ownerId, none, none, name, icon, color, 1, s.now, s.now⟩ with
    | none => .error (.uniqueViolation "folders_pkey")
    | some folders => .ok { c with folders := folders }

/-- The row of a folder with the fields of a change. -/
def FolderChanges.applied (changes : FolderChanges) (f : Folder) : Folder :=
  { f with
    name := changes.name.getD f.name
    icon := changes.icon.getD f.icon
    color := changes.color.getD f.color }

/-- `FolderRepository.update`: the name is judged where it changes. -/
def Content.changeFolder (id : Uuid) (changes : FolderChanges) (c : Content) : Content :=
  let mine (f : Folder) := decide (f.id = id ∧ f.workspaceId = workspaceId ∧ f.ownerId = some ownerId)
  match c.folders.find? mine with
  | none => c
  | some current =>
    let taken := c.folders.any fun f => decide (f.workspaceId = workspaceId ∧ f.ownerId = some ownerId ∧
      lower f.name = lower (changes.applied current).name ∧ f.id ≠ id)
    if changes.applied current = current then c
    else if (changes.applied current).name ≠ current.name ∧ taken then c
    else { c with
      folders := c.folders.updateWhere mine (fun f => Folder.written s f (changes.applied f)) fun _ => rfl }

/-- `BookmarkRepository.update`, for the columns of the row: the slug is judged where it changes. -/
def Content.changeBookmark (id : Uuid) (changes : Editing.BookmarkChanges) (c : Content) : Content :=
  let mine (b : Bookmark) :=
    decide (b.id = id ∧ b.workspaceId = workspaceId ∧ b.ownerId = some ownerId ∧ b.planArchivedAt = none)
  match c.bookmarks.find? mine with
  | none => c
  | some current =>
    let wanted := changes.slug.getD current.slug
    let held := c.bookmarks.any fun b => decide (b.workspaceId = workspaceId ∧ b.ownerId = some ownerId ∧ b.id ≠ id) &&
      sqlEq b.slug wanted
    if changes.forwarding.getD current.forwarding ∧ wanted = none then c
    else if wanted ≠ current.slug ∧ held then c
    else if (Editing.setOf changes current s.now).isEmpty then c
    else { c with
      bookmarks := c.bookmarks.updateWhere mine
        (fun b => b.written s ((Editing.setOf changes b s.now).applied b)) fun _ => rfl }

end

section

variable {lower : String → String} {s : Session} {c c' : Content} {w a id : Uuid}

/-- A new bookmark meets no key. -/
theorem Tidy.insertBookmark (h : Tidy lower c) {b : NewBookmark} (hc : c.insertBookmark s w b = .ok c') : Tidy lower c' := by
  have hheld : c.slugHeld (b.row s w) = false := by
    unfold Content.insertBookmark at hc
    simp only at hc
    split_ifs at hc with hcheck hmember hheld
    exact Bool.eq_false_iff.mpr hheld
  obtain ⟨t, ht, rfl⟩ := Content.insertBookmark_ok hc
  have hnew {x : Bookmark} (hx : x ∈ c.bookmarks) (hsame : x.sameSlug (b.row s w) = true) : False := by
    rw [Content.slugHeld, Bool.eq_false_iff] at hheld
    refine hheld (Table.any_iff.mpr ⟨x, hx, ?_⟩)
    rw [Bool.and_eq_true, decide_eq_true_eq]
    exact ⟨Table.key_fresh_of_insert? ht hx, hsame⟩
  refine ⟨?_, h.folders, ?_⟩
  · intro x hx y hy hsame
    obtain hx | rfl := (Table.mem_insert? ht).mp hx <;> obtain hy | rfl := (Table.mem_insert? ht).mp hy
    · exact h.slugs x hx y hy hsame
    · exact (hnew hx hsame).elim
    · exact (hnew hy (sameSlug_symm hsame)).elim
    · rfl
  · intro x hx y hy v d hrx hry hsame
    obtain hx | rfl := (Table.mem_insert? ht).mp hx
    · obtain hy | rfl := (Table.mem_insert? ht).mp hy
      · exact h.releases x hx y hy v d hrx hry hsame
      · exact absurd (of_decide_eq_true hry).2.1 nofun
    · exact absurd (of_decide_eq_true hrx).2.1 nofun

/-- A changed bookmark meets no key. -/
theorem Tidy.changeBookmark (h : Tidy lower c) (changes : Editing.BookmarkChanges) :
    Tidy lower (c.changeBookmark s w a id changes) := by
  unfold Content.changeBookmark
  simp only
  split
  · exact h
  rename_i current hcurrent
  split_ifs with hforwarding hheld hempty
  · exact h
  · exact h
  · exact h
  obtain ⟨hmem, hmine⟩ := Table.find?_some hcurrent
  obtain ⟨hid, hw, ho, -⟩ := of_decide_eq_true hmine
  -- the row that changes, with the slug it has then
  have hrow {x : Bookmark} (hx : x ∈ c.bookmarks.updateWhere
      (fun b => decide (b.id = id ∧ b.workspaceId = w ∧ b.ownerId = some a ∧ b.planArchivedAt = none))
      (fun b => b.written s ((Editing.setOf changes b s.now).applied b)) fun _ => rfl) :
      (x.id = id ∧ x.workspaceId = w ∧ x.ownerId = some a ∧ x.slug = changes.slug.getD current.slug) ∨
        (x.id ≠ id ∧ x ∈ c.bookmarks) := by
    obtain ⟨b, hb, rfl⟩ := List.mem_map.mp hx
    by_cases hbid : b.id = id
    · obtain rfl := Table.eq_of_key hb hmem (hbid.trans hid.symm)
      simp only [hmine, if_true]
      refine .inl ⟨hid, hw, ho, ?_⟩
      exact Editing.getD_filter changes.slug b.slug
    · rw [if_neg (by simp [hbid])]
      exact .inr ⟨hbid, hb⟩
  have hclash {x y : Bookmark} (hx : x.id = id ∧ x.workspaceId = w ∧ x.ownerId = some a ∧
      x.slug = changes.slug.getD current.slug) (hy : y.id ≠ id ∧ y ∈ c.bookmarks) (hsame : y.sameSlug x = true) : False := by
    obtain ⟨hyw, hyo, slug, hyslug, hxslug⟩ := sameSlug_iff.mp hsame
    rw [hx.2.1] at hyw
    rw [hx.2.2.1] at hyo
    rw [hx.2.2.2] at hxslug
    by_cases hchanged : changes.slug.getD current.slug = current.slug
    · refine hy.1 ((h.slugs y hy.2 current hmem (sameSlug_iff.mpr ⟨hyw.trans hw.symm, hyo.trans ho.symm, slug, hyslug, ?_⟩)).trans hid)
      exact hchanged.symm.trans hxslug
    · refine hheld ⟨hchanged, Table.any_iff.mpr ⟨y, hy.2, ?_⟩⟩
      rw [Bool.and_eq_true, decide_eq_true_eq, sqlEq_iff]
      exact ⟨⟨hyw, hyo, hy.1⟩, slug, hyslug, hxslug⟩
  refine ⟨?_, h.folders, ?_⟩
  · intro x hx y hy hsame
    obtain hx' | hx' := hrow hx <;> obtain hy' | hy' := hrow hy
    · exact hx'.1.trans hy'.1.symm
    · exact (hclash hx' hy' (sameSlug_symm hsame)).elim
    · exact (hclash hy' hx' hsame).elim
    · exact h.slugs x hx'.2 y hy'.2 hsame
  · intro x hx y hy v d hrx hry hsame
    obtain hx' | hx' := hrow hx
    · exact absurd (hx'.2.2.1.symm.trans (of_decide_eq_true hrx).2.1) (Option.some_ne_none _)
    obtain hy' | hy' := hrow hy
    · exact absurd (hy'.2.2.1.symm.trans (of_decide_eq_true hry).2.1) (Option.some_ne_none _)
    exact h.releases x hx'.2 y hy'.2 v d hrx hry hsame

/-- A new folder meets no key. -/
theorem Tidy.createFolder (h : Tidy lower c) {name icon : String} {color : ℕ}
    (hc : c.createFolder lower s w a id name icon color = .ok c') : Tidy lower c' := by
  unfold Content.createFolder at hc
  split_ifs at hc with hmember htaken
  · cases hc
    exact h
  split at hc
  · cases hc
  · next t ht =>
    cases hc
    have hnew {x : Folder} (hx : x ∈ c.folders) (hw : x.workspaceId = w) (ho : x.ownerId = some a) :
        lower x.name ≠ lower name :=
      fun hname => htaken (Table.any_iff.mpr ⟨x, hx, decide_eq_true ⟨hw, ho, hname⟩⟩)
    refine ⟨h.slugs, ?_, h.releases⟩
    intro x hx y hy hw ho hname
    obtain hx | rfl := (Table.mem_insert? ht).mp hx <;> obtain hy | rfl := (Table.mem_insert? ht).mp hy
    · exact h.folders x hx y hy hw ho hname
    · exact (hnew hx hw ho hname).elim
    · exact (hnew hy hw.symm ho.symm hname.symm).elim
    · rfl

/-- A changed folder meets no key. -/
theorem Tidy.changeFolder (h : Tidy lower c) (changes : FolderChanges) :
    Tidy lower (c.changeFolder lower s w a id changes) := by
  unfold Content.changeFolder
  simp only
  split
  · exact h
  rename_i current hcurrent
  split_ifs with hsame htaken
  · exact h
  · exact h
  obtain ⟨hmem, hmine⟩ := Table.find?_some hcurrent
  obtain ⟨hid, hw, ho⟩ := of_decide_eq_true hmine
  have hrow {x : Folder} (hx : x ∈ c.folders.updateWhere
      (fun f => decide (f.id = id ∧ f.workspaceId = w ∧ f.ownerId = some a))
      (fun f => Folder.written s f (changes.applied f)) fun _ => rfl) :
      (x.id = id ∧ x.workspaceId = w ∧ x.ownerId = some a ∧ x.name = (changes.applied current).name) ∨
        (x.id ≠ id ∧ x ∈ c.folders) := by
    obtain ⟨f, hf, rfl⟩ := List.mem_map.mp hx
    by_cases hfid : f.id = id
    · obtain rfl := Table.eq_of_key hf hmem (hfid.trans hid.symm)
      simp only [hmine, if_true]
      exact .inl ⟨hid, hw, ho, rfl⟩
    · rw [if_neg (by simp [hfid])]
      exact .inr ⟨hfid, hf⟩
  have hclash {x y : Folder} (hx : x.id = id ∧ x.workspaceId = w ∧ x.ownerId = some a ∧
      x.name = (changes.applied current).name) (hy : y.id ≠ id ∧ y ∈ c.folders) (hyw : y.workspaceId = x.workspaceId)
      (hyo : y.ownerId = x.ownerId) (hname : lower y.name = lower x.name) : False := by
    rw [hx.2.1] at hyw
    rw [hx.2.2.1] at hyo
    rw [hx.2.2.2] at hname
    by_cases hchanged : (changes.applied current).name = current.name
    · rw [hchanged] at hname
      exact hy.1 ((h.folders y hy.2 current hmem (hyw.trans hw.symm) (hyo.trans ho.symm) hname).trans hid)
    · exact htaken ⟨hchanged, Table.any_iff.mpr ⟨y, hy.2, decide_eq_true ⟨hyw, hyo, hname, hy.1⟩⟩⟩
  refine ⟨h.slugs, ?_, h.releases⟩
  intro x hx y hy hxw hxo hname
  obtain hx' | hx' := hrow hx <;> obtain hy' | hy' := hrow hy
  · exact hx'.1.trans hy'.1.symm
  · exact (hclash hx' hy' hxw.symm hxo.symm hname.symm).elim
  · exact (hclash hy' hx' hxw hxo hname).elim
  · exact h.folders x hx'.2 y hy'.2 hxw hxo hname

end

/-! ## The runs -/

/-- A step: a write of a member, the end of a membership, or the content choice of a departure. -/
inductive DepartureOp
  | createWorkspace (workspaceId owner : Uuid)
  | createBookmark (workspaceId : Uuid) (bookmark : NewBookmark)
  | changeBookmark (workspaceId ownerId bookmarkId : Uuid) (changes : Editing.BookmarkChanges)
  | deleteBookmarks (workspaceId ownerId : Uuid) (bookmarkIds : List Uuid)
  | createFolder (workspaceId ownerId id : Uuid) (name icon : String) (color : ℕ)
  | changeFolder (workspaceId ownerId folderId : Uuid) (changes : FolderChanges)
  | deleteFolder (workspaceId ownerId folderId : Uuid)
  | join (member : Member)
  | endMembership (workspaceId accountId : Uuid)
  | apply (workspaceId departureId : Option Uuid) (content : Option String) (recipient : Option Uuid)

section

variable (lower : String → String)

/-- The state after a step, unless the step raises. A departure is named by a new event. -/
def DepartureOp.next (s : Session) (c : Content) : DepartureOp → Option Content
  | .createWorkspace w owner => (sysCreateWorkspace w owner c).toOption
  | .createBookmark w b => (c.insertBookmark s w b).toOption
  | .changeBookmark w a id changes => some (c.changeBookmark s w a id changes)
  | .deleteBookmarks w a ids =>
    some (c.deleteBookmarks fun b => decide (b.workspaceId = w ∧ b.ownerId = some a ∧ b.id ∈ ids))
  | .createFolder w a id name icon color => (c.createFolder lower s w a id name icon color).toOption
  | .changeFolder w a id changes => some (c.changeFolder lower s w a id changes)
  | .deleteFolder w a id => some (c.deleteFolders fun f => decide (f.workspaceId = w ∧ f.ownerId = some a ∧ f.id = id))
  | .join m => (c.members.insert? m).map fun members => { c with members := members }
  | .endMembership w a =>
    if (s.appDepartureId.map c.departureFresh).getD true then some (c.deleteMember lower s w a) else none
  | .apply pw pd pc pr => (sysMemberDepartureApply lower s pw pd pc pr c).toOption.map Prod.snd

/-- **The runs**: from a database without content, any step of any session after any other. -/
def departureSystem : System Content (Session × DepartureOp) where
  init c := c = {}
  step c l c' := l.2.next lower l.1 c = some c'

end

section

variable {lower : String → String} {c c' : Content}

theorem eq_ok_of_toOption {ε α : Type} {x : Except ε α} {a : α} (h : x.toOption = some a) : x = .ok a := by
  cases x with
  | error e => exact nomatch h
  | ok b => exact congrArg Except.ok (Option.some.inj h)

theorem sysCreateWorkspace_rows {w owner : Uuid} (h : sysCreateWorkspace w owner c = .ok c') :
    c'.bookmarks = c.bookmarks ∧ c'.folders = c.folders := by
  unfold sysCreateWorkspace at h
  split at h
  · cases h
    exact ⟨rfl, rfl⟩
  · cases h
  · cases h

/-- **Every step keeps the keys.** -/
theorem Tidy.next (hlower : KeepsSuffix lower) (h : Tidy lower c) {s : Session} {op : DepartureOp}
    (hstep : op.next lower s c = some c') : Tidy lower c' := by
  cases op with
  | createWorkspace w owner =>
    obtain ⟨hb, hf⟩ := sysCreateWorkspace_rows (eq_ok_of_toOption hstep)
    exact h.of_subset (fun b hmem => hb ▸ hmem) fun f hmem => hf ▸ hmem
  | createBookmark w b => exact h.insertBookmark (eq_ok_of_toOption hstep)
  | changeBookmark w a id changes => exact Option.some.inj hstep ▸ h.changeBookmark changes
  | deleteBookmarks w a ids =>
    obtain rfl := Option.some.inj hstep
    exact h.of_subset (fun b hb => (Table.mem_deleteWhere.mp hb).1) fun f hf => hf
  | createFolder w a id name icon color => exact h.createFolder (eq_ok_of_toOption hstep)
  | changeFolder w a id changes => exact Option.some.inj hstep ▸ h.changeFolder changes
  | deleteFolder w a id =>
    obtain rfl := Option.some.inj hstep
    exact h.of_subset (fun b hb => hb) fun f hf => (Table.mem_deleteWhere.mp hf).1
  | join m =>
    obtain ⟨members, -, rfl⟩ := Option.map_eq_some_iff.mp hstep
    exact h.of_subset (fun b hb => hb) fun f hf => hf
  | endMembership w a =>
    rw [DepartureOp.next] at hstep
    split_ifs at hstep with hfresh
    obtain rfl := Option.some.inj hstep
    refine h.deleteMember hlower w a fun d hd => ?_
    rw [hd] at hfresh
    exact hfresh
  | apply pw pd pc pr =>
    obtain ⟨⟨applied, c₁⟩, hok, rfl⟩ := Option.map_eq_some_iff.mp hstep
    exact h.apply hlower (eq_ok_of_toOption hok)

theorem tidy_of_reachable (hlower : KeepsSuffix lower) (h : (departureSystem lower).Reachable c) : Tidy lower c := by
  refine h.invariant ?_ fun c l c' hc hstep => hc.next hlower hstep
  rintro c rfl
  exact ⟨fun b hb => absurd hb (Table.not_mem_empty b), fun f hf => absurd hf (Table.not_mem_empty f),
    fun b hb => absurd hb (Table.not_mem_empty b)⟩

/-- **Departures meet no key**: in every reachable state the slugs of an owner and the names of an owner are apart, they
stay so after each row that the end of a membership releases, and no content choice fails at a key. -/
theorem departures_tidy (hlower : KeepsSuffix lower) (h : (departureSystem lower).Reachable c) :
    SlugsApart c ∧ FoldersApart lower c ∧
      (∀ (s : Session) (ids : List Uuid), SlugsApart (ids.foldl (releaseBookmark s) c)) ∧
      (∀ (s : Session) (ids : List Uuid), FoldersApart lower (ids.foldl (releaseFolder lower s) c)) ∧
      ∀ s pw pd pc pr key, sysMemberDepartureApply lower s pw pd pc pr c ≠ .error (.uniqueViolation key) := by
  have htidy := tidy_of_reachable hlower h
  exact ⟨htidy.slugs, htidy.folders, fun _ ids => htidy.slugs.releaseAll ids,
    fun _ ids => htidy.folders.releaseAll hlower ids, fun _ _ _ _ _ => htidy.apply_ne_unique hlower⟩

end

/-- Two members with a folder of one name and a bookmark of one slug, who both leave. -/
def twoDepartures : List (Session × DepartureOp) :=
  let s (account : Uuid) : Session := { appAccountId := some account, appWorkspaceId := some 1 }
  let bookmark (id owner : Uuid) : NewBookmark :=
    ⟨id, owner, "https://example.org/", "https://example.org/", "example.org", "Example", none, false, some "docs", true⟩
  [(s 9, .createWorkspace 1 9), (s 7, .join ⟨1, 7, .member⟩), (s 8, .join ⟨1, 8, .member⟩),
    (s 7, .createFolder 1 7 20 "Work" "folder" 1), (s 8, .createFolder 1 8 21 "Work" "folder" 2),
    (s 7, .createBookmark 1 (bookmark 10 7)), (s 8, .createBookmark 1 (bookmark 11 8)),
    ({ s 9 with appDepartureId := some 100 }, .endMembership 1 7),
    ({ s 9 with appDepartureId := some 101 }, .endMembership 1 8)]

/-- What the two departures leave. -/
def contentOfTwoDepartures : Content :=
  (System.follow (fun (c : Content) (l : Session × DepartureOp) => l.2.next id l.1 c) {} twoDepartures).getD {}

theorem contentOfTwoDepartures_reachable : (departureSystem id).Reachable contentOfTwoDepartures :=
  .follow (S := departureSystem id) (fun _ _ _ h => h) (.init rfl) twoDepartures {} (by decide)

theorem departures_tidy_of_two :
    FoldersApart id contentOfTwoDepartures ∧
      contentOfTwoDepartures.folders.rows.map Folder.name = ["Work", "Work (2)"] ∧
      contentOfTwoDepartures.bookmarks.rows.map (fun b => (b.slug, b.departureSlug)) =
        [(some "docs", none), (none, some "docs")] :=
  ⟨(departures_tidy (fun base _ => ⟨base, rfl⟩) contentOfTwoDepartures_reachable).2.1, by decide, by decide⟩

/-! ## A departure and its transfer -/

/-- Whether a step is the content choice of the departure. -/
def DepartureOp.applies (w d : Uuid) : DepartureOp → Bool
  | .apply pw pd _ _ => decide (pw = some w ∧ pd = some d)
  | _ => false

/-- Whether the recipient has the slug. -/
def Content.recipientHas (c : Content) (w recipient : Uuid) (slug : Option String) : Bool :=
  c.bookmarks.any fun b => decide (b.workspaceId = w ∧ b.ownerId = some recipient) && sqlEq b.slug slug

/-- The runs that do not apply the content choice of the departure. -/
def waitingSystem (lower : String → String) (w d : Uuid) : System Content (Session × DepartureOp) :=
  (departureSystem lower).restrict fun _ l _ => l.2.applies w d = false

section

variable {lower : String → String} {s s' : Session} {c c₂ : Content} {w a d r : Uuid}

/-- **A released bookmark waits for its content choice**: no other step changes it. -/
theorem held_of_next {c' : Content} {op : DepartureOp} (hstep : op.next lower s c = some c') (hop : op.applies w d = false)
    {b : Bookmark} (hb : b ∈ c.bookmarks) (hby : b.releasedBy w d = true) : b ∈ c'.bookmarks := by
  obtain ⟨hw, ho, hd⟩ := of_decide_eq_true hby
  have howned {a : Uuid} : b.ownerId ≠ some a := by rw [ho]; exact nofun
  cases op with
  | createWorkspace w' owner => exact (sysCreateWorkspace_rows (eq_ok_of_toOption hstep)).1 ▸ hb
  | createBookmark w' new =>
    obtain ⟨t, ht, rfl⟩ := Content.insertBookmark_ok (eq_ok_of_toOption hstep)
    exact (Table.mem_insert? ht).mpr (.inl hb)
  | changeBookmark w' a' id changes =>
    obtain rfl := Option.some.inj hstep
    unfold Content.changeBookmark
    simp only
    split
    · exact hb
    split_ifs
    · exact hb
    · exact hb
    · exact hb
    · exact List.mem_map.mpr ⟨b, hb, if_neg (by simp [howned])⟩
  | deleteBookmarks w' a' ids =>
    obtain rfl := Option.some.inj hstep
    exact Table.mem_deleteWhere.mpr ⟨hb, by simp [howned]⟩
  | createFolder w' a' id name icon color =>
    have hok := eq_ok_of_toOption hstep
    unfold Content.createFolder at hok
    split_ifs at hok
    · cases hok
      exact hb
    split at hok
    · cases hok
    · cases hok
      exact hb
  | changeFolder w' a' id changes =>
    obtain rfl := Option.some.inj hstep
    unfold Content.changeFolder
    simp only
    split
    · exact hb
    split_ifs <;> exact hb
  | deleteFolder w' a' id =>
    obtain rfl := Option.some.inj hstep
    exact hb
  | join m =>
    obtain ⟨members, -, rfl⟩ := Option.map_eq_some_iff.mp hstep
    exact hb
  | endMembership w' a' =>
    rw [DepartureOp.next] at hstep
    split_ifs at hstep
    obtain rfl := Option.some.inj hstep
    obtain ⟨b', hb', ⟨⟨-, hmine⟩, -⟩ | ⟨-, rfl⟩⟩ := @exists_deleteMember lower s _ w' a' _ hb
    · exact absurd hmine howned
    · exact hb'
  | apply pw pd pc pr =>
    obtain ⟨⟨applied, c₁⟩, hok, rfl⟩ := Option.map_eq_some_iff.mp hstep
    refine held_of_apply (eq_ok_of_toOption hok) hb ?_
    rintro w' d' rfl rfl
    rw [Bookmark.releasedBy, decide_eq_false_iff_not]
    rintro ⟨hw', -, hd'⟩
    refine of_decide_eq_false hop ⟨?_, ?_⟩
    · rw [← hw', hw]
    · exact hd'.symm.trans hd

theorem held_of_waiting (h : ((waitingSystem lower w d).startingAt c).Reachable c₂) {b : Bookmark} (hb : b ∈ c.bookmarks)
    (hby : b.releasedBy w d = true) : b ∈ c₂.bookmarks := by
  induction h with
  | init hi => exact hi ▸ hb
  | step _ hstep ih => exact held_of_next hstep.1 hstep.2 ih hby

/-- **A departure and its transfer give every bookmark back**: whatever happens before its content choice is applied, the
transfer is carried out and the recipient gets each bookmark of the member as it was, without its slug exactly where the
recipient has that slug by then. -/
theorem departure_given_back (hlower : KeepsSuffix lower) (h : (departureSystem lower).Reachable c)
    (hd : s.appDepartureId = some d) (hfresh : c.departureFresh d = true)
    (hrun : ((waitingSystem lower w d).startingAt (c.deleteMember lower s w a)).Reachable c₂)
    (hsession : s'.appAccountId = some r ∧ s'.appWorkspaceId = some w) (hlive : (c₂.liveWorkspace w).isSome = true)
    (hmember : c₂.isMember w r = true) :
    ∃ applied c', sysMemberDepartureApply lower s' (some w) (some d) (some "transfer") (some r) c₂ = .ok (applied, c') ∧
      (∀ b ∈ c.bookmarks, b.workspaceId = w ∧ b.ownerId = some a → ∃ b' ∈ c'.bookmarks, b'.id = b.id ∧
        b'.ownerId = some r ∧ b'.departureId = none ∧ b'.url = b.url ∧ b'.title = b.title ∧ b'.description = b.description ∧
        (b'.slug, b'.forwarding) = if c₂.recipientHas w r b.slug then (none, false) else (b.slug, b.forwarding)) ∧
      ∀ b ∈ c'.bookmarks, b.releasedBy w d = false := by
  have hstep : (departureSystem lower).step c (s, .endMembership w a) (c.deleteMember lower s w a) := by
    refine if_pos ?_
    rw [hd]
    exact hfresh
  have htidy : Tidy lower c₂ := by
    refine tidy_of_reachable hlower ((h.step hstep).of_startingAt ?_)
    clear hlive hmember
    induction hrun with
    | init hi => exact .init hi
    | step _ hstep ih => exact .step ih hstep.1
  obtain ⟨applied, hok⟩ := htidy.transfer (d := d) hlower hsession hlive hmember
  have hrows := @transferAll_bookmarks lower s' w r (releasedFolders w d c₂) c₂
  have hsome : s.appDepartureId ≠ none := by rw [hd]; exact nofun
  refine ⟨applied, _, hok, ?_, ?_⟩
  · intro b hb hmine
    obtain ⟨b₁, hb₁, ⟨-, hreleased⟩ | ⟨hnot, -⟩⟩ := @exists_deleteMember lower s _ w a _ hb
    swap
    · exact absurd hmine hnot
    have hby : b₁.releasedBy w d = true :=
      decide_eq_true ⟨hreleased.workspaceId.trans hmine.1, hreleased.ownerId, hreleased.departureId.trans hd⟩
    have hheld := held_of_waiting hrun hb₁ hby
    refine ⟨transferBookmark s' _ r b₁, mem_transferBookmarks.mpr ⟨b₁, hrows.symm ▸ hheld, .inl ⟨hby, rfl⟩⟩, hreleased.id,
      rfl, rfl, hreleased.same.1, hreleased.same.2.1, hreleased.same.2.2.1, ?_⟩
    have hclash : b₁.clash ((releasedFolders w d c₂).foldl (fun c f => transferFolder lower s' w r f c) c₂) r =
        c₂.recipientHas w r b.slug := by
      rw [Bookmark.clash, hrows, hreleased.workspaceId, hmine.1, hreleased.releasedSlug hsome, Content.recipientHas]
    have hforwarding : (if b₁.departureSlug.isSome then b₁.departureForwarding.getD b₁.forwarding else b₁.forwarding) =
        b.forwarding := by
      rcases hreleased.slug hsome with ⟨-, hkept, hforwarding⟩ | ⟨-, hkept, hslug, hforwarding⟩
      · simp [hkept, hforwarding]
      · simp [hkept, hforwarding, Option.isSome_iff_ne_none.mpr hslug]
    show ((if b₁.clash _ r then none else b₁.releasedSlug), (if b₁.clash _ r then false else
      if b₁.departureSlug.isSome then b₁.departureForwarding.getD b₁.forwarding else b₁.forwarding)) = _
    rw [hclash, hreleased.releasedSlug hsome, hforwarding]
    split <;> rfl
  · intro x hx
    obtain ⟨b, -, ⟨-, rfl⟩ | ⟨hby, rfl⟩⟩ := mem_transferBookmarks.mp hx
    · exact decide_eq_false fun hp => nomatch hp.2.1
    · exact hby

end

/-- What is there before the second member leaves. -/
def contentOfOneDeparture : Content :=
  (System.follow (fun (c : Content) (l : Session × DepartureOp) => l.2.next id l.1 c) {} twoDepartures.dropLast).getD {}

theorem contentOfOneDeparture_reachable : (departureSystem id).Reachable contentOfOneDeparture :=
  .follow (S := departureSystem id) (fun _ _ _ h => h) (.init rfl) twoDepartures.dropLast {} (by decide)

theorem departure_given_back_of_two :
    ∃ applied c', sysMemberDepartureApply id ⟨some 9, some 1, none, 5⟩ (some 1) (some 101) (some "transfer") (some 9)
        (contentOfOneDeparture.deleteMember id ⟨none, some 1, some 101, 4⟩ 1 8) = .ok (applied, c') ∧
      ∃ b ∈ c'.bookmarks, b.ownerId = some 9 ∧ b.slug = some "docs" := by
  obtain ⟨applied, c', hok, hback, -⟩ := @departure_given_back id ⟨none, some 1, some 101, 4⟩
    ⟨some 9, some 1, none, 5⟩ contentOfOneDeparture _ 1 8 101 9
    (fun base _ => ⟨base, rfl⟩) contentOfOneDeparture_reachable rfl (by decide) (.init rfl) ⟨rfl, rfl⟩
    (by decide) (by decide)
  have hrow : ∃ b ∈ contentOfOneDeparture.bookmarks.rows, (b.workspaceId = 1 ∧ b.ownerId = some 8) ∧ b.slug = some "docs" := by
    decide
  obtain ⟨b, hb, hmine, hslug⟩ := hrow
  obtain ⟨b', hb', -, ho, -, -, -, -, hpair⟩ := hback b hb hmine
  rw [hslug, if_neg (by decide)] at hpair
  exact ⟨applied, c', hok, b', hb', ho, congrArg Prod.fst hpair⟩

end SlugBase
