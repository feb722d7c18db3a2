import SlugBase.Editing.Update

/-!
# What a change decides

The last statement of `BookmarkRepository.update`, with what it has read before.

* `LeavesAll`: the patch asks for what is there; **`nothing_decided`**: that is when nothing is written;
* **`applyWrites_nothing`**, `mem_applyWrites_of_ne`, **`written_mem_applyWrites`**: the rows afterwards;
* `made_wanted`: a tag that was made for its name is wanted.
-/

namespace SlugBase.Editing

open Relational

/-- The patch names the values that the bookmark has, the folders it is in and the tags it carries. -/
def LeavesAll (changes : BookmarkChanges) (now : Timestamp) (current : Bookmark) (filed carried : List Uuid)
    (wantedTags : Option (List Uuid)) : Prop :=
  (patched changes now current).visible = current.visible ∧
    (∀ wanted, changes.folderIds = some wanted → ∀ id, id ∈ wanted ↔ id ∈ filed) ∧
      ∀ wanted, wantedTags = some wanted → ∀ id, id ∈ wanted ↔ id ∈ carried

section

variable {names : Names} {c : Content} {r : BookmarkUpdateRequest} {s : Session} {now : Timestamp}
  {current : Bookmark} {filed carried : List Uuid} {made : List BookmarkTagName} {wantedTags : Option (List Uuid)}

/-- Two selections differ in nothing exactly when neither has to give or to take. -/
theorem moves_nothing (wanted : Option (List Uuid)) (there : List Uuid) :
    ((wanted.map fun w => there.filter fun id => !w.contains id).getD []).isEmpty = true ∧
        ((wanted.map fun w => w.filter fun id => !there.contains id).getD []).isEmpty = true ↔
      ∀ w, wanted = some w → ∀ id, id ∈ w ↔ id ∈ there := by
  cases wanted with
  | none => simp
  | some w =>
    simp only [Option.map_some, Option.getD_some, List.isEmpty_iff, List.filter_eq_nil_iff, List.contains_iff_mem,
      Bool.not_eq_true', Option.some.injEq, Bool.not_eq_false]
    constructor
    · rintro ⟨hleave, hjoin⟩ _ rfl id
      exact ⟨hjoin id, hleave id⟩
    · intro h
      exact ⟨fun id hid => (h w rfl id).mpr hid, fun id hid => (h w rfl id).mp hid⟩

/-- **Nothing is written exactly when the patch leaves the bookmark and its links as they are.** -/
theorem nothing_decided :
    (decided r current filed carried made wantedTags now).nothing = true ↔
      LeavesAll r.changes now current filed carried wantedTags := by
  rw [LeavesAll, ← setOf_isEmpty, ← moves_nothing, ← moves_nothing]
  simp only [Writes.nothing, decided, Bool.and_eq_true]
  tauto

theorem insertAll_nil {ρ κ : Type} [DecidableEq κ] {key : ρ → κ} (t : Table ρ key) : insertAll t [] = t := rfl

/-- **What writes nothing leaves every row.** -/
theorem applyWrites_nothing {writes : Writes} (h : writes.nothing = true) (hmade : writes.made = []) :
    applyWrites c r s writes = c := by
  simp only [Writes.nothing, Bool.and_eq_true, List.isEmpty_iff] at h
  obtain ⟨⟨⟨⟨hset, hleaving⟩, hjoining⟩, hdetaching⟩, hattaching⟩ := h
  have hkeep {ρ κ : Type} {key : ρ → κ} (t : Table ρ key) (p : ρ → Bool) :
      (t.deleteWhere fun l => p l && false) = t := Table.deleteWhere_of_none fun _ _ => Bool.and_false _
  rw [applyWrites, if_pos hset, hleaving, hjoining, hdetaching, hattaching, hmade]
  simp only [List.map_nil, insertAll_nil, List.contains_nil, hkeep]

theorem mem_applyWrites_of_ne {writes : Writes} {b : Bookmark} (hb : b.id ≠ r.bookmarkId) :
    b ∈ (applyWrites c r s writes).bookmarks ↔ b ∈ c.bookmarks := by
  unfold applyWrites
  dsimp only
  split_ifs with hset
  · exact Iff.rfl
  · rw [Table.mem_updateWhere]
    constructor
    · rintro ⟨b', hb', hw⟩
      split_ifs at hw with hid
      · exact absurd (by rw [← hw]; exact of_decide_eq_true hid) hb
      · rwa [← hw]
    · exact fun h => ⟨b, h, if_neg (by rwa [decide_eq_true_eq])⟩

/-- The row a change leaves of the bookmark. -/
def rowAfter (s : Session) (writes : Writes) (current : Bookmark) : Bookmark :=
  if writes.set.isEmpty then current else Bookmark.written s current (writes.set.applied current)

theorem rowAfter_id {writes : Writes} : (rowAfter s writes current).id = current.id := by
  unfold rowAfter
  split_ifs
  · rfl
  · rfl

/-- **The row of the bookmark afterwards.** -/
theorem rowAfter_mem_applyWrites {writes : Writes} (hc : current ∈ c.bookmarks) (hid : current.id = r.bookmarkId) :
    rowAfter s writes current ∈ (applyWrites c r s writes).bookmarks := by
  unfold applyWrites rowAfter
  dsimp only
  split_ifs with hset
  · exact hc
  · exact Table.mem_updateWhere.mpr ⟨current, hc, if_pos (decide_eq_true hid)⟩

theorem mem_applyWrites {writes : Writes} (hc : current ∈ c.bookmarks) (hid : current.id = r.bookmarkId) {b : Bookmark}
    (hb : b ∈ (applyWrites c r s writes).bookmarks) :
    b = rowAfter s writes current ∨ b.id ≠ current.id ∧ b ∈ c.bookmarks := by
  by_cases h : b.id = current.id
  · exact .inl (Table.eq_of_key hb (rowAfter_mem_applyWrites hc hid) (h.trans rowAfter_id.symm))
  · exact .inr ⟨h, (mem_applyWrites_of_ne (by rwa [← hid])).mp hb⟩

theorem find_rowAfter {writes : Writes} (hc : current ∈ c.bookmarks) (hid : current.id = r.bookmarkId) :
    ((applyWrites c r s writes).bookmarks.find? fun b => decide (b.id = r.bookmarkId)) =
      some (rowAfter s writes current) := by
  refine Table.find?_of_only (rowAfter_mem_applyWrites hc hid) (decide_eq_true (rowAfter_id.trans hid)) ?_
  intro b hb hbid
  refine Table.eq_of_key hb (rowAfter_mem_applyWrites hc hid) ?_
  rw [of_decide_eq_true hbid, rowAfter_id, hid]

/-- **The row has the values of the patch, and its version has moved by one exactly when a column has.** -/
theorem rowAfter_decided {row : Bookmark}
    (h : rowAfter s (decided r current filed carried made wantedTags now) current = row) :
    row.visible = (patched r.changes now current).visible ∧
      row.version = if row.visible = current.visible then current.version else current.version + 1 := by
  subst h
  unfold rowAfter
  have hset : (decided r current filed carried made wantedTags now).set = setOf r.changes current now := rfl
  rw [hset, applied_setOf]
  split_ifs with hempty hsame hsame
  · exact ⟨(setOf_isEmpty.mp hempty).symm, rfl⟩
  · exact absurd rfl hsame
  · have hpatched : (patched r.changes now current).visible = current.visible := hsame
    exact absurd (setOf_isEmpty.mpr hpatched) (by simpa using hempty)
  · have hpatched : (patched r.changes now current).visible ≠ current.visible := hsame
    exact ⟨rfl, if_neg hpatched⟩

/-- The checks of forwarding before the first write hold of the row afterwards. -/
theorem rowAfter_forwarding {writes : Writes} (hset : writes.set = setOf r.changes current now)
    (h : (r.changes.forwarding.getD current.forwarding && (r.changes.slug.getD current.slug).isNone) = false) :
    (rowAfter s writes current).forwarding = true → (rowAfter s writes current).slug ≠ none := by
  have hrow : (rowAfter s writes current).forwarding = r.changes.forwarding.getD current.forwarding ∧
      (rowAfter s writes current).slug = r.changes.slug.getD current.slug := by
    unfold rowAfter
    rw [hset, applied_setOf]
    split_ifs with hempty
    · have hsame := setOf_isEmpty.mp hempty
      simp only [patched, Bookmark.visible, Bookmark.Visible.mk.injEq] at hsame
      obtain ⟨-, -, -, -, -, -, hslug, hforwarding, -⟩ := hsame
      exact ⟨hforwarding.symm, hslug.symm⟩
    · exact ⟨rfl, rfl⟩
  rw [hrow.1, hrow.2]
  intro hforwarding
  rw [hforwarding, Bool.true_and] at h
  exact Option.isNone_eq_false_iff.mp h |> Option.isSome_iff_ne_none.mp

end

/-! ## Tags made for their names -/

section

variable {names : Names} {c : Content} {r : BookmarkUpdateRequest} {made : List BookmarkTagName}

/-- What is made is what was missing. -/
theorem insertNames_subset {missing : List BookmarkTagName} {tag : BookmarkTagName}
    (h : tag ∈ insertNames names c r missing) : tag ∈ missing := by
  suffices hfold : ∀ (missing made : List BookmarkTagName), tag ∈ missing.foldl (fun made tag =>
      if (tagByName names c r made tag.name).isNone then made ++ [tag] else made) made → tag ∈ made ∨ tag ∈ missing by
    exact (hfold missing [] h).resolve_left List.not_mem_nil
  intro missing
  induction missing with
  | nil => exact fun made hmade => .inl hmade
  | cons first rest ih =>
    intro made hmade
    rw [List.foldl_cons] at hmade
    split_ifs at hmade
    · rcases ih _ hmade with hin | hin
      · rcases List.mem_append.mp hin with hin | hin
        · exact .inl hin
        · exact .inr (List.mem_singleton.mp hin ▸ List.mem_cons_self)
      · exact .inr (List.mem_cons_of_mem _ hin)
    · rcases ih _ hmade with hin | hin
      · exact .inl hin
      · exact .inr (List.mem_cons_of_mem _ hin)

theorem missingNames_subset {wanted : List BookmarkTagName} {tag : BookmarkTagName}
    (h : tag ∈ missingNames names c r wanted) : tag ∈ wanted :=
  (List.mem_filter.mp ((List.mem_insertionSort _).mp h)).1

/-- **A tag that was made for its name is one of the tags wanted.** -/
theorem made_wanted {tags : BookmarkTagSelection} {wanted : List Uuid}
    (h : tagIdsOf names c r made tags = some wanted) (hmade : made ≠ []) (hnames : ∀ tag ∈ made, tag ∈ tags.names) :
    ∃ tag ∈ made, tag.newId ∈ wanted := by
  obtain ⟨first, hfirst⟩ := List.exists_mem_of_ne_nil made hmade
  have hfound : (made.find? fun tag => decide (names.citext tag.name = names.citext first.name)).isSome = true :=
    List.find?_isSome.mpr ⟨first, hfirst, decide_eq_true rfl⟩
  obtain ⟨tag, htag⟩ := Option.isSome_iff_exists.mp hfound
  refine ⟨tag, List.mem_of_find?_eq_some htag, ?_⟩
  have hby : tagByName names c r made first.name = some tag.newId := by
    rw [tagByName, htag]
    rfl
  unfold tagIdsOf at h
  split_ifs at h
  rw [← Option.some.inj h, List.mem_dedup, List.mem_append]
  exact .inr (List.mem_filterMap.mpr ⟨first, hnames first hfirst, hby⟩)

end

end SlugBase.Editing
