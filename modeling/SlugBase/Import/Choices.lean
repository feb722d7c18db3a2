import SlugBase.Import.Exact

/-!
# The choices an import restores

A remembered choice of the file follows its reference to an entry, the entry to the bookmark that was created of it, and
the bookmark to the slug that it kept.

* `OnlyEntry`: the one entry of a file that has a reference; **`placeOfRef_eq_some`**;
* **`mem_lastOfEach`**: of several choices for one slug the last stands;
* `Restorable`: what a choice needs to be restored;
* **`choices_exact`**: the choices that an import restores are the last restorable ones of their slugs, and no others.
-/

namespace SlugBase.Import

open JavaScript Relational

/-! ## References -/

/-- The one entry of the file that has a reference. -/
def OnlyEntry (bookmarks : List ImportFileBookmark) (ref : JsString) (i : ℕ) : Prop :=
  (bookmarks[i]?.bind (·.ref)) = some ref ∧ ∀ j, (bookmarks[j]?.bind (·.ref)) = some ref → j = i

theorem eq_singleton {α : Type} {l : List α} {a : α} (hnodup : l.Nodup) (ha : a ∈ l) (hall : ∀ x ∈ l, x = a) : l = [a] := by
  cases l with
  | nil => cases ha
  | cons x rest =>
    obtain rfl := hall x List.mem_cons_self
    cases rest with
    | nil => rfl
    | cons y rest =>
      obtain rfl := hall y (List.mem_cons_of_mem _ List.mem_cons_self)
      rw [List.nodup_cons] at hnodup
      exact absurd List.mem_cons_self hnodup.1

/-- The entries with a reference, by their index. -/
def entriesOf (bookmarks : List ImportFileBookmark) (ref : JsString) : List (ImportFileBookmark × ℕ) :=
  bookmarks.zipIdx.filter fun p => decide (p.1.ref = some ref)

theorem placeOfRef_eq (bookmarks : List ImportFileBookmark) (ref : JsString) : placeOfRef bookmarks ref =
    match entriesOf bookmarks ref with
    | [p] => some (p.2 + 1)
    | _ => none := by
  have hfold : ∀ (l : List (ImportFileBookmark × ℕ)) (known : Option (Option ℕ)), l.foldl (fun known p =>
      if p.1.ref = some ref then (if known.isSome then some none else some (some (p.2 + 1))) else known) known =
      (l.filter fun p => decide (p.1.ref = some ref)).foldl
        (fun known p => if known.isSome then some none else some (some (p.2 + 1))) known := by
    intro l known
    rw [List.foldl_filter]
    simp only [decide_eq_true_eq]
  have hmany : ∀ (l : List (ImportFileBookmark × ℕ)), l.foldl
      (fun (known : Option (Option ℕ)) p => if known.isSome then some none else some (some (p.2 + 1))) (some none) = some none := by
    intro l
    induction l with
    | nil => rfl
    | cons p l ih => exact ih
  unfold placeOfRef
  dsimp only
  rw [hfold, entriesOf]
  generalize bookmarks.zipIdx.filter (fun p => decide (p.1.ref = some ref)) = l
  rcases l with _ | ⟨p, _ | ⟨q, rest⟩⟩
  · rfl
  · rfl
  · show (rest.foldl _ (some none)).join = none
    rw [hmany]
    rfl

/-- **A reference has a place when exactly one entry has it.** -/
theorem placeOfRef_eq_some {bookmarks : List ImportFileBookmark} {ref : JsString} {place : ℕ} :
    placeOfRef bookmarks ref = some place ↔ ∃ i, place = i + 1 ∧ OnlyEntry bookmarks ref i := by
  have hmem : ∀ p, p ∈ entriesOf bookmarks ref ↔ bookmarks[p.2]? = some p.1 ∧ p.1.ref = some ref := by
    intro p
    rw [entriesOf, List.mem_filter, decide_eq_true_eq, List.mem_zipIdx_iff_getElem?]
  have hnodup : (entriesOf bookmarks ref).Nodup := by
    refine List.Nodup.filter _ (List.Nodup.of_map Prod.snd ?_)
    rw [List.zipIdx_map_snd]
    exact List.nodup_range'
  rw [placeOfRef_eq]
  constructor
  · intro h
    split at h
    · rename_i p hp
      rw [Option.some_inj] at h
      have hin := (hmem p).mp (hp ▸ List.mem_singleton_self p)
      refine ⟨p.2, h.symm, by rw [hin.1, Option.bind_some, hin.2], fun j hj => ?_⟩
      obtain ⟨b, hb, href⟩ := Option.bind_eq_some_iff.mp hj
      have hother := (hmem (b, j)).mpr ⟨hb, href⟩
      rw [hp, List.mem_singleton] at hother
      rw [← hother]
    · cases h
  · rintro ⟨i, rfl, hi, honly⟩
    obtain ⟨b, hb, href⟩ := Option.bind_eq_some_iff.mp hi
    have hone : entriesOf bookmarks ref = [(b, i)] := by
      refine eq_singleton hnodup ((hmem (b, i)).mpr ⟨hb, href⟩) fun p hp => ?_
      obtain ⟨hp, hpref⟩ := (hmem p).mp hp
      have hj := honly p.2 (by rw [hp, Option.bind_some, hpref])
      rw [hj, hb, Option.some_inj] at hp
      exact Prod.ext hp.symm hj
    rw [hone]

/-! ## The last of each -/

section

variable {α κ ν : Type} [DecidableEq κ] (value : α → Option (κ × ν))

/-- The last value of each key, in the order of the values that stand. -/
def lastOfEach (l : List α) : List (κ × ν) :=
  l.foldl (fun chosen x => match value x with
    | some e => chosen.filter (fun c => decide (c.1 ≠ e.1)) ++ [e]
    | none => chosen) []

variable {value}

theorem lastOfEach_concat (l : List α) (x : α) : lastOfEach value (l ++ [x]) = match value x with
    | some e => (lastOfEach value l).filter (fun c => decide (c.1 ≠ e.1)) ++ [e]
    | none => lastOfEach value l := by
  rw [lastOfEach, List.foldl_append]
  rfl

theorem lastOfEach_nodup (l : List α) : ((lastOfEach value l).map Prod.fst).Nodup := by
  induction l using List.reverseRecOn with
  | nil => exact List.nodup_nil
  | append_singleton l x ih =>
    rw [lastOfEach_concat]
    cases value x with
    | none => exact ih
    | some e =>
      rw [List.map_append, List.map_singleton]
      refine List.Nodup.append (ih.sublist (List.filter_sublist.map _)) (List.nodup_singleton _) ?_
      rw [List.disjoint_singleton, List.mem_map]
      rintro ⟨c, hc, hkey⟩
      exact of_decide_eq_true (List.mem_filter.mp hc).2 hkey

/-- **A value stands when it is the last of its key.** -/
theorem mem_lastOfEach {l : List α} {key : κ} {v : ν} : (key, v) ∈ lastOfEach value l ↔
    ∃ before x after, l = before ++ x :: after ∧ value x = some (key, v) ∧ ∀ y ∈ after, ∀ w, value y ≠ some (key, w) := by
  induction l using List.reverseRecOn with
  | nil =>
    refine ⟨fun h => absurd h List.not_mem_nil, ?_⟩
    rintro ⟨before, x, after, h, -⟩
    exact absurd (congrArg List.length h) (by simp)
  | append_singleton l x ih =>
    have hsplit : (∃ before y after, l ++ [x] = before ++ y :: after ∧ value y = some (key, v) ∧
        ∀ z ∈ after, ∀ w, value z ≠ some (key, w)) ↔ value x = some (key, v) ∨
          (∀ w, value x ≠ some (key, w)) ∧ (key, v) ∈ lastOfEach value l := by
      rw [ih]
      constructor
      · rintro ⟨before, y, after, h, hy, hafter⟩
        rcases List.eq_nil_or_concat after with rfl | ⟨rest, z, rfl⟩
        · obtain ⟨-, rfl⟩ := List.append_singleton_inj.mp h
          exact .inl hy
        · rw [List.concat_eq_append] at h hafter
          rw [← List.cons_append, ← List.append_assoc] at h
          obtain ⟨rfl, rfl⟩ := List.append_singleton_inj.mp h
          exact .inr ⟨fun w => hafter x (by simp) w, before, y, rest, rfl, hy, fun z hz => hafter z (by simp [hz])⟩
      · rintro (hx | ⟨hx, before, y, after, rfl, hy, hafter⟩)
        · exact ⟨l, x, [], rfl, hx, fun z hz => absurd hz List.not_mem_nil⟩
        · refine ⟨before, y, after ++ [x], by rw [List.append_assoc, List.cons_append], hy, fun z hz => ?_⟩
          rcases List.mem_append.mp hz with hz | hz
          · exact hafter z hz
          · rw [List.mem_singleton.mp hz]
            exact hx
    rw [hsplit, lastOfEach_concat]
    cases hx : value x with
    | none => simp
    | some e =>
      obtain ⟨other, w⟩ := e
      rw [List.mem_append, List.mem_filter, decide_eq_true_eq, List.mem_singleton, Option.some_inj, Prod.mk.injEq,
        Prod.mk.injEq]
      constructor
      · rintro (⟨hmem, hne⟩ | ⟨rfl, rfl⟩)
        · refine .inr ⟨fun w' h => ?_, hmem⟩
          rw [Option.some_inj, Prod.mk.injEq] at h
          exact hne h.1.symm
        · exact .inl ⟨rfl, rfl⟩
      · rintro (⟨rfl, rfl⟩ | ⟨hne, hmem⟩)
        · exact .inr ⟨rfl, rfl⟩
        · exact .inl ⟨hmem, fun h => hne w (congrArg some (Prod.ext h.symm rfl))⟩

end

/-! ## Restored choices -/

section

variable {rt : Runtime} {ids : ImportIds} {shelfAt : History} {ask : ImportAsk} {writes : ImportWrites}

/-- **What a choice needs to be restored** for a slug by a bookmark: its slug is that slug, exactly one entry of the file has
its reference, and the bookmark is the one that was created of this entry, with the slug and forwarding. -/
def Restorable (rt : Runtime) (ids : ImportIds) (file : ImportRequest) (created : List ImportBookmark)
    (rows : List ImportNewBookmark) (choice : ImportGoPreference) (slug : JsString) (id : Uuid) : Prop :=
  parseSlug rt.toLowerCase choice.slug = some slug ∧
    ∃ i entry b n, OnlyEntry file.bookmarks choice.bookmarkRef i ∧ file.bookmarks[i]? = some entry ∧
      readImportBookmark rt entry (i + 1) = .bookmark b ∧ created[n]? = some b ∧ ids.newBookmarkId n = id ∧
      ∃ row ∈ rows, row.id = id ∧ row.slug = some slug ∧ row.forwarding = true

/-- The choice that is restored for a choice of the file, when it stands. -/
def restored (rt : Runtime) (file : ImportRequest) (forwarding : List (ℕ × Uuid × JsString)) (choice : ImportGoPreference) :
    Option (JsString × Uuid) :=
  match parseSlug rt.toLowerCase choice.slug,
      ((placeOfRef file.bookmarks choice.bookmarkRef).bind fun place => forwarding.lookup place) with
  | some slug, some (id, kept) => if kept = slug then some (slug, id) else none
  | _, _ => none

theorem choicesToRestore_eq (rt : Runtime) (file : ImportRequest) (forwarding : List (ℕ × Uuid × JsString)) :
    choicesToRestore rt file forwarding = lastOfEach (restored rt file forwarding) file.goPreferences := by
  rw [choicesToRestore, lastOfEach]
  congr 1
  funext chosen choice
  unfold restored
  generalize parseSlug rt.toLowerCase choice.slug = slug
  generalize ((placeOfRef file.bookmarks choice.bookmarkRef).bind fun place => forwarding.lookup place) = found
  rcases slug with _ | slug
  · rfl
  · rcases found with _ | ⟨id, kept⟩
    · rfl
    · dsimp only
      split_ifs <;> rfl

theorem restored_eq_some {file : ImportRequest} {forwarding : List (ℕ × Uuid × JsString)} {choice : ImportGoPreference}
    {slug : JsString} {id : Uuid} : restored rt file forwarding choice = some (slug, id) ↔
      parseSlug rt.toLowerCase choice.slug = some slug ∧
        ∃ i, OnlyEntry file.bookmarks choice.bookmarkRef i ∧ forwarding.lookup (i + 1) = some (id, slug) := by
  unfold restored
  have hplace : ∀ e, ((placeOfRef file.bookmarks choice.bookmarkRef).bind fun place => forwarding.lookup place) = some e ↔
      ∃ i, OnlyEntry file.bookmarks choice.bookmarkRef i ∧ forwarding.lookup (i + 1) = some e := by
    intro e
    rw [Option.bind_eq_some_iff]
    constructor
    · rintro ⟨place, hplace, hlookup⟩
      obtain ⟨i, rfl, honly⟩ := placeOfRef_eq_some.mp hplace
      exact ⟨i, honly, hlookup⟩
    · rintro ⟨i, honly, hlookup⟩
      exact ⟨i + 1, placeOfRef_eq_some.mpr ⟨i, rfl, honly⟩, hlookup⟩
  rw [← hplace]
  generalize parseSlug rt.toLowerCase choice.slug = parsed
  generalize ((placeOfRef file.bookmarks choice.bookmarkRef).bind fun place => forwarding.lookup place) = found
  rcases parsed with _ | parsed
  · simp
  · rcases found with _ | ⟨other, kept⟩
    · simp
    · dsimp only
      split_ifs with hsame
      · subst hsame
        simp only [Option.some_inj, Prod.mk.injEq]
        constructor
        · rintro ⟨rfl, rfl⟩
          exact ⟨rfl, rfl, rfl⟩
        · rintro ⟨rfl, rfl, -⟩
          exact ⟨rfl, rfl⟩
      · simp only [Option.some_inj, Prod.mk.injEq, false_iff]
        rintro ⟨rfl, -, rfl⟩
        exact hsame rfl

/-- Candidates are bookmarks that were read. -/
theorem mem_of_mem_candidatesOf {skipDuplicates : Bool} {existing seen : List JsString} {reads : List Read} {b : ImportBookmark}
    (h : b ∈ candidatesOf (place skipDuplicates existing seen reads)) : Read.bookmark b ∈ reads := by
  induction reads generalizing seen with
  | nil => cases h
  | cons read reads ih =>
    cases read with
    | refusal r => exact List.mem_cons_of_mem _ (ih h)
    | bookmark c =>
      rw [place] at h
      split_ifs at h
      · exact List.mem_cons_of_mem _ (ih h)
      · change b ∈ c :: candidatesOf _ at h
        rcases List.mem_cons.mp h with rfl | h
        · exact List.mem_cons_self
        · exact List.mem_cons_of_mem _ (ih h)

theorem entry_of_mem_readsOf {file : ImportRequest} {b : ImportBookmark} (h : Read.bookmark b ∈ readsOf rt file) :
    ∃ i entry, b.position = i + 1 ∧ file.bookmarks[i]? = some entry ∧ readImportBookmark rt entry (i + 1) = .bookmark b := by
  rw [readsOf, List.mem_map] at h
  obtain ⟨⟨entry, i⟩, hentry, hread⟩ := h
  rw [List.mem_zipIdx_iff_getElem?] at hentry
  refine ⟨i, entry, ?_, hentry, hread⟩
  have hposition := @readImportBookmark_position rt entry (i + 1)
  rw [hread] at hposition
  exact hposition

/-- What an answer `imported` has written of its created bookmarks, and the choices that it restores. -/
theorem importBookmarks_choices {result : ImportResult}
    (h : importBookmarks rt ids shelfAt ask = .ok (.imported result, writes)) :
    ∃ plan lost, writes.bookmarks.Perm (((candidates rt shelfAt ask).take writes.taken).zipIdx.map
        (rowWritten ids ask plan.kept lost)) ∧
      writes.choices = choicesToRestore rt ask.file
        (forwardingOf ids plan lost ((candidates rt shelfAt ask).take writes.taken).zipIdx) := by
  obtain ⟨taken, used, names, hplaces, hle, hcovers, hlinks, h⟩ := importBookmarks_imported h
  obtain ⟨judged, hjudged⟩ :
    ∃ judged, judged = settle taken 0 (placedOf rt shelfAt ask.toImportPreviewAsk) := ⟨_, rfl⟩
  rw [← hjudged] at h
  have hfirst : judged.created = (candidates rt shelfAt ask).take taken := hjudged ▸ settle_created taken 0 _
  obtain ⟨folders, hfolders, h⟩ := ok_of_bind h
  obtain ⟨tags, htags, h⟩ := ok_of_bind h
  obtain ⟨written, hwritten, h⟩ := ok_of_bind h
  cases h
  obtain ⟨lost, hholds⟩ := writeBatches_created hwritten
  rw [hfirst] at hholds
  exact ⟨_, lost, hholds.rows, by rw [hholds.forwarding]⟩

variable {plan : WritePlan} {lost : List Uuid} {done : List Numbered}

theorem mem_forwardingOf {e : ℕ × Uuid × JsString} : e ∈ forwardingOf ids plan lost done ↔ ∃ p ∈ done,
    ids.newBookmarkId p.2 ∉ lost ∧ plan.kept.lookup p.1.position = some e.2.2 ∧ p.1.forwarding = true ∧
      p.1.position = e.1 ∧ ids.newBookmarkId p.2 = e.2.1 := by
  obtain ⟨place, id, slug⟩ := e
  rw [forwardingOf, List.mem_filterMap]
  refine exists_congr fun p => and_congr_right fun _ => ?_
  rw [List.contains_eq_mem]
  by_cases hlost : ids.newBookmarkId p.2 ∈ lost
  · simp [hlost]
  · rw [if_neg (by simpa using hlost)]
    cases hkept : plan.kept.lookup p.1.position with
    | none => simp
    | some kept =>
      dsimp only
      by_cases hforwarding : p.1.forwarding = true
      · rw [if_pos hforwarding]
        simp only [Option.some_inj, Prod.mk.injEq, hlost, not_false_eq_true, hforwarding, true_and]
        tauto
      · rw [if_neg hforwarding]
        simp [hforwarding]

theorem forwardingOf_places : ((forwardingOf ids plan lost done).map Prod.fst).Sublist (done.map (·.1.position)) := by
  induction done with
  | nil => exact List.Sublist.refl _
  | cons p rest ih =>
    have hcons : forwardingOf ids plan lost (p :: rest) = forwardingOf ids plan lost [p] ++ forwardingOf ids plan lost rest := by
      rw [forwardingOf, forwardingOf, forwardingOf, ← List.filterMap_append, List.singleton_append]
    have hone : ((forwardingOf ids plan lost [p]).map Prod.fst).Sublist [p.1.position] := by
      have hmem : ∀ e ∈ forwardingOf ids plan lost [p], e.1 = p.1.position := by
        intro e he
        obtain ⟨q, hq, -, -, -, hposition, -⟩ := mem_forwardingOf.mp he
        rw [← hposition, List.mem_singleton.mp hq]
      have hlength : (forwardingOf ids plan lost [p]).length ≤ 1 := List.length_filterMap_le _ _
      generalize forwardingOf ids plan lost [p] = l at hmem hlength
      rcases l with _ | ⟨e, _ | ⟨f, l⟩⟩
      · exact List.nil_sublist _
      · rw [List.map_singleton, hmem e List.mem_cons_self]
      · simp at hlength
    rw [hcons, List.map_append, List.map_cons]
    exact hone.append ih

theorem candidates_positions (taken : ℕ) :
    ((((candidates rt shelfAt ask).take taken).zipIdx).map (·.1.position)).Nodup := by
  have hpositions := candidatesOf_positions (placedOf rt shelfAt ask.toImportPreviewAsk)
  rw [placedOf, place_positions, readsOf_positions] at hpositions
  have hcomp : (fun p : Numbered => p.1.position) = ImportBookmark.position ∘ Prod.fst := rfl
  rw [hcomp, ← List.map_map, List.zipIdx_map_fst]
  exact (((List.take_sublist _ _).map _).trans hpositions).nodup List.nodup_range'

/-- A choice is restored exactly when it is restorable. -/
theorem restored_iff_restorable (taken : ℕ) {rows : List ImportNewBookmark} (hrows : rows.Perm
    (((candidates rt shelfAt ask).take taken).zipIdx.map (rowWritten ids ask plan.kept lost))) (choice : ImportGoPreference)
    (slug : JsString) (id : Uuid) :
    restored rt ask.file (forwardingOf ids plan lost ((candidates rt shelfAt ask).take taken).zipIdx) choice = some (slug, id) ↔
      Restorable rt ids ask.file ((candidates rt shelfAt ask).take taken) rows choice slug id := by
  rw [restored_eq_some, Restorable]
  refine and_congr_right fun _ => ?_
  have hnodup : ((((candidates rt shelfAt ask).take taken).zipIdx).map (·.1.position)).Nodup := candidates_positions taken
  constructor
  · rintro ⟨i, honly, hlookup⟩
    obtain ⟨l₁, l₂, hsplit, -⟩ := List.lookup_eq_some_iff.mp hlookup
    have hmem : (i + 1, id, slug) ∈ forwardingOf ids plan lost ((candidates rt shelfAt ask).take taken).zipIdx :=
      hsplit ▸ List.mem_append_right _ List.mem_cons_self
    obtain ⟨⟨b, n⟩, hb, hlost, hkept, hforwarding, hposition, hid⟩ := mem_forwardingOf.mp hmem
    dsimp only at hlost hkept hforwarding hposition hid
    rw [List.mem_zipIdx_iff_getElem?] at hb
    have hread := mem_of_mem_candidatesOf (List.mem_of_mem_take (List.mem_of_getElem? hb))
    obtain ⟨j, entry, hj, hentry, hreads⟩ := entry_of_mem_readsOf hread
    obtain rfl : j = i := Nat.succ.inj (hj.symm.trans hposition)
    refine ⟨j, entry, b, n, honly, hentry, hreads, hb, hid, rowWritten ids ask plan.kept lost (b, n), ?_, ?_⟩
    · exact hrows.mem_iff.mpr (List.mem_map_of_mem (List.mem_zipIdx_iff_getElem?.mpr hb))
    · rw [rowWritten, if_neg hlost]
      refine ⟨hid, hkept, ?_⟩
      simp only [rowOf, hkept, Option.isSome_some, hforwarding, Bool.and_self]
  · rintro ⟨i, entry, b, n, honly, hentry, hreads, hb, hid, row, hrow, hrowId, hslug, hforwarding⟩
    have hposition : b.position = i + 1 := by
      have hread := @readImportBookmark_position rt entry (i + 1)
      rw [hreads] at hread
      exact hread
    obtain ⟨⟨c, m⟩, hc, rfl⟩ := List.mem_map.mp (hrows.mem_iff.mp hrow)
    rw [List.mem_zipIdx_iff_getElem?] at hc
    unfold rowWritten at hrowId hslug hforwarding
    split_ifs at hrowId hslug hforwarding with hlost
    · cases hslug
    · -- the row is that of the created bookmark
      obtain rfl : m = n := ids.ascending.injective (hrowId.trans hid.symm)
      obtain rfl : c = b := Option.some.inj (hc.symm.trans hb)
      have hmem : (i + 1, id, slug) ∈ forwardingOf ids plan lost ((candidates rt shelfAt ask).take taken).zipIdx := by
        refine mem_forwardingOf.mpr ⟨(c, m), List.mem_zipIdx_iff_getElem?.mpr hc, hlost, hslug, ?_, hposition, hid⟩
        rw [rowOf, Bool.and_eq_true] at hforwarding
        exact hforwarding.2
      exact ⟨i, honly, lookup_of_mem (forwardingOf_places.nodup hnodup) hmem⟩

/-- **The choices that an import restores**: at most one for each slug, and of the choices of the file that are restorable
for a slug the last, for every file and whatever other transactions do between the statements of the import. -/
theorem choices_exact (rt : Runtime) (ids : ImportIds) (shelfAt : History) (ask : ImportAsk) (result : ImportResult)
    (writes : ImportWrites) (h : importBookmarks rt ids shelfAt ask = .ok (.imported result, writes)) :
    (writes.choices.map Prod.fst).Nodup ∧
    ∀ slug id, (slug, id) ∈ writes.choices ↔ ∃ before choice after, ask.file.goPreferences = before ++ choice :: after ∧
      Restorable rt ids ask.file ((candidates rt shelfAt ask).take writes.taken) writes.bookmarks choice slug id ∧
      ∀ later ∈ after, ∀ other,
        ¬ Restorable rt ids ask.file ((candidates rt shelfAt ask).take writes.taken) writes.bookmarks later slug other := by
  obtain ⟨plan, lost, hrows, hchoices⟩ := importBookmarks_choices h
  rw [choicesToRestore_eq] at hchoices
  have hiff := restored_iff_restorable writes.taken hrows
  refine ⟨hchoices ▸ lastOfEach_nodup _, fun slug id => ?_⟩
  rw [hchoices, mem_lastOfEach]
  simp only [ne_eq, hiff]

/-- A bookmark with a slug that forwards, and two choices for it, one of them by a reference of no entry. -/
def oneChosen : ImportRequest where
  envelope := some { goPreferences := some [⟨js "x", js "r"⟩, ⟨js "x", js "s"⟩] }
  bookmarks := [{ ref := some (js "r"), url := js "http://a", slug := some (js "x"), forwarding := some true }]
  atMost := by decide

end

/-- The import of the bookmark and its choices. -/
def oneChosenAsk : ImportAsk := ⟨⟨oneChosen, false, some 2⟩, 1, 2⟩

set_option maxRecDepth 4000 in
theorem choices_exact_oneChosen : ∃ (result : ImportResult) (writes : ImportWrites),
    importBookmarks plainRuntime countingIds oneTakenMeanwhile oneChosenAsk = .ok (.imported result, writes) ∧
      writes.choices = [(js "x", 100)] ∧ (writes.choices.map Prod.fst).Nodup := by
  obtain ⟨result, writes, himport, hchoices⟩ : ∃ (result : ImportResult) (writes : ImportWrites),
      importBookmarks plainRuntime countingIds oneTakenMeanwhile oneChosenAsk = .ok (.imported result, writes) ∧
        writes.choices = [(js "x", 100)] := ⟨_, _, rfl, rfl⟩
  exact ⟨result, writes, himport, hchoices,
    (choices_exact plainRuntime countingIds oneTakenMeanwhile oneChosenAsk result writes himport).1⟩

end SlugBase.Import
