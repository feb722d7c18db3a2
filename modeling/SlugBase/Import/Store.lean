import SlugBase.Bookmark.Creation
import SlugBase.Import.File

/-!
# The store of an import

The reads and writes of an import, for the account and the workspace of its transaction. Each statement
sees the rows that are committed when it runs, which other transactions may have changed since the
statement before, and the rows the transaction has written itself.

* `Shelf`: the committed rows of the account in the workspace, with the reads of the preview on it;
* `takePlaces`: the places under the ceiling; **`takePlaces_of_sys`**: as `sys_bookmark_count_take_many` gives them;
* `resolveNames`: the account's folders or tags of each name, created where there are none;
  **`resolveNames_ok`** for any rows of other transactions, `resolveNames_steady` for rows that stay;
* `insertBookmarks`: the rows of a batch, without a slug that is taken by then; **`insertBookmarks_ok`**.
-/

namespace SlugBase.Import

open JavaScript Relational

/-! ## What the account has -/

/-- A bookmark the account owns, as the import reads it. -/
structure ShelfBookmark where
  id : Uuid
  urlCanonical : JsString
  slug : Option JsString
  planArchived : Bool
  deriving DecidableEq, Repr

/-- A folder or a tag the account owns. -/
structure NamedRow where
  id : Uuid
  name : JsString
  deriving DecidableEq, Repr

/-- The committed rows of the account in the workspace; no count when the workspace cannot be read. -/
structure Shelf where
  bookmarkCount : Option ℤ
  bookmarks : List ShelfBookmark := []
  folders : List NamedRow := []
  tags : List NamedRow := []
  deriving DecidableEq, Repr

namespace Shelf

variable (s : Shelf)

/-- Those of `canonicals` that the account has on a bookmark that is not plan-archived. -/
def existingCanonicalUrls (canonicals : List JsString) : List JsString :=
  canonicals.filter fun u => s.bookmarks.any fun b => !b.planArchived && b.urlCanonical == u

/-- Those of `slugs` that the account has on a bookmark, plan-archived or not. -/
def existingSlugs (slugs : List JsString) : List JsString :=
  slugs.filter fun slug => s.bookmarks.any fun b => b.slug == some slug

end Shelf

/-- Those of `names` that match a row, without regard to case. -/
def existingNames (rt : Runtime) (rows : List NamedRow) (names : List JsString) : List JsString :=
  names.filter fun n => rows.any fun row => rt.citext row.name == rt.citext n

/-- What the store answers to the request for places under the ceiling. -/
inductive ImportPlaces
  | unavailable
  | taken (taken : ℕ) (used : ℤ)
  deriving DecidableEq, Repr

/-- Takes up to `wanted` places under `ceiling` (none: no limit). -/
def Shelf.takePlaces (s : Shelf) (ceiling : Option ℕ) (wanted : ℕ) : ImportPlaces :=
  match s.bookmarkCount with
  | none => .unavailable
  | some count =>
    let taken := placesTaken (ceiling.map fun max : ℕ => (max : ℤ)) wanted count
    .taken taken.toNat (count + taken)

/-- What the tables hold of an account in a workspace that is not being deleted and that it is a member of. -/
def shelfOf (c : Content) (w a : Uuid) : Shelf where
  bookmarkCount := if c.isMember w a then (c.liveWorkspace w).map (·.bookmarkCount) else none
  bookmarks := (c.bookmarks.rows.filter fun b => b.workspaceId = w ∧ b.ownerId = some a).map fun b =>
    ⟨b.id, js b.urlCanonical, b.slug.map js, b.planArchivedAt.isSome⟩
  folders := (c.folders.rows.filter fun f => f.workspaceId = w ∧ f.ownerId = some a).map fun f => ⟨f.id, js f.name⟩
  tags := (c.tags.rows.filter fun t => t.workspaceId = w ∧ t.ownerId = a).map fun t => ⟨t.id, js t.name⟩

/-- **The places are those of the system operation**: it answers as many, and moves the counter by them. -/
theorem takePlaces_of_sys {s : Session} {c c' : Content} {w a : Uuid} {ceiling : Option ℕ} {wanted : ℕ} {t : TakenMany}
    (hs : s.actsIn w = some a)
    (h : sysBookmarkCountTakeMany s (some w) (ceiling.map fun max : ℕ => (max : ℤ)) (some wanted) c = .ok (t, c')) :
    match (shelfOf c w a).takePlaces ceiling wanted with
    | .unavailable => t = .unavailable ∧ c' = c
    | .taken taken used => t.places = some ((taken : ℤ), used) ∧ c' = { c with workspaces := c.shiftCount w taken } := by
  unfold sysBookmarkCountTakeMany at h
  dsimp only at h
  split_ifs at h with hargs
  rw [hs] at h
  dsimp only at h
  simp only [Shelf.takePlaces, shelfOf]
  split_ifs at h with hmember
  · simp only [Bool.not_eq_true'] at hmember
    cases h
    simp [hmember]
  simp only [Bool.not_eq_true', Bool.not_eq_false] at hmember
  rw [if_pos hmember]
  cases hrow : c.liveWorkspace w with
  | none =>
    rw [hrow] at h
    cases h
    exact ⟨rfl, rfl⟩
  | some r =>
    rw [hrow] at h
    obtain ⟨c₁, hc, h⟩ := ok_of_bind h
    obtain ⟨n, hn⟩ : ∃ n, n = placesTaken (ceiling.map fun max : ℕ => (max : ℤ)) wanted r.bookmarkCount := ⟨_, rfl⟩
    have hnonneg : 0 ≤ n := hn ▸ placesTaken_nonneg (Int.natCast_nonneg wanted)
    have hcast : ((n.toNat : ℕ) : ℤ) = n := Int.toNat_of_nonneg hnonneg
    simp only [Option.map_some, ← hn, hcast] at h ⊢
    rw [← hn] at hc
    have hmoved : c₁ = { c with workspaces := c.shiftCount w n } := by
      split_ifs at hc with hpos
      · exact Content.addToCount_ok hc
      · have hzero : n = 0 := le_antisymm (not_lt.mp hpos) hnonneg
        rw [hzero, Content.shiftCount_zero]
        exact (Except.ok.inj hc).symm
    split_ifs at h <;> cases h <;> exact ⟨rfl, hmoved⟩

/-! ## Folders and tags by name -/

/-- A folder or a tag to get or create; a tag has no icon and no colour. -/
structure NameToResolve where
  id : Uuid
  name : JsString
  icon : Option JsString := none
  color : Option ℤ := none
  deriving DecidableEq, Repr

def NameToResolve.row (n : NameToResolve) : NamedRow := ⟨n.id, n.name⟩

/-- What the store answers: the identifier of each name asked, and the rows this call created. -/
structure ImportResolved where
  ids : List (JsString × Uuid) := []
  created : List NameToResolve := []
  deriving DecidableEq, Repr

/-- The rounds `resolveNames` reads and inserts for the names it is missing. -/
def resolveRounds : ℕ := 4

/-- New names in the order of their lower-cased names. -/
def byLowerCaseName (rt : Runtime) (a b : NameToResolve) : Prop := ¬ rt.toLowerCase b.name < rt.toLowerCase a.name

instance (rt : Runtime) : DecidableRel (byLowerCaseName rt) := fun a b => by
  unfold byLowerCaseName
  infer_instance

section

variable (rt : Runtime)

/-- The names that no identifier is known of. -/
def pendingOf (wanted : List NameToResolve) (ids : List (JsString × Uuid)) : List NameToResolve :=
  wanted.filter fun entry => ids.all fun p => p.1 != entry.name

/-- The rows found for the pending names; the unique index leaves at most one row for each. -/
def foundOf (rows : List NamedRow) (pending : List NameToResolve) : List (JsString × Uuid) :=
  pending.filterMap fun entry =>
    (rows.find? fun row => rt.citext row.name == rt.citext entry.name).map fun row => (entry.name, row.id)

/-- `INSERT … ON CONFLICT (workspace_id, owner_id, name) DO NOTHING`: the rows that are inserted. -/
def insertNames (rows : List NamedRow) : List NameToResolve → List NameToResolve
  | [] => []
  | entry :: rest =>
    if rows.any fun row => rt.citext row.name == rt.citext entry.name then insertNames rows rest
    else entry :: insertNames (entry.row :: rows) rest

/-- A round's read: the rows of the names that are pending; nothing is read when none is. -/
def readNames (rows : List NamedRow) (wanted : List NameToResolve) (r : ImportResolved) : ImportResolved :=
  { r with ids := r.ids ++ foundOf rt (rows ++ r.created.map NameToResolve.row) (pendingOf wanted r.ids) }

/-- The names a round inserts: those that are still missing, in the order the index is entered. -/
def missingOf (wanted : List NameToResolve) (r : ImportResolved) : List NameToResolve :=
  (pendingOf wanted r.ids).insertionSort (byLowerCaseName rt)

/-- A round's insert: what another transaction created at the same time is left. -/
def insertMissing (rows : List NamedRow) (missing : List NameToResolve) (r : ImportResolved) : ImportResolved :=
  { r with created := r.created ++ insertNames rt (rows ++ r.created.map NameToResolve.row) missing }

/-- The rounds: the rows are read, those that are missing inserted, and read again. -/
def resolveFrom (readAt insertAt : ℕ → List NamedRow) (wanted : List NameToResolve) :
    ℕ → ImportResolved → Except String ImportResolved
  | left, r =>
    let read := readNames rt (readAt (resolveRounds - left)) wanted r
    let missing := missingOf rt wanted read
    if missing = [] then .ok read
    else
      match left with
      | 0 => .error "a folder or a tag the import creates was deleted by another transaction again and again"
      | left + 1 =>
        resolveFrom readAt insertAt wanted left
          (insertMissing rt (insertAt (resolveRounds - (left + 1))) missing read)

/-- Gets the account's folder or tag of each name or creates it. -/
def resolveNames (readAt insertAt : ℕ → List NamedRow) (wanted : List NameToResolve) : Except String ImportResolved :=
  resolveFrom rt readAt insertAt wanted (resolveRounds - 1) {}

end

section

variable {rt : Runtime}

@[simp] theorem mem_pendingOf {wanted : List NameToResolve} {ids : List (JsString × Uuid)} {e : NameToResolve} :
    e ∈ pendingOf wanted ids ↔ e ∈ wanted ∧ ∀ p ∈ ids, p.1 ≠ e.name := by
  simp [pendingOf]

@[simp] theorem mem_missingOf {wanted : List NameToResolve} {r : ImportResolved} {e : NameToResolve} :
    e ∈ missingOf rt wanted r ↔ e ∈ wanted ∧ ∀ p ∈ r.ids, p.1 ≠ e.name := by
  rw [missingOf, List.mem_insertionSort, mem_pendingOf]

theorem known_of_missingOf_nil {wanted : List NameToResolve} {r : ImportResolved} (h : missingOf rt wanted r = []) :
    ∀ e ∈ wanted, ∃ p ∈ r.ids, p.1 = e.name := by
  intro e he
  by_contra hno
  have hmem : e ∈ missingOf rt wanted r := mem_missingOf.mpr ⟨he, fun p hp heq => hno ⟨p, hp, heq⟩⟩
  rw [h] at hmem
  exact List.not_mem_nil hmem

theorem of_mem_foundOf {rows : List NamedRow} {pending : List NameToResolve} {p : JsString × Uuid}
    (h : p ∈ foundOf rt rows pending) :
    ∃ e ∈ pending, e.name = p.1 ∧ ∃ row ∈ rows, row.id = p.2 ∧ rt.citext row.name = rt.citext p.1 := by
  obtain ⟨e, he, hp⟩ := List.mem_filterMap.mp h
  obtain ⟨row, hrow, rfl⟩ := Option.map_eq_some_iff.mp hp
  have hfold := List.find?_some hrow
  exact ⟨e, he, rfl, row, List.mem_of_find?_eq_some hrow, rfl, by simpa using hfold⟩

theorem exists_mem_foundOf {rows : List NamedRow} {pending : List NameToResolve} {e : NameToResolve}
    (he : e ∈ pending) {row : NamedRow} (hrow : row ∈ rows) (h : rt.citext row.name = rt.citext e.name) :
    ∃ p ∈ foundOf rt rows pending, p.1 = e.name := by
  obtain ⟨found, hfound⟩ : ∃ found, rows.find? (fun row => rt.citext row.name == rt.citext e.name) = some found :=
    Option.isSome_iff_exists.mp (List.find?_isSome.mpr ⟨row, hrow, by simpa using h⟩)
  exact ⟨(e.name, found.id), List.mem_filterMap.mpr ⟨e, he, by rw [hfound]; rfl⟩, rfl⟩

theorem insertNames_sublist (rows : List NamedRow) (missing : List NameToResolve) :
    (insertNames rt rows missing).Sublist missing := by
  induction missing generalizing rows with
  | nil => exact List.Sublist.refl _
  | cons e rest ih =>
    rw [insertNames]
    split
    · exact (ih rows).cons e
    · exact (ih _).cons_cons e

/-- Names that differ from each other and from every row are all inserted. -/
theorem insertNames_all {rows : List NamedRow} {missing : List NameToResolve}
    (hd : missing.Pairwise fun a b => rt.citext a.name ≠ rt.citext b.name)
    (hn : ∀ e ∈ missing, ∀ row ∈ rows, rt.citext row.name ≠ rt.citext e.name) :
    insertNames rt rows missing = missing := by
  induction missing generalizing rows with
  | nil => rfl
  | cons e rest ih =>
    obtain ⟨he, hrest⟩ := List.pairwise_cons.mp hd
    rw [insertNames, if_neg, ih hrest]
    · intro e' he' row hrow
      rcases List.mem_cons.mp hrow with rfl | hrow
      · exact he e' he'
      · exact hn e' (List.mem_cons_of_mem _ he') row hrow
    · simpa using fun row hrow => hn e List.mem_cons_self row hrow

/-- Every known identifier is that of a row of its name, committed or created, and what is created was wanted. -/
structure ImportResolved.Sound (rt : Runtime) (readAt : ℕ → List NamedRow) (wanted : List NameToResolve)
    (r : ImportResolved) : Prop where
  ids : ∀ p ∈ r.ids, ∃ row, ((∃ round, row ∈ readAt round) ∨ row ∈ r.created.map NameToResolve.row) ∧
    row.id = p.2 ∧ rt.citext row.name = rt.citext p.1
  created : ∀ e ∈ r.created, e ∈ wanted

namespace ImportResolved.Sound

variable {readAt : ℕ → List NamedRow} {wanted : List NameToResolve} {r : ImportResolved}

theorem readNames (h : r.Sound rt readAt wanted) (round : ℕ) :
    (Import.readNames rt (readAt round) wanted r).Sound rt readAt wanted where
  ids p hp := by
    rcases List.mem_append.mp hp with hp | hp
    · exact h.ids p hp
    · obtain ⟨-, -, -, row, hrow, hid, hfold⟩ := of_mem_foundOf hp
      refine ⟨row, ?_, hid, hfold⟩
      rcases List.mem_append.mp hrow with hrow | hrow
      · exact .inl ⟨round, hrow⟩
      · exact .inr hrow
  created := h.created

theorem insertMissing (h : r.Sound rt readAt wanted) (rows : List NamedRow) :
    (Import.insertMissing rt rows (missingOf rt wanted r) r).Sound rt readAt wanted where
  ids p hp := by
    obtain ⟨row, hrow, hid, hfold⟩ := h.ids p hp
    refine ⟨row, hrow.imp_right fun hown => ?_, hid, hfold⟩
    rw [Import.insertMissing, List.map_append]
    exact List.mem_append_left _ hown
  created e he := by
    rcases List.mem_append.mp he with he | he
    · exact h.created e he
    · exact (mem_missingOf.mp ((insertNames_sublist _ _).subset he)).1

/-- The rounds keep it, and end with an identifier of every wanted name. -/
theorem resolveFrom {insertAt : ℕ → List NamedRow} {left : ℕ} {r' : ImportResolved} (h : r.Sound rt readAt wanted)
    (hr : Import.resolveFrom rt readAt insertAt wanted left r = .ok r') :
    r'.Sound rt readAt wanted ∧ ∀ e ∈ wanted, ∃ p ∈ r'.ids, p.1 = e.name := by
  induction left generalizing r with
  | zero =>
    rw [Import.resolveFrom] at hr
    split at hr
    · rename_i hnone
      obtain rfl := Except.ok.inj hr
      exact ⟨h.readNames _, known_of_missingOf_nil hnone⟩
    · cases hr
  | succ left ih =>
    rw [Import.resolveFrom] at hr
    split at hr
    · rename_i hnone
      obtain rfl := Except.ok.inj hr
      exact ⟨h.readNames _, known_of_missingOf_nil hnone⟩
    · exact ih ((h.readNames _).insertMissing _) hr

end ImportResolved.Sound

/-- **What resolving answers**, whatever other transactions do between its rounds. -/
theorem resolveNames_ok {readAt insertAt : ℕ → List NamedRow} {wanted : List NameToResolve} {r : ImportResolved}
    (h : resolveNames rt readAt insertAt wanted = .ok r) :
    r.Sound rt readAt wanted ∧ ∀ e ∈ wanted, ∃ p ∈ r.ids, p.1 = e.name :=
  ImportResolved.Sound.resolveFrom
    ⟨fun _ hp => absurd hp List.not_mem_nil, fun _ he => absurd he List.not_mem_nil⟩ h

/-- The names a first round misses are those that no row has. -/
theorem missingOf_readNames (rt : Runtime) (rows : List NamedRow) (wanted : List NameToResolve) :
    (missingOf rt wanted (readNames rt rows wanted {})).Perm
      (wanted.filter fun e => !rows.any fun row => rt.citext row.name == rt.citext e.name) := by
  refine (List.perm_insertionSort _ _).trans (List.Perm.of_eq ?_)
  refine List.filter_congr fun e he => ?_
  rw [Bool.eq_iff_iff]
  simp only [readNames, List.nil_append, List.map_nil, List.append_nil, List.all_eq_true, bne_iff_ne, ne_eq,
    Bool.not_eq_true', List.any_eq_false, beq_iff_eq]
  constructor
  · intro h row hrow hfold
    have hpending : e ∈ pendingOf wanted [] := mem_pendingOf.mpr ⟨he, fun p hp => absurd hp List.not_mem_nil⟩
    obtain ⟨p, hp, hname⟩ := exists_mem_foundOf hpending hrow hfold
    exact h p hp hname
  · intro h p hp hname
    obtain ⟨-, -, -, row, hrow, -, hfold⟩ := of_mem_foundOf hp
    exact h row hrow (hname ▸ hfold)

/-- **Resolving among rows that stay** ends, and creates the names that no row has. -/
theorem resolveNames_steady {rows : List NamedRow} {wanted : List NameToResolve}
    (hd : wanted.Pairwise fun a b => rt.citext a.name ≠ rt.citext b.name) :
    ∃ r, resolveNames rt (fun _ => rows) (fun _ => rows) wanted = .ok r ∧
      r.created.Perm (wanted.filter fun e => !rows.any fun row => rt.citext row.name == rt.citext e.name) := by
  obtain ⟨read, hread⟩ : ∃ read, read = readNames rt rows wanted {} := ⟨_, rfl⟩
  have hperm := missingOf_readNames rt rows wanted
  rw [← hread] at hperm
  have hcreated : read.created = [] := hread ▸ rfl
  simp only [resolveNames, resolveRounds, resolveFrom, ← hread]
  by_cases hnone : missingOf rt wanted read = []
  · rw [if_pos hnone]
    exact ⟨read, rfl, by rw [hcreated]; exact hnone ▸ hperm⟩
  rw [if_neg hnone]
  have hall : insertNames rt rows (missingOf rt wanted read) = missingOf rt wanted read := by
    refine insertNames_all ?_ fun e he row hrow => ?_
    · refine (hperm.pairwise_iff fun h => Ne.symm h).mpr (hd.filter _)
    · have := (List.mem_filter.mp (hperm.mem_iff.mp he)).2
      simp only [Bool.not_eq_true', List.any_eq_false, beq_iff_eq] at this
      exact this row hrow
  obtain ⟨next, hnext⟩ : ∃ next, next = insertMissing rt rows (missingOf rt wanted read) read := ⟨_, rfl⟩
  have hnextCreated : next.created = missingOf rt wanted read := by
    rw [hnext, insertMissing, hcreated, List.map_nil, List.append_nil, List.nil_append, hall]
  -- the second round finds the rows that the first one missed and created
  have hfound : missingOf rt wanted (readNames rt rows wanted next) = [] := by
    refine List.eq_nil_iff_forall_not_mem.mpr fun e he => ?_
    obtain ⟨he, hno⟩ := mem_missingOf.mp he
    have hpending : e ∈ pendingOf wanted next.ids :=
      mem_pendingOf.mpr ⟨he, fun p hp => hno p (List.mem_append_left _ hp)⟩
    have hmissing : e ∈ missingOf rt wanted read :=
      mem_missingOf.mpr ⟨he, fun p hp => hno p (List.mem_append_left _ (hnext ▸ hp))⟩
    have hrow : e.row ∈ rows ++ next.created.map NameToResolve.row :=
      List.mem_append_right _ (List.mem_map_of_mem (hnextCreated ▸ hmissing))
    obtain ⟨p, hp, hname⟩ := exists_mem_foundOf hpending hrow rfl
    exact hno p (List.mem_append_right _ hp) hname
  rw [← hnext, if_pos hfound]
  exact ⟨_, rfl, by rw [readNames, hnextCreated]; exact hperm⟩

end

/-! ## The rows of a batch -/

/-- A bookmark the import creates. -/
structure ImportNewBookmark where
  id : Uuid
  ownerId : Uuid
  url : JsString
  urlCanonical : JsString
  host : JsString
  title : JsString
  description : Option JsString
  pinned : Bool
  slug : Option JsString
  forwarding : Bool
  deriving DecidableEq, Repr

namespace ImportNewBookmark

/-- The bookmark as it is inserted when its slug is taken by then. -/
def withoutSlug (b : ImportNewBookmark) : ImportNewBookmark := { b with slug := none, forwarding := false }

/-- Whether a row with this identifier and slug keeps `b` out of the table: `bookmarks_pkey`,
`bookmarks_owner_slug_key`. -/
def clashes (b : ImportNewBookmark) (id : Uuid) (slug : Option JsString) : Bool :=
  id == b.id || (b.slug.isSome && slug == b.slug)

/-- Whether a row of the table keeps `b` out. -/
def conflicts (b : ImportNewBookmark) (rows : List ShelfBookmark) (own : List ImportNewBookmark) : Bool :=
  rows.any (fun r => b.clashes r.id r.slug) || own.any fun r => b.clashes r.id r.slug

end ImportNewBookmark

/-- `INSERT INTO bookmarks … ON CONFLICT DO NOTHING`: the rows of the batch that are inserted. -/
def insertRows (rows : List ShelfBookmark) (own : List ImportNewBookmark) : List ImportNewBookmark → List ImportNewBookmark
  | [] => []
  | b :: rest => if b.conflicts rows own then insertRows rows own rest else b :: insertRows rows (own ++ [b]) rest

/-- Inserts the bookmarks; a bookmark that is left out is inserted again without its slug. Answers the rows
of the transaction and the identifiers of the bookmarks that lost their slug. -/
def insertBookmarks (first again : Shelf) (own batch : List ImportNewBookmark) :
    Except String (List ImportNewBookmark × List Uuid) :=
  let inserted := insertRows first.bookmarks own batch
  let left := batch.filter fun b => !(inserted.map (·.id)).contains b.id
  if left.any (·.slug.isNone) then .error "the insert left out a bookmark that holds no slug"
  else
    let secondly := insertRows again.bookmarks (own ++ inserted) (left.map (·.withoutSlug))
    if secondly.length ≠ left.length then .error "the insert left out a bookmark that holds no slug"
    else .ok (own ++ inserted ++ secondly, left.map (·.id))

theorem insertRows_sublist (rows : List ShelfBookmark) (own batch : List ImportNewBookmark) :
    (insertRows rows own batch).Sublist batch := by
  induction batch generalizing own with
  | nil => exact List.Sublist.refl _
  | cons b rest ih =>
    rw [insertRows]
    split
    · exact (ih own).cons b
    · exact (ih _).cons_cons b

theorem insertRows_free {rows : List ShelfBookmark} {own batch : List ImportNewBookmark} {b : ImportNewBookmark}
    (h : b ∈ insertRows rows own batch) : b.conflicts rows own = false := by
  induction batch generalizing own with
  | nil => cases h
  | cons b' rest ih =>
    rw [insertRows] at h
    split at h
    · exact ih h
    · rename_i hfree
      rcases List.mem_cons.mp h with rfl | h
      · exact Bool.eq_false_iff.mpr hfree
      · have := ih h
        simp only [ImportNewBookmark.conflicts, List.any_append, Bool.or_eq_false_iff] at this ⊢
        exact ⟨this.1, this.2.1⟩

theorem insertRows_pairwise (rows : List ShelfBookmark) (own batch : List ImportNewBookmark) :
    (insertRows rows own batch).Pairwise fun a b => b.clashes a.id a.slug = false := by
  induction batch generalizing own with
  | nil => exact List.Pairwise.nil
  | cons b rest ih =>
    rw [insertRows]
    split
    · exact ih own
    · refine List.pairwise_cons.mpr ⟨fun c hc => ?_, ih _⟩
      have hfree := insertRows_free hc
      simp only [ImportNewBookmark.conflicts, List.any_append, List.any_cons, List.any_nil, Bool.or_false,
        Bool.or_eq_false_iff] at hfree
      exact hfree.2.2

theorem insertRows_all {rows : List ShelfBookmark} {own batch : List ImportNewBookmark}
    (hd : batch.Pairwise fun a b => b.clashes a.id a.slug = false)
    (hn : ∀ b ∈ batch, b.conflicts rows own = false) : insertRows rows own batch = batch := by
  induction batch generalizing own with
  | nil => rfl
  | cons b rest ih =>
    obtain ⟨hb, hrest⟩ := List.pairwise_cons.mp hd
    rw [insertRows, if_neg (Bool.eq_false_iff.mp (hn b List.mem_cons_self)), ih hrest]
    intro c hc
    have hfree := hn c (List.mem_cons_of_mem _ hc)
    simp only [ImportNewBookmark.conflicts, List.any_append, List.any_cons, List.any_nil, Bool.or_false,
      Bool.or_eq_false_iff] at hfree ⊢
    exact ⟨hfree.1, hfree.2, hb c hc⟩

/-- **What inserting a batch does**, whatever slugs other transactions take meanwhile: every bookmark of the
batch is inserted once, as it was given or without its slug, and no slug is written twice. -/
theorem insertBookmarks_ok {first again : Shelf} {own batch own' : List ImportNewBookmark} {lost : List Uuid}
    (hids : (batch.map (·.id)).Nodup) (h : insertBookmarks first again own batch = .ok (own', lost)) :
    ∃ added, own' = own ++ added ∧
      added.Perm (batch.map fun b => if b.id ∈ lost then b.withoutSlug else b) ∧
      (∀ b ∈ batch, b.id ∈ lost → b.slug ≠ none) ∧
      (∀ a ∈ added, ∀ slug, a.slug = some slug →
        (∀ r ∈ first.bookmarks, r.slug ≠ some slug) ∧ ∀ r ∈ own, r.slug ≠ some slug) ∧
      (added.filterMap (·.slug)).Nodup := by
  obtain ⟨inserted, hi⟩ : ∃ l, l = insertRows first.bookmarks own batch := ⟨_, rfl⟩
  obtain ⟨left, hl⟩ : ∃ l, l = batch.filter fun b => !(inserted.map (·.id)).contains b.id := ⟨_, rfl⟩
  simp only [insertBookmarks, ← hi, ← hl] at h
  split at h
  · cases h
  rename_i hslugs
  split at h
  · cases h
  rename_i hlength
  obtain ⟨hown, rfl⟩ := Prod.mk.inj (Except.ok.inj h)
  have hsecond : insertRows again.bookmarks (own ++ inserted) (left.map (·.withoutSlug)) =
      left.map (·.withoutSlug) :=
    (insertRows_sublist _ _ _).eq_of_length (by rw [List.length_map]; exact not_not.mp hlength)
  rw [hsecond] at hown
  have hlost : ∀ b ∈ batch, b.id ∈ left.map (·.id) ↔ b ∈ left := by
    intro b hb
    refine ⟨fun hmem => ?_, fun hmem => List.mem_map_of_mem hmem⟩
    obtain ⟨c, hc, hid⟩ := List.mem_map.mp hmem
    rw [hl, List.mem_filter, hid] at hc
    exact hl ▸ List.mem_filter.mpr ⟨hb, hc.2⟩
  refine ⟨inserted ++ left.map (·.withoutSlug), by rw [← hown, List.append_assoc], ?_, ?_, ?_, ?_⟩
  · -- the batch is what the first insert took and what it left
    have hkept : (batch.filter fun b => (inserted.map (·.id)).contains b.id).Perm inserted := by
      refine (List.perm_ext_iff_of_nodup ((List.Nodup.of_map _ hids).filter _) ?_).mpr fun b => ?_
      · exact (hi ▸ insertRows_sublist _ _ _ : inserted.Sublist batch).nodup (List.Nodup.of_map _ hids)
      · simp only [List.mem_filter, List.contains_iff_mem, List.mem_map]
        constructor
        · rintro ⟨hb, c, hc, hid⟩
          have hcb : c ∈ batch := (hi ▸ insertRows_sublist _ _ _ : inserted.Sublist batch).subset hc
          exact List.inj_on_of_nodup_map hids hcb hb hid ▸ hc
        · intro hb
          exact ⟨(hi ▸ insertRows_sublist _ _ _ : inserted.Sublist batch).subset hb, b, hb, rfl⟩
    have hsplit := (List.filter_append_perm (fun b => (inserted.map (·.id)).contains b.id) batch).symm.map
      fun b => if b.id ∈ left.map (·.id) then b.withoutSlug else b
    rw [List.map_append, ← hl] at hsplit
    refine (hsplit.trans (List.Perm.append ?_ (List.Perm.of_eq ?_))).symm
    · rw [List.map_congr_left (g := id), List.map_id]
      · exact hkept
      · intro b hb
        obtain ⟨hb, hin⟩ := List.mem_filter.mp hb
        refine if_neg fun hmem => ?_
        have := ((hlost b hb).mp hmem)
        rw [hl, List.mem_filter, hin] at this
        exact absurd this.2 (by simp)
    · exact List.map_congr_left fun b hb => if_pos (List.mem_map_of_mem hb)
  · intro b hb hmem hnone
    refine hslugs (List.any_eq_true.mpr ⟨b, (hlost b hb).mp hmem, ?_⟩)
    rw [hnone]
    rfl
  · intro a ha slug hslug
    rcases List.mem_append.mp ha with ha | ha
    · have hfree := insertRows_free (hi ▸ ha)
      simp only [ImportNewBookmark.conflicts, ImportNewBookmark.clashes, hslug, Bool.or_eq_false_iff,
        List.any_eq_false, Option.isSome_some, Bool.true_and, Bool.or_eq_true, beq_iff_eq, not_or] at hfree
      exact ⟨fun r hr => (hfree.1 r hr).2, fun r hr => (hfree.2 r hr).2⟩
    · obtain ⟨b, -, rfl⟩ := List.mem_map.mp ha
      cases hslug
  · have hnone : (left.map (·.withoutSlug)).filterMap (·.slug) = [] := by
      rw [List.filterMap_map, List.filterMap_eq_nil_iff]
      exact fun b _ => rfl
    rw [List.filterMap_append, hnone, List.append_nil]
    refine List.pairwise_filterMap.mpr ?_
    rw [hi]
    refine (insertRows_pairwise first.bookmarks own batch).imp fun {a b} hfree s hs t ht hst => ?_
    simp only [ImportNewBookmark.clashes, ht, hs, hst, Option.isSome_some, BEq.rfl, Bool.and_true, Bool.or_true] at hfree
    cases hfree

theorem insertBookmarks_steady {shelf : Shelf} {own batch : List ImportNewBookmark}
    (hd : batch.Pairwise fun a b => b.clashes a.id a.slug = false)
    (hn : ∀ b ∈ batch, b.conflicts shelf.bookmarks own = false) :
    insertBookmarks shelf shelf own batch = .ok (own ++ batch, []) := by
  have hleft : (batch.filter fun b => !(batch.map (·.id)).contains b.id) = [] := by
    refine List.filter_eq_nil_iff.mpr fun b hb => ?_
    have hmem : b.id ∈ batch.map (·.id) := List.mem_map_of_mem hb
    simp [hmem]
  simp only [insertBookmarks, insertRows_all hd hn, hleft]
  simp [insertRows]

end SlugBase.Import
