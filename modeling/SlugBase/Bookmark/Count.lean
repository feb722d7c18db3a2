import SlugBase.Bookmark.Row

/-!
# The system operations on the bookmark counter

The operations that may move `workspaces.bookmark_count`, each a transaction body under the lock of
the workspace's row.

* `sysBookmarkCountTake`, `sysBookmarkCountTakeMany`: places under a ceiling;
* `sysBookmarkDelete`, `sysBookmarkDeleteMany`, `sysBookmarkArchiveSet`: rows and counter together;
* `Content.Exact`: the counter of every workspace is the number of its live bookmarks;
* `Content.Moves`: what every operation does to the two, by one number; **`Content.Exact.moves`** keeps
  the invariant, and each operation has one inversion lemma that says how far it moves them.
-/

namespace SlugBase

open Relational

/-! ## The counter -/

namespace Content

variable (c : Content)

/-- The workspaces with the counter of `w` moved by `n`. -/
def shiftCount (w : Uuid) (n : ℤ) : Table Workspace Workspace.id :=
  c.workspaces.updateWhere (fun r => decide (r.id = w))
    (fun r => { r with bookmarkCount := r.bookmarkCount + n }) fun _ => rfl

/-- `UPDATE workspaces SET bookmark_count = bookmark_count + n WHERE id = w`. -/
def addToCount (w : Uuid) (n : ℤ) : Except SqlError Content :=
  match c.workspaces.find? fun r => decide (r.id = w) with
  | none => .ok c
  | some r => do
    let next ← int4 (r.bookmarkCount + n)
    if next < 0 then .error (.checkViolation "workspaces_bookmark_count_check")
    else .ok { c with workspaces := c.shiftCount w n }

/-- **The counter is exact**: it is the number of the workspace's bookmarks that are not archived. -/
def Exact : Prop := ∀ r ∈ c.workspaces, r.bookmarkCount = c.live r.id

/-- Every bookmark is in a workspace of the database (`bookmarks_workspace_id_fkey`). -/
def Placed : Prop := ∀ b ∈ c.bookmarks, ∃ r ∈ c.workspaces, r.id = b.workspaceId

/-- The step from `c` to `c'` moves the counter and the live bookmarks of `w` by `n`, and puts no
bookmark in a workspace that is not there. -/
structure Moves (c' : Content) (w : Uuid) (n : ℤ) : Prop where
  count : c'.workspaces = c.shiftCount w n
  live : ∀ v, (c'.live v : ℤ) = c.live v + if v = w then n else 0
  placed : ∀ b ∈ c'.bookmarks, (∃ r ∈ c.workspaces, r.id = b.workspaceId) ∨
    ∃ b₀ ∈ c.bookmarks, b₀.workspaceId = b.workspaceId

variable {c}

theorem mem_shiftCount {w : Uuid} {n : ℤ} {r : Workspace} :
    r ∈ c.shiftCount w n ↔
      ∃ r' ∈ c.workspaces,
        r = { r' with bookmarkCount := r'.bookmarkCount + if r'.id = w then n else 0 } := by
  simp only [shiftCount, Table.mem_updateWhere]
  constructor
  · rintro ⟨r', hr', rfl⟩
    refine ⟨r', hr', ?_⟩
    by_cases h : r'.id = w <;> simp [h]
  · rintro ⟨r', hr', rfl⟩
    refine ⟨r', hr', ?_⟩
    by_cases h : r'.id = w <;> simp [h]

theorem shiftCount_zero (w : Uuid) : c.shiftCount w 0 = c.workspaces := by
  refine Table.ext_rows ?_
  refine (List.map_congr_left fun r _ => ?_).trans (List.map_id' _)
  split_ifs <;> simp

theorem addToCount_ok {w : Uuid} {n : ℤ} {c' : Content} (h : c.addToCount w n = .ok c') :
    c' = { c with workspaces := c.shiftCount w n } := by
  unfold addToCount at h
  split at h
  · rename_i hnone
    obtain rfl := Except.ok.inj h
    rw [shiftCount, Table.updateWhere_of_none _ fun r hr => Table.find?_none hnone hr]
  · rename_i r _
    cases hi : int4 (r.bookmarkCount + n) with
    | error e => simp [hi, bind, Except.bind] at h
    | ok next =>
      simp only [hi, bind, Except.bind] at h
      split_ifs at h
      exact (Except.ok.inj h).symm

/-- **A step that moves counter and rows together keeps the counter exact.** -/
theorem Exact.moves {c' : Content} {w : Uuid} {n : ℤ} (h : c.Exact) (hm : c.Moves c' w n) :
    c'.Exact := by
  intro r hr
  rw [hm.count, mem_shiftCount] at hr
  obtain ⟨r', hr', rfl⟩ := hr
  rw [hm.live, ← h r' hr']

theorem Placed.moves {c' : Content} {w : Uuid} {n : ℤ} (h : c.Placed) (hm : c.Moves c' w n) :
    c'.Placed := by
  intro b hb
  have hold : ∃ r ∈ c.workspaces, r.id = b.workspaceId := by
    rcases hm.placed b hb with hr | ⟨b₀, hb₀, hw⟩
    · exact hr
    · exact hw ▸ h b₀ hb₀
  obtain ⟨r, hr, hid⟩ := hold
  rw [hm.count]
  exact ⟨_, mem_shiftCount.mpr ⟨r, hr, rfl⟩, hid⟩

theorem Moves.count_eq {c' : Content} {w : Uuid} {n : ℤ} (hm : c.Moves c' w n) {r : Workspace}
    (hr : r ∈ c'.workspaces) :
    ∃ r₀ ∈ c.workspaces, r₀.id = r.id ∧
      r.bookmarkCount = r₀.bookmarkCount + if r.id = w then n else 0 := by
  rw [hm.count, mem_shiftCount] at hr
  obtain ⟨r₀, hr₀, rfl⟩ := hr
  exact ⟨r₀, hr₀, rfl, rfl⟩

theorem Moves.zero {c' : Content} (w : Uuid) (hw : c'.workspaces = c.workspaces)
    (hl : ∀ v, c'.live v = c.live v)
    (hp : ∀ b ∈ c'.bookmarks, ∃ b₀ ∈ c.bookmarks, b₀.workspaceId = b.workspaceId) :
    c.Moves c' w 0 :=
  ⟨hw.trans (shiftCount_zero w).symm, fun v => by simp [hl v], fun b hb => .inr (hp b hb)⟩

theorem Moves.refl (c : Content) (w : Uuid) : c.Moves c w 0 :=
  .zero w rfl (fun _ => rfl) fun b hb => ⟨b, hb, rfl⟩

/-- Deleting bookmarks of `w` and lowering its counter by those that were not archived. -/
theorem Moves.delete {c' : Content} {p : Bookmark → Bool} {w : Uuid} {n : ℤ}
    (hb : c'.bookmarks = c.bookmarks.deleteWhere p) (hc : c'.workspaces = c.shiftCount w n)
    (hp : ∀ b, p b = true → b.workspaceId = w)
    (hn : n = -(c.bookmarks.count fun b => p b && b.planArchivedAt.isNone : ℕ)) : c.Moves c' w n where
  count := hc
  live v := by
    have hd := live_deleteBookmarks (c := c) p v
    rw [live_of_bookmarks (c := c.deleteBookmarks p) hb]
    by_cases hv : v = w
    · have hsame : (c.bookmarks.count fun b => p b && b.countedIn v) =
          c.bookmarks.count fun b => p b && b.planArchivedAt.isNone :=
        Table.count_and_congr fun b _ hb => by simp [Bookmark.countedIn, hp b hb, hv]
      rw [if_pos hv]
      omega
    · have hnone : (c.bookmarks.count fun b => p b && b.countedIn v) = 0 :=
        Table.count_and_of_none fun b _ hb => by simp [Bookmark.countedIn, hp b hb, Ne.symm hv]
      rw [if_neg hv]
      omega
  placed b hb' := .inr ⟨b, (Table.mem_deleteWhere.mp (hb ▸ hb')).1, rfl⟩

/-- Rewriting bookmarks of `w` that were all counted, or all not, to the opposite. -/
theorem Moves.toggle {c' : Content} {p : Bookmark → Bool} {f : Bookmark → Bookmark}
    {w : Uuid} {n : ℤ} {archive : Bool} (hf : ∀ b, (f b).id = b.id)
    (hb : c'.bookmarks = c.bookmarks.updateWhere p f hf) (hc : c'.workspaces = c.shiftCount w n)
    (hp : ∀ b, p b = true → b.workspaceId = w)
    (hold : ∀ b, p b = true → b.planArchivedAt.isNone = archive)
    (hnew : ∀ b, (f b).planArchivedAt.isNone = !archive) (hw : ∀ b, (f b).workspaceId = b.workspaceId)
    (hn : n = if archive then -(c.bookmarks.count p : ℤ) else c.bookmarks.count p) :
    c.Moves c' w n where
  count := hc
  live v := by
    have hafter := Table.count_updateWhere c.bookmarks p f hf (·.countedIn v)
    have hbefore := Table.count_split c.bookmarks p (·.countedIn v)
    have hsplit := Table.count_split c.bookmarks p fun b => (if p b then f b else b).countedIn v
    have hkept : (c.bookmarks.count fun b => !p b && (if p b then f b else b).countedIn v) =
        c.bookmarks.count fun b => !p b && b.countedIn v :=
      Table.count_congr fun b _ => by cases hb : p b <;> simp
    rw [Content.live, Content.live, hb, hafter, hsplit, hkept, hbefore]
    by_cases hv : v = w
    · have hwas : (c.bookmarks.count fun b => p b && b.countedIn v) =
          if archive then c.bookmarks.count p else 0 := by
        cases archive with
        | true =>
          exact Table.count_and_of_all fun b _ hb => by simp [Bookmark.countedIn, hp b hb, hold b hb, hv]
        | false => exact Table.count_and_of_none fun b _ hb => by simp [Bookmark.countedIn, hold b hb]
      have his : (c.bookmarks.count fun b => p b && (if p b then f b else b).countedIn v) =
          if archive then 0 else c.bookmarks.count p := by
        cases archive with
        | true => exact Table.count_and_of_none fun b _ hb => by simp [Bookmark.countedIn, hb, hnew b]
        | false =>
          exact Table.count_and_of_all fun b _ hb => by
            simp [Bookmark.countedIn, hb, hw b, hp b hb, hnew b, hv]
      rw [hwas, his, if_pos hv, hn]
      cases archive <;> simp [add_comm]
    · have hwas : (c.bookmarks.count fun b => p b && b.countedIn v) = 0 :=
        Table.count_and_of_none fun b _ hb => by simp [Bookmark.countedIn, hp b hb, Ne.symm hv]
      have his : (c.bookmarks.count fun b => p b && (if p b then f b else b).countedIn v) = 0 :=
        Table.count_and_of_none fun b _ hb => by
          simp [Bookmark.countedIn, hb, hw b, hp b hb, Ne.symm hv]
      rw [hwas, his, if_neg hv]
      simp
  placed b hb' := by
    obtain ⟨b₀, hb₀, rfl⟩ := Table.mem_updateWhere.mp (hb ▸ hb')
    refine .inr ⟨b₀, hb₀, ?_⟩
    split_ifs
    · exact (hw b₀).symm
    · rfl

theorem liveWorkspace_some {w : Uuid} {r : Workspace} (h : c.liveWorkspace w = some r) :
    r ∈ c.workspaces ∧ r.id = w ∧ r.deletingAt = none := by
  have hr := Table.find?_some h
  simp only [Bool.and_eq_true, decide_eq_true_eq, Option.isNone_iff_eq_none] at hr
  exact ⟨hr.1, hr.2.1, hr.2.2⟩

end Content

/-- The account of a transaction that acts in workspace `w`. -/
def Session.actsIn (s : Session) (w : Uuid) : Option Uuid :=
  if s.appWorkspaceId = some w then s.appAccountId else none

/-- Whether a statement over the identifiers `ids` names the bookmark in workspace `w`. -/
def Bookmark.named (w : Uuid) (ids : List (Option Uuid)) (b : Bookmark) : Bool :=
  decide (b.workspaceId = w) && ids.any fun id => sqlEq (some b.id) id

theorem Bookmark.named_iff {w : Uuid} {ids : List (Option Uuid)} {b : Bookmark} :
    b.named w ids = true ↔ b.workspaceId = w ∧ some b.id ∈ ids := by
  simp only [named, Bool.and_eq_true, decide_eq_true_eq, List.any_eq_true, sqlEq_iff]
  constructor
  · rintro ⟨hw, id, hid, x, hx, rfl⟩
    exact ⟨hw, hx ▸ hid⟩
  · rintro ⟨hw, hid⟩
    exact ⟨hw, _, hid, b.id, rfl, rfl⟩

/-! ## Taking places -/

/-- The answer of `sys_bookmark_count_take`. -/
inductive Taken
  | taken (used : ℤ)
  | limitReached (used : ℤ)
  | unavailable
  deriving DecidableEq, Repr

/-- `sys_bookmark_count_take(workspace_id, max)`. -/
def sysBookmarkCountTake (s : Session) (pWorkspaceId : Option Uuid) (pMax : Option ℤ) (c : Content) :
    Except SqlError (Taken × Content) :=
  match pWorkspaceId with
  | none => .error (.invalidParameterValue
      "sys_bookmark_count_take needs a workspace and a ceiling that is not negative")
  | some w =>
    if pMax.any (· < 0) then .error (.invalidParameterValue
      "sys_bookmark_count_take needs a workspace and a ceiling that is not negative")
    else match s.actsIn w with
      | none => .ok (.unavailable, c)
      | some a =>
        if !c.isMember w a then .ok (.unavailable, c)
        else match c.liveWorkspace w with
          | none => .ok (.unavailable, c)
          | some r => do
            let next ← int4 (r.bookmarkCount + 1)
            if pMax.any (next > ·) then .ok (.limitReached r.bookmarkCount, c)
            else do
              let c' ← c.addToCount w 1
              .ok (.taken next, c')

/-- What `sys_bookmark_count_take` can do: refuse, or take one place below the ceiling. -/
theorem sysBookmarkCountTake_ok {s : Session} {pw : Option Uuid} {pMax : Option ℤ} {c c' : Content}
    {t : Taken} (h : sysBookmarkCountTake s pw pMax c = .ok (t, c')) :
    (c' = c ∧ ∀ used, t ≠ .taken used) ∨
      ∃ w r, pw = some w ∧ c.liveWorkspace w = some r ∧ t = .taken (r.bookmarkCount + 1) ∧
        (∀ m, pMax = some m → r.bookmarkCount + 1 ≤ m) ∧
        c' = { c with workspaces := c.shiftCount w 1 } := by
  unfold sysBookmarkCountTake at h
  split at h
  · cases h
  rename_i w
  split_ifs at h
  split at h
  · cases h
    exact .inl ⟨rfl, fun _ => Taken.noConfusion⟩
  split_ifs at h
  · cases h
    exact .inl ⟨rfl, fun _ => Taken.noConfusion⟩
  split at h
  · cases h
    exact .inl ⟨rfl, fun _ => Taken.noConfusion⟩
  rename_i r hr
  obtain ⟨next, hn, h⟩ := ok_of_bind h
  obtain rfl := int4_ok hn
  split_ifs at h with hmax
  · cases h
    exact .inl ⟨rfl, fun _ => Taken.noConfusion⟩
  obtain ⟨c₁, hc, h⟩ := ok_of_bind h
  cases h
  refine .inr ⟨w, r, rfl, hr, rfl, ?_, Content.addToCount_ok hc⟩
  rintro m rfl
  simpa using hmax

/-- The answer of `sys_bookmark_count_take_many`. -/
inductive TakenMany
  | taken (taken used : ℤ)
  | limitReached (taken used : ℤ)
  | unavailable
  deriving DecidableEq, Repr

/-- The places an import takes: as many as it wants, and no more than there is room for. -/
def placesTaken (pMax : Option ℤ) (wanted count : ℤ) : ℤ :=
  match pMax with
  | none => wanted
  | some ceiling => min wanted (max 0 (ceiling - count))

theorem placesTaken_le {pMax : Option ℤ} {wanted count : ℤ} : placesTaken pMax wanted count ≤ wanted := by
  cases pMax with
  | none => exact le_refl _
  | some ceiling => exact min_le_left _ _

theorem placesTaken_nonneg {pMax : Option ℤ} {wanted count : ℤ} (h : 0 ≤ wanted) :
    0 ≤ placesTaken pMax wanted count := by
  cases pMax with
  | none => exact h
  | some ceiling => exact le_min h (le_max_left _ _)

theorem placesTaken_room {m wanted count : ℤ} (h : 0 < placesTaken (some m) wanted count) :
    count + placesTaken (some m) wanted count ≤ m := by
  simp only [placesTaken] at h ⊢
  omega

/-- `sys_bookmark_count_take_many(workspace_id, max, wanted)`. -/
def sysBookmarkCountTakeMany (s : Session) (pWorkspaceId : Option Uuid) (pMax pWanted : Option ℤ)
    (c : Content) : Except SqlError (TakenMany × Content) :=
  match pWorkspaceId, pWanted with
  | some w, some wanted =>
    if wanted < 0 ∨ wanted > 5000 ∨ pMax.any (· < 0) then .error (.invalidParameterValue
      "sys_bookmark_count_take_many needs a workspace, a number of places from 0 to 5000 and a ceiling that is not negative")
    else match s.actsIn w with
      | none => .ok (.unavailable, c)
      | some a =>
        if !c.isMember w a then .ok (.unavailable, c)
        else match c.liveWorkspace w with
          | none => .ok (.unavailable, c)
          | some r => do
            let taken := placesTaken pMax wanted r.bookmarkCount
            let raised := if taken > 0 then c.addToCount w taken else .ok c
            let c' ← raised
            if taken = wanted then .ok (.taken taken (r.bookmarkCount + taken), c')
            else .ok (.limitReached taken (r.bookmarkCount + taken), c')
  | _, _ => .error (.invalidParameterValue
      "sys_bookmark_count_take_many needs a workspace, a number of places from 0 to 5000 and a ceiling that is not negative")

/-- What `sys_bookmark_count_take_many` can do: refuse, or take a number of places that stays below
the ceiling unless it is none. -/
theorem sysBookmarkCountTakeMany_ok {s : Session} {pw : Option Uuid} {pMax pWanted : Option ℤ}
    {c c' : Content} {t : TakenMany} (h : sysBookmarkCountTakeMany s pw pMax pWanted c = .ok (t, c')) :
    (c' = c ∧ t = .unavailable) ∨
      ∃ w r n, pw = some w ∧ c.liveWorkspace w = some r ∧
        (t = .taken n (r.bookmarkCount + n) ∨ t = .limitReached n (r.bookmarkCount + n)) ∧
        0 ≤ n ∧ pWanted.any (n ≤ ·) ∧ (∀ m, pMax = some m → 0 < n → r.bookmarkCount + n ≤ m) ∧
        c' = { c with workspaces := c.shiftCount w n } := by
  unfold sysBookmarkCountTakeMany at h
  split at h
  swap
  · cases h
  rename_i w wanted
  split_ifs at h with hargs
  split at h
  · cases h
    exact .inl ⟨rfl, rfl⟩
  split_ifs at h
  · cases h
    exact .inl ⟨rfl, rfl⟩
  split at h
  · cases h
    exact .inl ⟨rfl, rfl⟩
  rename_i r hr
  obtain ⟨c₁, hc, h⟩ := ok_of_bind h
  simp only [not_or, not_lt] at hargs
  have hc' : c₁ = { c with workspaces := c.shiftCount w (placesTaken pMax wanted r.bookmarkCount) } := by
    split_ifs at hc with hpos
    · exact Content.addToCount_ok hc
    · have hzero : placesTaken pMax wanted r.bookmarkCount = 0 :=
        le_antisymm (not_lt.mp hpos) (placesTaken_nonneg hargs.1)
      rw [hzero, Content.shiftCount_zero]
      exact (Except.ok.inj hc).symm
  refine .inr ⟨w, r, placesTaken pMax wanted r.bookmarkCount, rfl, hr, ?_, placesTaken_nonneg hargs.1, ?_, ?_, ?_⟩
  · split_ifs at h <;> cases h
    · exact .inl rfl
    · exact .inr rfl
  · simpa using placesTaken_le
  · rintro m rfl
    exact placesTaken_room
  · split_ifs at h <;> cases h <;> exact hc'

/-! ## Deleting -/

/-- `sys_bookmark_delete(workspace_id, bookmark_id)`. -/
def sysBookmarkDelete (s : Session) (pWorkspaceId pBookmarkId : Option Uuid) (c : Content) :
    Except SqlError (Bool × Content) :=
  match pWorkspaceId, pBookmarkId with
  | some w, some id =>
    match s.actsIn w with
    | none => .ok (false, c)
    | some a =>
      match c.liveWorkspace w with
      | none => .ok (false, c)
      | some _ =>
        let mine (b : Bookmark) := decide (b.id = id ∧ b.workspaceId = w ∧ b.ownerId = some a)
        match c.bookmarks.find? mine with
        | none => .ok (false, c)
        | some b =>
          if b.planArchivedAt.isNone then do
            let c' ← (c.deleteBookmarks mine).addToCount w (-1)
            .ok (true, c')
          else .ok (true, c.deleteBookmarks mine)
  | _, _ => .error (.invalidParameterValue "sys_bookmark_delete needs a workspace and a bookmark")

/-- What `sys_bookmark_delete` can do: nothing, or delete one bookmark of the workspace. -/
theorem sysBookmarkDelete_ok {s : Session} {pw pid : Option Uuid} {c c' : Content} {deleted : Bool}
    (h : sysBookmarkDelete s pw pid c = .ok (deleted, c')) :
    (c' = c ∧ deleted = false) ∨
      ∃ w n, pw = some w ∧ deleted = true ∧
        (∃ b ∈ c.bookmarks, b.workspaceId = w ∧ pid = some b.id) ∧ c.Moves c' w n := by
  unfold sysBookmarkDelete at h
  split at h
  swap
  · cases h
  rename_i w id
  split at h
  · cases h
    exact .inl ⟨rfl, rfl⟩
  rename_i a _
  split at h
  · cases h
    exact .inl ⟨rfl, rfl⟩
  simp only at h
  split at h
  · cases h
    exact .inl ⟨rfl, rfl⟩
  rename_i b hfind
  obtain ⟨hb, hmine⟩ := Table.find?_some hfind
  have hmine' := of_decide_eq_true hmine
  -- the identifier is the key, so the statement deletes this row and no other
  have hcount : (c.bookmarks.count fun r =>
      decide (r.id = id ∧ r.workspaceId = w ∧ r.ownerId = some a) && r.planArchivedAt.isNone) =
      if b.planArchivedAt.isNone then 1 else 0 := by
    rw [← Table.count_key hb (q := fun r => r.planArchivedAt.isNone)]
    refine Table.count_congr fun r hr => ?_
    by_cases hid : r.id = b.id
    · obtain rfl := Table.eq_of_key hr hb hid
      simp [hmine']
    · have : r.id ≠ id := fun h => hid (h.trans hmine'.1.symm)
      simp [hid, this]
  have hnamed : ∃ b ∈ c.bookmarks, b.workspaceId = w ∧ some id = some b.id :=
    ⟨b, hb, hmine'.2.1, congrArg some hmine'.1.symm⟩
  split_ifs at h with harch
  · obtain ⟨c₁, hc, h⟩ := ok_of_bind h
    cases h
    obtain rfl := Content.addToCount_ok hc
    refine .inr ⟨w, -1, rfl, rfl, hnamed, .delete rfl rfl (fun r hr => (of_decide_eq_true hr).2.1) ?_⟩
    rw [hcount, if_pos harch]
    rfl
  · cases h
    refine .inr ⟨w, 0, rfl, rfl, hnamed, .delete rfl (Content.shiftCount_zero w).symm
      (fun r hr => (of_decide_eq_true hr).2.1) ?_⟩
    rw [hcount, if_neg harch]
    rfl

/-- `sys_bookmark_delete_many(workspace_id, bookmark_ids)`. -/
def sysBookmarkDeleteMany (s : Session) (pWorkspaceId : Option Uuid)
    (pBookmarkIds : Option (List (Option Uuid))) (c : Content) :
    Except SqlError (Option ℕ × Content) :=
  match pWorkspaceId, pBookmarkIds with
  | some w, some ids =>
    if ids.length > 5000 then .error (.invalidParameterValue
      "sys_bookmark_delete_many takes at most 5000 bookmarks")
    else if ids.any Option.isNone then .error (.invalidParameterValue
      "sys_bookmark_delete_many needs an identifier at every position")
    else match s.actsIn w with
      | none => .ok (none, c)
      | some a =>
        match c.liveWorkspace w with
        | none => .ok (none, c)
        | some _ => do
          let mine (b : Bookmark) := b.named w ids && decide (b.ownerId = some a)
          let deleted := c.bookmarks.count mine
          let released := c.bookmarks.count fun b => mine b && b.planArchivedAt.isNone
          let lowered := if released > 0 then (c.deleteBookmarks mine).addToCount w (-released)
            else .ok (c.deleteBookmarks mine)
          let c' ← lowered
          .ok (some deleted, c')
  | _, _ => .error (.invalidParameterValue
      "sys_bookmark_delete_many needs a workspace and a list of bookmarks")

/-- What `sys_bookmark_delete_many` can do: nothing, or delete the named bookmarks of the workspace
that the account owns. -/
theorem sysBookmarkDeleteMany_ok {s : Session} {pw : Option Uuid} {pids : Option (List (Option Uuid))}
    {c c' : Content} {deleted : Option ℕ} (h : sysBookmarkDeleteMany s pw pids c = .ok (deleted, c')) :
    (c' = c ∧ deleted = none) ∨
      ∃ w ids k n, pw = some w ∧ pids = some ids ∧ deleted = some k ∧ c.Moves c' w n ∧
        ((∀ b ∈ c.bookmarks, b.workspaceId = w → some b.id ∉ ids) → k = 0) ∧ (k = 0 → c' = c) := by
  unfold sysBookmarkDeleteMany at h
  split at h
  swap
  · cases h
  rename_i w ids
  split_ifs at h
  split at h
  · cases h
    exact .inl ⟨rfl, rfl⟩
  rename_i a _
  split at h
  · cases h
    exact .inl ⟨rfl, rfl⟩
  simp only at h
  obtain ⟨c₁, hc, h⟩ := ok_of_bind h
  cases h
  refine .inr ⟨w, ids, _, -(c.bookmarks.count fun b =>
    (b.named w ids && decide (b.ownerId = some a)) && b.planArchivedAt.isNone : ℕ),
    rfl, rfl, rfl, ?_, ?_, ?_⟩
  · have hmine (b : Bookmark) (hb : (b.named w ids && decide (b.ownerId = some a)) = true) :
        b.workspaceId = w := (Bookmark.named_iff.mp (Bool.and_eq_true_iff.mp hb).1).1
    split_ifs at hc with hpos
    · obtain rfl := Content.addToCount_ok hc
      exact .delete rfl rfl hmine rfl
    · obtain rfl := Except.ok.inj hc
      refine .delete rfl ?_ hmine rfl
      rw [Nat.eq_zero_of_not_pos hpos]
      exact (Content.shiftCount_zero w).symm
  · intro hnone
    refine Table.count_eq_zero.mpr fun b hb => Bool.eq_false_iff.mpr fun hmine => ?_
    obtain ⟨hw, hid⟩ := Bookmark.named_iff.mp (Bool.and_eq_true_iff.mp hmine).1
    exact hnone b hb hw hid
  · intro hk
    have hnone := Table.count_eq_zero.mp hk
    rw [Table.count_eq_zero.mpr fun b hb => by rw [hnone b hb, Bool.false_and],
      Content.deleteBookmarks_of_none hnone] at hc
    exact (Except.ok.inj hc).symm

/-! ## Archiving and restoring -/

/-- The row with its archive state set or cleared. -/
def Bookmark.archiveSet (s : Session) (archive : Bool) (b : Bookmark) : Bookmark :=
  b.written s { b with planArchivedAt := if archive then some s.now else none }

theorem Bookmark.archiveSet_isNone (s : Session) (archive : Bool) (b : Bookmark) :
    (b.archiveSet s archive).planArchivedAt.isNone = !archive := by
  cases archive <;> rfl

/-- `sys_bookmark_archive_set(workspace_id, bookmark_ids, archive)`. -/
def sysBookmarkArchiveSet (s : Session) (pWorkspaceId : Option Uuid)
    (pBookmarkIds : Option (List (Option Uuid))) (pArchive : Option Bool) (c : Content) :
    Except SqlError (Option ℕ × Content) :=
  match pWorkspaceId, pBookmarkIds, pArchive with
  | some w, some ids, some archive =>
    match s.actsIn w with
    | none => .ok (none, c)
    | some a =>
      if !c.isMember w a then .ok (none, c)
      else match c.liveWorkspace w with
        | none => .ok (none, c)
        | some _ => do
          let differs (b : Bookmark) := b.named w ids && b.planArchivedAt.isNone == archive
          let changed := c.bookmarks.count differs
          let set := c.bookmarks.updateWhere differs (·.archiveSet s archive) fun _ => rfl
          let moved := if archive then -(changed : ℤ) else changed
          let c' ← { c with bookmarks := set }.addToCount w moved
          .ok (some changed, c')
  | _, _, _ => .error (.invalidParameterValue
      "sys_bookmark_archive_set needs a workspace, a list of bookmarks and a direction")

/-- What `sys_bookmark_archive_set` can do: nothing, or set the archive state of the named bookmarks
of the workspace whose state differs. -/
theorem sysBookmarkArchiveSet_ok {s : Session} {pw : Option Uuid} {pids : Option (List (Option Uuid))}
    {pa : Option Bool} {c c' : Content} {changed : Option ℕ}
    (h : sysBookmarkArchiveSet s pw pids pa c = .ok (changed, c')) :
    (c' = c ∧ changed = none) ∨
      ∃ w ids k n, pw = some w ∧ pids = some ids ∧ changed = some k ∧ c.Moves c' w n ∧
        ((∀ b ∈ c.bookmarks, b.workspaceId = w → some b.id ∉ ids) → k = 0) ∧ (k = 0 → c' = c) := by
  unfold sysBookmarkArchiveSet at h
  split at h
  swap
  · cases h
  rename_i w ids archive
  split at h
  · cases h
    exact .inl ⟨rfl, rfl⟩
  split at h
  · cases h
    exact .inl ⟨rfl, rfl⟩
  split at h
  · cases h
    exact .inl ⟨rfl, rfl⟩
  simp only at h
  obtain ⟨c₁, hc, h⟩ := ok_of_bind h
  cases h
  obtain rfl := Content.addToCount_ok hc
  refine .inr ⟨w, ids, _, _, rfl, rfl, rfl,
    .toggle (f := (·.archiveSet s archive)) (fun _ => rfl) rfl rfl ?_ ?_ (Bookmark.archiveSet_isNone s archive) (fun _ => rfl) rfl, ?_, ?_⟩
  · intro b hb
    exact (Bookmark.named_iff.mp (Bool.and_eq_true_iff.mp hb).1).1
  · intro b hb
    exact beq_iff_eq.mp (Bool.and_eq_true_iff.mp hb).2
  · intro hnone
    refine Table.count_eq_zero.mpr fun b hb => Bool.eq_false_iff.mpr fun hdiffers => ?_
    obtain ⟨hw, hid⟩ := Bookmark.named_iff.mp (Bool.and_eq_true_iff.mp hdiffers).1
    exact hnone b hb hw hid
  · intro hk
    have hset : c.bookmarks.updateWhere (fun b => b.named w ids && b.planArchivedAt.isNone == archive)
        (·.archiveSet s archive) (fun _ => rfl) = c.bookmarks :=
      Table.updateWhere_of_none _ (Table.count_eq_zero.mp hk)
    have hzero : (if archive then -((0 : ℕ) : ℤ) else ((0 : ℕ) : ℤ)) = 0 := by cases archive <;> rfl
    rw [hk, hset, hzero, Content.shiftCount_zero]

end SlugBase
