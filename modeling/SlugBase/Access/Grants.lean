import SlugBase.Schema
import SlugBase.Lib.Query

/-!
# Who can read a bookmark

The access rule, and the fragments the repositories build their statements from.

* `Grant`, `CanRead`: the rule itself — a bookmark is readable by its owner and by every account a
  grant reaches: directly, through a team, or through a shared folder it is filed in;
* `grantsTo`, `bookmarkReadableBy`, `bookmarkAccessOf`, `sharedBookmarks`, `sharedViaOf`: the
  fragments; **`mem_grantsTo`** reads the rule off the first, and each of the others has one lemma.
-/

namespace SlugBase

open Relational

/-- How a bookmark is shared with an account. -/
inductive SharedVia
  | direct
  | team
  | folder
  deriving DecidableEq, Repr

/-- The order of the routes: the direct share before the team's before the folder's. -/
def SharedVia.rank : SharedVia → ℕ
  | .direct => 0
  | .team => 1
  | .folder => 2

theorem SharedVia.rank_injective : Function.Injective SharedVia.rank := by
  intro a b h
  cases a <;> cases b <;> first | rfl | cases h

/-! ## The rule -/

/-- The account is in the team. -/
def InTeam (c : Content) (w a t : Uuid) : Prop :=
  ∃ m ∈ c.teamMembers, m.workspaceId = w ∧ m.accountId = a ∧ m.teamId = t

/-- A share reaches the account: it names the account, or a team the account is in. -/
inductive Reaches (c : Content) (w a : Uuid) (target : ShareTarget) : Prop
  | account (h : target.targetAccountId = some a)
  | team (t : Uuid) (h : target.targetTeamId = some t) (ht : InTeam c w a t)

/-- **A grant of read access** to the account in workspace `w`, with its route. -/
inductive Grant (c : Content) (w a : Uuid) : Uuid → SharedVia → Prop
  | direct (s : BookmarkShare) (hs : s ∈ c.bookmarkShares) (hw : s.workspaceId = w)
      (ha : s.targetAccountId = some a) : Grant c w a s.bookmarkId .direct
  | team (s : BookmarkShare) (hs : s ∈ c.bookmarkShares) (hw : s.workspaceId = w) (t : Uuid)
      (ht : s.targetTeamId = some t) (hm : InTeam c w a t) : Grant c w a s.bookmarkId .team
  | folder (s : FolderShare) (hs : s ∈ c.folderShares) (hw : s.workspaceId = w)
      (ha : Reaches c w a s.toShareTarget) (l : FolderBookmark) (hl : l ∈ c.folderBookmarks)
      (hlw : l.workspaceId = s.workspaceId) (hlf : l.folderId = s.folderId) :
      Grant c w a l.bookmarkId .folder

/-- **The account can read the bookmark**: it owns it, or some grant reaches it. -/
def CanRead (c : Content) (a : Uuid) (b : Bookmark) : Prop :=
  b.ownerId = some a ∨ ∃ via, Grant c b.workspaceId a b.id via

/-! ## The fragments -/

section

variable (c : Content) (a w : Uuid)

/-- `SELECT m.team_id FROM team_members m`, of the account in the workspace. -/
def teamsOfAccount : List Uuid :=
  (c.teamMembers.rows.filter fun m => decide (m.workspaceId = w ∧ m.accountId = a)).map TeamMember.teamId

/-- `target_team_id IN (teams)`. -/
def inTeams (teams : List Uuid) (team : Option Uuid) : Bool := teams.any fun t => sqlEq team (some t)

/-- The identifiers filed in the folder of a share (`JOIN folder_bookmarks`). -/
def filedUnder (s : FolderShare) : List Uuid :=
  (c.folderBookmarks.rows.filter fun l => decide (l.workspaceId = s.workspaceId ∧ l.folderId = s.folderId)).map
    FolderBookmark.bookmarkId

/-- The bookmarks shared with the account itself. -/
def sharedDirectly : List Uuid :=
  (c.bookmarkShares.rows.filter fun s =>
    decide (s.workspaceId = w) && sqlEq s.targetAccountId (some a)).map BookmarkShare.bookmarkId

/-- The bookmarks shared with a team of the account. -/
def sharedByTeam : List Uuid :=
  (c.bookmarkShares.rows.filter fun s =>
    decide (s.workspaceId = w) && inTeams (teamsOfAccount c a w) s.targetTeamId).map BookmarkShare.bookmarkId

/-- The bookmarks filed in a folder shared with the account itself. -/
def sharedByFolder : List Uuid :=
  (c.folderShares.rows.filter fun s =>
    decide (s.workspaceId = w) && sqlEq s.targetAccountId (some a)).flatMap (filedUnder c)

/-- The bookmarks filed in a folder shared with a team of the account. -/
def sharedByFolderTeam : List Uuid :=
  (c.folderShares.rows.filter fun s =>
    decide (s.workspaceId = w) && inTeams (teamsOfAccount c a w) s.targetTeamId).flatMap (filedUnder c)

/-- `grantsTo`: every grant to the account in the workspace, one row for each route. -/
def grantsTo : List (Uuid × SharedVia) :=
  (sharedDirectly c a w).map (·, .direct) ++ (sharedByTeam c a w).map (·, .team) ++
    (sharedByFolder c a w).map (·, .folder) ++ (sharedByFolderTeam c a w).map (·, .folder)

/-- `bookmarkReadableBy`. -/
def bookmarkReadableBy (row : Bookmark) : Bool :=
  sqlEq row.ownerId (some a) || (grantsTo c a row.workspaceId).any fun g => decide (g.1 = row.id)

/-- How an account reads a bookmark: as its owner, or through a share. -/
inductive Access
  | owner
  | shared (via : SharedVia)
  deriving DecidableEq, Repr

/-- The order of the routes of one bookmark. -/
def routeOrder (g h : Uuid × SharedVia) : Prop := g.2.rank ≤ h.2.rank

instance : DecidableRel routeOrder := fun _ _ => inferInstanceAs (Decidable (_ ≤ _))

/-- `bookmarkAccessOf`: how the account reads the row, `none` when it does not. -/
def bookmarkAccessOf (row : Bookmark) : Option Access :=
  if sqlEq row.ownerId (some a) then some .owner
  else (firstBy routeOrder
    ((grantsTo c a row.workspaceId).filter fun g => decide (g.1 = row.id))).map fun g => .shared g.2

/-- `sharedBookmarks`: the bookmarks of the workspace that are shared with the account, each once. -/
def sharedBookmarks : List Uuid := ((grantsTo c a w).map Prod.fst).dedup

/-- The order of `sharedViaOf`: by bookmark, then by route. -/
def viaOrder (g h : Uuid × SharedVia) : Prop := g.1 < h.1 ∨ g.1 = h.1 ∧ g.2.rank ≤ h.2.rank

instance : DecidableRel viaOrder := fun _ _ => inferInstanceAs (Decidable (_ ∨ _))

/-- `sharedViaOf`: for each of the bookmarks that is shared with the account, its first route. -/
def sharedViaOf (bookmarkIds : List Uuid) : List (Uuid × SharedVia) :=
  distinctOn Prod.fst
    (((grantsTo c a w).filter fun g => decide (g.1 ∈ bookmarkIds)).insertionSort viaOrder)

/-- `folderSharedWith`: whether the folder is shared with the account. -/
def folderSharedWith (folderId : Uuid) : Bool :=
  c.folderShares.any fun s => decide (s.workspaceId = w ∧ s.folderId = folderId)
    && (sqlEq s.targetAccountId (some a) || inTeams (teamsOfAccount c a w) s.targetTeamId)

/-- `bookmarkSharedByOwner`: whether the row is shared with someone. -/
def bookmarkSharedByOwner (row : Bookmark) : Bool :=
  (c.bookmarkShares.any fun s => decide (s.workspaceId = row.workspaceId ∧ s.bookmarkId = row.id)) ||
  (c.folderBookmarks.any fun l => decide (l.workspaceId = row.workspaceId ∧ l.bookmarkId = row.id)
    && c.folderShares.any fun s => decide (s.workspaceId = l.workspaceId ∧ s.folderId = l.folderId))

end

/-! ## The fragments and the rule -/

variable {c : Content} {a w : Uuid}

theorem inTeams_teamsOfAccount {team : Option Uuid} :
    inTeams (teamsOfAccount c a w) team = true ↔ ∃ t, team = some t ∧ InTeam c w a t := by
  simp only [inTeams, teamsOfAccount, InTeam, List.any_eq_true, List.mem_map, List.mem_filter,
    decide_eq_true_eq, sqlEq_some]
  constructor
  · rintro ⟨t, ⟨m, ⟨hm, hw, ha⟩, rfl⟩, ht⟩
    exact ⟨_, ht, m, hm, hw, ha, rfl⟩
  · rintro ⟨t, ht, m, hm, hw, ha, rfl⟩
    exact ⟨_, ⟨m, ⟨hm, hw, ha⟩, rfl⟩, ht⟩

theorem mem_filedUnder {s : FolderShare} {id : Uuid} :
    id ∈ filedUnder c s ↔
      ∃ l ∈ c.folderBookmarks, l.workspaceId = s.workspaceId ∧ l.folderId = s.folderId ∧ l.bookmarkId = id := by
  simp only [filedUnder, List.mem_map, List.mem_filter, decide_eq_true_eq, Table.mem_iff]
  constructor
  · rintro ⟨l, ⟨hl, hw, hf⟩, hid⟩
    exact ⟨l, hl, hw, hf, hid⟩
  · rintro ⟨l, hl, hw, hf, hid⟩
    exact ⟨l, ⟨hl, hw, hf⟩, hid⟩

theorem mem_sharedDirectly {id : Uuid} : id ∈ sharedDirectly c a w ↔ Grant c w a id .direct := by
  simp only [sharedDirectly, List.mem_map, List.mem_filter, Bool.and_eq_true, decide_eq_true_eq, sqlEq_some]
  constructor
  · rintro ⟨s, ⟨hs, hw, ha⟩, rfl⟩
    exact .direct s hs hw ha
  · rintro ⟨⟩
    rename_i s hs hw ha
    exact ⟨s, ⟨hs, hw, ha⟩, rfl⟩

theorem mem_sharedByTeam {id : Uuid} : id ∈ sharedByTeam c a w ↔ Grant c w a id .team := by
  simp only [sharedByTeam, List.mem_map, List.mem_filter, Bool.and_eq_true, decide_eq_true_eq,
    inTeams_teamsOfAccount]
  constructor
  · rintro ⟨s, ⟨hs, hw, t, ht, hm⟩, rfl⟩
    exact .team s hs hw t ht hm
  · rintro ⟨⟩
    rename_i s hs hw t ht hm
    exact ⟨s, ⟨hs, hw, t, ht, hm⟩, rfl⟩

theorem mem_sharedByFolders {id : Uuid} :
    id ∈ sharedByFolder c a w ∨ id ∈ sharedByFolderTeam c a w ↔ Grant c w a id .folder := by
  simp only [sharedByFolder, sharedByFolderTeam, List.mem_flatMap, List.mem_filter, Bool.and_eq_true,
    decide_eq_true_eq, sqlEq_some, inTeams_teamsOfAccount, mem_filedUnder]
  constructor
  · rintro (⟨s, ⟨hs, hw, ha⟩, l, hl, hlw, hlf, rfl⟩ | ⟨s, ⟨hs, hw, t, ht, hm⟩, l, hl, hlw, hlf, rfl⟩)
    · exact .folder s hs hw (.account ha) l hl hlw hlf
    · exact .folder s hs hw (.team t ht hm) l hl hlw hlf
  · rintro ⟨⟩
    rename_i s hs hw ha l hl hlw hlf
    cases ha with
    | account ha => exact .inl ⟨s, ⟨hs, hw, ha⟩, l, hl, hlw, hlf, rfl⟩
    | team t ht hm => exact .inr ⟨s, ⟨hs, hw, t, ht, hm⟩, l, hl, hlw, hlf, rfl⟩

/-- **The rows of `grantsTo` are the grants of the rule.** -/
theorem mem_grantsTo {id : Uuid} {via : SharedVia} : (id, via) ∈ grantsTo c a w ↔ Grant c w a id via := by
  simp only [grantsTo, List.mem_append, List.mem_map, Prod.mk.injEq]
  cases via with
  | direct => simpa using mem_sharedDirectly
  | team => simpa using mem_sharedByTeam
  | folder => simpa using mem_sharedByFolders

theorem bookmarkReadableBy_iff {b : Bookmark} : bookmarkReadableBy c a b = true ↔ CanRead c a b := by
  rw [bookmarkReadableBy, Bool.or_eq_true, sqlEq_some, decide_eq_true_eq, CanRead, List.any_eq_true]
  refine or_congr_right ?_
  constructor
  · rintro ⟨⟨id, via⟩, hg, hid⟩
    obtain rfl := of_decide_eq_true hid
    exact ⟨via, mem_grantsTo.mp hg⟩
  · rintro ⟨via, hg⟩
    exact ⟨(b.id, via), mem_grantsTo.mpr hg, decide_eq_true rfl⟩

theorem mem_sharedBookmarks {id : Uuid} : id ∈ sharedBookmarks c a w ↔ ∃ via, Grant c w a id via := by
  simp only [sharedBookmarks, List.mem_dedup, List.mem_map, Prod.exists, mem_grantsTo]
  constructor
  · rintro ⟨_, via, hg, rfl⟩
    exact ⟨via, hg⟩
  · rintro ⟨via, hg⟩
    exact ⟨id, via, hg, rfl⟩

theorem bookmarkAccessOf_isSome {b : Bookmark} :
    (bookmarkAccessOf c a b).isSome = true ↔ CanRead c a b := by
  rw [bookmarkAccessOf, CanRead, sqlEq_some]
  split_ifs with how
  · simp [of_decide_eq_true how]
  · rw [Option.isSome_map, firstBy_isSome]
    have hnot : b.ownerId ≠ some a := by simpa using how
    simp only [hnot, false_or, List.mem_filter, decide_eq_true_eq, Prod.exists, mem_grantsTo]
    constructor
    · rintro ⟨_, via, hg, rfl⟩
      exact ⟨via, hg⟩
    · rintro ⟨via, hg⟩
      exact ⟨b.id, via, hg, rfl⟩

theorem sharedViaOf_nonempty {ids : List Uuid} {id : Uuid} (hid : id ∈ ids) :
    (∃ via, (id, via) ∈ sharedViaOf c a w ids) ↔ ∃ via, Grant c w a id via := by
  constructor
  · rintro ⟨via, h⟩
    have hmem := (List.mem_insertionSort viaOrder).mp (mem_of_mem_distinctOn h)
    exact ⟨via, mem_grantsTo.mp (List.mem_filter.mp hmem).1⟩
  · rintro ⟨via, hg⟩
    have hmem : (id, via) ∈ ((grantsTo c a w).filter fun g => decide (g.1 ∈ ids)).insertionSort viaOrder :=
      (List.mem_insertionSort viaOrder).mpr (List.mem_filter.mpr ⟨mem_grantsTo.mpr hg, decide_eq_true hid⟩)
    obtain ⟨⟨id', via'⟩, hy, rfl⟩ : ∃ g ∈ sharedViaOf c a w ids, g.1 = id := exists_mem_distinctOn hmem
    exact ⟨via', hy⟩

/-! ## The route -/

instance : Std.Total viaOrder where
  total g h := by
    rcases lt_trichotomy g.1 h.1 with hlt | heq | hlt
    · exact .inl (.inl hlt)
    · rcases Nat.le_total g.2.rank h.2.rank with hle | hle
      · exact .inl (.inr ⟨heq, hle⟩)
      · exact .inr (.inr ⟨heq.symm, hle⟩)
    · exact .inr (.inl hlt)

instance : IsTrans (Uuid × SharedVia) viaOrder where
  trans g h k := by
    rintro (hlt | ⟨heq, hle⟩) (hlt' | ⟨heq', hle'⟩)
    · exact .inl (hlt.trans hlt')
    · exact .inl (heq' ▸ hlt)
    · exact .inl (heq ▸ hlt')
    · exact .inr ⟨heq.trans heq', hle.trans hle'⟩

instance : Std.Total routeOrder := ⟨fun g h => Nat.le_total g.2.rank h.2.rank⟩

instance : IsTrans (Uuid × SharedVia) routeOrder := ⟨fun _ _ _ h h' => Nat.le_trans h h'⟩

theorem sharedViaOf_first {ids : List Uuid} {id : Uuid} {via via' : SharedVia}
    (h : (id, via) ∈ sharedViaOf c a w ids) (hg : Grant c w a id via') : via.rank ≤ via'.rank := by
  have hmem := List.mem_filter.mp ((List.mem_insertionSort viaOrder).mp (mem_of_mem_distinctOn h))
  have hmem' : (id, via') ∈
      ((grantsTo c a w).filter fun g => decide (g.1 ∈ ids)).insertionSort viaOrder :=
    (List.mem_insertionSort viaOrder).mpr (List.mem_filter.mpr ⟨mem_grantsTo.mpr hg, hmem.2⟩)
  rcases distinctOn_le (List.pairwise_insertionSort viaOrder _) h hmem' rfl with heq | hle
  · exact le_of_eq (congrArg (fun g => g.2.rank) heq.symm)
  · rcases hle with hlt | ⟨_, hle⟩
    · exact absurd hlt (lt_irrefl id)
    · exact hle

/-- The route `bookmarkAccessOf` answers is the first of the bookmark's routes. -/
theorem bookmarkAccessOf_first {b : Bookmark} {via via' : SharedVia}
    (h : bookmarkAccessOf c a b = some (.shared via)) (hg : Grant c b.workspaceId a b.id via') :
    Grant c b.workspaceId a b.id via ∧ via.rank ≤ via'.rank := by
  unfold bookmarkAccessOf at h
  split_ifs at h
  · cases h
  obtain ⟨⟨id, v⟩, hfirst, hv⟩ := Option.map_eq_some_iff.mp h
  obtain rfl : v = via := Access.shared.inj hv
  have hmem := List.mem_filter.mp (firstBy_mem hfirst)
  obtain rfl : id = b.id := of_decide_eq_true hmem.2
  refine ⟨mem_grantsTo.mp hmem.1, ?_⟩
  have hmem' : (b.id, via') ∈ (grantsTo c a b.workspaceId).filter fun g => decide (g.1 = b.id) :=
    List.mem_filter.mpr ⟨mem_grantsTo.mpr hg, decide_eq_true rfl⟩
  rcases firstBy_le hfirst hmem' with heq | hle
  · exact le_of_eq (congrArg (fun g => g.2.rank) heq.symm)
  · exact hle

/-- **The list and the scalar answer the same route** for a bookmark that is not the account's own. -/
theorem sharedViaOf_eq_accessOf {ids : List Uuid} {b : Bookmark} {via : SharedVia} (hid : b.id ∈ ids)
    (hown : b.ownerId ≠ some a) :
    (b.id, via) ∈ sharedViaOf c a b.workspaceId ids ↔ bookmarkAccessOf c a b = some (.shared via) := by
  constructor
  · intro h
    obtain ⟨via', hg⟩ := (sharedViaOf_nonempty hid).mp ⟨via, h⟩
    obtain ⟨access, haccess⟩ := Option.isSome_iff_exists.mp (bookmarkAccessOf_isSome.mpr (.inr ⟨via', hg⟩))
    cases access with
    | owner =>
      unfold bookmarkAccessOf at haccess
      split_ifs at haccess with hmine
      · exact absurd (by simpa using hmine) hown
      · simp at haccess
    | shared v =>
      obtain ⟨hv, _⟩ := bookmarkAccessOf_first haccess hg
      have hvia := mem_grantsTo.mp (List.mem_filter.mp
        ((List.mem_insertionSort viaOrder).mp (mem_of_mem_distinctOn h))).1
      have heq : v = via := SharedVia.rank_injective
        (le_antisymm (bookmarkAccessOf_first haccess hvia).2 (sharedViaOf_first h hv))
      rw [haccess, heq]
  · intro h
    have hread : CanRead c a b := bookmarkAccessOf_isSome.mp (by rw [h]; rfl)
    obtain ⟨via', hg⟩ := hread.resolve_left hown
    obtain ⟨v, hv⟩ := (sharedViaOf_nonempty hid).mpr ⟨via', hg⟩
    have hgv := mem_grantsTo.mp (List.mem_filter.mp
      ((List.mem_insertionSort viaOrder).mp (mem_of_mem_distinctOn hv))).1
    have hgvia := (bookmarkAccessOf_first h hg).1
    have heq : v = via := SharedVia.rank_injective
      (le_antisymm (sharedViaOf_first hv hgvia) (bookmarkAccessOf_first h hgv).2)
    exact heq ▸ hv

end SlugBase
