import SlugBase.Preference.Routes
import SlugBase.Lib.Transition

/-!
# Transactions that end access

Transactions at read committed: each statement, and each deferred trigger, reads what is committed when it
runs, under the writes of its own transaction.

A statement that remembers a choice, and a trigger, are placed at their snapshot: what they have judged by it nobody
else sees before the commit, so a wait at the unique key or at a row in between changes nothing for the others, and a
choice counts as written from the snapshot on. A statement that deletes is placed where it has got its rows: no operation
adds a way, so it finds those of its snapshot that are still there when it has waited for them.

* `Op`, `Op.writes`: the operations that take access away, and the one that remembers a choice;
* `World`, `step`, `system`: the transactions in flight, their triggers and commits;
* `NoOrphans`: each choice names a bookmark that its account can read; `Apart`: a commit that crosses no other;
* `Settled`: a choice is readable, or a trigger that looks at it is still to run; **`settled_append`**,
  **`settled_trigger`**: what statements and triggers keep of it.
-/

namespace SlugBase.Preference

open Relational Transition

/-! ## The operations -/

/-- The operations that end access, in the workspace of their transaction, and those that write choices. -/
inductive Op
  | revoke (bookmarkId shareId : Uuid)
  | revokeFolderShare (folderId shareId : Uuid)
  | removeTeam (teamId : Uuid)
  | replaceMembers (teamId : Uuid) (accountIds : List Uuid)
  | unfile (folderId : Uuid) (bookmarkIds : List Uuid)
  | removeFolder (folderId : Uuid)
  | removeBookmark (bookmarkId : Uuid)
  | leave (s : Session) (accountId : Uuid)
  | remember (accountId : Uuid) (slug : String) (bookmarkId : Uuid)
  /-- The choices of an imported file, by slug. -/
  | rememberChoices (accountId : Uuid) (choices : List (String × Uuid))
  | forgetStale (accountId : Uuid) (slug : String) (bookmarkId : Uuid)

section

variable (c : Content) (w : Uuid)

/-- `DELETE` of the shares of bookmarks that meet a condition. -/
def bookmarkSharesGone (p : BookmarkShare → Bool) : List Write :=
  (c.bookmarkShares.rows.filter p).map fun s => .deleted (.bookmarkShare s)

/-- `DELETE` of the filings that meet a condition. -/
def folderBookmarksGone (p : FolderBookmark → Bool) : List Write :=
  (c.folderBookmarks.rows.filter p).map fun l => .deleted (.folderBookmark l)

/-- `DELETE` of the shares of folders that meet a condition. -/
def folderSharesGone (p : FolderShare → Bool) : List Write :=
  (c.folderShares.rows.filter p).map fun s => .deleted (.folderShare s)

/-- `DELETE` of the team memberships that meet a condition. -/
def teamMembersGone (p : TeamMember → Bool) : List Write :=
  (c.teamMembers.rows.filter p).map fun m => .deleted (.teamMember m)

/-- The choice of a bookmark under a slug, where the account can read it and it forwards the slug. -/
def chosenRows (accountId : Uuid) (slug : String) (bookmarkId : Uuid) : List Write :=
  (c.bookmarks.rows.filter fun b => decide (b.workspaceId = w ∧ b.id = bookmarkId ∧ b.slug = some slug) &&
    b.forwarding && b.planArchivedAt.isNone && bookmarkReadableBy c accountId b).map fun b =>
      .chosen ⟨w, accountId, slug, b.id⟩

/-- The rows that an operation writes, with those the foreign keys delete after it. -/
def Op.writes : Op → List Write
  | .revoke bookmarkId shareId => bookmarkSharesGone c fun s =>
      decide (s.workspaceId = w ∧ s.id = shareId ∧ s.bookmarkId = bookmarkId)
  | .revokeFolderShare folderId shareId => folderSharesGone c fun s =>
      decide (s.workspaceId = w ∧ s.id = shareId ∧ s.folderId = folderId)
  | .removeTeam teamId =>
      teamMembersGone c (fun m => decide (m.workspaceId = w ∧ m.teamId = teamId)) ++
        bookmarkSharesGone c (fun s => decide (s.workspaceId = w ∧ s.targetTeamId = some teamId)) ++
        folderSharesGone c (fun s => decide (s.workspaceId = w ∧ s.targetTeamId = some teamId))
  | .replaceMembers teamId accountIds =>
      if accountIds.all fun a => c.members.any fun m => decide (m.workspaceId = w ∧ m.accountId = a) then
        teamMembersGone c fun m => decide (m.workspaceId = w ∧ m.teamId = teamId) && !accountIds.contains m.accountId
      else []
  | .unfile folderId bookmarkIds => folderBookmarksGone c fun l =>
      decide (l.workspaceId = w ∧ l.folderId = folderId) && bookmarkIds.contains l.bookmarkId
  | .removeFolder folderId =>
      folderBookmarksGone c (fun l => decide (l.workspaceId = w ∧ l.folderId = folderId)) ++
        folderSharesGone c (fun s => decide (s.workspaceId = w ∧ s.folderId = folderId))
  | .removeBookmark bookmarkId =>
      if c.bookmarks.any fun b => decide (b.workspaceId = w ∧ b.id = bookmarkId) then
        .bookmarkGone bookmarkId ::
          (bookmarkSharesGone c (fun s => decide (s.workspaceId = w ∧ s.bookmarkId = bookmarkId)) ++
            folderBookmarksGone c (fun l => decide (l.workspaceId = w ∧ l.bookmarkId = bookmarkId)))
      else []
  | .leave s accountId =>
      .left s w accountId ::
        (teamMembersGone c (fun m => decide (m.workspaceId = w ∧ m.accountId = accountId)) ++
          bookmarkSharesGone c (fun s => decide (s.workspaceId = w ∧ s.targetAccountId = some accountId)) ++
          folderSharesGone c (fun s => decide (s.workspaceId = w ∧ s.targetAccountId = some accountId)))
  | .remember accountId slug bookmarkId => chosenRows c w accountId slug bookmarkId
  | .rememberChoices accountId choices => choices.flatMap fun choice => chosenRows c w accountId choice.1 choice.2
  | .forgetStale accountId slug bookmarkId =>
      (c.slugPreferences.rows.filter fun p =>
        decide (p.workspaceId = w ∧ p.accountId = accountId ∧ p.slug = slug ∧ p.bookmarkId = bookmarkId) &&
          !(c.bookmarks.any fun b => decide (b.workspaceId = w ∧ b.id = bookmarkId ∧ b.slug = some slug) &&
            b.forwarding && bookmarkReadableBy c accountId b)).map .forgotten

end

/-! ## The transactions -/

/-- A transaction: what it has written, and, once it is done, the deleted rows whose triggers are to run. -/
structure Tx where
  writes : List Write := []
  triggers : Option (List Row) := none

/-- The row a write deletes. -/
def Write.row? : Write → Option Row
  | .deleted r => some r
  | _ => none

/-- The rows that a transaction has deleted, in order. -/
def deletions (writes : List Write) : List Row := writes.filterMap Write.row?

/-- The deleted rows whose triggers have not run. -/
def Tx.awaiting (t : Tx) : List Row := t.triggers.getD (deletions t.writes)

/-- What is committed, and the transactions by number. -/
structure World where
  committed : Content
  txs : ℕ → Tx

/-- What a transaction sees. -/
def World.seen (s : World) (i : ℕ) : Content := view s.committed (s.txs i).writes

/-- The state with another transaction of a number. -/
def World.set (s : World) (i : ℕ) (t : Tx) : World := { s with txs := Function.update s.txs i t }

inductive Event
  | statement (i : ℕ) (w : Uuid) (op : Op)
  /-- The transaction is done, and its deferred triggers are to run. -/
  | done (i : ℕ)
  | trigger (i : ℕ)
  | commit (i : ℕ)
  | rollBack (i : ℕ)

/-- The transaction of an event. -/
def Event.tx : Event → ℕ
  | .statement i _ _ => i
  | .done i => i
  | .trigger i => i
  | .commit i => i
  | .rollBack i => i

/-- **A step**: a statement, the end of the statements, a deferred trigger, the commit, or a rollback. -/
def step (s : World) : Event → Option World
  | .statement i w op =>
    if (s.txs i).triggers.isNone then
      some (s.set i { s.txs i with writes := (s.txs i).writes ++ op.writes (s.seen i) w })
    else none
  | .done i =>
    if (s.txs i).triggers.isNone then
      some (s.set i { s.txs i with triggers := some (deletions (s.txs i).writes) })
    else none
  | .trigger i =>
    match (s.txs i).triggers with
    | some (row :: rest) => some (s.set i
        ⟨(s.txs i).writes ++ (forgetUnreadable (s.seen i) row).map .forgotten, some rest⟩)
    | _ => none
  | .commit i =>
    if (s.txs i).triggers = some [] then some { committed := s.seen i, txs := Function.update s.txs i {} } else none
  | .rollBack i => some (s.set i {})

/-- **No choice outlives the access it was made through.** -/
def NoOrphans (c : Content) : Prop := ∀ p ∈ c.slugPreferences, readable c p = true

/-- **The system**: it starts from any content without orphans, with no transaction open. -/
def system : System World Event where
  init s := NoOrphans s.committed ∧ ∀ i, s.txs i = {}
  step s e s' := step s e = some s'

/-- The transaction has taken away a way to a choice that is committed. -/
def Takes (s : World) (i : ℕ) (p : SlugPreference) : Prop :=
  ∃ w ∈ (s.txs i).writes, ∃ route, IsRoute p route ∧ Holds s.committed route ∧ ∃ need ∈ route, w.removes need

/-- The transaction has remembered the choice, or its statement that does so has taken its snapshot. -/
def Chooses (s : World) (i : ℕ) (p : SlugPreference) : Prop := .chosen p ∈ (s.txs i).writes

/-- **A commit that crosses no other**: no other transaction that is done has taken a way to a choice that this one
takes a way to or remembers, and none has remembered a choice that this one takes a way to. -/
def Apart (s : World) : Event → Prop
  | .commit i => ∀ k, k ≠ i → ∀ p,
      ((s.txs k).triggers.isSome = true → Takes s k p → ¬Takes s i p ∧ ¬Chooses s i p) ∧
        (Chooses s k p → ¬Takes s i p)
  | _ => True

/-! ## What is left to the triggers -/

variable {c : Content} {p : SlugPreference} {route : List Need} {w : Write} {writes : List Write} {rows : List Row}

/-- A trigger that looks at a way is still to run: that of a row of the way, and where this is a share of a folder,
the filing is not deleted. -/
def Awaits (writes : List Write) (rows : List Row) (route : List Need) : Prop :=
  ∃ r ∈ rows, .row r ∈ route ∧
    ∀ s, r = .folderShare s → ∀ l, .row (.folderBookmark l) ∈ route → .deleted (.folderBookmark l) ∉ writes

/-- **A choice is settled**: the transaction sees a way to it, or a trigger of it that looks at a committed way is
still to run. -/
def Settled (c : Content) (writes : List Write) (rows : List Row) (p : SlugPreference) : Prop :=
  (∃ route, IsRoute p route ∧ Holds (view c writes) route) ∨
    ∃ route, IsRoute p route ∧ Holds c route ∧ Awaits writes rows route

theorem mem_deletions {r : Row} : r ∈ deletions writes ↔ .deleted r ∈ writes := by
  rw [deletions, List.mem_filterMap]
  constructor
  · rintro ⟨w, hw, hrow⟩
    cases w with
    | deleted r' =>
      obtain rfl := Option.some.inj hrow
      exact hw
    | bookmarkGone id => cases hrow
    | left s w a => cases hrow
    | chosen q => cases hrow
    | forgotten q => cases hrow
  · exact fun h => ⟨_, h, rfl⟩

theorem holds_view : Holds (view c writes) route ↔ Holds c route ∧ ∀ w ∈ writes, ∀ need ∈ route, ¬w.removes need := by
  constructor
  · intro h
    exact ⟨fun need hneed => (in_view.mp (h need hneed)).1,
      fun w hw need hneed => (in_view.mp (h need hneed)).2 w hw⟩
  · rintro ⟨hholds, hkept⟩ need hneed
    exact in_view.mpr ⟨hholds need hneed, fun w hw => hkept w hw need hneed⟩

/-- A write that takes a way, and leaves its choice, deletes a row of it. -/
theorem deleted_of_removes (hroute : IsRoute p route) {need : Need} (hneed : need ∈ route) (hremoves : w.removes need)
    (hkept : ¬w.erases p) : ∃ r, w = .deleted r ∧ .row r ∈ route := by
  cases w with
  | deleted r => exact ⟨r, rfl, hremoves ▸ hneed⟩
  | bookmarkGone id =>
    refine absurd ?_ hkept
    rcases hremoves with ⟨v, rfl⟩ | ⟨v, a, rfl⟩
    · cases hroute <;> simp_all [Write.erases]
    · cases hroute <;> simp_all [Write.erases]
  | left s v a =>
    refine absurd ?_ hkept
    obtain ⟨id, rfl⟩ := hremoves
    cases hroute <;> simp_all [Write.erases]
  | chosen q => exact hremoves.elim
  | forgotten q => exact hremoves.elim

theorem awaits_of_removes {r : Row} (hr : .row r ∈ route) (hdeleted : .deleted r ∈ writes) :
    Awaits writes (deletions writes) route := by
  by_cases hfiled : ∃ l, .row (.folderBookmark l) ∈ route ∧ .deleted (.folderBookmark l) ∈ writes
  · obtain ⟨l, hl, hgone⟩ := hfiled
    refine ⟨_, mem_deletions.mpr hgone, hl, fun s hs => ?_⟩
    cases hs
  · refine ⟨r, mem_deletions.mpr hdeleted, hr, fun s _ l hl hgone => hfiled ⟨l, hl, hgone⟩⟩

theorem settled_of_holds (hroute : IsRoute p route) (hholds : Holds c route)
    (hkept : ∀ w ∈ writes, ¬w.erases p) : Settled c writes (deletions writes) p := by
  by_cases htaken : ∃ w ∈ writes, ∃ need ∈ route, w.removes need
  · obtain ⟨w, hw, need, hneed, hremoves⟩ := htaken
    obtain ⟨r, rfl, hr⟩ := deleted_of_removes hroute hneed hremoves (hkept w hw)
    exact .inr ⟨route, hroute, hholds, awaits_of_removes hr hw⟩
  · refine .inl ⟨route, hroute, holds_view.mpr ⟨hholds, fun w hw need hneed hremoves => ?_⟩⟩
    exact htaken ⟨w, hw, need, hneed, hremoves⟩

theorem kept_of_mem_view (h : p ∈ (view c writes).slugPreferences) (hnot : .chosen p ∉ writes) :
    ∀ w ∈ writes, ¬w.erases p := by
  induction writes generalizing c with
  | nil => exact fun w hw => absurd hw List.not_mem_nil
  | cons w writes ih =>
    have hlater : .chosen p ∉ writes := fun hmem => hnot (List.mem_cons_of_mem _ hmem)
    have hrest : p ∈ (view (w.apply c) writes).slugPreferences := h
    have hone : p ∈ (w.apply c).slugPreferences := (mem_of_mem_view hrest).resolve_right hlater
    have hkept := ((mem_apply.mp hone).resolve_left fun hw => hnot (hw ▸ List.mem_cons_self)).2
    exact List.forall_mem_cons.mpr ⟨hkept, ih h hlater⟩

/-- **One more write keeps a choice settled**, if it leaves the choice. -/
theorem settled_write (h : Settled c writes (deletions writes) p) (hkept : ¬w.erases p) :
    Settled c (writes ++ [w]) (deletions (writes ++ [w])) p := by
  rcases h with ⟨route, hroute, hholds⟩ | ⟨route, hroute, hholds, r, hr, hrow, -⟩
  · obtain ⟨hcommitted, hseen⟩ := holds_view.mp hholds
    by_cases htaken : ∃ need ∈ route, w.removes need
    · obtain ⟨need, hneed, hremoves⟩ := htaken
      obtain ⟨r, rfl, hr⟩ := deleted_of_removes hroute hneed hremoves hkept
      exact .inr ⟨route, hroute, hcommitted,
        awaits_of_removes hr (List.mem_append_right _ List.mem_cons_self)⟩
    · refine .inl ⟨route, hroute, holds_view.mpr ⟨hcommitted, fun v hv need hneed hremoves => ?_⟩⟩
      rcases List.mem_append.mp hv with hv | hv
      · exact hseen v hv need hneed hremoves
      · exact htaken ⟨need, hneed, List.mem_singleton.mp hv ▸ hremoves⟩
  · exact .inr ⟨route, hroute, hholds, awaits_of_removes hrow (List.mem_append_left _ (mem_deletions.mp hr))⟩

/-- **The writes of a statement keep a choice settled** that they do not write. -/
theorem settled_append {more : List Write} (h : p ∈ (view c writes).slugPreferences → Settled c writes (deletions writes) p)
    (hnot : .chosen p ∉ more) (hmem : p ∈ (view c (writes ++ more)).slugPreferences) :
    Settled c (writes ++ more) (deletions (writes ++ more)) p := by
  induction more generalizing writes with
  | nil => simpa using h (by simpa using hmem)
  | cons w more ih =>
    have hsplit : writes ++ w :: more = (writes ++ [w]) ++ more := by simp
    rw [hsplit] at hmem ⊢
    refine ih (fun hone => ?_) (fun hlater => hnot (List.mem_cons_of_mem _ hlater)) hmem
    rw [view_append] at hone
    obtain ⟨hbefore, hkept⟩ := (mem_apply.mp hone).resolve_left fun hw => hnot (hw ▸ List.mem_cons_self)
    exact settled_write (h hbefore) hkept

theorem holds_forgotten {gone : List SlugPreference} :
    Holds (view c (writes ++ gone.map .forgotten)) route ↔ Holds (view c writes) route := by
  rw [holds_view, holds_view]
  refine and_congr_right fun _ => ⟨fun h w hw => h w (List.mem_append_left _ hw), fun h w hw => ?_⟩
  rcases List.mem_append.mp hw with hw | hw
  · exact h w hw
  · obtain ⟨q, -, rfl⟩ := List.mem_map.mp hw
    exact fun _ _ hremoves => hremoves

theorem mem_forgotten {gone : List SlugPreference} :
    p ∈ (view c (gone.map .forgotten)).slugPreferences ↔ p ∈ c.slugPreferences ∧ p ∉ gone := by
  induction gone generalizing c with
  | nil => exact (and_iff_left List.not_mem_nil).symm
  | cons q gone ih =>
    have hq : p ∈ ((Write.forgotten q).apply c).slugPreferences ↔ p ∈ c.slugPreferences ∧ p ≠ q := by
      refine mem_apply.trans (or_iff_right fun h => ?_)
      cases h
    refine (ih (c := (Write.forgotten q).apply c)).trans ?_
    rw [hq, List.mem_cons, not_or, and_assoc]

theorem deleted_of_forgotten {gone : List SlugPreference} {r : Row} :
    .deleted r ∈ writes ++ gone.map .forgotten ↔ .deleted r ∈ writes := by
  refine List.mem_append.trans (or_iff_left fun h => ?_)
  obtain ⟨q, -, hq⟩ := List.mem_map.mp h
  cases hq

/-- **A trigger keeps the choices settled that it leaves**: one that it looks at is readable. -/
theorem settled_trigger {row : Row} {rest : List Row}
    (h : p ∈ (view c writes).slugPreferences → Settled c writes (row :: rest) p)
    (hmem : p ∈ (view c (writes ++ (forgetUnreadable (view c writes) row).map .forgotten)).slugPreferences) :
    Settled c (writes ++ (forgetUnreadable (view c writes) row).map .forgotten) rest p := by
  rw [view_append, mem_forgotten] at hmem
  obtain ⟨hseen, hleft⟩ := hmem
  have hlooked : looksAt (view c writes) p row = true → readable (view c writes) p = true := by
    intro hlooks
    by_contra hread
    refine hleft (List.mem_filter.mpr ⟨hseen, ?_⟩)
    rw [hlooks, Bool.eq_false_iff.mpr hread]
    rfl
  rcases h hseen with ⟨route, hroute, hholds⟩ | ⟨route, hroute, hholds, r, hr, hrow, hfiled⟩
  · exact .inl ⟨route, hroute, holds_forgotten.mpr hholds⟩
  · rcases List.mem_cons.mp hr with rfl | hr
    · have hread := hlooked (looksAt_of_route hroute hrow fun s hs l hl => ?_)
      · obtain ⟨route', hroute', hholds'⟩ := readable_iff.mp hread
        exact .inl ⟨route', hroute', holds_forgotten.mpr hholds'⟩
      · -- the filing is committed, and the transaction has not deleted it
        show (Need.row (.folderBookmark l)).In (view c writes)
        refine in_view.mpr ⟨hholds _ hl, fun w hw hremoves => ?_⟩
        cases w with
        | deleted r' =>
          obtain rfl := Need.row.inj hremoves
          exact hfiled s hs l hl hw
        | bookmarkGone id => rcases hremoves with ⟨_, h⟩ | ⟨_, _, h⟩ <;> cases h
        | left s' v a =>
          obtain ⟨_, h⟩ := hremoves
          cases h
        | chosen q => exact hremoves
        | forgotten q => exact hremoves
    · exact .inr ⟨route, hroute, hholds, r, hr, hrow, fun s hs l hl hgone => hfiled s hs l hl (deleted_of_forgotten.mp hgone)⟩

end SlugBase.Preference
