import SlugBase.Invitation.Kept

/-!
# An acceptance from its locks to its commit

* `Admitting`: an acceptance that has decided by rows it has locked; `Joined`: with its membership written; `Accepting`:
  with its invitation accepted;
* `stable_admitting`, `stable_joined`, `stable_accepting`: the commits of the others keep them;
* **`Accepting.promise`**: the commit is what an acceptance promises.
-/

namespace SlugBase.Invitation

open ReadCommitted Auth

variable {c : Acceptance} {row : InvitationRow} {db : Rows} {x : Local}

/-! ## What an acceptance has found and written -/

/-- The rows an acceptance may write. -/
def Touches (c : Acceptance) (row : InvitationRow) (db : Rows) (locks : List (Key × LockMode)) : Key → Prop
  | .member w a => w = c.workspaceId ∧ a = c.accountId
  | .teamMember w t a => w = c.workspaceId ∧ a = c.accountId ∧ t ∈ row.teamIds ∧ db.team t = some c.workspaceId ∧
      (Key.team t, LockMode.keyShare) ∈ locks
  | .invitation i => i = c.invitationId
  | .account a => a = c.accountId
  | .address _ | .identity _ _ => True
  | .workspace _ | .team _ | .reservation _ => False

theorem Touches.mono {locks locks' : List (Key × LockMode)} {k : Key} (h : Touches c row db locks k) (hsub : locks ⊆ locks') :
    Touches c row db locks' k := by
  cases k with
  | teamMember w t a => exact ⟨h.1, h.2.1, h.2.2.1, h.2.2.2.1, hsub h.2.2.2.2⟩
  | _ => exact h

/-- The account holds the invited address verified and is locked, or it was made by this transaction, with the address. -/
def Admitted (c : Acceptance) (row : InvitationRow) (db : Rows) (x : Local) : Prop :=
  (∃ a, (Key.account c.accountId, LockMode.share) ∈ x.locks ∧ db.account c.accountId = some a ∧ a.emailVerifiedAt ≠ none ∧
    a.email = row.email ∧ a.mayAccept = true) ∨
  ((Key.account c.accountId, LockMode.update) ∈ x.locks ∧ db.account c.accountId = none ∧
    Key.account c.accountId ∈ x.written ∧ ∃ a, Rows.account (x.view db) c.accountId = some a ∧ a.email = row.email)

/-- The invitation is locked, pending and what the acceptance says. -/
structure Holding (c : Acceptance) (row : InvitationRow) (db : Rows) (x : Local) : Prop where
  workspace : (Key.workspace c.workspaceId, LockMode.noKeyUpdate) ∈ x.locks
  locked : (Key.invitation c.invitationId, LockMode.update) ∈ x.locks
  invitation : db.lookup (.invitation c.invitationId) = some (some row)
  pending : row.status = .pending
  of : row.workspaceId = c.workspaceId ∧ row.role = c.role

/-- The acceptance may write. -/
structure Admitting (c : Acceptance) (row : InvitationRow) (db : Rows) (x : Local) : Prop extends Holding c row db x where
  account : Admitted c row db x
  seats : ∀ limit, c.seatLimit = some limit → (Rows.memberIds db c.workspaceId).length < limit
  touches : ∀ k ∈ x.written, Touches c row db x.locks k

/-- The membership is written. -/
structure Joined (c : Acceptance) (row : InvitationRow) (db : Rows) (x : Local) : Prop extends Admitting c row db x where
  absent : db.member c.workspaceId c.accountId = none
  wroteMember : Key.member c.workspaceId c.accountId ∈ x.written
  member : Rows.member (x.view db) c.workspaceId c.accountId = some c.role

/-- And the invitation is accepted. -/
structure Accepting (c : Acceptance) (row : InvitationRow) (db : Rows) (x : Local) : Prop extends Joined c row db x where
  wroteInvitation : Key.invitation c.invitationId ∈ x.written
  accepted : ∃ now, (x.view db).lookup (.invitation c.invitationId) = some (some (row.update (.accepted c.accountId now)))

/-! ## What the others keep -/

theorem blocks_update (q : Statement) : LockMode.update.conflicts (rules.mode q) = true := rfl

theorem blocks_share (q : Statement) : LockMode.share.conflicts (rules.mode q) = true := by
  cases q <;> rfl

section

variable {answer : Answer} {y : Local}

theorem member_of_workspace (hlock : (Key.workspace c.workspaceId, LockMode.noKeyUpdate) ∈ x.locks)
    (hy : Promise answer db y) (hapart : x.Apart y) {a : Uuid} (h : Rows.member (y.view db) c.workspaceId a ≠ none) :
    db.member c.workspaceId a ≠ none := by
  intro hnone
  obtain ⟨accepting, hchanged⟩ := hy.changed
  obtain ⟨m, hm, hconflicts⟩ := hchanged (.member c.workspaceId a) hnone h
  have hno := hapart _ hlock _ hm rfl
  rw [LockMode.conflicts_comm] at hno
  rw [hno] at hconflicts
  cases hconflicts

theorem team_of_locked {t : Uuid} (hlock : (Key.team t, LockMode.keyShare) ∈ x.locks) (hy : Promise answer db y)
    (hapart : x.Apart y) : Rows.team (y.view db) t = db.team t := by
  by_contra hne
  obtain ⟨accepting, hchanged⟩ := hy.changed
  have hupdate := hchanged (.team t) fun h => hne h.symm
  cases hapart _ hlock _ hupdate rfl

theorem view_of_written {k : Key} (hk : k ∈ x.written) : (x.view (y.view db)).lookup k = (x.view db).lookup k :=
  Held.lookup_view_of_mem hk _ db

end

theorem stable_holding : contract.Stable (Holding c row) := by
  intro db x answer y hdb h hy hlocked hapart hdisjoint
  exact { h with
    invitation := (Contract.Stable.row (c := contract) blocks_update (some (some row)) db x answer y hdb
      ⟨h.locked, h.invitation⟩ hy hlocked hapart hdisjoint).2 }

theorem stable_admitted : contract.Stable (Admitted c row) := by
  intro db x answer y hdb h hy hlocked hapart hdisjoint
  rcases h with ⟨a, hlock, ha, hrest⟩ | ⟨hlock, hnone, hwritten, a, ha, hemail⟩
  · refine .inl ⟨a, hlock, ?_, hrest⟩
    exact (Contract.Stable.row (c := contract) blocks_share (some a) db x answer y hdb ⟨hlock, ha⟩ hy hlocked hapart
      hdisjoint).2
  · refine .inr ⟨hlock, ?_, hwritten, a, (view_of_written hwritten).trans ha, hemail⟩
    exact (Contract.Stable.row (c := contract) blocks_update none db x answer y hdb ⟨hlock, hnone⟩ hy hlocked hapart
      hdisjoint).2

theorem stable_admitting : contract.Stable (Admitting c row) := by
  intro db x answer y hdb h hy hlocked hapart hdisjoint
  refine ⟨stable_holding db x answer y hdb h.toHolding hy hlocked hapart hdisjoint,
    stable_admitted db x answer y hdb h.account hy hlocked hapart hdisjoint, fun limit hlimit => ?_, fun k hk => ?_⟩
  · exact (Rows.length_memberIds_le fun a ha => member_of_workspace h.workspace hy hapart ha).trans_lt (h.seats limit hlimit)
  · have htouches := h.touches k hk
    cases k with
    | teamMember w t a =>
      obtain ⟨hw, ha, ht, hteam, hlock⟩ := htouches
      exact ⟨hw, ha, ht, (team_of_locked hlock hy hapart).trans hteam, hlock⟩
    | _ => exact htouches

theorem stable_joined : contract.Stable (Joined c row) := by
  intro db x answer y hdb h hy hlocked hapart hdisjoint
  refine ⟨stable_admitting db x answer y hdb h.toAdmitting hy hlocked hapart hdisjoint, ?_, h.wroteMember,
    (view_of_written h.wroteMember).trans h.member⟩
  by_contra hsome
  exact member_of_workspace h.workspace hy hapart hsome h.absent

theorem stable_accepting : contract.Stable (Accepting c row) := by
  intro db x answer y hdb h hy hlocked hapart hdisjoint
  obtain ⟨now, haccepted⟩ := h.accepted
  exact ⟨stable_joined db x answer y hdb h.toJoined hy hlocked hapart hdisjoint, h.wroteInvitation, now,
    (view_of_written h.wroteInvitation).trans haccepted⟩

/-! ## The commit -/

theorem Admitting.view_eq (h : Admitting c row db x) {k : Key} (hk : ¬ Touches c row db x.locks k) :
    (x.view db).lookup k = db.lookup k :=
  Held.lookup_view_of_notMem (fun hwritten => hk (h.touches k hwritten)) db

theorem Admitting.changed (h : Admitting c row db x) : Changed (some c.invitationId) db x := by
  intro k
  by_cases hk : k ∈ x.written
  · have htouches := h.touches k hk
    cases k with
    | member w a => exact fun _ _ => ⟨.noKeyUpdate, htouches.1 ▸ h.workspace, rfl⟩
    | team t => exact htouches.elim
    | invitation i =>
      obtain rfl : i = c.invitationId := htouches
      refine ⟨fun hended => ?_, fun hne => absurd rfl hne⟩
      obtain ⟨_, hslot, hclosed⟩ := hended
      rw [h.invitation] at hslot
      cases hslot
      exact absurd h.pending (hclosed row rfl)
    | workspace | account | address | reservation | identity | teamMember => trivial
  · rw [Held.lookup_view_of_notMem hk]
    exact .refl _ _ _ _

theorem Accepting.accepts (h : Accepting c row db x) : Accepts db (x.view db) c := by
  obtain ⟨now, haccepted⟩ := h.accepted
  have hmembers : ∀ w a, (w, a) ≠ (c.workspaceId, c.accountId) → Rows.member (x.view db) w a = db.member w a :=
    fun w a hne => h.view_eq fun htouches => hne (Prod.ext htouches.1 htouches.2)
  refine ⟨⟨row, invitation_eq_some.mpr h.invitation, h.pending, h.of.1, h.of.2, ⟨now, invitation_eq_some.mpr haccepted⟩, ?_,
    fun w t a hsome hnone => ?_⟩, fun i hi => ?_, ⟨h.absent, h.member⟩, hmembers, fun limit hlimit => ?_⟩
  · rcases h.account with ⟨a, -, ha, hrest⟩ | ⟨-, hnone, -, a, ha, hemail⟩
    · exact .inl ⟨a, ha, hrest⟩
    · exact .inr ⟨hnone, a, ha, hemail⟩
  · by_contra hnot
    refine hsome ((h.view_eq fun htouches => hnot ?_).trans hnone)
    exact ⟨htouches.1, htouches.2.1, htouches.2.2.1, htouches.2.2.2.1⟩
  · exact congrArg Option.join (h.view_eq (k := .invitation i) hi)
  · have hle : (Rows.memberIds (x.view db) c.workspaceId).length ≤ (Rows.memberIds db c.workspaceId).length + 1 :=
      Rows.length_memberIds_le_succ (b := c.accountId) fun a ha hsome => by
        rw [← hmembers c.workspaceId a fun heq => ha (Prod.ext_iff.mp heq).2]
        exact hsome
    exact hle.trans (h.seats limit hlimit)

/-- **The commit of an acceptance.** -/
theorem Accepting.promise (h : Accepting c row db x) : Promise (.accepted c) db x := ⟨h.changed, h.accepts⟩

end SlugBase.Invitation
