import SlugBase.Invitation.Requests

/-!
# What the transactions on invitations promise

* `Closed`: an invitation that is not pending any more; `Accepts`: what the commit of an acceptance makes of the rows;
* `Change`: what a transaction may make of a row, with the locks it holds for it;
* `Promise`, `contract`: what a commit promises, by what it answers;
* `Orderly`: the programs that accept nothing; **`Orderly.triple`**: they promise so.
-/

namespace SlugBase.Invitation

open ReadCommitted Auth

/-! ## What a commit makes of the rows -/

/-- An invitation that is deleted or not pending. -/
def Ended (slot : Option (Option InvitationRow)) : Prop :=
  ∃ row, slot = some row ∧ ∀ i, row = some i → i.status ≠ .pending

/-- The invitation was accepted, revoked or deleted. -/
def Closed (db : Rows) (i : Uuid) : Prop := Ended (db.lookup (.invitation i))

/-- An invitation that is there and accepted. -/
def WasAccepted (slot : Option (Option InvitationRow)) : Prop := ∃ i, slot = some (some i) ∧ i.status = .accepted

/-- **What an acceptance makes of the rows**: its invitation was pending and is accepted, by one new membership of the
invited role, of an account that holds the invited address verified or that is new and has it; the account joins teams of
the workspace only, and only those the invitation names; and the workspace has no more members than the limit. -/
structure Accepts (db db' : Rows) (c : Acceptance) : Prop where
  invitation : ∃ row, db.invitation c.invitationId = some row ∧ row.status = .pending ∧ row.workspaceId = c.workspaceId ∧
    row.role = c.role ∧ (∃ now, db'.invitation c.invitationId = some (row.update (.accepted c.accountId now))) ∧
    ((∃ a, db.account c.accountId = some a ∧ a.emailVerifiedAt ≠ none ∧ a.email = row.email ∧ a.mayAccept = true) ∨
      db.account c.accountId = none ∧ ∃ a, db'.account c.accountId = some a ∧ a.email = row.email) ∧
    ∀ w t a, db'.teamMember w t a ≠ none → db.teamMember w t a = none →
      w = c.workspaceId ∧ a = c.accountId ∧ t ∈ row.teamIds ∧ db.team t = some c.workspaceId
  others : ∀ i, i ≠ c.invitationId → db'.invitation i = db.invitation i
  member : db.member c.workspaceId c.accountId = none ∧ db'.member c.workspaceId c.accountId = some c.role
  members : ∀ w a, (w, a) ≠ (c.workspaceId, c.accountId) → db'.member w a = db.member w a
  seats : ∀ limit, c.seatLimit = some limit → (Rows.memberIds db' c.workspaceId).length ≤ limit

/-! ## What a transaction may make of a row -/

/-- A lock under which no other transaction adds a member to the workspace. -/
def Keeps (locks : List (Key × LockMode)) (w : Uuid) : Prop :=
  ∃ m, (Key.workspace w, m) ∈ locks ∧ m.conflicts .noKeyUpdate = true

theorem Keeps.mono {locks locks' : List (Key × LockMode)} {w : Uuid} (h : Keeps locks w) (hsub : locks ⊆ locks') :
    Keeps locks' w := by
  obtain ⟨m, hm, hconflicts⟩ := h
  exact ⟨m, hsub hm, hconflicts⟩

/-- What a transaction that accepts at most this invitation may make of a row: a membership comes under the lock of its
workspace, a team changes under its own, a closed invitation stays closed. -/
def Change (accepting : Option Uuid) (locks : List (Key × LockMode)) : (k : Key) → Option (Row k) → Option (Row k) → Prop
  | .member w _, old, new => old = none → new ≠ none → Keeps locks w
  | .team t, old, new => old ≠ new → (Key.team t, LockMode.update) ∈ locks
  | .invitation i, old, new => (Ended old → Ended new) ∧ (accepting ≠ some i → WasAccepted new → WasAccepted old)
  | _, _, _ => True

section

variable {accepting : Option Uuid} {locks locks' : List (Key × LockMode)} {k : Key} {row row₁ row₂ row₃ : Option (Row k)}

theorem Change.refl (accepting : Option Uuid) (locks : List (Key × LockMode)) (k : Key) (row : Option (Row k)) :
    Change accepting locks k row row := by
  cases k with
  | member w a => exact fun hnone hsome => absurd hnone hsome
  | team t => exact fun hne => absurd rfl hne
  | invitation i => exact ⟨fun h => h, fun _ h => h⟩
  | workspace | account | address | reservation | identity | teamMember => trivial

theorem Change.trans (h : Change accepting locks k row₁ row₂) (h' : Change accepting locks' k row₂ row₃)
    (hsub : locks ⊆ locks') : Change accepting locks' k row₁ row₃ := by
  cases k with
  | member w a =>
    intro hnone hsome
    by_cases h₂ : row₂ = none
    · exact h' h₂ hsome
    · exact (h hnone h₂).mono hsub
  | team t =>
    intro hne
    by_cases h₁ : row₁ = row₂
    · exact h' fun h₂ => hne (h₁.trans h₂)
    · exact hsub (h h₁)
  | invitation i => exact ⟨fun hended => h'.1 (h.1 hended), fun hne haccepted => h.2 hne (h'.2 hne haccepted)⟩
  | workspace | account | address | reservation | identity | teamMember => trivial

theorem Change.mono (h : Change accepting locks k row₁ row₂) (hsub : locks ⊆ locks') :
    Change accepting locks' k row₁ row₂ :=
  h.trans (.refl accepting locks' k row₂) hsub

end

/-- What a transaction has made of the rows. -/
def Changed (accepting : Option Uuid) (db : Rows) (x : Local) : Prop :=
  ∀ k, Change accepting x.locks k (db.lookup k) ((x.view db).lookup k)

/-! ## The contract -/

/-- **What a commit promises**, by what it answers. -/
def Promise : Answer → Rows → Local → Prop
  | .accepted c, db, y => Changed (some c.invitationId) db y ∧ Accepts db (y.view db) c
  | .refused _, _, y => y.written = []
  | .other, db, y => Changed none db y

theorem Changed.of_idle {x : Local} (h : x.written = []) (accepting : Option Uuid) (db : Rows) : Changed accepting db x := by
  intro k
  rw [Held.view_of_written_nil h]
  exact .refl _ _ _ _

theorem Promise.changed {answer : Answer} {db : Rows} {y : Local} (h : Promise answer db y) :
    ∃ accepting, Changed accepting db y := by
  cases answer with
  | accepted c => exact ⟨_, h.1⟩
  | refused => exact ⟨none, .of_idle h none db⟩
  | other => exact ⟨none, h⟩

/-- What the transactions promise; the rows of any database may be committed. -/
def contract : Contract rules where
  committed _ := True
  promise := Promise
  commits _ _ := trivial

theorem stable_changed (accepting : Option Uuid) : contract.Stable (Changed accepting) :=
  .each fun _ _ _ => .refl _ _ _ _

/-! ## Programs that accept nothing -/

/-- The statements that accept nothing, in a transaction that keeps these workspaces to itself. -/
def Statement.Orderly (held : List Uuid) : Statement → Prop
  | .insertMember w _ _ => w ∈ held
  | .insertInvitation _ row => row.status = .pending
  | .updateInvitation _ set => ∀ a now, set ≠ .accepted a now
  | _ => True

/-- The workspaces a transaction keeps to itself after a statement. -/
def Statement.keeps (held : List Uuid) : Statement → List Uuid
  | .insertWorkspace w => w :: held
  | _ => held

/-- The workspaces a transaction keeps to itself after a lock. -/
def keeping (held : List Uuid) : Key → LockMode → List Uuid
  | .workspace w, m => if m.conflicts .noKeyUpdate then w :: held else held
  | _, _ => held

/-- A program that accepts nothing. -/
def Orderly (held : List Uuid) : Program → Prop
  | .done answer => answer = .other
  | .raise => True
  | .read next => ∀ db, Orderly held (next db)
  | .lock key mode _ next => Orderly held (next false) ∧ Orderly (keeping held key mode) (next true)
  | .write q next => q.Orderly held ∧ Orderly held (next false) ∧ Orderly (q.keeps held) (next true)

/-- What such a program has made of the rows, and the workspaces it keeps to itself. -/
def Going (held : List Uuid) (db : Rows) (x : Local) : Prop := Changed none db x ∧ ∀ w ∈ held, Keeps x.locks w

theorem stable_going (held : List Uuid) : contract.Stable (Going held) :=
  (stable_changed none).and (.own fun x => ∀ w ∈ held, Keeps x.locks w)

theorem invitation_eq_some {db : Rows} {i : Uuid} {row : InvitationRow} :
    db.invitation i = some row ↔ db.lookup (.invitation i) = some (some row) := Option.join_eq_some_iff

/-- An update of an invitation that accepts nothing leaves a closed one closed and makes none accepted. -/
theorem change_updateInvitation {i : Uuid} {row : InvitationRow} {set : InvitationSet} (hset : ∀ a now, set ≠ .accepted a now)
    (locks : List (Key × LockMode)) :
    Change none locks (.invitation i) (some (some row)) (some (some (row.update set))) := by
  have hstatus : (row.update set).status = row.status ∨ (row.update set).status = .revoked := by
    rcases row.status_update set with hsame | ⟨_, _, -, hrevoked⟩ | ⟨a, now, haccepted, -⟩
    · exact .inl hsame
    · exact .inr hrevoked
    · exact absurd haccepted (hset a now)
  refine ⟨?_, ?_⟩
  · rintro ⟨_, ⟨⟩, hclosed⟩
    refine ⟨_, rfl, ?_⟩
    rintro _ ⟨⟩
    rcases hstatus with hsame | hrevoked
    · exact hsame ▸ hclosed row rfl
    · rw [hrevoked]
      exact fun h => by cases h
  · rintro - ⟨_, ⟨⟩, haccepted⟩
    refine ⟨row, rfl, ?_⟩
    rcases hstatus with hsame | hrevoked
    · exact hsame ▸ haccepted
    · rw [hrevoked] at haccepted
      cases haccepted

/-- **What one statement changes.** -/
theorem Statement.Orderly.change {held : List Uuid} {q : Statement} (h : q.Orderly held) {view : Rows}
    {row : Option (Row q.target)} (hchange : q.change view = .becomes row) {locks : List (Key × LockMode)}
    (hheld : ∀ w ∈ held, Keeps locks w) :
    Change none ((q.target, q.mode) :: locks) q.target (view.lookup q.target) row := by
  cases q with
  | insertMember w a role => exact fun _ _ => (hheld w h).mono (List.subset_cons_self _ _)
  | insertTeam | deleteTeam => exact fun _ => List.mem_cons_self
  | insertInvitation i new =>
    simp only [Statement.change, inserted] at hchange
    split at hchange
    · rename_i hnone
      cases hchange
      rw [hnone]
      refine ⟨fun hended => ?_, fun _ haccepted => ?_⟩
      · obtain ⟨_, hsome, -⟩ := hended
        cases hsome
      · obtain ⟨_, hsome, haccepted⟩ := haccepted
        cases hsome
        rw [show new.status = .pending from h] at haccepted
        cases haccepted
    · cases hchange
  | updateInvitation i set =>
    simp only [Statement.change] at hchange
    split at hchange
    · cases hchange
    · rename_i old hold
      split at hchange
      · cases hchange
        rw [invitation_eq_some.mp hold]
        exact change_updateInvitation h _
      · cases hchange
  | deleteInvitation i =>
    simp only [Statement.change] at hchange
    split at hchange
    · cases hchange
    · cases hchange
      refine ⟨fun _ => ⟨none, rfl, fun _ h => by cases h⟩, fun _ haccepted => ?_⟩
      obtain ⟨_, hsome, -⟩ := haccepted
      cases hsome
  | updateMember w a role =>
    simp only [Statement.change, updated] at hchange
    split at hchange
    · cases hchange
    · rename_i old hold
      exact fun hnone => absurd (hold.symm.trans hnone) (Option.some_ne_none old)
  | deleteMember w a =>
    simp only [Statement.change, deleted] at hchange
    split at hchange
    · cases hchange
    · cases hchange
      exact fun _ hsome => absurd rfl hsome
  | _ => trivial

/-- A statement that accepts nothing goes on with the transaction. -/
theorem Going.writing {held : List Uuid} {q : Statement} (hq : q.Orderly held) {db : Rows} {x : Local}
    (h : Going held db x) {row : Option (Row q.target)} (hchange : q.change (x.view db) = .becomes row) :
    Going (q.keeps held) db (x.writing q.target q.mode row) := by
  have hsub : x.locks ⊆ (x.writing q.target q.mode row).locks := List.subset_cons_self _ _
  refine ⟨fun k => ?_, fun w hw => ?_⟩
  · rw [Held.view_writing]
    by_cases hk : k = q.target
    · subst hk
      rw [lookup_put_self]
      exact (h.1 q.target).trans (hq.change hchange h.2) hsub
    · rw [lookup_put_ne _ _ hk]
      exact (h.1 k).mono hsub
  · cases q with
    | insertWorkspace w' =>
      rcases List.mem_cons.mp hw with rfl | hw
      · exact ⟨.update, List.mem_cons_self, rfl⟩
      · exact (h.2 w hw).mono hsub
    | _ => exact (h.2 w hw).mono hsub

theorem Going.locking {held : List Uuid} {db : Rows} {x : Local} (h : Going held db x) (key : Key) (mode : LockMode) :
    Going (keeping held key mode) db (x.locking key mode) := by
  have hsub : x.locks ⊆ (x.locking key mode).locks := List.subset_cons_self _ _
  have hold : ∀ w ∈ held, Keeps (x.locking key mode).locks w := fun w hw => (h.2 w hw).mono hsub
  refine ⟨fun k => (h.1 k).mono hsub, fun w hw => ?_⟩
  cases key with
  | workspace w' =>
    rw [keeping] at hw
    split at hw
    · rename_i hconflicts
      rcases List.mem_cons.mp hw with rfl | hw
      · exact ⟨mode, List.mem_cons_self, hconflicts⟩
      · exact hold w hw
    · exact hold w hw
  | _ => exact hold w hw

/-- **A program that accepts nothing** promises what it answers. -/
theorem Orderly.triple {p : Program} : ∀ {held : List Uuid}, Orderly held p → contract.Triple (Going held) p := by
  induction p with
  | done answer =>
    rintro held rfl
    exact .done (stable_going held) fun _ h => h.1
  | raise => exact fun _ => .raise
  | read next ih =>
    intro held h
    exact .read (stable_going held) fun {db x} hdb hx => ih (x.view db) (h (x.view db)) db x hdb hx
  | lock key mode wanted next ih =>
    intro held h
    exact .lock (stable_going held) (fun {db x} hdb hx _ => ih false h.1 db x hdb hx)
      fun {db x} hdb hx _ => ih true h.2 db _ hdb (hx.locking key mode)
  | write q next ih =>
    intro held h
    exact .write (stable_going held) (fun {db x} hdb hx _ => ih false h.2.1 db x hdb hx)
      fun {db x row} hdb hx hchange => ih true h.2.2 db _ hdb (hx.writing h.1 hchange)

end SlugBase.Invitation
