import SlugBase.Lib.RelyGuarantee
import SlugBase.Invitation.Row

/-!
# Workspaces, members and invitations under concurrent transactions

* `Key`, `Row`: the rows; the row of an invitation that was deleted is kept as `none`, since its identifier is not drawn
  again;
* `Rows.memberIds`: the members of a workspace;
* `Statement`: the statements that write one row; `rules`: what they do.
-/

namespace SlugBase.Invitation

open ReadCommitted Auth

/-! ## Rows -/

/-- A row of `workspaces`. -/
structure WorkspaceRow where
  deletingAt : Option Timestamp
  deriving DecidableEq, Repr

/-- A row of `accounts`. -/
structure AccountRow where
  email : Address
  emailVerifiedAt : Option Timestamp
  disabledAt : Option Timestamp
  accessMode : AccessMode
  deriving DecidableEq, Repr

/-- The rows' keys: an address is the entry of the unique index of `accounts`, a reservation an unused cancel token that
records the address. -/
inductive Key
  | workspace (id : Uuid)
  | account (id : Uuid)
  | address (email : Address)
  | reservation (email : Address)
  | identity (provider subject : String)
  | member (workspaceId accountId : Uuid)
  | team (id : Uuid)
  | teamMember (workspaceId teamId accountId : Uuid)
  | invitation (id : Uuid)
  deriving DecidableEq, Repr

/-- The row of a key: of an address and of an identity the account, of a team its workspace. -/
@[reducible] def Row : Key → Type
  | .workspace _ => WorkspaceRow
  | .account _ => AccountRow
  | .address _ | .identity _ _ => Uuid
  | .reservation _ => Timestamp
  | .member _ _ => MemberRole
  | .team _ => Uuid
  | .teamMember _ _ _ => Unit
  | .invitation _ => Option InvitationRow

/-- The rows of a database. -/
abbrev Rows := AList Row

/-- The rows a transaction has written and the locks it holds. -/
abbrev Local := Held Row

namespace Rows

variable (db : Rows)

/-- The row of a workspace. -/
abbrev workspace (id : Uuid) : Option WorkspaceRow := db.lookup (.workspace id)

/-- The row of an account. -/
abbrev account (id : Uuid) : Option AccountRow := db.lookup (.account id)

/-- The account that holds an address. -/
abbrev address (email : Address) : Option Uuid := db.lookup (.address email)

/-- When the reservation of an address ends. -/
abbrev reservation (email : Address) : Option Timestamp := db.lookup (.reservation email)

/-- The account an identity is linked to. -/
abbrev identity (provider subject : String) : Option Uuid := db.lookup (.identity provider subject)

/-- The role of a member. -/
abbrev member (workspaceId accountId : Uuid) : Option MemberRole := db.lookup (.member workspaceId accountId)

/-- The workspace of a team. -/
abbrev team (id : Uuid) : Option Uuid := db.lookup (.team id)

/-- The row of a team membership. -/
abbrev teamMember (workspaceId teamId accountId : Uuid) : Option Unit := db.lookup (.teamMember workspaceId teamId accountId)

/-- The row of an invitation. -/
abbrev invitation (id : Uuid) : Option InvitationRow := (db.lookup (.invitation id)).join

/-- The members of a workspace. -/
def memberIds (workspaceId : Uuid) : List Uuid :=
  db.keys.filterMap fun
    | .member w a => if w = workspaceId then some a else none
    | _ => none

/-- The rows of `workspace_invitations`. -/
def invitations : List (Uuid × InvitationRow) :=
  db.entries.filterMap fun
    | ⟨.invitation i, some row⟩ => some (i, row)
    | _ => none

variable {db} {w a : Uuid}

theorem mem_memberIds : a ∈ memberIds db w ↔ db.member w a ≠ none := by
  rw [memberIds, List.mem_filterMap, Rows.member, Option.ne_none_iff_isSome, AList.lookup_isSome]
  constructor
  · rintro ⟨k, hk, heq⟩
    cases k with
    | member w' a' =>
      obtain ⟨hw, ha⟩ := Option.ite_none_right_eq_some.mp heq
      rw [← hw, ← Option.some.inj ha]
      exact hk
    | workspace | account | address | reservation | identity | team | teamMember | invitation => cases heq
  · intro h
    exact ⟨.member w a, h, if_pos rfl⟩

theorem nodup_memberIds (db : Rows) (w : Uuid) : (memberIds db w).Nodup := by
  refine List.Nodup.filterMap (fun k k' a hk hk' => ?_) db.keys_nodup
  cases k <;> cases k' <;> simp_all

theorem length_memberIds_le {db' : Rows} (h : ∀ a, db'.member w a ≠ none → db.member w a ≠ none) :
    (memberIds db' w).length ≤ (memberIds db w).length := by
  have hsub : memberIds db' w ⊆ memberIds db w := fun a ha => mem_memberIds.mpr (h a (mem_memberIds.mp ha))
  exact (List.subperm_of_subset (nodup_memberIds db' w) hsub).length_le

theorem length_memberIds_le_succ {db' : Rows} {b : Uuid} (h : ∀ a, a ≠ b → db'.member w a ≠ none → db.member w a ≠ none) :
    (memberIds db' w).length ≤ (memberIds db w).length + 1 := by
  have hsub : memberIds db' w ⊆ b :: memberIds db w := by
    intro a ha
    by_cases hab : a = b
    · exact hab ▸ List.mem_cons_self
    · exact List.mem_cons_of_mem _ (mem_memberIds.mpr (h a hab (mem_memberIds.mp ha)))
  exact (List.subperm_of_subset (nodup_memberIds db' w) hsub).length_le

end Rows

/-! ## Statements -/

/-- The `SET` of an `UPDATE accounts`. -/
inductive AccountSet
  | email (value : Address)
  | emailVerifiedAt (value : Timestamp)
  | disabledAt (value : Option Timestamp)
  | accessMode (value : AccessMode)
  deriving DecidableEq, Repr

/-- The row with these columns set; the time an address was verified at stays. -/
def AccountSet.apply (row : AccountRow) : AccountSet → AccountRow
  | .email value => { row with email := value }
  | .emailVerifiedAt value => { row with emailVerifiedAt := row.emailVerifiedAt <|> some value }
  | .disabledAt value => { row with disabledAt := value }
  | .accessMode value => { row with accessMode := value }

/-- The statements that write one row. -/
inductive Statement
  | insertWorkspace (id : Uuid)
  | setDeletingAt (id : Uuid) (now : Timestamp)
  | deleteWorkspace (id : Uuid)
  | insertAccount (id : Uuid) (row : AccountRow)
  | updateAccount (id : Uuid) (set : AccountSet)
  | deleteAccount (id : Uuid)
  | insertAddress (email : Address) (accountId : Uuid)
  | deleteAddress (email : Address)
  | insertReservation (email : Address) (expiresAt : Timestamp)
  | deleteReservation (email : Address)
  | insertIdentity (provider subject : String) (accountId : Uuid)
  | deleteIdentity (provider subject : String)
  | insertMember (workspaceId accountId : Uuid) (role : MemberRole)
  | updateMember (workspaceId accountId : Uuid) (role : MemberRole)
  | deleteMember (workspaceId accountId : Uuid)
  | insertTeam (id workspaceId : Uuid)
  | deleteTeam (id : Uuid)
  | insertTeamMember (workspaceId teamId accountId : Uuid)
  | deleteTeamMember (workspaceId teamId accountId : Uuid)
  | insertInvitation (id : Uuid) (row : InvitationRow)
  | updateInvitation (id : Uuid) (set : InvitationSet)
  | deleteInvitation (id : Uuid)
  deriving DecidableEq, Repr

/-- The row a statement writes. -/
@[reducible] def Statement.target : Statement → Key
  | .insertWorkspace id | .setDeletingAt id _ | .deleteWorkspace id => .workspace id
  | .insertAccount id _ | .updateAccount id _ | .deleteAccount id => .account id
  | .insertAddress email _ | .deleteAddress email => .address email
  | .insertReservation email _ | .deleteReservation email => .reservation email
  | .insertIdentity provider subject _ | .deleteIdentity provider subject => .identity provider subject
  | .insertMember w a _ | .updateMember w a _ | .deleteMember w a => .member w a
  | .insertTeam id _ | .deleteTeam id => .team id
  | .insertTeamMember w t a | .deleteTeamMember w t a => .teamMember w t a
  | .insertInvitation id _ | .updateInvitation id _ | .deleteInvitation id => .invitation id

/-- The lock a statement takes: `FOR UPDATE` when a row comes or goes, `FOR NO KEY UPDATE` when it changes. -/
def Statement.mode : Statement → LockMode
  | .setDeletingAt .. | .updateAccount .. | .updateMember .. | .updateInvitation .. => .noKeyUpdate
  | _ => .update

/-- What an `INSERT` makes of its row: it raises when the key is taken. -/
def inserted {row : Type} (old : Option row) (new : row) : Change row :=
  match old with
  | none => .becomes (some new)
  | some _ => .raises

/-- What an `UPDATE` makes of its row, if there is one. -/
def updated {row : Type} (old : Option row) (f : row → row) : Change row :=
  match old with
  | none => .nothing
  | some row => .becomes (some (f row))

/-- What a `DELETE` makes of its row, if there is one. -/
def deleted {row : Type} (old : Option row) : Change row :=
  match old with
  | none => .nothing
  | some _ => .becomes none

/-- What a statement makes of its row. The insert of an account does nothing when its identifier or its address is taken
(`sys_create_account` catches it); a membership raises when what it refers to is not there. -/
def Statement.change (db : Rows) : (q : Statement) → Change (Row q.target)
  | .insertWorkspace id => inserted (db.workspace id) ⟨none⟩
  | .setDeletingAt id now => updated (db.workspace id) fun row => { row with deletingAt := some now }
  | .deleteWorkspace id => deleted (db.workspace id)
  | .insertAccount id row =>
    match db.account id, db.address row.email with
    | none, none => .becomes (some row)
    | _, _ => .nothing
  | .updateAccount id set => updated (db.account id) fun row => set.apply row
  | .deleteAccount id => deleted (db.account id)
  | .insertAddress email accountId => inserted (db.address email) accountId
  | .deleteAddress email => deleted (db.address email)
  | .insertReservation email expiresAt => inserted (db.reservation email) expiresAt
  | .deleteReservation email => deleted (db.reservation email)
  | .insertIdentity provider subject accountId => inserted (db.identity provider subject) accountId
  | .deleteIdentity provider subject => deleted (db.identity provider subject)
  | .insertMember w a role =>
    match db.workspace w, db.account a with
    | some _, some _ => inserted (db.member w a) role
    | _, _ => .raises
  | .updateMember w a role => updated (db.member w a) fun _ => role
  | .deleteMember w a => deleted (db.member w a)
  | .insertTeam id w => inserted (db.team id) w
  | .deleteTeam id => deleted (db.team id)
  | .insertTeamMember w t a =>
    match db.team t, db.member w a with
    | some _, some _ => inserted (db.teamMember w t a) ()
    | _, _ => .raises
  | .deleteTeamMember w t a => deleted (db.teamMember w t a)
  | .insertInvitation id row => inserted (db.lookup (.invitation id)) (some row)
  | .updateInvitation id set =>
    match db.invitation id with
    | none => .nothing
    | some row => if set.finds row then .becomes (some (some (row.update set))) else .nothing
  | .deleteInvitation id =>
    match db.invitation id with
    | none => .nothing
    | some _ => .becomes (some none)

/-! ## Answers -/

/-- Why an acceptance is refused. -/
inductive Refusal
  | gone
  | emailMismatch
  | alreadyMember
  | seatLimitReached
  | emailTaken
  | notPermitted
  deriving DecidableEq, Repr

/-- What an acceptance answers, with the account and the seat limit it was given. -/
structure Acceptance where
  workspaceId : Uuid
  invitationId : Uuid
  role : MemberRole
  accountId : Uuid
  seatLimit : Option ℕ
  deriving DecidableEq, Repr

/-- What a transaction answers. -/
inductive Answer
  | accepted (acceptance : Acceptance)
  | refused (outcome : Refusal)
  | other
  deriving DecidableEq, Repr

/-- What the statements do; no trigger is deferred. -/
def rules : Rules Row Statement Empty Answer where
  target := Statement.target
  mode := Statement.mode
  change q db := q.change db
  queue _ _ _ := []
  handler e := e.elim
  exclusive q q' := by
    cases q <;> cases q' <;> rfl

/-- What a transaction does. -/
abbrev Program := Prog Row Statement Answer

end SlugBase.Invitation
