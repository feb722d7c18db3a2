import SlugBase.Members.Tenancy
import SlugBase.Lib.Query

/-!
# The changes of a workspace's members

What the services do to the memberships of one workspace, each in the transaction of its request.

* `roles`, `longestStandingOwner`: what the store reads, the roles under the lock of the workspace's row;
* `changeMemberRole`, `transferOwnership`, `endMembership`: the three services;
* `sysInvitationAccept`, `sysInstanceAddMembership`: the two ways in;
* `sysWorkspaceMarkDeleting`, `sysInstanceDeleteWorkspace`: the end of a workspace.
-/

namespace SlugBase.Members

open ReadCommitted Relational

/-! ## Answers -/

inductive MemberRoleOutcome
  | changed (before after : MemberRole) (self : Bool)
  | unchanged (role : MemberRole)
  | forbidden
  | notFound
  deriving DecidableEq, Repr

inductive OwnershipTransferOutcome
  | transferred (promoted demoted : Bool)
  | unchanged
  | forbidden
  | invalidRecipient
  | notFound
  deriving DecidableEq, Repr

inductive MembershipEndOutcome
  | ended (transferTo : Uuid) (self : Bool)
  | forbidden
  | notFound
  | lastOwner
  | recipientNotFound
  | invalidRecipient
  deriving DecidableEq, Repr

inductive InvitationAcceptResult
  | accepted (workspaceId : Uuid) (role : MemberRole)
  | gone
  | emailMismatch
  | alreadyMember
  | seatLimitReached
  deriving DecidableEq, Repr

inductive AddMembershipOutcome
  | added
  | unknownWorkspace
  | alreadyMember
  deriving DecidableEq, Repr

inductive CreateWorkspaceOutcome
  | created
  | existing
  | limitReached
  | unavailable
  | unknownAccount
  deriving DecidableEq, Repr

inductive UpdateAccountOutcome
  | updated
  | unknownAccount
  deriving DecidableEq, Repr

inductive DeleteAccountOutcome
  | deleted
  | unknownAccount
  | lastInstanceAdmin
  | self
  | unavailable
  deriving DecidableEq, Repr

/-- What a request answers. -/
inductive Answer
  | memberRole (outcome : MemberRoleOutcome)
  | ownershipTransfer (outcome : OwnershipTransferOutcome)
  | membershipEnd (outcome : MembershipEndOutcome)
  | invitationAccept (result : InvitationAcceptResult)
  | addMembership (outcome : AddMembershipOutcome)
  | createWorkspace (outcome : CreateWorkspaceOutcome)
  | updateAccount (outcome : UpdateAccountOutcome)
  | deleteAccount (outcome : DeleteAccountOutcome)
  | verifiedAccountId (id : Option Uuid)
  | flag (value : Bool)
  deriving DecidableEq, Repr

/-- What a request does. -/
abbrev Program := Prog Row Statement Answer

/-! ## Statements over several rows -/

/-- The statements one after the other, whatever each finds. -/
def writeAll (statements : List Statement) (rest : Program) : Program :=
  statements.foldr (fun q rest => .write q fun _ => rest) rest

/-- `SELECT … FROM workspaces WHERE deleting_at IS NULL … ORDER BY id FOR …` over these identifiers. -/
def lockWorkspaces (ids : List Uuid) (mode : LockMode) (rest : Program) : Program :=
  ids.foldr (fun id rest => .lock (.workspace id) mode live fun _ => rest) rest

/-- `INSERT INTO workspace_members`, with the locks its foreign keys take on the rows it refers to. -/
def insertMember (workspaceId accountId : Uuid) (row : MemberRow) (rest : Program) : Program :=
  .lock (.workspace workspaceId) .keyShare Option.isSome fun workspaceFound =>
    .lock (.account accountId) .keyShare Option.isSome fun accountFound =>
      if workspaceFound && accountFound then
        .write (.insertMember workspaceId accountId row) fun _ => rest
      else .raise

/-! ## Roles -/

/-- The roles of the acting account and of another, as the store read them under the lock. -/
structure MemberRoles where
  actor : Option MemberRole
  target : Option MemberRole

/-- Locks the workspace and reads the roles; `none` when it cannot be reached. -/
def roles (workspaceId actorAccountId targetAccountId : Uuid) (next : Option MemberRoles → Program) : Program :=
  .lock (.workspace workspaceId) .noKeyUpdate live fun locked =>
    if locked then
      .read fun (db : Rows) =>
        next (some ⟨(db.member workspaceId actorAccountId).map MemberRow.role,
          (db.member workspaceId targetAccountId).map MemberRow.role⟩)
    else next none

structure MemberRoleAsk where
  workspaceId : Uuid
  actorAccountId : Uuid
  targetAccountId : Uuid
  role : MemberRole
  deriving DecidableEq, Repr

/-- `changeMemberRole`. -/
def changeMemberRole (ask : MemberRoleAsk) : Program :=
  roles ask.workspaceId ask.actorAccountId ask.targetAccountId fun
    | none | some ⟨none, _⟩ => .done (.memberRole .notFound)
    | some ⟨some .member, _⟩ => .done (.memberRole .forbidden)
    | some ⟨some _, none⟩ => .done (.memberRole .notFound)
    | some ⟨some actor, some target⟩ =>
      if actor ≠ .owner ∧ (target = .owner ∨ ask.role = .owner) then .done (.memberRole .forbidden)
      else if target = ask.role then .done (.memberRole (.unchanged target))
      else
        .write (.setRole ask.workspaceId ask.targetAccountId ask.role) fun
          | true =>
            .done (.memberRole (.changed target ask.role (decide (ask.targetAccountId = ask.actorAccountId))))
          | false => .done (.memberRole .notFound)

structure OwnershipTransferAsk where
  workspaceId : Uuid
  actorAccountId : Uuid
  targetAccountId : Uuid
  demoteSelf : Bool
  deriving DecidableEq, Repr

/-- `store.setRole`, whose answer that there is no such member the caller throws on. -/
def setRoleOrThrow (workspaceId accountId : Uuid) (role : MemberRole) (rest : Program) : Program :=
  .write (.setRole workspaceId accountId role) fun written => if written then rest else .raise

/-- `transferOwnership`: the recipient is promoted before the caller steps down. -/
def transferOwnership (ask : OwnershipTransferAsk) : Program :=
  roles ask.workspaceId ask.actorAccountId ask.targetAccountId fun
    | none | some ⟨none, _⟩ => .done (.ownershipTransfer .notFound)
    | some ⟨some actor, target⟩ =>
      if actor ≠ .owner then .done (.ownershipTransfer .forbidden)
      else if ask.targetAccountId = ask.actorAccountId then .done (.ownershipTransfer .invalidRecipient)
      else
        match target with
        | none => .done (.ownershipTransfer .notFound)
        | some target =>
          let promoted := decide (target ≠ .owner)
          let demote := if ask.demoteSelf then setRoleOrThrow ask.workspaceId ask.actorAccountId .admin else id
          if !promoted && !ask.demoteSelf then .done (.ownershipTransfer .unchanged)
          else
            (if promoted then setRoleOrThrow ask.workspaceId ask.targetAccountId .owner else id)
              (demote (.done (.ownershipTransfer (.transferred promoted ask.demoteSelf))))

/-! ## The end of a membership -/

/-- The account that has been an owner of the workspace the longest, other than `excludingAccountId`. -/
def longestStandingOwner (db : Rows) (workspaceId excludingAccountId : Uuid) : Option Uuid :=
  let owners := db.members.filter fun m =>
    decide (m.1 = workspaceId ∧ m.2.2.role = .owner ∧ m.2.1 ≠ excludingAccountId)
  (firstBy (fun m n => m.2.2.joinedAt < n.2.2.joinedAt ∨ m.2.2.joinedAt = n.2.2.joinedAt ∧ m.2.1 ≤ n.2.1)
    owners).map fun m => m.2.1

structure MembershipEndAsk where
  workspaceId : Uuid
  actorAccountId : Uuid
  targetAccountId : Uuid
  transferTo : Option Uuid
  deriving DecidableEq, Repr

/-- The last step of `endMembership`: the membership is deleted for this recipient. -/
def endFor (ask : MembershipEndAsk) (recipient : Uuid) : Program :=
  .write (.deleteMember ask.workspaceId ask.targetAccountId) fun
    | true =>
      .done (.membershipEnd (.ended recipient (decide (ask.actorAccountId = ask.targetAccountId))))
    | false => .done (.membershipEnd .notFound)

/-- `endMembership`. -/
def endMembership (ask : MembershipEndAsk) : Program :=
  let self := decide (ask.actorAccountId = ask.targetAccountId)
  roles ask.workspaceId ask.actorAccountId ask.targetAccountId fun
    | some ⟨some actor, some target⟩ =>
      if !self && (decide (actor = .member) || (decide (target = .owner) && decide (actor ≠ .owner))) then
        .done (.membershipEnd .forbidden)
      else
        match ask.transferTo with
        | some recipient =>
          if recipient = ask.targetAccountId then .done (.membershipEnd .invalidRecipient)
          else
            roles ask.workspaceId ask.actorAccountId recipient fun
              | some ⟨_, some _⟩ => endFor ask recipient
              | _ => .done (.membershipEnd .recipientNotFound)
        | none =>
          if self then
            .read fun (db : Rows) =>
              match longestStandingOwner db ask.workspaceId ask.targetAccountId with
              | some recipient => endFor ask recipient
              | none => .done (.membershipEnd .lastOwner)
          else endFor ask ask.actorAccountId
    | _ => .done (.membershipEnd .notFound)

/-! ## Joining -/

/-- `disabled_at IS NULL`, of an account that is there. -/
def enabled : Option AccountRow → Bool
  | some row => row.disabledAt.isNone
  | none => false

/-- `disabled_at IS NULL AND access_mode = 'full'`. -/
def enabledInFull : Option AccountRow → Bool
  | some row => row.disabledAt.isNone && decide (row.accessMode = .full)
  | none => false

/-- `is_instance_admin AND mfa_enabled_at IS NOT NULL AND disabled_at IS NULL`. -/
def instanceAdmin : Option AccountRow → Bool
  | some row => row.isInstanceAdmin && row.mfaEnabledAt.isSome && row.disabledAt.isNone
  | none => false

/-- The operations for instance admins raise for anyone else. -/
def forInstanceAdmin (appAccountId : Uuid) (rest : Program) : Program :=
  .read fun (db : Rows) => if instanceAdmin (db.account appAccountId) then rest else .raise

/-- What an invitation that is still pending says, with the account that accepts it and the seats there are. -/
structure InvitationAcceptAsk where
  workspaceId : Uuid
  accountId : Uuid
  role : MemberRole
  addressMatches : Bool
  seatLimit : Option ℕ
  now : Timestamp
  deriving DecidableEq, Repr

/-- `sys_invitation_accept(token_hash, account_id, seat_limit)` with the token of this invitation. -/
def sysInvitationAccept (ask : InvitationAcceptAsk) : Program :=
  let answer (result : InvitationAcceptResult) : Program := .done (.invitationAccept result)
  .lock (.workspace ask.workspaceId) .noKeyUpdate live fun workspaceFound =>
    if !workspaceFound then answer .gone
    else
      .lock (.account ask.accountId) .share enabledInFull fun accountFound =>
        if !accountFound then answer .gone
        else
          .read fun (db : Rows) =>
            let verified := (db.account ask.accountId).any fun row => row.emailVerifiedAt.isSome
            let seats := (db.members.filter fun m => decide (m.1 = ask.workspaceId)).length
            if !verified || !ask.addressMatches then answer .emailMismatch
            else if (db.member ask.workspaceId ask.accountId).isSome then answer .alreadyMember
            else if ask.seatLimit.any fun limit => decide (limit ≤ seats) then answer .seatLimitReached
            else
              insertMember ask.workspaceId ask.accountId ⟨ask.role, ask.now⟩
                (answer (.accepted ask.workspaceId ask.role))

/-- `sys_instance_add_membership`. -/
def sysInstanceAddMembership (appAccountId workspaceId : Uuid) (now : Timestamp) : Program :=
  forInstanceAdmin appAccountId
    (.lock (.workspace workspaceId) .noKeyUpdate live fun workspaceFound =>
      if !workspaceFound then .done (.addMembership .unknownWorkspace)
      else
        .lock (.account appAccountId) .share instanceAdmin fun adminFound =>
          if !adminFound then .raise
          else
            .read fun (db : Rows) =>
              if (db.member workspaceId appAccountId).isSome then .done (.addMembership .alreadyMember)
              else insertMember workspaceId appAccountId ⟨.member, now⟩ (.done (.addMembership .added)))

/-! ## The end of a workspace -/

/-- `sys_workspace_mark_deleting(workspace_id)`, asked by an account that acts in the workspace. -/
def sysWorkspaceMarkDeleting (appAccountId workspaceId : Uuid) (now : Timestamp) : Program :=
  .lock (.workspace workspaceId) .update live fun found =>
    if !found then .done (.flag false)
    else
      .read fun (db : Rows) =>
        if (db.member workspaceId appAccountId).any fun m => decide (m.role = .owner) then
          .write (.setDeleting workspaceId now) fun _ => .done (.flag true)
        else .done (.flag false)

/-- `sys_instance_delete_workspace`. -/
def sysInstanceDeleteWorkspace (appAccountId workspaceId : Uuid) (now : Timestamp) : Program :=
  forInstanceAdmin appAccountId
    (.lock (.workspace workspaceId) .update live fun found =>
      if found then .write (.setDeleting workspaceId now) fun _ => .done (.flag true)
      else .done (.flag false))

end SlugBase.Members
