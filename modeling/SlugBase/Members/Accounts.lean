import SlugBase.Members.Changes
import Mathlib.Data.List.Dedup

/-!
# Accounts and their workspaces

What making, verifying and deleting an account does to workspaces and memberships, each operation in one
transaction.

* `sysCreateWorkspaceLimited`, `sysCreatePersonalWorkspaceLimited`, `sysInstanceCreateWorkspace`: a workspace with
  its first owner, or from the console without one;
* `accountStripWorkspaces`: what verifying an address nobody had verified does to the account's workspaces;
  `sysEmailVerify`, `sysInstanceUpdateAccount`: who calls it;
* `sysAccountDeletionScope`, `accountDelete`: the guard and the deletion of an account; `sysDeleteAccount`,
  `sysInstanceDeleteAccount`: who calls them;
* `Request`, `Request.program`: the requests a database serves.
-/

namespace SlugBase.Members

open ReadCommitted Relational

/-! ## Workspaces -/

/-- `INSERT INTO workspaces`, with the lock its foreign key takes on its creator. -/
def insertWorkspace (id createdBy : Uuid) (selfCreated : Bool) (rest : Program) : Program :=
  .lock (.account createdBy) .keyShare Option.isSome fun found =>
    if found then .write (.insertWorkspace id ⟨some createdBy, selfCreated, none⟩) fun _ => rest else .raise

/-- `sys_create_workspace(account_id, workspace_id, name)`; `next` gets its answer. -/
def sysCreateWorkspace (accountId workspaceId : Uuid) (now : Timestamp) (next : Bool → Program) : Program :=
  .read fun (db : Rows) =>
    if enabled (db.account accountId) then
      insertWorkspace workspaceId accountId true (insertMember workspaceId accountId ⟨.owner, now⟩ (next true))
    else next false

/-- The live workspaces the account owns. -/
def ownedBy (db : Rows) (accountId : Uuid) : ℕ :=
  (db.members.filter fun m => decide (m.2.1 = accountId ∧ m.2.2.role = .owner) && live (db.workspace m.1)).length

/-- `sys_create_workspace_limited(account_id, workspace_id, name, owned_max)`. -/
def sysCreateWorkspaceLimited (accountId workspaceId : Uuid) (ownedMax : Option ℕ) (now : Timestamp) : Program :=
  .lock (.account accountId) .update enabled fun found =>
    if !found then .done (.createWorkspace .unavailable)
    else
      .read fun (db : Rows) =>
        if ownedMax.any fun max => decide (max ≤ ownedBy db accountId) then
          .done (.createWorkspace .limitReached)
        else
          sysCreateWorkspace accountId workspaceId now fun
            | true => .done (.createWorkspace .created)
            | false => .raise

/-- `sys_create_personal_workspace_limited(account_id, workspace_id, name_suffix, owned_max)`. -/
def sysCreatePersonalWorkspaceLimited (accountId workspaceId : Uuid) (ownedMax : Option ℕ) (now : Timestamp) :
    Program :=
  .lock (.account accountId) .update enabled fun found =>
    if !found then .done (.createWorkspace .unavailable)
    else
      .read fun (db : Rows) =>
        if db.members.any fun m => decide (m.2.1 = accountId ∧ m.2.2.role = .owner) then
          .done (.createWorkspace .existing)
        else sysCreateWorkspaceLimited accountId workspaceId ownedMax now

/-- `sys_instance_create_workspace`: for an owner account, or with an owner invitation and no member yet. -/
def sysInstanceCreateWorkspace (appAccountId workspaceId : Uuid) (ownerAccountId : Option Uuid) (now : Timestamp) :
    Program :=
  let created : Program := .done (.createWorkspace .created)
  let workspace := insertWorkspace workspaceId appAccountId (decide (ownerAccountId = some appAccountId))
  .read fun (db : Rows) =>
    if !(db.account appAccountId).any fun row => row.isInstanceAdmin && row.disabledAt.isNone then .raise
    else
      match ownerAccountId with
      | none => workspace created
      | some owner =>
        .lock (.account owner) .share enabledInFull fun found =>
          if found then workspace (insertMember workspaceId owner ⟨.owner, now⟩ created)
          else .done (.createWorkspace .unknownAccount)

/-! ## Verification -/

/-- The identifiers in their order, each once. -/
def ordered (ids : List Uuid) : List Uuid := ids.dedup.insertionSort (· ≤ ·)

/-- The live workspaces the account created or owns. -/
def createdOrOwned (db : Rows) (accountId : Uuid) : List Uuid :=
  ordered ((db.workspaces.filter fun w => decide (w.2.deletingAt = none) &&
    (decide (w.2.createdBy = some accountId) ||
      (db.member w.1 accountId).any fun m => decide (m.role = .owner))).map Prod.fst)

/-- The workspaces `account_strip_workspaces` strips: those the account made for itself and is in, and those it is
the only owner of. -/
def stripped (db : Rows) (accountId : Uuid) : List Uuid :=
  ordered ((db.workspaces.filter fun w => decide (w.2.deletingAt = none) &&
    (db.member w.1 accountId).any fun m =>
      (decide (w.2.createdBy = some accountId) && w.2.selfCreated) ||
        (decide (m.role = .owner) &&
          !db.members.any fun o => decide (o.1 = w.1 ∧ o.2.2.role = .owner ∧ o.2.1 ≠ accountId))).map Prod.fst)

/-- `account_strip_workspaces(account_id)`. -/
def accountStripWorkspaces (accountId : Uuid) (rest : Program) : Program :=
  .read fun (db : Rows) =>
    lockWorkspaces (createdOrOwned db accountId) .noKeyUpdate <|
      .read fun (db : Rows) =>
        let sole := stripped db accountId
        .read fun (db : Rows) =>
          writeAll ((db.members.filter fun m => decide (m.1 ∈ sole ∧ m.2.1 ≠ accountId)).map fun m =>
            .deleteMember m.1 m.2.1) <|
            .read fun (db : Rows) =>
              writeAll ((db.members.filter fun m =>
                decide (m.1 ∈ sole ∧ m.2.1 = accountId ∧ m.2.2.role ≠ .owner)).map fun m =>
                  .setRole m.1 m.2.1 .owner) rest

/-- `email_verified_at IS NULL`, of an account that is there. -/
def unverified : Option AccountRow → Bool
  | some row => row.emailVerifiedAt.isNone
  | none => false

/-- The locks on workspaces that a caller of `account_strip_workspaces` takes before any other. -/
def lockStripped (accountId : Uuid) (rest : Program) : Program :=
  .read fun (db : Rows) =>
    lockWorkspaces (if unverified (db.account accountId) then createdOrOwned db accountId else []) .noKeyUpdate rest

/-- The accounts locked in their order; one that is not there is passed over. -/
def lockAccounts (ids : List Uuid) (rest : Program) : Program :=
  (ordered ids).foldr (fun id rest => .lock (.account id) .update Option.isSome fun _ => rest) rest

/-- `sys_email_verify` with an unused token of the account. -/
def sysEmailVerify (accountId : Uuid) (now : Timestamp) : Program :=
  let verified : Program := .done (.verifiedAccountId (some accountId))
  lockStripped accountId <| lockAccounts [accountId] <|
    .lock (.account accountId) .update enabled fun found =>
      if !found then .done (.verifiedAccountId none)
      else
        .read fun (db : Rows) =>
          if unverified (db.account accountId) then
            .write (.setEmailVerified accountId now) fun _ => accountStripWorkspaces accountId verified
          else verified

/-- `sys_instance_update_account` asked to mark the address verified. -/
def sysInstanceUpdateAccount (appAccountId accountId : Uuid) (now : Timestamp) : Program :=
  let updated : Program := .done (.updateAccount .updated)
  forInstanceAdmin appAccountId <|
    (if accountId = appAccountId then id else lockStripped accountId) <|
      lockAccounts [appAccountId, accountId] <| forInstanceAdmin appAccountId <|
        .read fun (db : Rows) =>
          match db.account accountId with
          | none => .done (.updateAccount .unknownAccount)
          | some row =>
            if row.emailVerifiedAt.isSome then updated
            else
              .write (.setEmailVerified accountId now) fun _ =>
                if accountId = appAccountId then updated else accountStripWorkspaces accountId updated

/-! ## Deletion -/

/-- What a deletion of the account means for a workspace: it goes with the account, or it is in the way. -/
inductive ScopeKind
  | sole
  | blocking
  deriving DecidableEq, Repr

/-- The live workspaces the account created or belongs to. -/
def createdOrJoined (db : Rows) (accountId : Uuid) : List Uuid :=
  ordered ((db.workspaces.filter fun w => decide (w.2.deletingAt = none) &&
    (decide (w.2.createdBy = some accountId) || (db.member w.1 accountId).isSome)).map Prod.fst)

/-- What the deletion means for a workspace the account is a member of. -/
def scopeKind (db : Rows) (accountId workspaceId : Uuid) : Option ScopeKind :=
  let members := db.members.filter fun m => decide (m.1 = workspaceId)
  match db.member workspaceId accountId with
  | none => none
  | some me =>
    if members.length = 1 then some .sole
    else if me.role = .owner ∧ ∀ o ∈ members, o.2.2.role = .owner → o.2.1 = accountId then some .blocking
    else none

/-- The workspaces of a kind, in their order. -/
def scopeOf (db : Rows) (accountId : Uuid) (kind : ScopeKind) : List Uuid :=
  ordered ((db.workspaces.filter fun w => decide (w.2.deletingAt = none) &&
    decide (scopeKind db accountId w.1 = some kind)).map Prod.fst)

/-- `account_delete(account_id, sole_workspace_ids)`, with what the foreign keys do to the rows that refer to the
account. -/
def accountDelete (accountId : Uuid) (soleWorkspaceIds : List Uuid) (now : Timestamp) (rest : Program) : Program :=
  writeAll (soleWorkspaceIds.map fun w => .setDeleting w now) <|
    .write (.deleteAccount accountId) fun _ =>
      .read fun (db : Rows) =>
        writeAll ((db.members.filter fun m => decide (m.2.1 = accountId)).map fun m => .deleteMember m.1 m.2.1) <|
          .read fun (db : Rows) =>
            writeAll ((db.workspaces.filter fun w => decide (w.2.createdBy = some accountId)).map fun w =>
              .clearCreatedBy w.1 accountId) rest

/-- `sys_account_last_instance_admin(account_id)`; `next` gets its answer. -/
def sysAccountLastInstanceAdmin (accountId : Uuid) (next : Bool → Program) : Program :=
  .read fun (db : Rows) =>
    if (db.account accountId).any AccountRow.isInstanceAdmin then
      .lock .instanceAdmins .update (fun _ => true) fun _ =>
        .read fun (db : Rows) =>
          next (!db.accounts.any fun a =>
            a.2.isInstanceAdmin && a.2.disabledAt.isNone && decide (a.1 ≠ accountId))
    else next false

/-- Deletes the account when the scope read under the locks is what the caller asked the guard about; `refused`
otherwise. -/
def deleteInScope (accountId : Uuid) (soleWorkspaceIds : List Uuid) (now : Timestamp) (refused deleted : Program) :
    Program :=
  .read fun (db : Rows) =>
    let sole := scopeOf db accountId .sole
    if scopeOf db accountId .blocking ≠ [] ∨ sole ≠ ordered soleWorkspaceIds then refused
    else if (db.account accountId).isNone then refused
    else accountDelete accountId sole now deleted

structure DeleteAccountAsk where
  accountId : Uuid
  soleWorkspaceIds : List Uuid
  appAccountId : Option Uuid
  appWorkspaceId : Option Uuid
  now : Timestamp
  deriving DecidableEq, Repr

/-- `sys_delete_account(account_id, sole_workspace_ids)`. -/
def sysDeleteAccount (ask : DeleteAccountAsk) : Program :=
  if ask.appAccountId ≠ some ask.accountId ∨ ask.appWorkspaceId ≠ none then .done (.flag false)
  else
    .read fun (db : Rows) =>
      lockWorkspaces (createdOrJoined db ask.accountId) .update <| lockAccounts [ask.accountId] <|
        sysAccountLastInstanceAdmin ask.accountId fun last =>
          if last then .done (.flag false)
          else
            deleteInScope ask.accountId ask.soleWorkspaceIds ask.now (.done (.flag false)) (.done (.flag true))

/-- `sys_instance_delete_account`. -/
def sysInstanceDeleteAccount (appAccountId accountId : Uuid) (soleWorkspaceIds : List Uuid) (now : Timestamp) :
    Program :=
  let answer (outcome : DeleteAccountOutcome) : Program := .done (.deleteAccount outcome)
  forInstanceAdmin appAccountId <|
    .read fun (db : Rows) =>
      lockWorkspaces (createdOrJoined db accountId) .update <| lockAccounts [appAccountId, accountId] <|
        forInstanceAdmin appAccountId <|
          .read fun (db : Rows) =>
            if (db.account accountId).isNone then answer .unknownAccount
            else
              sysAccountLastInstanceAdmin accountId fun last =>
                if last then answer .lastInstanceAdmin
                else if accountId = appAccountId then answer .self
                else deleteInScope accountId soleWorkspaceIds now (answer .unavailable) (answer .deleted)

/-- `sys_create_account`; `false` when the key is taken. -/
def sysCreateAccount (id : Uuid) (emailVerified : Bool) (now : Timestamp) : Program :=
  .write (.insertAccount id ⟨if emailVerified then some now else none, none, none, false, .full⟩) fun written =>
    .done (.flag written)

/-! ## Requests -/

/-- The requests that write memberships, workspaces or accounts, each with the time of its statements. -/
inductive Request
  | createAccount (id : Uuid) (emailVerified : Bool) (now : Timestamp)
  | createWorkspace (accountId workspaceId : Uuid) (ownedMax : Option ℕ) (now : Timestamp)
  | createPersonalWorkspace (accountId workspaceId : Uuid) (ownedMax : Option ℕ) (now : Timestamp)
  | instanceCreateWorkspace (appAccountId workspaceId : Uuid) (ownerAccountId : Option Uuid) (now : Timestamp)
  | acceptInvitation (ask : InvitationAcceptAsk)
  | addMembership (appAccountId workspaceId : Uuid) (now : Timestamp)
  | changeRole (ask : MemberRoleAsk)
  | transferOwnership (ask : OwnershipTransferAsk)
  | endMembership (ask : MembershipEndAsk)
  | verifyEmail (accountId : Uuid) (now : Timestamp)
  | markVerified (appAccountId accountId : Uuid) (now : Timestamp)
  | deleteAccount (ask : DeleteAccountAsk)
  | instanceDeleteAccount (appAccountId accountId : Uuid) (soleWorkspaceIds : List Uuid) (now : Timestamp)
  | deleteWorkspace (appAccountId workspaceId : Uuid) (now : Timestamp)
  | instanceDeleteWorkspace (appAccountId workspaceId : Uuid) (now : Timestamp)
  deriving DecidableEq, Repr

/-- What the transaction of a request does. -/
def Request.program : Request → Program
  | .createAccount id emailVerified now => sysCreateAccount id emailVerified now
  | .createWorkspace a w ownedMax now => sysCreateWorkspaceLimited a w ownedMax now
  | .createPersonalWorkspace a w ownedMax now => sysCreatePersonalWorkspaceLimited a w ownedMax now
  | .instanceCreateWorkspace app w owner now => sysInstanceCreateWorkspace app w owner now
  | .acceptInvitation ask => sysInvitationAccept ask
  | .addMembership app w now => sysInstanceAddMembership app w now
  | .changeRole ask => changeMemberRole ask
  | .transferOwnership ask => Members.transferOwnership ask
  | .endMembership ask => Members.endMembership ask
  | .verifyEmail a now => sysEmailVerify a now
  | .markVerified app a now => sysInstanceUpdateAccount app a now
  | .deleteAccount ask => sysDeleteAccount ask
  | .instanceDeleteAccount app a sole now => sysInstanceDeleteAccount app a sole now
  | .deleteWorkspace app w now => sysWorkspaceMarkDeleting app w now
  | .instanceDeleteWorkspace app w now => sysInstanceDeleteWorkspace app w now

end SlugBase.Members
