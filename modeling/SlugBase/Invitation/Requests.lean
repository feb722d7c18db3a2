import SlugBase.Invitation.Acceptance

/-!
# The requests a database serves

Besides the acceptances: what else writes an invitation, and what else writes the rows an acceptance decides by. The rows
that go with another are found and deleted one after the other.

* `revokeInvitation`, `renewInvitation`, `issueToken`, `inviteMember`, `sysInstanceReissueOwnerInvitation`: the writers of an
  invitation;
* `createWorkspace`, `addMembership`, `endMembership`, `deleteTeam`, `markDeleting`, `purgeWorkspace`, `deleteAccount`, …: the
  writers of the other rows;
* `Request`, `Request.program`.
-/

namespace SlugBase.Invitation

open ReadCommitted Auth

/-! ## Invitations -/

/-- The statements one after the other, whatever each finds. -/
def writeAll (statements : List Statement) (rest : Program) : Program :=
  statements.foldr (fun q rest => .write q fun _ => rest) rest

/-- The end of a transaction that accepts nothing. -/
def finished : Program := .done .other

/-- `mayManage`. -/
def managing (workspaceId accountId : Uuid) (rest : Program) : Program :=
  .read fun db =>
    if (Rows.member db workspaceId accountId).any fun role => decide (role = .owner ∨ role = .admin) then rest
    else finished

/-- `revokeInvitation`. -/
def revokeInvitation (workspaceId accountId invitationId : Uuid) (now : Timestamp) : Program :=
  managing workspaceId accountId (writeAll [.updateInvitation invitationId (.revoked workspaceId now)] finished)

/-- `resendInvitation`, with a mail ticket, and `createInvitationLink`, without one. -/
def renewInvitation (workspaceId accountId invitationId : Uuid) (tokenHash : TokenHash) (mailTicket : Option Uuid)
    (expiresAt : Timestamp) : Program :=
  managing workspaceId accountId
    (writeAll [.updateInvitation invitationId (.renewed workspaceId tokenHash mailTicket accountId expiresAt)] finished)

/-- The job `invitation.send`, up to the mail. -/
def issueToken (workspaceId invitationId mailTicket : Uuid) (tokenHash : TokenHash) (now : Timestamp) : Program :=
  .read fun db =>
    if standing (Rows.workspace db workspaceId) then
      writeAll [.updateInvitation invitationId (.issued workspaceId mailTicket tokenHash now)] finished
    else finished

/-- A new invitation of a workspace. -/
structure NewInvitation where
  id : Uuid
  workspaceId : Uuid
  email : Address
  role : MemberRole
  teamIds : List Uuid
  tokenHash : TokenHash
  mailTicket : Option Uuid
  linkIssued : Bool
  instanceIssued : Bool
  invitedBy : Uuid
  expiresAt : Timestamp
  deriving DecidableEq, Repr

/-- The row of a new invitation, which is pending. -/
def NewInvitation.row (new : NewInvitation) : InvitationRow :=
  ⟨new.workspaceId, new.email, new.role, new.instanceIssued, new.teamIds, new.tokenHash, new.mailTicket, new.linkIssued,
    some new.invitedBy, .pending, new.expiresAt, none, none⟩

/-- The pending invitation of an address into a workspace. -/
def Rows.pendingOf (db : Rows) (workspaceId : Uuid) (email : Address) : Option Uuid :=
  ((Rows.invitations db).find? fun i =>
    decide (i.2.workspaceId = workspaceId ∧ i.2.email = email ∧ i.2.status = .pending)).map Prod.fst

/-- `inviteMember`, with the statement of `writePending`: the pending invitation of the address is rewritten, or one is
inserted. -/
def inviteMember (new : NewInvitation) (keepTokenHash : Bool) (mailTicket : Uuid) : Program :=
  managing new.workspaceId new.invitedBy <|
    .read fun db =>
      if new.teamIds.all fun t => decide (Rows.team db t = some new.workspaceId) then
        if (Rows.memberIds db new.workspaceId).any fun a => (Rows.account db a).any fun row => decide (row.email = new.email) then
          finished
        else
          .read fun db =>
            match Rows.pendingOf db new.workspaceId new.email with
            | none => writeAll [.insertInvitation new.id new.row] finished
            | some invitationId =>
              .write (.updateInvitation invitationId
                (.rewritten new.role new.teamIds new.tokenHash keepTokenHash mailTicket new.invitedBy new.expiresAt)) fun
                | true => finished
                | false => writeAll [.insertInvitation new.id new.row] finished
      else finished

/-- `sys_instance_reissue_owner_invitation(…)`, of the address its caller found. -/
def sysInstanceReissueOwnerInvitation (new : NewInvitation) (now : Timestamp) : Program :=
  .lock (.workspace new.workspaceId) .noKeyUpdate standing fun
    | false => finished
    | true =>
      .read fun db =>
        if (Rows.memberIds db new.workspaceId).any fun a => decide (Rows.member db new.workspaceId a = some .owner) then
          finished
        else
          let pending := (Rows.invitations db).filter fun i =>
            decide (i.2.workspaceId = new.workspaceId ∧ i.2.role = .owner ∧ i.2.status = .pending)
          writeAll (pending.map fun i => .updateInvitation i.1 (.revoked new.workspaceId now)) <|
            writeAll [.insertInvitation new.id new.row] finished

/-! ## Rows that go with another -/

/-- The team memberships that meet a condition, each deleted. -/
def Rows.deleteTeamMembers (db : Rows) (p : Uuid → Uuid → Uuid → Bool) : List Statement :=
  db.keys.filterMap fun
    | .teamMember w t a => if p w t a then some (.deleteTeamMember w t a) else none
    | _ => none

/-- The memberships that meet a condition, each deleted. -/
def Rows.deleteMembers (db : Rows) (p : Uuid → Uuid → Bool) : List Statement :=
  db.keys.filterMap fun
    | .member w a => if p w a then some (.deleteMember w a) else none
    | _ => none

/-- The teams of these workspaces, each deleted. -/
def Rows.deleteTeams (db : Rows) (p : Uuid → Bool) : List Statement :=
  db.entries.filterMap fun
    | ⟨.team t, w⟩ => if p w then some (.deleteTeam t) else none
    | _ => none

/-- The identities of an account, each deleted. -/
def Rows.deleteIdentities (db : Rows) (accountId : Uuid) : List Statement :=
  db.entries.filterMap fun
    | ⟨.identity provider subject, a⟩ => if a = accountId then some (.deleteIdentity provider subject) else none
    | _ => none

/-- The invitations that meet a condition, each deleted. -/
def Rows.deleteInvitations (db : Rows) (p : InvitationRow → Bool) : List Statement :=
  ((Rows.invitations db).filter fun i => p i.2).map fun i => .deleteInvitation i.1

/-! ## Workspaces, members and teams -/

/-- `sys_create_workspace`, and `sys_instance_create_workspace` for an owner account. -/
def createWorkspace (workspaceId accountId : Uuid) : Program :=
  .lock (.account accountId) .share (Option.any fun row => row.disabledAt.isNone) fun
    | false => finished
    | true =>
      .write (.insertWorkspace workspaceId) fun
        | false => .raise
        | true => writeAll [.insertMember workspaceId accountId .owner] finished

/-- `sys_instance_create_workspace` for the address of an owner. -/
def createWorkspaceFor (new : NewInvitation) : Program :=
  writeAll [.insertWorkspace new.workspaceId, .insertInvitation new.id new.row] finished

/-- `sys_instance_add_membership`, of an instance admin. -/
def addMembership (workspaceId accountId : Uuid) : Program :=
  .lock (.workspace workspaceId) .noKeyUpdate standing fun
    | false => finished
    | true =>
      .lock (.account accountId) .share (Option.any fun row => row.disabledAt.isNone) fun
        | false => .raise
        | true =>
          .read fun db =>
            if Rows.member db workspaceId accountId ≠ none then finished
            else writeAll [.insertMember workspaceId accountId .member] finished

/-- A member is removed or leaves, or the role changes: under the lock of the workspace. -/
def changeMember (workspaceId accountId : Uuid) (role : Option MemberRole) : Program :=
  .lock (.workspace workspaceId) .update standing fun
    | false => finished
    | true =>
      match role with
      | some role => writeAll [.updateMember workspaceId accountId role] finished
      | none =>
        .read fun db =>
          writeAll (.deleteMember workspaceId accountId ::
            Rows.deleteTeamMembers db fun w _ a => decide (w = workspaceId ∧ a = accountId)) finished

/-- The deletion of a team, with its members. -/
def deleteTeam (workspaceId teamId : Uuid) : Program :=
  .lock (.team teamId) .update (fun row => decide (row = some workspaceId)) fun
    | false => finished
    | true =>
      .read fun db => writeAll (.deleteTeam teamId :: Rows.deleteTeamMembers db fun _ t _ => decide (t = teamId)) finished

/-- `sys_workspace_mark_deleting`. -/
def sysWorkspaceMarkDeleting (workspaceId accountId : Uuid) (now : Timestamp) : Program :=
  .lock (.workspace workspaceId) .update standing fun
    | false => finished
    | true =>
      .read fun db =>
        if Rows.member db workspaceId accountId = some .owner then writeAll [.setDeletingAt workspaceId now] finished
        else finished

/-- The tables `sys_workspace_purge_batch` empties. -/
inductive PurgedTable
  | teamMembers
  | teams
  | workspaceInvitations
  | workspaceMembers
  deriving DecidableEq, Repr

/-- `sys_workspace_purge_batch`, of a workspace that is being deleted. -/
def sysWorkspacePurgeBatch (workspaceId : Uuid) (table : PurgedTable) : Program :=
  .read fun db =>
    if (Rows.workspace db workspaceId).any fun row => row.deletingAt.isSome then
      match table with
      | .teamMembers => writeAll (Rows.deleteTeamMembers db fun w _ _ => decide (w = workspaceId)) finished
      | .teams => writeAll (Rows.deleteTeams db fun w => decide (w = workspaceId)) finished
      | .workspaceInvitations => writeAll (Rows.deleteInvitations db fun i => decide (i.workspaceId = workspaceId)) finished
      | .workspaceMembers => writeAll (Rows.deleteMembers db fun w _ => decide (w = workspaceId)) finished
    else finished

/-! ## Accounts -/

/-- A change of the address of an account, to one that is free. -/
def changeEmail (accountId : Uuid) (email : Address) : Program :=
  .lock (.account accountId) .update Option.isSome fun
    | false => finished
    | true =>
      .read fun db =>
        match Rows.account db accountId with
        | none => finished
        | some row =>
          writeAll [.deleteAddress row.email, .insertAddress email accountId, .updateAccount accountId (.email email)] finished

/-- The workspaces locked one after the other. -/
def lockWorkspaces : List Uuid → Program → Program
  | [], rest => rest
  | w :: ws, rest => .lock (.workspace w) .noKeyUpdate standing fun _ => lockWorkspaces ws rest

/-- The address of an account is marked verified, and what lets others into its workspaces, `sole`, is removed
(`account_strip_workspaces`). -/
def verifyEmail (accountId : Uuid) (sole : List Uuid) (now : Timestamp) : Program :=
  .lock (.account accountId) .update (Option.any fun row => row.emailVerifiedAt.isNone) fun
    | false => finished
    | true =>
      .read fun db =>
        writeAll (Rows.deleteIdentities db accountId) <|
          writeAll [.updateAccount accountId (.emailVerifiedAt now)] <|
            lockWorkspaces sole <|
              .read fun db =>
                writeAll (Rows.deleteInvitations db fun i => decide (i.status = .pending ∧ i.workspaceId ∈ sole)) <|
                  writeAll (Rows.deleteTeamMembers db fun w _ _ => decide (w ∈ sole)) <|
                    writeAll (Rows.deleteTeams db fun w => decide (w ∈ sole)) <|
                      writeAll (Rows.deleteMembers db fun w a => decide (w ∈ sole ∧ a ≠ accountId)) <|
                        writeAll (sole.map fun w => .updateMember w accountId .owner) finished

/-- The deletion of an account, and of the workspaces it is the only member of. -/
def deleteAccount (accountId : Uuid) (sole : List Uuid) (now : Timestamp) : Program :=
  lockWorkspaces sole <|
    .lock (.account accountId) .update Option.isSome fun
      | false => finished
      | true =>
        .read fun db =>
          let email := (Rows.account db accountId).map AccountRow.email
          writeAll (sole.map fun w => .setDeletingAt w now) <|
            writeAll (Rows.deleteTeamMembers db fun _ _ a => decide (a = accountId)) <|
              writeAll (Rows.deleteMembers db fun _ a => decide (a = accountId)) <|
                writeAll (Rows.deleteIdentities db accountId) <|
                  writeAll ((Rows.invitations db).flatMap fun i =>
                    [.updateInvitation i.1 (.inviterDeleted accountId), .updateInvitation i.1 (.accepterDeleted accountId)]) <|
                    writeAll ((email.toList.map fun email => .deleteAddress email) ++ [.deleteAccount accountId]) finished

/-! ## The requests -/

/-- The requests that write these rows. -/
inductive Request
  | accept (ask : AcceptAsk) (accountId : Uuid)
  | acceptNewAccount (ask : AcceptAsk) (accountId : Uuid)
  | acceptWithIdentity (ask : IdentityAsk)
  | inviteMember (new : NewInvitation) (keepTokenHash : Bool) (mailTicket : Uuid)
  | renewInvitation (workspaceId accountId invitationId : Uuid) (tokenHash : TokenHash) (mailTicket : Option Uuid)
      (expiresAt : Timestamp)
  | revokeInvitation (workspaceId accountId invitationId : Uuid) (now : Timestamp)
  | issueToken (workspaceId invitationId mailTicket : Uuid) (tokenHash : TokenHash) (now : Timestamp)
  | reissueOwnerInvitation (new : NewInvitation) (now : Timestamp)
  | purgeInvitations (closedBefore : Timestamp)
  | createWorkspace (workspaceId accountId : Uuid)
  | createWorkspaceFor (new : NewInvitation)
  | addMembership (workspaceId accountId : Uuid)
  | changeMember (workspaceId accountId : Uuid) (role : Option MemberRole)
  | createTeam (id workspaceId : Uuid)
  | deleteTeam (workspaceId teamId : Uuid)
  | addTeamMember (workspaceId teamId accountId : Uuid)
  | removeTeamMember (workspaceId teamId accountId : Uuid)
  | markDeleting (workspaceId accountId : Uuid) (now : Timestamp)
  | purgeWorkspace (workspaceId : Uuid) (table : PurgedTable)
  | finishDeletion (workspaceId : Uuid)
  | createAccount (accountId : Uuid) (email : Address) (emailVerified : Bool) (now : Timestamp)
  | changeEmail (accountId : Uuid) (email : Address)
  | reserveAddress (email : Address) (expiresAt : Timestamp)
  | freeAddress (email : Address)
  | verifyEmail (accountId : Uuid) (sole : List Uuid) (now : Timestamp)
  | setDisabled (accountId : Uuid) (disabledAt : Option Timestamp)
  | setAccessMode (accountId : Uuid) (mode : AccessMode)
  | linkIdentity (accountId : Uuid) (provider subject : String)
  | unlinkIdentity (provider subject : String)
  | deleteAccount (accountId : Uuid) (sole : List Uuid) (now : Timestamp)
  deriving DecidableEq, Repr

/-- The transaction of a request. -/
def Request.program : Request → Program
  | .accept ask accountId => sysInvitationAccept ask refuse accountId fun acceptance => .done (.accepted acceptance)
  | .acceptNewAccount ask accountId =>
    sysInvitationAcceptNewAccount ask refuse accountId fun acceptance => .done (.accepted acceptance)
  | .acceptWithIdentity ask => sysInvitationAcceptWithIdentity ask
  | .inviteMember new keepTokenHash mailTicket => Invitation.inviteMember new keepTokenHash mailTicket
  | .renewInvitation w a i tokenHash mailTicket expiresAt => Invitation.renewInvitation w a i tokenHash mailTicket expiresAt
  | .revokeInvitation w a i now => Invitation.revokeInvitation w a i now
  | .issueToken w i mailTicket tokenHash now => Invitation.issueToken w i mailTicket tokenHash now
  | .reissueOwnerInvitation new now => sysInstanceReissueOwnerInvitation new now
  | .purgeInvitations closedBefore =>
    .read fun db =>
      writeAll (Rows.deleteInvitations db fun i => i.closedAt.any fun closedAt => decide (closedAt ≤ closedBefore)) finished
  | .createWorkspace w a => Invitation.createWorkspace w a
  | .createWorkspaceFor new => Invitation.createWorkspaceFor new
  | .addMembership w a => Invitation.addMembership w a
  | .changeMember w a role => Invitation.changeMember w a role
  | .createTeam t w => writeAll [.insertTeam t w] finished
  | .deleteTeam w t => Invitation.deleteTeam w t
  | .addTeamMember w t a => writeAll [.insertTeamMember w t a] finished
  | .removeTeamMember w t a => writeAll [.deleteTeamMember w t a] finished
  | .markDeleting w a now => sysWorkspaceMarkDeleting w a now
  | .purgeWorkspace w table => sysWorkspacePurgeBatch w table
  | .finishDeletion w => writeAll [.deleteWorkspace w] finished
  | .createAccount a email emailVerified now => sysCreateAccount a email emailVerified now fun _ => finished
  | .changeEmail a email => Invitation.changeEmail a email
  | .reserveAddress email expiresAt => writeAll [.insertReservation email expiresAt] finished
  | .freeAddress email => writeAll [.deleteReservation email] finished
  | .verifyEmail a sole now => Invitation.verifyEmail a sole now
  | .setDisabled a disabledAt => writeAll [.updateAccount a (.disabledAt disabledAt)] finished
  | .setAccessMode a mode => writeAll [.updateAccount a (.accessMode mode)] finished
  | .linkIdentity a provider subject => writeAll [.insertIdentity provider subject a] finished
  | .unlinkIdentity provider subject => writeAll [.deleteIdentity provider subject] finished
  | .deleteAccount a sole now => Invitation.deleteAccount a sole now

end SlugBase.Invitation
