import SlugBase.Invitation.Store
import Mathlib.Data.List.Dedup
import Mathlib.Data.List.Sort

/-!
# The acceptance functions and what else writes their rows

* `sysInvitationAccept`, `sysInvitationAcceptNewAccount`, `sysInvitationAcceptWithIdentity`: the three functions;
* `revoke`, `renew`, `issueToken`, `writePending`, `reissueOwnerInvitation`: what else writes an invitation;
* `deleteTeam`, `markDeleting`, `purge`, `changeEmail`, `deleteAccount`, …: what else writes the other rows;
* `Request`, `Request.program`: the requests a database serves.
-/

namespace SlugBase.Invitation

open ReadCommitted Auth

/-! ## Accepting -/

/-- The invitation that a token hash finds. -/
def Rows.findToken (db : Rows) (tokenHash : TokenHash) (now : Timestamp) : Option (Uuid × InvitationRow) :=
  (Rows.invitations db).find? fun i => decide (i.2.tokenHash = tokenHash) && i.2.live now

/-- `deleting_at IS NULL`, of a row that is there. -/
def standing : Option WorkspaceRow → Bool := Option.any fun row => row.deletingAt.isNone

/-- An account that may accept. -/
def AccountRow.mayAccept (row : AccountRow) : Bool := decide (row.disabledAt = none ∧ row.accessMode = .full)

/-- An invitation under its lock, as it was found by its token. -/
def awaiting (tokenHash : TokenHash) (workspaceId : Uuid) (now : Timestamp) : Option (Option InvitationRow) → Bool :=
  Option.any (Option.any fun row =>
    decide (row.tokenHash = tokenHash ∧ row.workspaceId = workspaceId) && row.live now)

/-- The account joins these teams, those of them that are teams of the workspace when they are locked. -/
def joinTeams (workspaceId accountId : Uuid) : List Uuid → Program → Program
  | [], rest => rest
  | t :: teams, rest =>
    .lock (.team t) .keyShare (fun row => decide (row = some workspaceId)) fun
      | true => .write (.insertTeamMember workspaceId t accountId) fun _ => joinTeams workspaceId accountId teams rest
      | false => joinTeams workspaceId accountId teams rest

/-- `x.workspace_id = … AND x.id = ANY (team_ids) ORDER BY x.id`. -/
def Rows.teamsOf (db : Rows) (workspaceId : Uuid) (teamIds : List Uuid) : List Uuid :=
  (teamIds.dedup.filter fun t => decide (db.team t = some workspaceId)).insertionSort (· ≤ ·)

/-- The membership, the teams and the invitation that is accepted. -/
def join (workspaceId accountId invitationId : Uuid) (invitation : InvitationRow) (now : Timestamp) (rest : Program) :
    Program :=
  .write (.insertMember workspaceId accountId invitation.role) fun _ =>
    .read fun db =>
      joinTeams workspaceId accountId (Rows.teamsOf db workspaceId invitation.teamIds) <|
        .write (.updateInvitation invitationId (.accepted accountId now)) fun _ => rest

/-- `p_seat_limit IS NOT NULL AND (SELECT count(*) …) >= p_seat_limit`. -/
def seatsTaken (db : Rows) (workspaceId : Uuid) (seatLimit : Option ℕ) : Bool :=
  seatLimit.any fun limit => decide (limit ≤ (Rows.memberIds db workspaceId).length)

/-- What an acceptance is asked with: the clock is read when the token is looked for, when the invitation is locked and when
it is closed. -/
structure AcceptAsk where
  appAccountId : Option Uuid
  tokenHash : TokenHash
  seatLimit : Option ℕ
  foundAt : Timestamp
  lockedAt : Timestamp
  closedAt : Timestamp
  deriving DecidableEq, Repr

section

variable (ask : AcceptAsk) (refused : Refusal → Program)

/-- The invitation of the workspace that the token finds, locked and read again. -/
def lockInvitation (workspaceId : Uuid) (next : Uuid → InvitationRow → Program) : Program :=
  .read fun db =>
    match Rows.findToken db ask.tokenHash ask.lockedAt with
    | none => refused .gone
    | some (invitationId, _) =>
      .lock (.invitation invitationId) .update (awaiting ask.tokenHash workspaceId ask.lockedAt) fun
        | false => refused .gone
        | true =>
          .read fun db =>
            match Rows.invitation db invitationId with
            | none => refused .gone
            | some invitation => next invitationId invitation

/-- The workspace of the invitation a token finds, locked. -/
def lockWorkspace (next : Uuid → Program) : Program :=
  .read fun db =>
    match Rows.findToken db ask.tokenHash ask.foundAt with
    | none => refused .gone
    | some (_, invitation) =>
      .lock (.workspace invitation.workspaceId) .noKeyUpdate standing fun
        | false => refused .gone
        | true => next invitation.workspaceId

/-- `sys_invitation_accept(token_hash, account_id, seat_limit)`. -/
def sysInvitationAccept (accountId : Uuid) (accepted : Acceptance → Program) : Program :=
  if ask.appAccountId.any fun a => decide (accountId ≠ a) then refused .gone
  else
    lockWorkspace ask refused fun workspaceId =>
      .lock (.account accountId) .share (Option.any AccountRow.mayAccept) fun
        | false => refused .gone
        | true =>
          .read fun db =>
            match Rows.account db accountId with
            | none => refused .gone
            | some account =>
              lockInvitation ask refused workspaceId fun invitationId invitation =>
                if account.emailVerifiedAt = none ∨ account.email ≠ invitation.email then refused .emailMismatch
                else
                  .read fun db =>
                    if Rows.member db workspaceId accountId ≠ none then refused .alreadyMember
                    else if seatsTaken db workspaceId ask.seatLimit then refused .seatLimitReached
                    else
                      join workspaceId accountId invitationId invitation ask.closedAt
                        (accepted ⟨workspaceId, invitationId, invitation.role, accountId, ask.seatLimit⟩)

/-- `sys_create_account(…)`: no account is made when the address is reserved or taken, or the identifier is. -/
def sysCreateAccount (accountId : Uuid) (email : Address) (emailVerified : Bool) (now : Timestamp)
    (next : Bool → Program) : Program :=
  .read fun db =>
    if (Rows.reservation db email).any fun expiresAt => decide (now < expiresAt) then next false
    else
      .lock (.address email) .update (fun _ => true) fun _ =>
        .write (.insertAccount accountId ⟨email, if emailVerified then some now else none, none, .full⟩) fun
          | false => next false
          | true => .write (.insertAddress email accountId) fun _ => next true

/-- `sys_invitation_accept_new_account(…)`. -/
def sysInvitationAcceptNewAccount (accountId : Uuid) (accepted : Acceptance → Program) : Program :=
  if ask.appAccountId ≠ none then refused .gone
  else
    lockWorkspace ask refused fun workspaceId =>
      lockInvitation ask refused workspaceId fun invitationId invitation =>
        .read fun db =>
          if seatsTaken db workspaceId ask.seatLimit then refused .seatLimitReached
          else
            sysCreateAccount accountId invitation.email (!invitation.linkIssued) ask.closedAt fun
              | false => refused .emailTaken
              | true =>
                join workspaceId accountId invitationId invitation ask.closedAt
                  (accepted ⟨workspaceId, invitationId, invitation.role, accountId, ask.seatLimit⟩)

end

/-- What an acceptance through a provider is asked with, besides. -/
structure IdentityAsk extends AcceptAsk where
  provider : String
  subject : String
  email : Address
  accountId : Uuid
  mayCreate : Bool
  deriving DecidableEq, Repr

/-- Which account accepts: that of the identity, or the one that holds the invited address verified, or a new one. -/
inductive Accepter
  | refused (outcome : Refusal)
  | existing (accountId : Uuid) (linked : Bool)
  | new
  deriving DecidableEq, Repr

/-- The enabled account that holds this address verified. -/
def Rows.verifiedHolder (db : Rows) (email : Address) : Option Uuid :=
  (db.address email).filter fun a =>
    (db.account a).any fun row => decide (row.email = email ∧ row.emailVerifiedAt ≠ none ∧ row.disabledAt = none)

/-- The account that accepts, by plain reads. -/
def IdentityAsk.accepter (ask : IdentityAsk) (db : Rows) (invitedEmail : Address) : Accepter :=
  match (db.identity ask.provider ask.subject).bind fun a => (db.account a).map fun row => (a, row) with
  | some (a, row) => if row.disabledAt ≠ none then .refused .gone else .existing a true
  | none =>
    match Rows.verifiedHolder db invitedEmail with
    | some a => .existing a false
    | none => if ask.mayCreate then .new else .refused .notPermitted

/-- `sys_identity_link(…)`, which raises unless it links. -/
def sysIdentityLink (ask : IdentityAsk) (accountId : Uuid) (rest : Program) : Program :=
  .write (.insertIdentity ask.provider ask.subject accountId) fun _ => rest

/-- The refusal of an acceptance. -/
def refuse (outcome : Refusal) : Program := .done (.refused outcome)

/-- `sys_invitation_accept_with_identity(…)`. -/
def sysInvitationAcceptWithIdentity (ask : IdentityAsk) : Program :=
  if ask.appAccountId ≠ none then refuse .gone
  else
    .read fun db =>
      match Rows.findToken db ask.tokenHash ask.foundAt with
      | none => refuse .gone
      | some (_, invitation) =>
        if invitation.email ≠ ask.email then refuse .emailMismatch
        else
          .read fun db =>
            match ask.accepter db invitation.email with
            | .refused outcome => refuse outcome
            | .existing accountId linked =>
              .lock (.workspace invitation.workspaceId) .noKeyUpdate standing fun
                | false => refuse .gone
                | true =>
                  .lock (.account accountId) .update (Option.any fun row => row.disabledAt.isNone) fun
                    | false => refuse .gone
                    | true =>
                      sysInvitationAccept ask.toAcceptAsk refuse accountId fun acceptance =>
                        if linked then .done (.accepted acceptance)
                        else sysIdentityLink ask accountId (.done (.accepted acceptance))
            | .new =>
              .lock (.workspace invitation.workspaceId) .noKeyUpdate standing fun
                | false => refuse .gone
                | true =>
                  sysInvitationAcceptNewAccount ask.toAcceptAsk refuse ask.accountId fun acceptance =>
                    .write (.updateAccount ask.accountId (.emailVerifiedAt ask.closedAt)) fun _ =>
                      sysIdentityLink ask ask.accountId (.done (.accepted acceptance))

end SlugBase.Invitation
