import SlugBase.Lib.Table
import SlugBase.Lib.Transition
import SlugBase.Invitation.Row

/-!
# Who is given the token of an invitation

A token's value leaves the deployment in two ways: in the mail of a job and in the answer to an administrator. Each step
below is one transaction, as its commit leaves the rows; the mail of a job goes out in a step of its own.

* `Deployment`: the invitations, the queued jobs and the mails on their way, with what was drawn, written and given so far;
* `inviteMember`, `resendInvitation`, `createInvitationLink`, `invitationSend`, `createInstanceWorkspace`,
  `reissueOwnerInvitation`: the writers of a token hash;
* `acceptNewAccount`, `acceptWithIdentity`, …: what an invitation is used for;
* `issuing`: the system.
-/

namespace SlugBase.Invitation.Issuing

open Relational Auth Transition

/-! ## The state -/

/-- Whom the value of a token was given to. -/
inductive Recipient
  | mailbox (email : Address)
  | administrator (accountId : Uuid)
  deriving DecidableEq, Repr

/-- A job `invitation.send`, and when the request it serves was made. -/
structure MailJob where
  invitationId : Uuid
  workspaceId : Uuid
  accountId : Uuid
  mailTicket : Uuid
  requestedAt : ℕ
  deriving DecidableEq, Repr

/-- The mail that a run of a job sends after its commit. -/
structure InvitationMail where
  email : Address
  tokenHash : TokenHash
  deriving DecidableEq, Repr

/-- What wrote a token hash: a request, or a run of the job of a ticket. -/
inductive Writer
  | request
  | job (mailTicket : Uuid)
  deriving DecidableEq, Repr

/-- A token hash that was written, by what and when. -/
structure Issue where
  tokenHash : TokenHash
  writer : Writer
  issuedAt : ℕ
  deriving DecidableEq, Repr

/-- An account that an acceptance made. -/
structure NewAccount where
  id : Uuid
  invitationId : Uuid
  email : Address
  tokenHash : TokenHash
  emailVerified : Bool
  hasPassword : Bool
  deriving DecidableEq, Repr

/-- The rows and the queue, and the history: the token hashes given to somebody, written and drawn, the identifiers drawn,
the accounts made, and how many steps were taken. -/
structure Deployment where
  invitations : Table (Uuid × InvitationRow) Prod.fst := ∅
  jobs : List MailJob := []
  outbox : List InvitationMail := []
  given : List (TokenHash × Recipient) := []
  issues : List Issue := []
  drawn : List TokenHash := []
  ids : List Uuid := []
  accounts : List NewAccount := []
  steps : ℕ := 0

namespace Deployment

variable (s : Deployment)

/-- `UPDATE workspace_invitations`, of the rows a condition meets. -/
def update (p : Uuid × InvitationRow → Bool) (set : InvitationSet) : Deployment :=
  { s with invitations := s.invitations.updateWhere (fun r => p r && set.finds r.2) (fun r => (r.1, r.2.update set)) fun _ => rfl }

/-- The row of an identifier that an update finds. -/
def found (id : Uuid) (set : InvitationSet) : Option (Uuid × InvitationRow) :=
  s.invitations.find? fun r => decide (r.1 = id) && set.finds r.2

/-- The update of one row, with the row it found. -/
def updateOne (id : Uuid) (set : InvitationSet) : Option (InvitationRow × Deployment) :=
  (s.found id set).map fun r => (r.2, s.update (fun r => decide (r.1 = id)) set)

/-- A row is inserted. -/
def insert (id : Uuid) (row : InvitationRow) : Option Deployment :=
  (s.invitations.insert? (id, row)).map fun t => { s with invitations := t }

/-- A token hash was written. -/
def issued (tokenHash : TokenHash) (writer : Writer) : Deployment := { s with issues := ⟨tokenHash, writer, s.steps⟩ :: s.issues }

/-- The value of a token was given to somebody. -/
def give (tokenHash : TokenHash) (recipient : Recipient) : Deployment := { s with given := (tokenHash, recipient) :: s.given }

/-- `queueInvitationMail`. -/
def queueInvitationMail (invitationId workspaceId accountId mailTicket : Uuid) : Deployment :=
  { s with jobs := ⟨invitationId, workspaceId, accountId, mailTicket, s.steps⟩ :: s.jobs }

/-- The pending invitation of an address into a workspace. -/
def pendingOf (workspaceId : Uuid) (email : Address) : Option (Uuid × InvitationRow) :=
  s.invitations.find? fun r => decide (r.2.workspaceId = workspaceId ∧ r.2.email = email ∧ r.2.status = .pending)

end Deployment

/-! ## Requests of a workspace's administrators -/

/-- What `inviteMember` is asked, by one who may invite, for an address that no member holds; `mailed` is whether the
deployment can send mail. -/
structure InvitationAsk where
  workspaceId : Uuid
  accountId : Uuid
  mailed : Bool
  email : Address
  role : MemberRole
  teamIds : List Uuid
  deriving DecidableEq, Repr

/-- The row that `writePending` inserts. -/
def InvitationAsk.row (ask : InvitationAsk) (mailTicket : Uuid) (tokenHash : TokenHash) (expiresAt : Timestamp) : InvitationRow :=
  ⟨ask.workspaceId, ask.email, ask.role, false, ask.teamIds, tokenHash, some mailTicket, false, some ask.accountId, .pending,
    expiresAt, none, none⟩

/-- `inviteMember`: the statement of `writePending`, and the job where the deployment can send mail. -/
def inviteMember (s : Deployment) (ask : InvitationAsk) (id mailTicket : Uuid) (tokenHash : TokenHash) (expiresAt : Timestamp) :
    Option Deployment :=
  match s.pendingOf ask.workspaceId ask.email with
  | some r =>
    (s.updateOne r.1 (.rewritten ask.role ask.teamIds tokenHash (!ask.mailed) mailTicket ask.accountId expiresAt)).map fun u =>
      if ask.mailed then
        (u.2.issued tokenHash .request).queueInvitationMail r.1 ask.workspaceId ask.accountId mailTicket
      else u.2
  | none =>
    (s.insert id (ask.row mailTicket tokenHash expiresAt)).map fun s =>
      if ask.mailed then
        (s.issued tokenHash .request).queueInvitationMail id ask.workspaceId ask.accountId mailTicket
      else s.issued tokenHash .request

/-- `resendInvitation`: a token nobody holds, and the job that mails another. -/
def resendInvitation (s : Deployment) (workspaceId accountId invitationId mailTicket : Uuid) (tokenHash : TokenHash)
    (expiresAt : Timestamp) : Option Deployment :=
  (s.updateOne invitationId (.renewed workspaceId tokenHash (some mailTicket) accountId expiresAt)).map fun u =>
    (u.2.issued tokenHash .request).queueInvitationMail invitationId workspaceId accountId mailTicket

/-- `createInvitationLink`: the token's value is in the answer. -/
def createInvitationLink (s : Deployment) (workspaceId accountId invitationId : Uuid) (tokenHash : TokenHash)
    (expiresAt : Timestamp) : Option Deployment :=
  (s.updateOne invitationId (.renewed workspaceId tokenHash none accountId expiresAt)).map fun u =>
    (u.2.issued tokenHash .request).give tokenHash (.administrator accountId)

/-- `revokeInvitation`. -/
def revokeInvitation (s : Deployment) (workspaceId invitationId : Uuid) (now : Timestamp) : Option Deployment :=
  (s.updateOne invitationId (.revoked workspaceId now)).map Prod.snd

/-! ## The job -/

/-- A run of the job `invitation.send`, up to the mail: an owner's invitation that no instance admin issued is not mailed. -/
def invitationSend (s : Deployment) (job : MailJob) (tokenHash : TokenHash) (now : Timestamp) : Option Deployment :=
  (s.updateOne job.invitationId (.issued job.workspaceId job.mailTicket tokenHash now)).map fun u =>
    let s := u.2.issued tokenHash (.job job.mailTicket)
    if u.1.role = .owner ∧ u.1.instanceIssued = false then s
    else { s with outbox := ⟨u.1.email, tokenHash⟩ :: s.outbox }

/-- A mail arrives. -/
def deliver (s : Deployment) (mail : InvitationMail) : Option Deployment :=
  if mail ∈ s.outbox then
    some ({ s with outbox := s.outbox.erase mail }.give mail.tokenHash (.mailbox mail.email))
  else none

/-! ## The instance administrator -/

/-- An invitation of a workspace's first owner. -/
structure OwnerInvitation where
  id : Uuid
  workspaceId : Uuid
  email : Address
  tokenHash : TokenHash
  accountId : Uuid
  expiresAt : Timestamp
  deriving DecidableEq, Repr

/-- The row of an owner invitation, written with `p_link_issued`. -/
def OwnerInvitation.row (o : OwnerInvitation) (linkIssued : Bool) : InvitationRow :=
  ⟨o.workspaceId, o.email, .owner, true, [], o.tokenHash, if linkIssued then none else some o.id, linkIssued, some o.accountId,
    .pending, o.expiresAt, none, none⟩

/-- An owner invitation is written; the mail job is queued where there is a `mailLocale`, and the link is answered where
there is none. -/
def insertOwnerInvitation (s : Deployment) (o : OwnerInvitation) (mailLocale : Option String) : Option Deployment :=
  (s.insert o.id (o.row mailLocale.isNone)).map fun s =>
    match mailLocale with
    | some _ => (s.issued o.tokenHash .request).queueInvitationMail o.id o.workspaceId o.accountId o.id
    | none => (s.issued o.tokenHash .request).give o.tokenHash (.administrator o.accountId)

/-- `createInstanceWorkspace`, for the address of an owner. -/
def createInstanceWorkspace (s : Deployment) (o : OwnerInvitation) (mailLocale : Option String) : Option Deployment :=
  insertOwnerInvitation s o mailLocale

/-- `reissueInstanceWorkspaceOwnerInvitation`, of the address that `sys_instance_reissue_owner_invitation` found: the pending
owner invitations of the workspace are revoked. -/
def reissueOwnerInvitation (s : Deployment) (o : OwnerInvitation) (mailLocale : Option String) (now : Timestamp) :
    Option Deployment :=
  insertOwnerInvitation (s.update (fun r => decide (r.2.role = .owner)) (.revoked o.workspaceId now)) o mailLocale

/-! ## Acceptances -/

/-- The live invitation that a token finds; its value is presented by one it was given to. -/
def Deployment.presented (s : Deployment) (tokenHash : TokenHash) (now : Timestamp) : Option (Uuid × InvitationRow) :=
  if s.given.any fun g => decide (g.1 = tokenHash) then
    s.invitations.find? fun r => decide (r.2.tokenHash = tokenHash) && r.2.live now
  else none

/-- The invitation a token finds is accepted for an account. -/
def Deployment.acceptedBy (s : Deployment) (tokenHash : TokenHash) (accountId : Uuid) (now : Timestamp) :
    Option ((Uuid × InvitationRow) × Deployment) :=
  (s.presented tokenHash now).map fun r => (r, s.update (fun r' => decide (r'.1 = r.1)) (.accepted accountId now))

/-- `sys_invitation_accept`. -/
def accept (s : Deployment) (tokenHash : TokenHash) (accountId : Uuid) (now : Timestamp) : Option Deployment :=
  (s.acceptedBy tokenHash accountId now).map Prod.snd

/-- `sys_invitation_accept_new_account`, with a password: the account is verified unless the token is a link's. -/
def acceptNewAccount (s : Deployment) (tokenHash : TokenHash) (accountId : Uuid) (now : Timestamp) : Option Deployment :=
  (s.acceptedBy tokenHash accountId now).map fun u =>
    let made : NewAccount := ⟨accountId, u.1.1, u.1.2.email, tokenHash, !u.1.2.linkIssued, true⟩
    { u.2 with accounts := made :: u.2.accounts }

/-- `sys_invitation_accept_with_identity`, where it makes an account: its provider verified the address. -/
def acceptWithIdentity (s : Deployment) (tokenHash : TokenHash) (accountId : Uuid) (now : Timestamp) : Option Deployment :=
  (s.acceptedBy tokenHash accountId now).map fun u =>
    let made : NewAccount := ⟨accountId, u.1.1, u.1.2.email, tokenHash, true, false⟩
    { u.2 with accounts := made :: u.2.accounts }

/-! ## The system -/

/-- What happens to the invitations. -/
inductive IssueEvent
  | inviteMember (ask : InvitationAsk) (id mailTicket : Uuid) (tokenHash : TokenHash) (expiresAt : Timestamp)
  | resendInvitation (workspaceId accountId invitationId mailTicket : Uuid) (tokenHash : TokenHash) (expiresAt : Timestamp)
  | createInvitationLink (workspaceId accountId invitationId : Uuid) (tokenHash : TokenHash) (expiresAt : Timestamp)
  | revokeInvitation (workspaceId invitationId : Uuid) (now : Timestamp)
  | invitationSend (job : MailJob) (tokenHash : TokenHash) (now : Timestamp)
  | deliver (mail : InvitationMail)
  | createInstanceWorkspace (owner : OwnerInvitation) (mailLocale : Option String)
  | reissueOwnerInvitation (owner : OwnerInvitation) (mailLocale : Option String) (now : Timestamp)
  | accept (tokenHash : TokenHash) (accountId : Uuid) (now : Timestamp)
  | acceptNewAccount (tokenHash : TokenHash) (accountId : Uuid) (now : Timestamp)
  | acceptWithIdentity (tokenHash : TokenHash) (accountId : Uuid) (now : Timestamp)
  | deleteAccount (accountId : Uuid)
  | deleteInvitations (ids : List Uuid)
  deriving DecidableEq, Repr

/-- The token that is drawn. -/
def IssueEvent.tokenHash : IssueEvent → Option TokenHash
  | .inviteMember _ _ _ tokenHash _ | .resendInvitation _ _ _ _ tokenHash _ | .createInvitationLink _ _ _ tokenHash _
  | .invitationSend _ tokenHash _ => some tokenHash
  | .createInstanceWorkspace o _ | .reissueOwnerInvitation o _ _ => some o.tokenHash
  | _ => none

/-- The identifiers that are drawn. -/
def IssueEvent.ids : IssueEvent → List Uuid
  | .inviteMember _ id mailTicket _ _ => [id, mailTicket]
  | .resendInvitation _ _ _ mailTicket _ _ => [mailTicket]
  | .createInstanceWorkspace o _ | .reissueOwnerInvitation o _ _ => [o.id]
  | _ => []

/-- What an event does; `none` where it writes nothing. A queued job may run at any time and any number of times. -/
def Deployment.perform (s : Deployment) : IssueEvent → Option Deployment
  | .inviteMember ask id mailTicket tokenHash expiresAt => Issuing.inviteMember s ask id mailTicket tokenHash expiresAt
  | .resendInvitation w a i mailTicket tokenHash expiresAt => Issuing.resendInvitation s w a i mailTicket tokenHash expiresAt
  | .createInvitationLink w a i tokenHash expiresAt => Issuing.createInvitationLink s w a i tokenHash expiresAt
  | .revokeInvitation w i now => Issuing.revokeInvitation s w i now
  | .invitationSend job tokenHash now => if job ∈ s.jobs then Issuing.invitationSend s job tokenHash now else none
  | .deliver mail => Issuing.deliver s mail
  | .createInstanceWorkspace o mailLocale => Issuing.createInstanceWorkspace s o mailLocale
  | .reissueOwnerInvitation o mailLocale now => Issuing.reissueOwnerInvitation s o mailLocale now
  | .accept tokenHash a now => Issuing.accept s tokenHash a now
  | .acceptNewAccount tokenHash a now => Issuing.acceptNewAccount s tokenHash a now
  | .acceptWithIdentity tokenHash a now => Issuing.acceptWithIdentity s tokenHash a now
  | .deleteAccount a => some ((s.update (fun _ => true) (.inviterDeleted a)).update (fun _ => true) (.accepterDeleted a))
  | .deleteInvitations ids => some { s with invitations := s.invitations.deleteWhere fun r => decide (r.1 ∈ ids) }

/-- One step: what is drawn was not drawn before. -/
def Deployment.step (s : Deployment) (e : IssueEvent) : Option Deployment :=
  if (∀ h ∈ e.tokenHash, h ∉ s.drawn) ∧ ∀ i ∈ e.ids, i ∉ s.ids then
    (s.perform e).map fun s' =>
      { s' with drawn := e.tokenHash.toList ++ s.drawn, ids := e.ids ++ s.ids, steps := s.steps + 1 }
  else none

/-- **The steps of the deployment**, from no invitation. -/
def issuing : System Deployment IssueEvent where
  init s := s = {}
  step s e s' := s.step e = some s'

end SlugBase.Invitation.Issuing
