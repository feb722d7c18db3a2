import SlugBase.Schema

/-!
# Accounts, identities and handshakes

The rows behind the sign-in through an identity provider, and the database functions that write them. Each function is
one transaction that locks the row of the account it decides on, so it is one step here.

* `Account`, `AccessMode`, `Identity`, `LoginState`, `Invitation`: the rows;
* `Deed`: what has been done, a ghost that no function reads;
* `sysIdentityLink`, `sysIdentityLinkByEmail`, `sysInvitationAccept`, …: the functions;
* `sysCreateWorkspaceLimited`, `sysInstanceCreateWorkspace`, …: the functions that make a membership without an invitation.
-/

namespace SlugBase.Oidc

/-! ## Rows -/

/-- An address as `citext` compares it. -/
abbrev Address := String

/-- The column `intent` of `oidc_login_states`. -/
inductive OidcIntent
  | login
  | link
  | reauth
  | invite
  deriving DecidableEq, Repr

/-- `export_only_end_action`. -/
inductive EndAction
  | disable
  | delete
  deriving DecidableEq, Repr

/-- `access_mode`, with the columns that are set exactly while it is `export_only`. -/
inductive AccessMode
  | full
  | exportOnly (exportOnlyUntil : Timestamp) (endAction : EndAction)
  deriving DecidableEq, Repr

/-- The mode is `export_only`. -/
def AccessMode.isExportOnly : AccessMode → Bool
  | .full => false
  | .exportOnly _ _ => true

/-- A row of `accounts`. -/
structure Account where
  id : Uuid
  email : Address
  emailVerified : Bool
  disabled : Bool
  isInstanceAdmin : Bool
  mode : AccessMode
  deriving DecidableEq, Repr

/-- A session that its token still finds. -/
structure Session where
  id : Uuid
  accountId : Uuid
  full : Bool
  reauthAt : Option Timestamp
  deriving DecidableEq, Repr

/-- A row of `account_identities`. -/
structure Identity where
  provider : String
  subject : String
  accountId : Uuid
  deriving DecidableEq, Repr

/-- A session as a request carries it, and when it was looked at. -/
structure Owner where
  sessionId : Uuid
  accountId : Uuid
  mfaPending : Bool
  reauthAt : Option Timestamp
  seenAt : Timestamp
  deriving DecidableEq, Repr

/-- A row of `oidc_login_states`. Its number and the session that started it are ghosts. -/
structure LoginState where
  serial : ℕ
  stateHash : String
  provider : String
  intent : OidcIntent
  linkAccountId : Option Uuid
  invitationTokenHash : Option ℕ
  expiresAt : Timestamp
  starter : Option Owner
  deriving DecidableEq, Repr

/-- A row of `workspace_invitations`. -/
structure Invitation where
  tokenHash : ℕ
  workspaceId : Uuid
  email : Address
  owner : Bool
  linkIssued : Bool
  pending : Bool
  expiresAt : Timestamp
  deriving DecidableEq, Repr

/-- A row of `workspace_members`; `owner` is whether its role is that of an owner. -/
structure Member where
  workspaceId : Uuid
  accountId : Uuid
  owner : Bool
  deriving DecidableEq, Repr

/-- What an ID token asserts. -/
structure Claims where
  providerId : String
  subject : String
  email : String
  emailVerified : Bool
  deriving DecidableEq, Repr

/-! ## What has been done -/

/-- An identity that was added: the handshake that added it, the session it was carried by, what the provider asserted,
and the row of the account as it stood when the identity was written. -/
structure Link where
  identity : Identity
  account : Account
  created : Bool
  record : LoginState
  owner : Option Owner
  claims : Claims
  deriving DecidableEq, Repr

/-- Who a request is. -/
inductive Principal
  | session (sessionId accountId : Uuid) (mfaPending : Bool) (reauthAt : Option Timestamp)
  | apiToken (accountId : Uuid)
  deriving DecidableEq, Repr

/-- The account of a principal. -/
def Principal.accountId : Principal → Uuid
  | .session _ accountId _ _ => accountId
  | .apiToken accountId => accountId

/-- What has been done: a request was authenticated by a session, a request passed its access-mode check, a handshake was
started or its record consumed, an identity was added, an account became a member of a workspace, an identity signed in with
a new session, a session was re-authenticated. -/
inductive Deed
  | carried (session : Session)
  | reached (principal : Principal) (operationId : String) (account : Option Account)
  | started (record : LoginState)
  | consumed (record : LoginState) (state cookie : String)
  | linked (link : Link)
  | joined (workspaceId : Uuid) (account : Account)
  | signedIn (session : Session)
  | reauthenticated (session : Session) (identity : Identity) (record : LoginState) (owner : Owner) (claims : Claims)
    (reauthAt : Timestamp)
  deriving DecidableEq, Repr

/-- The tables, with what has been done, the newest first. -/
structure Db where
  now : Timestamp
  accounts : List Account
  sessions : List Session
  identities : List Identity
  loginStates : List LoginState
  invitations : List Invitation
  members : List Member
  closing : List Uuid
  serials : ℕ
  deeds : List Deed
  deriving DecidableEq, Repr

/-- The rows that `sys_identity_reauth` marks. -/
def Owner.marks (owner : Owner) (x : Session) : Bool :=
  x.id = owner.sessionId && x.accountId = owner.accountId && x.full

namespace Db

variable (db : Db)

/-- The account of this id. -/
def account (id : Uuid) : Option Account := db.accounts.find? fun a => a.id = id

/-- The identity of this provider and subject. -/
def identity (provider subject : String) : Option Identity :=
  db.identities.find? fun i => i.provider = provider && i.subject = subject

/-- The pending, unexpired invitation of this token. -/
def invitation (tokenHash : ℕ) : Option Invitation :=
  db.invitations.find? fun i => i.tokenHash = tokenHash && i.pending && db.now < i.expiresAt

/-- The enabled account that holds the address verified. -/
def holder (email : Address) : Option Account :=
  db.accounts.find? fun a => a.email = email && a.emailVerified && !a.disabled

/-- The database with one more deed. -/
def did (deed : Deed) : Db := { db with deeds := deed :: db.deeds }

/-- The account with this id rewritten. -/
def writeAccount (id : Uuid) (write : Account → Account) : Db :=
  { db with accounts := db.accounts.map fun a => if a.id = id then write a else a }

/-! ## Identities -/

/-- `sys_identity_link`: the identity is added to an enabled account unless some account holds it. The result is whether
it was added. -/
def sysIdentityLink (account : Account) (created : Bool) (record : LoginState) (owner : Option Owner)
    (claims : Claims) : Option Db :=
  if account.disabled then none
  else if (db.identity record.provider claims.subject).isSome then none
  else
    let identity : Identity := ⟨record.provider, claims.subject, account.id⟩
    some (({ db with identities := identity :: db.identities } : Db).did
      (.linked ⟨identity, account, created, record, owner, claims⟩))

/-- `sys_identity_link_by_email`: the identity goes to the enabled account that holds the address verified. -/
def sysIdentityLinkByEmail (email : Address) (record : LoginState) (claims : Claims) : Option Db :=
  (db.holder email).bind fun account => db.sysIdentityLink account false record none claims

/-- A new session of a sign-in. -/
def signIn (session : Session) : Db := ({ db with sessions := session :: db.sessions } : Db).did (.signedIn session)

/-- `sys_identity_sign_in`: a full session for the enabled account that holds the identity. -/
def sysIdentitySignIn (provider subject : String) (sessionId : Uuid) : Option Db :=
  (db.identity provider subject).bind fun identity =>
    (db.account identity.accountId).bind fun account =>
      if account.disabled then none else some (db.signIn ⟨sessionId, account.id, true, none⟩)

/-- `sys_identity_reauth`: the full session of the account is marked when the account holds the identity. -/
def sysIdentityReauth (record : LoginState) (owner : Owner) (claims : Claims) : Option Db :=
  (db.identity record.provider claims.subject).bind fun identity =>
    (db.account owner.accountId).bind fun account =>
      if identity.accountId = owner.accountId && !account.disabled then
        let marked := db.sessions.filter owner.marks
        if marked = [] then none
        else some { db with
          sessions := db.sessions.map fun x => if owner.marks x then { x with reauthAt := some db.now } else x
          deeds := (marked.map fun x => .reauthenticated x identity record owner claims db.now) ++ db.deeds }
      else none

/-- `sys_create_account`: refused when an account holds the address. -/
def sysCreateAccount (id : Uuid) (email : Address) (verified : Bool) : Option (Db × Account) :=
  if db.accounts.any fun a => a.email = email || a.id = id then none
  else
    let account : Account := ⟨id, email, verified, false, false, .full⟩
    some ({ db with accounts := account :: db.accounts }, account)

/-! ## Invitations -/

/-- The account becomes a member of the workspace. -/
def enter (workspaceId : Uuid) (account : Account) (owner : Bool) : Db :=
  ({ db with members := ⟨workspaceId, account.id, owner⟩ :: db.members } : Db).did (.joined workspaceId account)

/-- The invitation is accepted by the account: its membership and the end of the invitation. -/
def join (invitation : Invitation) (account : Account) : Db :=
  ({ db with
    invitations := db.invitations.map fun i =>
      if i.tokenHash = invitation.tokenHash then { i with pending := false } else i } : Db).enter
    invitation.workspaceId account invitation.owner

/-- The account is a member of the workspace. -/
def isMember (workspaceId accountId : Uuid) : Bool :=
  db.members.any fun m => m.workspaceId = workspaceId && m.accountId = accountId

/-- The workspace has a seat left. -/
def hasSeat (workspaceId : Uuid) (seatLimit : Option ℕ) : Bool :=
  seatLimit.all fun limit => (db.members.filter (·.workspaceId = workspaceId)).length < limit

/-- `sys_invitation_accept`: only an enabled account of full access that holds the invited address verified and is no
member yet. -/
def sysInvitationAccept (tokenHash : ℕ) (accountId : Uuid) (seatLimit : Option ℕ) : Option (Db × Account) :=
  (db.invitation tokenHash).bind fun invitation =>
    (db.account accountId).bind fun account =>
      if invitation.workspaceId ∉ db.closing ∧ account.disabled = false ∧ account.mode = .full ∧
          account.emailVerified ∧ account.email = invitation.email ∧
          db.isMember invitation.workspaceId accountId = false ∧ db.hasSeat invitation.workspaceId seatLimit then
        some (db.join invitation account, account)
      else none

/-- `sys_invitation_accept_new_account`: a new account for the invited address. -/
def sysInvitationAcceptNewAccount (tokenHash : ℕ) (accountId : Uuid) (seatLimit : Option ℕ) : Option (Db × Account) :=
  (db.invitation tokenHash).bind fun invitation =>
    if invitation.workspaceId ∉ db.closing ∧ db.hasSeat invitation.workspaceId seatLimit then
      (db.sysCreateAccount accountId invitation.email (!invitation.linkIssued)).map fun created =>
        (created.1.join invitation created.2, created.2)
    else none

/-- `sys_invitation_accept_with_identity`: the account that holds the identity accepts, else the account that holds the
invited address verified, to which the identity is then linked, else a new account for it. -/
def sysInvitationAcceptWithIdentity (email : Address) (record : LoginState) (claims : Claims) (newAccountId sessionId : Uuid)
    (mayCreate : Bool) (seatLimit : Option ℕ) : Option (Db × Uuid) :=
  record.invitationTokenHash.bind fun tokenHash =>
    (db.invitation tokenHash).bind fun invitation =>
      if invitation.email ≠ email then none
      else match db.identity record.provider claims.subject with
        | some identity =>
          (db.sysInvitationAccept tokenHash identity.accountId seatLimit).bind fun accepted =>
            (accepted.1.sysIdentitySignIn record.provider claims.subject sessionId).map fun db' => (db', accepted.2.id)
        | none =>
          match db.holder invitation.email with
          | some account =>
            (db.sysInvitationAccept tokenHash account.id seatLimit).bind fun accepted =>
              (accepted.1.sysIdentityLink accepted.2 false record none claims).bind fun linked =>
                (linked.sysIdentitySignIn record.provider claims.subject sessionId).map fun db' => (db', accepted.2.id)
          | none =>
            if mayCreate then
              (db.sysInvitationAcceptNewAccount tokenHash newAccountId seatLimit).bind fun accepted =>
                let verified : Account := { accepted.2 with emailVerified := true }
                ((accepted.1.writeAccount newAccountId fun a => { a with emailVerified := true }).sysIdentityLink
                  verified true record none claims).map fun db' =>
                    (db'.signIn ⟨sessionId, newAccountId, true, none⟩, newAccountId)
            else none

/-! ## Workspaces -/

/-- The workspaces that the account owns and that are not being deleted. -/
def owned (accountId : Uuid) : List Member :=
  db.members.filter fun m => m.accountId = accountId && m.owner && m.workspaceId ∉ db.closing

/-- The account owns fewer workspaces than it may. -/
def mayOwn (accountId : Uuid) (ownedMax : Option ℕ) : Bool := ownedMax.all fun most => (db.owned accountId).length < most

/-- `sys_create_workspace_limited`: an enabled account becomes the owner of a new workspace unless it owns `ownedMax`. -/
def sysCreateWorkspaceLimited (accountId workspaceId : Uuid) (ownedMax : Option ℕ) : Option Db :=
  (db.account accountId).bind fun account =>
    if account.disabled = false ∧ db.mayOwn accountId ownedMax then some (db.enter workspaceId account true) else none

/-- The account owns no workspace. -/
def ownsNone (accountId : Uuid) : Bool := !db.members.any fun m => m.accountId = accountId && m.owner

/-- `sys_create_personal_workspace_limited`: the same, for an account that owns no workspace. -/
def sysCreatePersonalWorkspaceLimited (accountId workspaceId : Uuid) (ownedMax : Option ℕ) : Option Db :=
  if db.ownsNone accountId then db.sysCreateWorkspaceLimited accountId workspaceId ownedMax else none

/-- `sys_complete_setup`: a new account with its workspace, while the instance has no account. -/
def sysCompleteSetup (accountId : Uuid) (email : Address) (workspaceId : Uuid) : Option Db :=
  if db.accounts = [] then
    (db.sysCreateAccount accountId email true).map fun created =>
      (created.1.writeAccount accountId fun a => { a with isInstanceAdmin := true }).enter workspaceId
        { created.2 with isInstanceAdmin := true } true
  else none

/-- The instance admin of this id. -/
def admin (id : Uuid) : Option Account := (db.account id).filter fun a => a.isInstanceAdmin && !a.disabled

/-- `sys_instance_create_workspace` with an owner account: it must be enabled and of full access. -/
def sysInstanceCreateWorkspace (callerId workspaceId ownerAccountId : Uuid) : Option Db :=
  (db.admin callerId).bind fun _ => (db.account ownerAccountId).bind fun account =>
    if account.disabled = false ∧ account.mode = .full then some (db.enter workspaceId account true) else none

/-- `sys_instance_add_membership`: the calling instance admin becomes a member. -/
def sysInstanceAddMembership (callerId workspaceId : Uuid) : Option Db :=
  (db.admin callerId).bind fun account =>
    if workspaceId ∈ db.closing ∨ db.isMember workspaceId callerId = true then none
    else some (db.enter workspaceId account false)

/-! ## Handshakes -/

/-- `sys_oidc_state_create`: a record for ten minutes; its hash is the key of the table. -/
def sysOidcStateCreate (stateHash provider : String) (intent : OidcIntent) (linkAccountId : Option Uuid)
    (invitationTokenHash : Option ℕ) (starter : Option Owner) : Option Db :=
  if db.loginStates.any fun r => r.stateHash = stateHash then none
  else
    let record : LoginState :=
      ⟨db.serials, stateHash, provider, intent, linkAccountId, invitationTokenHash, db.now + 600000, starter⟩
    some (({ db with loginStates := record :: db.loginStates, serials := db.serials + 1 } : Db).did (.started record))

/-- `sys_oidc_state_take`: the unexpired record of the hash and the provider, deleted as it is read. -/
def sysOidcStateTake (stateHash provider state cookie : String) : Option (Db × LoginState) :=
  (db.loginStates.find? fun r => r.stateHash = stateHash && r.provider = provider && db.now < r.expiresAt).map
    fun record =>
      (({ db with loginStates := db.loginStates.filter fun r => r.stateHash ≠ stateHash } : Db).did
        (.consumed record state cookie), record)

end Db

end SlugBase.Oidc
