import SlugBase.Oidc.World
import SlugBase.Lib.Transition

/-!
# Requests

A request is authenticated, its account's access mode is checked, and its handler runs; the handlers of the two OIDC
operations go on through the provider. Each of these is a step of its own, and so is each write, so that anything may
happen between two of them.

* `Principal`, `Operation`, `Process`: a request and how far it has come;
* `exportOnlyOperations`, `refuseExportOnly`: the access-mode check;
* `Event`, `World.next`: one step of a request, or of an administrator, the clock and the other requests;
* `World.system`: the runs.
-/

namespace SlugBase.Oidc

open Transition

/-! ## The server -/

/-- What the server computes outside the database: the hash of a state it may have issued, the keyed hash of a state,
what a cookie decodes to, and the normal form of an address. -/
structure Server where
  hashOidcState : String → Option String
  bindOidcState : String → String
  decode : String → List ℕ
  normalizeEmail : String → Address

/-- A server whose hashes are the texts themselves. -/
def Server.plain : Server where
  hashOidcState := some
  bindOidcState state := state
  decode text := text.toList.map Char.toNat
  normalizeEmail email := email

/-- `oidcStateIsBound`. -/
def Server.oidcStateIsBound (server : Server) (state binding : String) : Bool :=
  server.decode binding = server.decode (server.bindOidcState state)

/-- The window of a re-authentication, in milliseconds. -/
def reauthWindowMs : ℕ := 10 * 60 * 1000

/-- What two clocks may differ by, in milliseconds. -/
def clockSkewMs : ℕ := 5000

/-- `reauthenticatedRecently`. -/
def reauthenticatedRecently (reauthAt : Option Timestamp) (now : Timestamp) : Bool :=
  reauthAt.any fun at' => at' ≤ now + clockSkewMs && now ≤ at' + reauthWindowMs

/-- The session re-authenticated recently when it was looked at. -/
def Owner.recent (owner : Owner) : Bool := reauthenticatedRecently owner.reauthAt owner.seenAt

/-! ## Requests -/

/-- What the start of a handshake asks for: its provider and intent, whether a page of the application sends it, and the
hash of its invitation token when it has one. -/
structure Start where
  provider : String
  intent : OidcIntent
  fromTheApplication : Bool
  invitationTokenHash : Option ℕ
  deriving DecidableEq, Repr

/-- What a callback carries: its provider, its one state, the pre-auth cookie, and whether it has one usable code. -/
structure Callback where
  provider : String
  state : Option String
  cookie : Option String
  hasCode : Bool
  deriving DecidableEq, Repr

/-- The operations: the two of a handshake, those that make a membership (the acceptance of an invitation, with a new account
or with that of the session, and the creation or joining of a workspace), and the others by their name. -/
inductive Operation
  | startOidcSignIn (start : Start)
  | completeOidcSignIn (callback : Callback)
  | acceptInvitation (tokenHash : ℕ) (newAccountId : Option Uuid)
  | createWorkspace (workspaceId : Uuid)
  | createInstanceWorkspace (workspaceId ownerAccountId : Uuid)
  | addInstanceAdminMembership (workspaceId : Uuid)
  | other (operationId : String)
  deriving DecidableEq, Repr

/-- The name of an operation. -/
def Operation.operationId : Operation → String
  | .startOidcSignIn _ => "startOidcSignIn"
  | .completeOidcSignIn _ => "completeOidcSignIn"
  | .acceptInvitation _ _ => "acceptInvitation"
  | .createWorkspace _ => "createWorkspace"
  | .createInstanceWorkspace _ _ => "createInstanceWorkspace"
  | .addInstanceAdminMembership _ => "addInstanceAdminMembership"
  | .other operationId => operationId

/-- `EXPORT_ONLY_OPERATIONS`. -/
def exportOnlyOperations : List String :=
  ["verifyMfa", "logout", "startOidcSignIn", "completeOidcSignIn", "getApiConfig", "getMe", "listWorkspaces",
    "getWorkspace", "setActiveWorkspace", "listBookmarks", "listBookmarkIds", "getBookmark", "listFolders", "getFolder",
    "listTags", "getTagStats", "exportJson", "exportNetscape", "reauthenticate", "deleteMe"]

/-- A session that calls one of the listed operations. -/
def Principal.mayCall : Principal → String → Bool
  | .session _ _ _ _, operationId => operationId ∈ exportOnlyOperations
  | .apiToken _, _ => false

/-- How far a request has come. -/
inductive Process
  | authenticated (principal : Option Principal) (operation : Operation)
  | admitted (principal : Option Principal) (operation : Operation)
  | starting (start : Start) (owner : Option Owner)
  | holding (record : LoginState) (owner : Option Owner) (hasCode : Bool)
  | judged (record : LoginState) (owner : Option Owner)
  | exchanged (record : LoginState) (owner : Option Owner) (claims : Claims)
  | signingIn (record : LoginState) (claims : Claims) (email : Address) (create : Bool)
  | done
  deriving DecidableEq, Repr

/-- The database and the requests on their way. -/
structure World where
  db : Db
  processes : List Process
  deriving DecidableEq, Repr

/-- What a request is authenticated with. -/
inductive Credential
  | none
  | session (id : Uuid)
  | apiToken (accountId : Uuid)
  deriving DecidableEq, Repr

/-- One step: of the clock, of the account's mode, of other requests on rows of their own, or of a request on its way. The
parameters of a request's step are what is not in the database: the provider's answer, the identifiers drawn, the answers
of the policies and of the seat check. -/
inductive Event
  | tick (milliseconds : ℕ)
  | setAccessMode (accountId : Uuid) (mode : AccessMode)
  | endAccessMode (accountId : Uuid) (action : EndAction)
  | addAccount (id : Uuid) (email : Address) (verified : Bool)
  | completeSetup (accountId : Uuid) (email : Address) (workspaceId : Uuid)
  | createPersonalWorkspace (accountId workspaceId : Uuid) (ownedMax : Option ℕ)
  | writeAccount (id : Uuid) (email : Address) (verified disabled isInstanceAdmin : Bool)
  | writeSessions (sessions : List Session)
  | unlink (provider subject : String)
  | leave (member : Member)
  | invite (invitation : Invitation)
  | close (workspaceId : Uuid)
  | arrive (credential : Credential) (operation : Operation)
  | check (i : ℕ)
  | handle (i : ℕ) (limit : Option ℕ)
  | store (i : ℕ) (stateHash : String)
  | judge (i : ℕ)
  | exchange (i : ℕ) (claims : Option Claims)
  | write (i : ℕ) (accountId sessionId : Uuid) (mayCreate : Bool) (seatLimit : Option ℕ) (expected : Uuid)
  deriving DecidableEq, Repr

/-! ## Steps -/

/-- The authentication stage: the principal of a credential. -/
def Db.authenticated (db : Db) : Credential → Db × Option Principal
  | .none => (db, none)
  | .session id =>
    match db.sessions.find? fun x => x.id = id with
    | none => (db, none)
    | some x => (db.did (.carried x), some (.session x.id x.accountId (!x.full) x.reauthAt))
  | .apiToken accountId => (db, some (.apiToken accountId))

/-- `signedInSession`: the complete session of a request. -/
def signedInSession (principal : Option Principal) (now : Timestamp) : Option Owner :=
  match principal with
  | some (.session sessionId accountId mfaPending reauthAt) =>
    if mfaPending then none else some ⟨sessionId, accountId, mfaPending, reauthAt, now⟩
  | _ => none

/-- `refuseExportOnly`: an account that is gone or in the export-only mode is refused. -/
def Db.refuseExportOnly (db : Db) (accountId : Uuid) : Bool :=
  (db.account accountId).all fun account => account.mode.isExportOnly

/-- The request's process goes on, or its request ends. -/
def World.goesOn (w : World) (i : ℕ) (process : Option Process) : World :=
  { w with processes := w.processes.set i (process.getD .done) }

/-- The request writes and ends, or ends without a write. -/
def World.ends (w : World) (i : ℕ) (db : Option Db) : World :=
  ⟨db.getD w.db, w.processes.set i .done⟩

/-- The access-mode check. -/
def World.checked (w : World) (i : ℕ) (principal : Option Principal) (operation : Operation) : World :=
  match principal with
  | none => w.goesOn i (some (.admitted none operation))
  | some p =>
    if p.mayCall operation.operationId || !w.db.refuseExportOnly p.accountId then
      ⟨w.db.did (.reached p operation.operationId (w.db.account p.accountId)),
        w.processes.set i (.admitted (some p) operation)⟩
    else w.goesOn i none

/-- The start's handler up to the request to the provider: a session for a link or a re-authentication, and no link or
invitation of an export-only account. -/
def World.startJudged (w : World) (principal : Option Principal) (start : Start) : Option Process :=
  match start.intent with
  | .login => some (.starting start none)
  | .invite =>
    if start.fromTheApplication && start.invitationTokenHash.isSome &&
        (principal.all fun
          | .session _ accountId _ _ => !w.db.refuseExportOnly accountId
          | .apiToken _ => true) then
      some (.starting start none)
    else none
  | .link =>
    (signedInSession principal w.db.now).bind fun owner =>
      if start.fromTheApplication && !w.db.refuseExportOnly owner.accountId && owner.recent then
        some (.starting start (some owner))
      else none
  | .reauth =>
    (signedInSession principal w.db.now).bind fun owner =>
      if start.fromTheApplication then some (.starting start (some owner)) else none

/-- The callback's handler up to the record: the browser must hold the cookie of the state, the record is consumed, and a
link or a re-authentication needs a complete session of the account that started it. -/
def World.called (w : World) (server : Server) (i : ℕ) (principal : Option Principal) (callback : Callback) : World :=
  match callback.state, callback.cookie with
  | some state, some cookie =>
    match server.hashOidcState state with
    | none => w.goesOn i none
    | some stateHash =>
      if server.oidcStateIsBound state cookie then
        match w.db.sysOidcStateTake stateHash callback.provider state cookie with
        | none => w.goesOn i none
        | some (db, record) =>
          let process : Option Process :=
            if record.intent = .link ∨ record.intent = .reauth then
              (signedInSession principal w.db.now).bind fun owner =>
                if some owner.accountId = record.linkAccountId ∧ (record.intent = .link → owner.recent) then
                  some (.holding record (some owner) callback.hasCode)
                else none
            else some (.holding record none callback.hasCode)
          ⟨db, w.processes.set i (process.getD .done)⟩
      else w.goesOn i none
  | _, _ => w.goesOn i none

/-- The handler of a request; `limit` is the limit of seats or of owned workspaces that applies. -/
def World.handled (w : World) (server : Server) (i : ℕ) (principal : Option Principal) (limit : Option ℕ) :
    Operation → World
  | .startOidcSignIn start => w.goesOn i (w.startJudged principal start)
  | .completeOidcSignIn callback => w.called server i principal callback
  | .acceptInvitation tokenHash (some newAccountId) =>
    w.ends i ((w.db.sysInvitationAcceptNewAccount tokenHash newAccountId limit).map Prod.fst)
  | .acceptInvitation tokenHash none =>
    w.ends i ((signedInSession principal w.db.now).bind fun owner =>
      (w.db.sysInvitationAccept tokenHash owner.accountId limit).map Prod.fst)
  | .createWorkspace workspaceId =>
    w.ends i ((signedInSession principal w.db.now).bind fun owner =>
      w.db.sysCreateWorkspaceLimited owner.accountId workspaceId limit)
  | .createInstanceWorkspace workspaceId ownerAccountId =>
    w.ends i ((signedInSession principal w.db.now).bind fun owner =>
      w.db.sysInstanceCreateWorkspace owner.accountId workspaceId ownerAccountId)
  | .addInstanceAdminMembership workspaceId =>
    w.ends i ((signedInSession principal w.db.now).bind fun owner =>
      w.db.sysInstanceAddMembership owner.accountId workspaceId)
  | .other _ => w.goesOn i none

/-- The record of a handshake, once the provider has answered with its address. -/
def World.stored (w : World) (i : ℕ) (start : Start) (owner : Option Owner) (stateHash : String) : World :=
  w.ends i (w.db.sysOidcStateCreate stateHash start.provider start.intent (owner.map (·.accountId))
    (if start.intent = .invite then start.invitationTokenHash else none) owner)

/-- The account of a link is asked for its mode once more, and the callback needs a code. -/
def World.judgedAgain (w : World) (record : LoginState) (owner : Option Owner) (hasCode : Bool) : Option Process :=
  if (record.intent = .link → (owner.all fun owner => !w.db.refuseExportOnly owner.accountId)) ∧ hasCode then
    some (.judged record owner)
  else none

/-- The address the provider asserted as verified, when it is one. -/
def Server.assertedEmail (server : Server) (claims : Claims) : Option Address :=
  if claims.emailVerified && server.normalizeEmail claims.email ≠ "" then some (server.normalizeEmail claims.email)
  else none

/-- The write of a finished handshake. A sign-in by an identity that nobody holds is tried again by the asserted
address. -/
def World.finished (w : World) (server : Server) (i : ℕ) (record : LoginState) (owner : Option Owner) (claims : Claims)
    (accountId sessionId : Uuid) (mayCreate : Bool) (seatLimit : Option ℕ) (expected : Uuid) : World :=
  match record.intent, owner with
  | .link, some owner =>
    w.ends i ((w.db.account owner.accountId).bind fun account =>
      w.db.sysIdentityLink account false record (some owner) claims)
  | .reauth, some owner => w.ends i (w.db.sysIdentityReauth record owner claims)
  | .invite, none =>
    w.ends i ((server.assertedEmail claims).bind fun email =>
      (w.db.sysInvitationAcceptWithIdentity email record claims accountId sessionId mayCreate seatLimit).bind fun accepted =>
        if accepted.2 = expected then some accepted.1 else none)
  | .login, none =>
    match w.db.sysIdentitySignIn record.provider claims.subject sessionId with
    | some db => w.ends i (some db)
    | none => w.goesOn i ((server.assertedEmail claims).map fun email => .signingIn record claims email false)
  | _, _ => w.goesOn i none

/-- `firstLoginIn`: the identity signs in, or is linked by its address, or gets an account of its own. -/
def Db.firstLogin (db : Db) (record : LoginState) (claims : Claims) (email : Address) (create : Bool)
    (accountId sessionId : Uuid) : Option Db :=
  match db.sysIdentitySignIn record.provider claims.subject sessionId with
  | some signedIn => some signedIn
  | none =>
    match db.holder email with
    | some _ =>
      (db.sysIdentityLinkByEmail email record claims).bind fun linked =>
        linked.sysIdentitySignIn record.provider claims.subject sessionId
    | none =>
      if create then
        (db.sysCreateAccount accountId email true).bind fun created =>
          (created.1.sysIdentityLink created.2 true record none claims).bind fun linked =>
            linked.sysIdentitySignIn record.provider claims.subject sessionId
      else none

/-- A first sign-in: once without and once, where an account may be created, with one. -/
def World.firstSignedIn (w : World) (i : ℕ) (record : LoginState) (claims : Claims) (email : Address) (create : Bool)
    (accountId sessionId : Uuid) (mayCreate : Bool) : World :=
  match w.db.firstLogin record claims email create accountId sessionId with
  | some db => w.ends i (some db)
  | none =>
    if !create && mayCreate then w.goesOn i (some (.signingIn record claims email true)) else w.goesOn i none

/-- One step of the request `i`. -/
def World.advance (w : World) (server : Server) (i : ℕ) : Event → Process → Option World
  | .check _, .authenticated principal operation => some (w.checked i principal operation)
  | .handle _ limit, .admitted principal operation => some (w.handled server i principal limit operation)
  | .store _ stateHash, .starting start owner => some (w.stored i start owner stateHash)
  | .judge _, .holding record owner hasCode => some (w.goesOn i (w.judgedAgain record owner hasCode))
  | .exchange _ claims, .judged record owner =>
    some (w.goesOn i (claims.bind fun claims =>
      if claims.providerId = record.provider then some (.exchanged record owner claims) else none))
  | .write _ accountId sessionId mayCreate seatLimit expected, .exchanged record owner claims =>
    some (w.finished server i record owner claims accountId sessionId mayCreate seatLimit expected)
  | .write _ accountId sessionId mayCreate _ _, .signingIn record claims email create =>
    some (w.firstSignedIn i record claims email create accountId sessionId mayCreate)
  | _, _ => none

/-- A day, in milliseconds. -/
def dayMs : ℕ := 24 * 60 * 60 * 1000

/-- `access_mode_apply`: the mode of an account; `export_only` only for an enabled account without the admin flag, until a
day ahead or later. -/
def Account.applyMode (now : Timestamp) (mode : AccessMode) (account : Account) : Account :=
  let changed : Account :=
    ⟨account.id, account.email, account.emailVerified, account.disabled, account.isInstanceAdmin, mode⟩
  match mode with
  | .full => changed
  | .exportOnly exportOnlyUntil _ =>
    if account.disabled || account.isInstanceAdmin || exportOnlyUntil < now + dayMs then account else changed

/-- The other columns of an account rewritten: an export-only account is not made an instance admin. -/
def Account.rewritten (email : Address) (verified disabled isInstanceAdmin : Bool) (account : Account) : Account :=
  ⟨account.id, email, verified, disabled, isInstanceAdmin && (account.isInstanceAdmin || !account.mode.isExportOnly),
    account.mode⟩

/-- The end of the period of an account is due, with this action. -/
def Account.due (account : Account) (now : Timestamp) : Option EndAction :=
  match account.mode with
  | .full => none
  | .exportOnly exportOnlyUntil endAction => if exportOnlyUntil ≤ now then some endAction else none

/-- `sys_account_access_mode_end`: a due period ends with the account disabled, or deleted with what is its own. -/
def Db.endAccessMode (db : Db) (accountId : Uuid) (action : EndAction) : Option Db :=
  (db.account accountId).bind fun account => (account.due db.now).bind fun endAction =>
    match action with
    | .disable =>
      let db' := db.writeAccount accountId fun a => ⟨a.id, a.email, a.emailVerified, true, a.isInstanceAdmin, .full⟩
      some { db' with sessions := db.sessions.filter fun x => x.accountId ≠ accountId }
    | .delete =>
      if endAction = .delete then
        some { db with
          accounts := db.accounts.filter fun a => a.id ≠ accountId
          sessions := db.sessions.filter fun x => x.accountId ≠ accountId
          identities := db.identities.filter fun x => x.accountId ≠ accountId
          members := db.members.filter fun x => x.accountId ≠ accountId }
      else none

/-- A step that is not of a request on its way. -/
def World.elsewhere (w : World) : Event → Option World
  | .tick milliseconds => some ⟨{ w.db with now := w.db.now + milliseconds }, w.processes⟩
  | .setAccessMode accountId mode => some ⟨w.db.writeAccount accountId (Account.applyMode w.db.now mode), w.processes⟩
  | .endAccessMode accountId action => (w.db.endAccessMode accountId action).map fun db => ⟨db, w.processes⟩
  | .addAccount id email verified =>
    (w.db.sysCreateAccount id email verified).map fun created => ⟨created.1, w.processes⟩
  | .completeSetup accountId email workspaceId =>
    (w.db.sysCompleteSetup accountId email workspaceId).map fun db => ⟨db, w.processes⟩
  | .createPersonalWorkspace accountId workspaceId ownedMax =>
    (w.db.sysCreatePersonalWorkspaceLimited accountId workspaceId ownedMax).map fun db => ⟨db, w.processes⟩
  | .writeAccount id email verified disabled isInstanceAdmin =>
    some ⟨w.db.writeAccount id (Account.rewritten email verified disabled isInstanceAdmin), w.processes⟩
  | .writeSessions sessions => some ⟨{ w.db with sessions := sessions }, w.processes⟩
  | .unlink provider subject =>
    some ⟨{ w.db with
      identities := w.db.identities.filter fun x => !(x.provider = provider && x.subject = subject) }, w.processes⟩
  | .leave member => some ⟨{ w.db with members := w.db.members.filter fun x => x ≠ member }, w.processes⟩
  | .invite invitation => some ⟨{ w.db with invitations := invitation :: w.db.invitations }, w.processes⟩
  | .close workspaceId => some ⟨{ w.db with closing := workspaceId :: w.db.closing }, w.processes⟩
  | .arrive credential operation =>
    some ⟨(w.db.authenticated credential).1,
      w.processes ++ [.authenticated (w.db.authenticated credential).2 operation]⟩
  | _ => none

/-- The request a step is of. -/
def Event.process : Event → Option ℕ
  | .check i | .handle i _ | .store i _ | .judge i | .exchange i _ | .write i _ _ _ _ _ => some i
  | _ => none

/-- One step. -/
def World.next (server : Server) (w : World) (event : Event) : Option World :=
  match event.process with
  | none => w.elsewhere event
  | some i => (w.processes[i]?).bind fun process => w.advance server i event process

/-- No account is an instance admin in the export-only mode. -/
def Db.AdminsFull (db : Db) : Prop := ∀ a ∈ db.accounts, a.isInstanceAdmin = true → a.mode.isExportOnly = false

instance (db : Db) : Decidable db.AdminsFull :=
  inferInstanceAs (Decidable (∀ a ∈ db.accounts, a.isInstanceAdmin = true → a.mode.isExportOnly = false))

/-- No request is on its way, no handshake is stored, and nothing has been done. -/
structure World.Quiet (w : World) : Prop where
  processes : w.processes = []
  loginStates : w.db.loginStates = []
  deeds : w.db.deeds = []
  keys : (w.db.identities.map fun x => (x.provider, x.subject)).Nodup
  admins : w.db.AdminsFull

/-- The runs of a server. -/
def World.system (server : Server) : System World Event where
  init := World.Quiet
  step w event w' := w.next server event = some w'

end SlugBase.Oidc
