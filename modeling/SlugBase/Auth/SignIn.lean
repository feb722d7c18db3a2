import SlugBase.Auth.EmailChange
import SlugBase.Lib.Transition

/-!
# Signing in while credentials change

A password sign-in reads the hash, verifies it outside the database, reads the second factor and then creates the
session. The creation of a session and a change of a password are transactions: each statement reads what is committed
when it runs, what it writes is seen from the commit on, and the row of the account is locked from the statement that
stores the password to the commit.

* `Opening`: the transaction of `sys_session_create` or `sys_identity_sign_in` between its reading and its commit;
* `OpenChange`: the transaction that replaces a password, between its statements;
* `SignIns`, `SignInEvent`, `signIns`: the system, which keeps for each session which credential it is from;
* `Quiet`, `Made`, `Replaced`: what an operation may do to sessions and passwords;
* **`OpenChange.commit_replaced`**: what a change has done when it commits.
-/

namespace SlugBase.Auth

open Relational Transition

/-! ## A password sign-in -/

/-- A row of `sys_login_lookup`. -/
structure LoginCandidate where
  accountId : Uuid
  passwordHash : Option PasswordHash
  disabledAt : Option Timestamp
  deriving DecidableEq, Repr

/-- `sys_login_lookup(email)`. -/
def sysLoginLookup (db : AuthDb) (email : Address) : Option LoginCandidate :=
  (db.accounts.find? fun a => decide (a.email = email)).map fun a => ⟨a.id, a.passwordHash, a.disabledAt⟩

/-- `emailVerified` of the store. -/
def emailVerified (db : AuthDb) (accountId : Uuid) : Bool :=
  db.accounts.any fun a => decide (a.id = accountId ∧ a.emailVerifiedAt ≠ none)

/-- The level `signIn` asks for, from `mfaStateOf` of the store. -/
def levelOf (db : AuthDb) (accountId : Uuid) : SessionLevel :=
  if db.accounts.any fun a => decide (a.id = accountId ∧ a.disabledAt = none ∧ a.mfaEnabledAt ≠ none) then .partialLevel
  else .full

/-- What `signIn` is called with, and the identifier and token it draws. -/
structure SignInRequest where
  email : Address
  remember : Bool
  sessionId : Uuid
  tokenHash : TokenHash
  replacedTokenHash : Option TokenHash
  deriving DecidableEq, Repr

/-- How far a sign-in is. -/
inductive Stage
  | lookedUp
  | passwordVerified
  | addressChecked
  | factorRead (level : SessionLevel)
  deriving DecidableEq, Repr

/-- When the password of an account was changed. -/
def passwordChangedAt (db : AuthDb) (accountId : Uuid) : Option Timestamp :=
  (db.accounts.find? fun a => decide (a.id = accountId)).bind (·.passwordChangedAt)

/-- A sign-in under way; `changedAt` is kept for the statements only. -/
structure Attempt where
  request : SignInRequest
  candidate : LoginCandidate
  /-- when the password it read was changed -/
  changedAt : Option Timestamp
  stage : Stage
  deriving DecidableEq, Repr

/-! ## The transactions -/

/-- Where a session is from: a password, or what stands for one, that was the one changed then; or an identity, when
the identities of the account were last deleted then. -/
inductive Origin
  | credential (changedAt : Option Timestamp)
  | identity (deletedAt : Option Timestamp)
  deriving DecidableEq, Repr

/-- The creation of a session before its commit. -/
structure Opening where
  row : Session
  replacedTokenHash : Option TokenHash
  origin : Origin
  deriving DecidableEq, Repr

/-- What replaces a password: `changePassword`, which keeps a session, `sys_password_reset` and `sys_email_verify`,
which make one, or an administrator who marks the address verified. -/
inductive ChangeKind
  | changed (sessionId : Uuid) (newTokenHash : TokenHash)
  | reset (tokenHash : TokenHash) (session : RedemptionSession) (mfa : Bool)
  | verified (tokenHash : TokenHash) (session : RedemptionSession)
  | marked
  deriving DecidableEq, Repr

namespace ChangeKind

/-- The session a change keeps or makes. -/
def kept : ChangeKind → Option Uuid
  | .changed sessionId _ => some sessionId
  | .reset _ session _ | .verified _ session => some session.id
  | .marked => none

/-- The session that `sys_session_revoke_all` leaves. -/
def exceptId : ChangeKind → Option Uuid
  | .changed sessionId _ => some sessionId
  | _ => none

/-- Whether a change deletes the identities of the account; it is then that it locks the account's row `FOR UPDATE`. -/
def deletesIdentities : ChangeKind → Bool
  | .changed _ _ => false
  | _ => true

end ChangeKind

/-- Which statement a change has run last. -/
inductive ChangeStage
  | stored
  | rotated
  | ended
  | withoutIdentities
  | made
  deriving DecidableEq, Repr

/-- A change whose first statements have stored the password, with the rows its later statements have found and the
clock they have read. -/
structure OpenChange where
  kind : ChangeKind
  accountId : Uuid
  passwordHash : Option PasswordHash
  storedAt : Timestamp
  stage : ChangeStage := .stored
  rotatedAt : Timestamp := 0
  verifiedAt : Timestamp := 0
  madeAt : Timestamp := 0
  /-- the sessions that `sys_session_revoke_all` deletes -/
  ended : List Uuid := []
  /-- the identities that are deleted -/
  identities : List (String × String) := []
  deriving DecidableEq, Repr

namespace OpenChange

variable (c : OpenChange)

/-- The next statement of a change, `none` where it is rolled back. -/
def next (db : AuthDb) (now : Timestamp) : Option OpenChange :=
  let found := (db.sessions.rows.filter fun x =>
    decide (x.accountId = c.accountId ∧ some x.id ≠ c.kind.exceptId)).map (·.id)
  match c.kind, c.stage with
  | .changed sessionId newTokenHash, .stored =>
    match sysSessionRotate db sessionId c.accountId newTokenHash now with
    | some (true, _) => some { c with stage := .rotated, rotatedAt := now }
    | _ => none
  | .changed _ _, .rotated | .reset _ _ _, .stored | .verified _ _, .stored | .marked, .stored =>
    some { c with stage := .ended, ended := found }
  | .reset _ _ _, .ended | .verified _ _, .ended | .marked, .ended =>
    some { c with
      stage := .withoutIdentities
      verifiedAt := now
      identities := (db.identities.rows.filter fun i => decide (i.accountId = c.accountId)).map (·.key) }
  | .reset _ _ _, .withoutIdentities | .verified _ _, .withoutIdentities =>
    some { c with stage := .made, madeAt := now }
  | _, _ => some c

/-- What a change has written to the row of its account. -/
def account (a : Account) : Account :=
  let stored := { a with passwordHash := c.passwordHash, passwordChangedAt := some c.storedAt }
  match c.kind with
  | .changed _ _ | .reset _ _ _ => stored
  | .verified _ _ | .marked =>
    { stored with mfaEnabledAt := none, pendingEmail := none, emailVerifiedAt := some c.verifiedAt }

theorem account_id (a : Account) : (c.account a).id = a.id := by
  rw [account]
  split <;> rfl

theorem account_passwordChangedAt (a : Account) : (c.account a).passwordChangedAt = some c.storedAt := by
  rw [account]
  split <;> rfl

/-- The account's row, and the sessions that are ended. -/
def ending (db : AuthDb) : AuthDb :=
  (db.updateAccount c.accountId c.account c.account_id).deleteSessions fun x => decide (x.id ∈ c.ended)

/-- The identities that are deleted, and the handshakes that would link one. -/
def withoutIdentities (db : AuthDb) : AuthDb :=
  { db with
    identities := db.identities.deleteWhere fun i => decide (i.key ∈ c.identities)
    states := db.states.deleteWhere fun s => decide (s.linkAccountId = some c.accountId) }

/-- The tokens after a redemption, which a verification also discards. -/
def tokens (tokenHash : TokenHash) (db : AuthDb) : AuthDb :=
  let used := db.markUsed (fun t => decide (t.tokenHash = tokenHash)) c.storedAt
  match c.kind with
  | .verified _ _ => used.deleteTokens (endedByVerification c.accountId)
  | _ => used

/-- The session that a reset or a verification makes. -/
def insertOwn (session : RedemptionSession) (level : SessionLevel) (db : AuthDb) : Option AuthDb :=
  insertSession db ((⟨session.id, c.accountId, level, false, session.tokenHash, session.replacedTokenHash⟩ :
    NewSession).row c.madeAt) session.replacedTokenHash

/-- The database after the commit of a change whose statements have all run; `none` before, and where the session's
identifier or token is taken. -/
def commit (db : AuthDb) : Option AuthDb :=
  match c.kind, c.stage with
  | .changed sessionId newTokenHash, .ended =>
    let db := c.ending db
    some { db with
      sessions := db.sessions.updateWhere (fun x => decide (x.id = sessionId ∧ x.accountId = c.accountId))
        (fun x => { x with tokenHash := newTokenHash, createdAt := c.rotatedAt }) fun _ => rfl }
  | .reset tokenHash session mfa, .made =>
    c.insertOwn session (if mfa then .partialLevel else .full) (c.tokens tokenHash (c.withoutIdentities (c.ending db)))
  | .verified tokenHash session, .made =>
    c.insertOwn session .full (c.tokens tokenHash (c.withoutIdentities (c.ending db)))
  | .marked, .withoutIdentities =>
    some ((c.withoutIdentities (c.ending db)).deleteTokens (endedByVerification c.accountId))
  | _, _ => none

end OpenChange

/-! ## The system -/

/-- The database, the sign-ins and the transactions under way and, for the statements only, where each session is from,
which session the last change of an account kept or made, and when its identities were deleted. -/
structure SignIns where
  db : AuthDb := {}
  clock : Timestamp := 0
  attempts : List Attempt := []
  openings : List Opening := []
  changes : List OpenChange := []
  origin : Uuid → Origin := fun _ => .credential none
  kept : Uuid → Option Uuid := fun _ => none
  deletedAt : Uuid → Option Timestamp := fun _ => none

/-- A step of the system; `startedAt` and `readAt` are clock readings of functions that have waited since. -/
inductive SignInEvent
  | lookup (request : SignInRequest)
  | verifyPassword (attempt : ℕ) (correct : Bool)
  | checkAddress (attempt : ℕ)
  | readFactor (attempt : ℕ)
  | beginSession (attempt : ℕ) (startedAt : Timestamp)
  | identitySignIn (provider subject : String) (sessionId : Uuid) (tokenHash : TokenHash)
      (replacedTokenHash : Option TokenHash) (startedAt : Timestamp)
  | commitSession (opening : ℕ)
  | rollBackSession (opening : ℕ)
  | renew (sessionId : Uuid) (readAt : Timestamp)
  | promote (sessionId accountId : Uuid) (newTokenHash : TokenHash) (startedAt : Timestamp)
  | changePassword (change : PasswordChange)
  | passwordReset (tokenHash : TokenHash) (passwordHash : PasswordHash) (session : RedemptionSession)
  | emailVerify (tokenHash : TokenHash) (passwordHash : PasswordHash) (session : RedemptionSession)
  | markVerified (accountId : Uuid)
  | statement (change : ℕ)
  | commitChange (change : ℕ)
  | rollBackChange (change : ℕ)
  | createAccount (a : NewAccount)
  | setDisabled (accountId : Uuid) (disabledAt : Option Timestamp)
  | setSecondFactor (accountId : Uuid) (enabledAt : Option Timestamp)
  | issueToken (purpose : CredentialTokenPurpose) (accountId : Uuid) (tokenHash : TokenHash)
      (targetEmail : Option Address) (ttlSeconds : ℕ)
  | linkIdentity (i : AccountIdentity)
  | linkIdentityByEmail (id : Uuid) (provider subject : String) (email : Address)
  | unlinkIdentity (accountId id : Uuid)
  | revokeAll (accountId : Uuid) (exceptId : Option Uuid)
  deriving DecidableEq, Repr

namespace SignIns

variable (s : SignIns)

/-- Whether a change holds the row of an account. -/
def locked (accountId : Uuid) : Bool := s.changes.any fun c => decide (c.accountId = accountId)

/-- Whether the creation of a session waits for a change: for a complete one it writes the account's row, and a row
that is locked `FOR UPDATE` holds up the insertion itself. -/
def waits (row : Session) : Bool :=
  s.changes.any fun c => decide (c.accountId = row.accountId ∧ (row.level = .full ∨ c.kind.deletesIdentities = true))

/-- The state after a statement on the database that may raise; a raising one changes nothing. -/
def write {α : Type} (r : Option (α × AuthDb)) : SignIns :=
  match r with
  | none => s
  | some (_, db) => { s with db := db }

/-- A session is committed. -/
def made (db : AuthDb) (id accountId : Uuid) (o : Origin) : SignIns :=
  { s with
    db := db
    origin := Function.update s.origin id o
    kept := Function.update s.kept accountId ((s.kept accountId).filter fun k => decide (k ≠ id)) }

/-- A change has stored a password. -/
def begun (c : OpenChange) : SignIns := { s with changes := c :: s.changes }

/-- One step of the sign-in that is the `i`th of those under way: `none` ends it. -/
def advance (i : ℕ) (f : Attempt → Option Stage) : SignIns :=
  match s.attempts[i]? with
  | none => s
  | some a =>
    match f a with
    | none => { s with attempts := s.attempts.eraseIdx i }
    | some stage => { s with attempts := s.attempts.set i { a with stage := stage } }

/-- The statement of `sys_session_create` that inserts the session of a sign-in. -/
def beginSession (i : ℕ) (startedAt : Timestamp) : SignIns :=
  match s.attempts[i]? with
  | none => s
  | some a =>
    match a.stage with
    | .factorRead level =>
      let session : NewSession := ⟨a.request.sessionId, a.candidate.accountId, level, a.request.remember,
        a.request.tokenHash, a.request.replacedTokenHash⟩
      match sysSessionCreate s.db session startedAt with
      | some (true, _) =>
        { s with
          attempts := s.attempts.eraseIdx i
          openings := ⟨session.row startedAt, session.replacedTokenHash, .credential a.changedAt⟩ :: s.openings }
      | _ => { s with attempts := s.attempts.eraseIdx i }
    | _ => s

/-- The statement of `sys_identity_sign_in` that reads the identity, and the insertion of its session. -/
def beginIdentity (provider subject : String) (sessionId : Uuid) (tokenHash : TokenHash)
    (replacedTokenHash : Option TokenHash) (startedAt : Timestamp) : SignIns :=
  match s.db.identities.find? fun i => decide (i.provider = provider ∧ i.subject = subject) &&
    s.db.accounts.any fun a => decide (a.id = i.accountId ∧ a.disabledAt = none) with
  | none => s
  | some i =>
    { s with
      openings := ⟨(⟨sessionId, i.accountId, .full, false, tokenHash, replacedTokenHash⟩ : NewSession).row startedAt,
        replacedTokenHash, .identity (s.deletedAt i.accountId)⟩ :: s.openings }

/-- The commit of a session, which is rolled back where its identifier or token is taken. -/
def commitSession (i : ℕ) : SignIns :=
  match s.openings[i]? with
  | none => s
  | some o =>
    if s.waits o.row then s
    else
      let s := { s with openings := s.openings.eraseIdx i }
      match insertSession s.db o.row o.replacedTokenHash with
      | none => s
      | some db => s.made db o.row.id o.row.accountId o.origin

/-- The statements of `sys_password_reset` up to the one that stores the password. -/
def passwordReset (tokenHash : TokenHash) (passwordHash : PasswordHash) (session : RedemptionSession)
    (now : Timestamp) : SignIns :=
  match sysCredentialTokenConsume s.db .passwordReset tokenHash now with
  | none => s
  | some (t, db) =>
    if s.locked t.accountId then s
    else
      match db.accounts.find? fun a =>
        decide (a.id = t.accountId ∧ a.disabledAt = none ∧ a.emailVerifiedAt ≠ none) with
      | none => { s with db := db }
      | some a => s.begun {
          kind := .reset tokenHash session a.mfaEnabledAt.isSome, accountId := a.id
          passwordHash := some passwordHash, storedAt := now }

/-- The statements of `sys_email_verify` up to the one that stores the password, or all of them for an address that is
verified already. -/
def emailVerify (tokenHash : TokenHash) (passwordHash : PasswordHash) (session : RedemptionSession)
    (now : Timestamp) : SignIns :=
  match sysCredentialTokenConsume s.db .emailVerify tokenHash now with
  | none => s
  | some (t, db) =>
    if s.locked t.accountId then s
    else
      match db.enabledAccount t.accountId with
      | none => { s with db := db }
      | some a =>
        if a.emailVerifiedAt = none then s.begun {
          kind := .verified tokenHash session, accountId := a.id, passwordHash := some passwordHash, storedAt := now }
        else
          match signInRedeemed db a.id a.mfaEnabledAt.isSome session now with
          | none => s
          | some (_, db) => s.made db session.id a.id (.credential a.passwordChangedAt)

/-- The statement of `changePassword` that stores the password. -/
def changePassword (change : PasswordChange) (now : Timestamp) : SignIns :=
  let stored := if change.initial then sysPasswordSetInitial s.db change.accountId change.passwordHash now
    else sysPasswordSet s.db change.accountId change.passwordHash now
  if s.locked change.accountId || !stored.1 then s
  else s.begun {
    kind := .changed change.sessionId change.newTokenHash, accountId := change.accountId
    passwordHash := some change.passwordHash, storedAt := now }

/-- The statement of `account_mark_verified` that takes the password away, for an administrator. -/
def markVerified (accountId : Uuid) (now : Timestamp) : SignIns :=
  match s.db.enabledAccount accountId with
  | none => s
  | some a =>
    if s.locked accountId || a.emailVerifiedAt.isSome then s
    else s.begun { kind := .marked, accountId := a.id, passwordHash := none, storedAt := now }

/-- The commit of a change. -/
def commitChange (j : ℕ) : SignIns :=
  match s.changes[j]? with
  | none => s
  | some c =>
    match c.commit s.db with
    | none => s
    | some db =>
      { s with
        db := db
        changes := s.changes.eraseIdx j
        kept := Function.update s.kept c.accountId c.kind.kept
        deletedAt := if c.kind.deletesIdentities then Function.update s.deletedAt c.accountId (some c.storedAt)
          else s.deletedAt }

/-- The next statement of a change. -/
def statement (j : ℕ) (now : Timestamp) : SignIns :=
  match s.changes[j]? with
  | none => s
  | some c =>
    match c.next s.db now with
    | none => { s with changes := s.changes.eraseIdx j }
    | some c => { s with changes := s.changes.set j c }

end SignIns

variable (emailVerificationRequired : Bool)

theorem slid_id (now : Timestamp) (x : Session) : (slid x now).id = x.id := rfl

/-- One step at a time; a step that would wait for a lock is not taken. -/
def SignIns.perform (s : SignIns) (now : Timestamp) : SignInEvent → SignIns
  | .lookup request =>
    match sysLoginLookup s.db request.email with
    | none => s
    | some candidate =>
      { s with attempts := ⟨request, candidate, passwordChangedAt s.db candidate.accountId, .lookedUp⟩ :: s.attempts }
  | .verifyPassword i correct => s.advance i fun a =>
    if a.stage = .lookedUp ∧ a.candidate.passwordHash ≠ none ∧ correct = true ∧ a.candidate.disabledAt = none then
      some .passwordVerified
    else none
  | .checkAddress i => s.advance i fun a =>
    if a.stage = .passwordVerified ∧ (emailVerificationRequired = true → emailVerified s.db a.candidate.accountId = true)
    then some .addressChecked else none
  | .readFactor i => s.advance i fun a =>
    if a.stage = .addressChecked then some (.factorRead (levelOf s.db a.candidate.accountId)) else none
  | .beginSession i startedAt => s.beginSession i startedAt
  | .identitySignIn provider subject sessionId tokenHash replacedTokenHash startedAt =>
    s.beginIdentity provider subject sessionId tokenHash replacedTokenHash startedAt
  | .commitSession i => s.commitSession i
  | .rollBackSession i => { s with openings := s.openings.eraseIdx i }
  | .renew sessionId readAt =>
    -- the last statement of `sys_session_lookup`, for a session that it has accepted
    { s with db := { s.db with
        sessions := s.db.sessions.updateWhere
          (fun x => decide (x.id = sessionId ∧ x.level = .full ∧ x.lastSeenAt + seconds 60 ≤ readAt))
          (slid · readAt) (slid_id readAt) } }
  | .promote sessionId accountId newTokenHash startedAt =>
    if s.locked accountId then s else s.write (sysSessionPromote s.db sessionId accountId newTokenHash startedAt)
  | .changePassword change => s.changePassword change now
  | .passwordReset tokenHash passwordHash session => s.passwordReset tokenHash passwordHash session now
  | .emailVerify tokenHash passwordHash session => s.emailVerify tokenHash passwordHash session now
  | .markVerified accountId => s.markVerified accountId now
  | .statement j => s.statement j now
  | .commitChange j => s.commitChange j
  | .rollBackChange j => { s with changes := s.changes.eraseIdx j }
  | .createAccount a => { s with db := (sysCreateAccount s.db a now).2 }
  | .setDisabled id disabledAt => if s.locked id then s else { s with db := s.db.setDisabled id disabledAt }
  | .setSecondFactor id enabledAt =>
    if s.locked id then s
    else { s with db := s.db.updateAccount id (fun a => { a with mfaEnabledAt := enabledAt }) fun _ => rfl }
  | .issueToken purpose id tokenHash targetEmail ttlSeconds =>
    if s.locked id then s
    else s.write (sysCredentialTokenIssue s.db purpose id tokenHash targetEmail ttlSeconds now)
  | .linkIdentity i => if s.locked i.accountId then s else { s with db := (sysIdentityLink s.db i).2 }
  | .linkIdentityByEmail id provider subject email =>
    if s.db.accounts.any fun a => decide (a.email = email) && s.locked a.id then s
    else { s with db := (sysIdentityLinkByEmail s.db id provider subject email).2 }
  | .unlinkIdentity accountId id =>
    if s.locked accountId then s else { s with db := (sysIdentityUnlink s.db accountId id).2 }
  | .revokeAll accountId exceptId => { s with db := sysSessionRevokeAll s.db accountId exceptId }

/-- Any number of clients, each step of theirs at a later time than the one before. -/
def signIns : System SignIns (SignInEvent × Timestamp) where
  init s := s = {}
  step s e s' := s.clock < e.2 ∧ s' = { s.perform emailVerificationRequired e.2 e.1 with clock := e.2 }

/-! ## What the operations do to sessions and passwords -/

/-- A session was not made before its account's password changed. -/
def Alive (db : AuthDb) (x : Session) : Prop :=
  ∀ a ∈ db.accounts, a.id = x.accountId → ∀ t, a.passwordChangedAt = some t → t ≤ x.createdAt

/-- Nothing but that sessions go, or go on; one that counts as made anew was not made before the password changed. -/
structure Quiet (db db' : AuthDb) : Prop where
  sessions : ∀ x' ∈ db'.sessions, ∃ x ∈ db.sessions, x.id = x'.id ∧ x.accountId = x'.accountId ∧
    (x.createdAt = x'.createdAt ∨ Alive db x)
  stays : ∀ a ∈ db.accounts, ∃ a' ∈ db'.accounts, a'.id = a.id
  passwords : ∀ a' ∈ db'.accounts, ∃ a ∈ db.accounts, a.id = a'.id ∧ a.passwordChangedAt = a'.passwordChangedAt

/-- The password of an account was replaced: a session of before is one that was not found, or the one that is kept. -/
structure Replaced (c : OpenChange) (db db' : AuthDb) : Prop where
  sessions : ∀ x' ∈ db'.sessions, (x'.accountId = c.accountId ∧ c.kind.kept = some x'.id) ∨
    (x' ∈ db.sessions ∧ x'.id ∉ c.ended)
  stays : ∀ a ∈ db.accounts, ∃ a' ∈ db'.accounts, a'.id = a.id
  passwords : ∀ a' ∈ db'.accounts, ∃ a ∈ db.accounts, a.id = a'.id ∧
    if a'.id = c.accountId then a'.passwordChangedAt = some c.storedAt else a.passwordChangedAt = a'.passwordChangedAt

/-- A session was made. -/
structure Made (db db' : AuthDb) (row : Session) : Prop where
  sessions : ∀ x' ∈ db'.sessions, x' = row ∨ (x' ∈ db.sessions ∧ x'.id ≠ row.id)
  accounts : db'.accounts = db.accounts

section

variable {db db₁ db' : AuthDb} {id : Uuid} {now : Timestamp}

namespace Quiet

theorem of_subset (hsessions : ∀ x ∈ db'.sessions, x ∈ db.sessions) (haccounts : db'.accounts = db.accounts) :
    Quiet db db' :=
  ⟨fun x hx => ⟨x, hsessions x hx, rfl, rfl, .inl rfl⟩, fun a ha => ⟨a, haccounts ▸ ha, rfl⟩,
    fun a ha => ⟨a, haccounts ▸ ha, rfl, rfl⟩⟩

theorem refl (db : AuthDb) : Quiet db db := of_subset (fun _ hx => hx) rfl

theorem of_eq (hsessions : db'.sessions = db.sessions) (haccounts : db'.accounts = db.accounts) : Quiet db db' :=
  of_subset (fun _ hx => hsessions ▸ hx) haccounts

theorem deleteSessions (p : Session → Bool) : Quiet db (db.deleteSessions p) :=
  of_subset (fun _ hx => (Table.mem_deleteWhere.mp hx).1) rfl

theorem updateSessions {p : Session → Bool} {f : Session → Session} {hf : ∀ x, (f x).id = x.id}
    (haccount : ∀ x, (f x).accountId = x.accountId)
    (hcreated : ∀ x ∈ db.sessions, p x = true → x.createdAt = (f x).createdAt ∨ Alive db x) :
    Quiet db { db with sessions := db.sessions.updateWhere p f hf } := by
  refine ⟨fun x' hx' => ?_, fun a ha => ⟨a, ha, rfl⟩, fun a ha => ⟨a, ha, rfl, rfl⟩⟩
  simp only [Table.mem_updateWhere] at hx'
  obtain ⟨x, hx, rfl⟩ := hx'
  refine ⟨x, hx, ?_⟩
  split
  · rename_i hp
    exact ⟨(hf x).symm, (haccount x).symm, hcreated x hx hp⟩
  · exact ⟨rfl, rfl, .inl rfl⟩

theorem updateAccount {f : Account → Account} {hf : ∀ a, (f a).id = a.id}
    (hpassword : ∀ a, (f a).passwordChangedAt = a.passwordChangedAt) : Quiet db (db.updateAccount id f hf) := by
  refine ⟨fun x hx => ⟨x, hx, rfl, rfl, .inl rfl⟩, fun a ha => ⟨_, AuthDb.updateAccount_mem ha, ?_⟩, fun a' ha' => ?_⟩
  · split
    · exact hf a
    · rfl
  · obtain ⟨a, ha, haid, rfl⟩ := AuthDb.mem_updateAccount ha'
    refine ⟨a, ha, haid, ?_⟩
    split
    · exact (hpassword a).symm
    · rfl

end Quiet

theorem made_of_insertSession {row : Session} {replaced : Option TokenHash}
    (h : insertSession db row replaced = some db') : Made db db' row := by
  rw [insertSession] at h
  split at h
  · cases h
  · obtain ⟨sessions, hinsert, rfl⟩ := Option.map_eq_some_iff.mp h
    refine ⟨fun x hx => ?_, rfl⟩
    rcases (Table.mem_insert? hinsert).mp (Table.mem_deleteWhere.mp hx).1 with hx | rfl
    · exact .inr ⟨hx, Table.key_fresh_of_insert? hinsert hx⟩
    · exact .inl rfl

/-- A session is completed only when it was not made before the password changed. -/
theorem sysSessionPromote_quiet {sessionId : Uuid} {newTokenHash : TokenHash} {made : Bool}
    (h : sysSessionPromote db sessionId id newTokenHash now = some (made, db')) : Quiet db db' := by
  simp only [sysSessionPromote] at h
  split at h
  · cases h
    exact .refl _
  · rename_i a hfind
    obtain ⟨hmem, hcond⟩ := Table.find?_some hfind
    obtain ⟨haid, -⟩ := of_decide_eq_true hcond
    split at h
    · cases h
      exact .refl _
    · split at h
      · cases h
      · cases h
        refine .updateSessions (fun _ => rfl) fun x _ hp => .inr fun b hb hbid t ht => ?_
        obtain ⟨hown, hchanged⟩ := Bool.and_eq_true_iff.mp hp
        obtain ⟨-, hacc, -⟩ := of_decide_eq_true hown
        obtain rfl : b = a := Table.eq_of_key hb hmem (hbid.trans (hacc.trans haid.symm))
        rw [ht] at hchanged
        exact of_decide_eq_true hchanged

theorem sysCredentialTokenIssue_quiet {purpose : CredentialTokenPurpose} {tokenHash : TokenHash}
    {target : Option Address} {ttl : ℕ} {made : Bool}
    (h : sysCredentialTokenIssue db purpose id tokenHash target ttl now = some (made, db')) : Quiet db db' := by
  rw [sysCredentialTokenIssue] at h
  split at h
  · cases h
    exact .refl _
  · obtain ⟨db₁, hinsert, heq⟩ := Option.map_eq_some_iff.mp h
    obtain ⟨-, rfl⟩ := Prod.mk.inj heq
    obtain ⟨tokens, -, rfl⟩ := AuthDb.insertToken_some hinsert
    exact .of_eq rfl rfl

theorem sysCredentialTokenConsume_quiet {purpose : CredentialTokenPurpose} {tokenHash : TokenHash}
    {t : CredentialToken} (h : sysCredentialTokenConsume db purpose tokenHash now = some (t, db')) : Quiet db db' := by
  rw [(sysCredentialTokenConsume_some h).2.2]
  exact .of_eq rfl rfl

theorem sysIdentityLink_quiet (i : AccountIdentity) : Quiet db (sysIdentityLink db i).2 := by
  rw [sysIdentityLink]
  split
  · exact .refl db
  · split
    · exact .of_eq rfl rfl
    · split <;> exact .refl db

theorem sysIdentityLinkByEmail_quiet (provider subject : String) (email : Address) :
    Quiet db (sysIdentityLinkByEmail db id provider subject email).2 := by
  rw [sysIdentityLinkByEmail]
  split
  · exact .refl db
  · exact sysIdentityLink_quiet _

theorem sysIdentityUnlink_quiet (accountId : Uuid) : Quiet db (sysIdentityUnlink db accountId id).2 := by
  rw [sysIdentityUnlink]
  split
  · exact .refl db
  · split
    · exact .refl db
    · split
      · exact .refl db
      · exact .of_eq rfl rfl

theorem signInRedeemed_made {mfa : Bool} {session : RedemptionSession} {r : Option (Uuid × SessionLevel)}
    (h : signInRedeemed db id mfa session now = some (r, db')) :
    ∃ level, r = some (id, level) ∧ ∃ row : Session, Made db db' row ∧ row.accountId = id ∧ row.id = session.id := by
  simp only [signInRedeemed] at h
  split at h
  · rename_i db₁ hcreate
    cases h
    simp only [sysSessionCreate] at hcreate
    split at hcreate
    · cases hcreate
    · obtain ⟨db₂, hinsert, heq⟩ := Option.map_eq_some_iff.mp hcreate
      obtain ⟨-, rfl⟩ := Prod.mk.inj heq
      exact ⟨_, rfl, _, made_of_insertSession hinsert, rfl, rfl⟩
  · cases h

namespace OpenChange

variable {c : OpenChange}

theorem ending_replaced (c : OpenChange) (db : AuthDb) : Replaced c db (c.ending db) := by
  refine ⟨fun x hx => ?_, fun a ha => ⟨_, @AuthDb.updateAccount_mem _ _ _ c.account_id _ ha, ?_⟩, fun a' ha' => ?_⟩
  · obtain ⟨hx, hnot⟩ := Table.mem_deleteWhere.mp hx
    exact .inr ⟨hx, of_decide_eq_false hnot⟩
  · split
    · exact c.account_id a
    · rfl
  · obtain ⟨a, ha, haid, rfl⟩ := @AuthDb.mem_updateAccount _ _ _ c.account_id _ ha'
    refine ⟨a, ha, haid, ?_⟩
    rw [← haid]
    split
    · exact c.account_passwordChangedAt a
    · rfl

end OpenChange

namespace Replaced

variable {c : OpenChange}

theorem of_eq (h : Replaced c db db₁) (hsessions : db'.sessions = db₁.sessions) (haccounts : db'.accounts = db₁.accounts) :
    Replaced c db db' :=
  ⟨hsessions ▸ h.sessions, haccounts ▸ h.stays, haccounts ▸ h.passwords⟩

theorem made (h : Replaced c db db₁) {row : Session} (hm : Made db₁ db' row) (hacc : row.accountId = c.accountId)
    (hkept : c.kind.kept = some row.id) : Replaced c db db' := by
  refine ⟨fun x hx => ?_, hm.accounts ▸ h.stays, hm.accounts ▸ h.passwords⟩
  rcases hm.sessions x hx with rfl | ⟨hx, -⟩
  · exact .inl ⟨hacc, hkept⟩
  · exact h.sessions x hx

end Replaced

/-- **What a change has done when it commits.** -/
theorem OpenChange.commit_replaced {c : OpenChange} (h : c.commit db = some db') : Replaced c db db' := by
  have hending := c.ending_replaced db
  have htokens (tokenHash : TokenHash) (db₂ : AuthDb) : (c.tokens tokenHash db₂).sessions = db₂.sessions ∧
      (c.tokens tokenHash db₂).accounts = db₂.accounts := by
    unfold OpenChange.tokens
    split <;> exact ⟨rfl, rfl⟩
  have hredeemed (tokenHash : TokenHash) :
      Replaced c db (c.tokens tokenHash (c.withoutIdentities (c.ending db))) :=
    hending.of_eq (htokens _ _).1 (htokens _ _).2
  unfold OpenChange.commit at h
  split at h
  · rename_i sessionId newTokenHash hkind _
    cases h
    refine ⟨fun x hx => ?_, hending.stays, hending.passwords⟩
    simp only [Table.mem_updateWhere] at hx
    obtain ⟨x, hx, rfl⟩ := hx
    split
    · rename_i hown
      obtain ⟨hid, hacc⟩ := of_decide_eq_true hown
      exact .inl ⟨hacc, by rw [hkind, ← hid]; rfl⟩
    · exact hending.sessions x hx
  · rename_i hkind _
    exact (hredeemed _).made (made_of_insertSession h) rfl (by rw [hkind]; rfl)
  · rename_i hkind _
    exact (hredeemed _).made (made_of_insertSession h) rfl (by rw [hkind]; rfl)
  · cases h
    exact hending.of_eq rfl rfl
  · cases h

end

end SlugBase.Auth
