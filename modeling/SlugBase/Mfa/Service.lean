import SlugBase.Mfa.Store
import SlugBase.Lib.Transition

/-!
# The second-factor service

The service reads an account's second factor, verifies a typed code outside the database and then writes: each is a step
of its own, and between two of them any other request may take any number of steps.

* `Client`: a request whose code was verified, or refused, and that has still to write;
* `confirmEnrollment`, `verifySecondFactor`, `matchingFactor`: the reading half of a request; `Client.finish`: the
  writing half; `Client.reseal`: sealing a secret again under the current key in between;
* `secondFactor`: the system;
* **`Justified`**: what must have been done before, for everything that was done.
-/

namespace SlugBase.Mfa

open Relational Auth Transition

/-! ## Requests under way -/

/-- A request between verifying its code and writing. `verified` is the ciphertext its code was verified against, or that
secret sealed again by this request. -/
inductive Client
  | confirm (accountId sessionId : Uuid) (step : ℕ) (verified : Sealed)
  | signIn (accountId sessionId : Uuid) (factor : SecondFactor) (verified : Sealed)
  | regenerate (accountId : Uuid) (step : ℕ) (verified : Sealed)
  | disable (accountId sessionId : Uuid) (factor : SecondFactor) (verified : Sealed)
  | reauthenticate (accountId sessionId : Uuid) (step : ℕ) (verified : Sealed)
  | refused (accountId sessionId : Uuid)
  deriving DecidableEq, Repr

/-- The database and the requests under way. -/
structure Service where
  db : MfaDb := {}
  clients : List Client := []

namespace Service

/-- The service with one more request under way. -/
def begin (s : Service) (c : Client) : Service := { s with clients := c :: s.clients }

/-- The service with one entry more in the log. -/
def record (s : Service) (e : Entry) : Service := { s with db := s.db.record e }

/-- The service after the request under way at `i` has ended. -/
def ended (s : Service) (i : ℕ) (db : MfaDb) : Service := ⟨db, s.clients.eraseIdx i⟩

end Service

/-! ## Reading and verifying -/

/-- A factor that a typed code may match: a code of the authenticator verifies at a time step, a backup code against the
hash of one of the account's. -/
abbrev Given := SecondFactor

/-- `matchingFactor`: the factor a typed code matched, with the sealed secret that was read. -/
def matchingFactor (db : MfaDb) (accountId : Uuid) (given : Given) : Option (SecondFactor × Sealed) :=
  match sysMfaGetSecret db accountId with
  | none => none
  | some state =>
    if state.enabledAt = none then none
    else
      match given with
      | .totp step => some (.totp step, state.secret)
      | .backup codeId =>
        if (sysBackupCodesUnused db accountId).any fun c => decide (c.id = codeId) then
          some (.backup codeId, state.secret)
        else none

/-- A request goes on with the factor it matched. -/
def Service.matched (s : Service) (accountId : Uuid) (factor : SecondFactor) (verified : Sealed) (c : Client) : Service :=
  match factor with
  | .totp step => (s.record (.verified accountId verified step)).begin c
  | .backup _ => s.begin c

/-- `confirmEnrollment` up to its verification, whose code verifies at this step. -/
def confirmEnrollment (s : Service) (accountId sessionId : Uuid) (step : ℕ) : Service :=
  match sysMfaGetSecret s.db accountId with
  | none => s
  | some state =>
    if state.enabledAt ≠ none then s
    else (s.record (.verified accountId state.secret step)).begin (.confirm accountId sessionId step state.secret)

/-- `verifySecondFactor` up to its verification; a code that matches nothing is refused. -/
def verifySecondFactor (s : Service) (accountId sessionId : Uuid) (given : Option Given) : Service :=
  match given.bind (matchingFactor s.db accountId) with
  | none => s.begin (.refused accountId sessionId)
  | some (factor, verified) => s.matched accountId factor verified (.signIn accountId sessionId factor verified)

/-- What a request that takes no backup code does with the factor it matched. -/
def Service.withStep (s : Service) (accountId : Uuid) (given : Given) (c : ℕ → Sealed → Client) : Service :=
  match matchingFactor s.db accountId given with
  | some (.totp step, verified) => s.matched accountId (.totp step) verified (c step verified)
  | _ => s

/-- `disableMfa` up to its verification, of a request whose password was accepted. -/
def Service.beginDisable (s : Service) (accountId sessionId : Uuid) (given : Given) : Service :=
  match matchingFactor s.db accountId given with
  | none => s
  | some (factor, verified) => s.matched accountId factor verified (.disable accountId sessionId factor verified)

/-! ## Writing -/

/-- The account and the sealed secret of a request under way. -/
def Client.secret : Client → Option (Uuid × Sealed)
  | .confirm a _ _ x | .signIn a _ _ x | .regenerate a _ x | .disable a _ _ x | .reauthenticate a _ _ x => some (a, x)
  | .refused _ _ => none

/-- A request seals the secret it read again under the current key. A confirmation goes on with the new ciphertext, or ends
when the stored one is no longer the one it read; any other request goes on as it was. -/
def Service.reseal (s : Service) (i sealing : ℕ) : Service :=
  match s.clients[i]? with
  | none => s
  | some c =>
    match c.secret with
    | none => s
    | some (accountId, x) =>
      match c, sysMfaSetReseal s.db accountId ⟨x.secret, sealing⟩ x with
      | .confirm _ sessionId step _, some db =>
        ⟨db.record (.verified accountId ⟨x.secret, sealing⟩ step),
          s.clients.set i (.confirm accountId sessionId step ⟨x.secret, sealing⟩)⟩
      | .confirm .., none => s.ended i s.db
      | _, some db => { s with db := db }
      | _, none => s

/-- The transaction a request writes with. -/
def Client.transaction (db : MfaDb) (codes : List (Uuid × String)) (now : Timestamp) : Client → Except StoreOutcome MfaDb
  | .confirm a session step x => activateMfa db a session step x codes now
  | .signIn a session factor x => completeMfaSignIn db a session factor x.secret now
  | .regenerate a step x => regenerateBackupCodes db a step x.secret codes
  | .disable a session factor x => disableMfa db a session factor x.secret now
  | .reauthenticate a session step x => reauthenticateWithStep db a session step x.secret now
  | .refused a session => .ok (sysSessionMfaFailure db session a).2

/-- The writing half of the request at `i`; a sign-in whose factor was used already is refused. -/
def Service.finish (s : Service) (i : ℕ) (codes : List (Uuid × String)) (now : Timestamp) : Service :=
  match s.clients[i]? with
  | none => s
  | some c =>
    match c, c.transaction s.db codes now with
    | _, .ok db => s.ended i db
    | .signIn accountId sessionId _ _, .error .replayed => (s.ended i s.db).begin (.refused accountId sessionId)
    | _, .error _ => s.ended i s.db

/-! ## What else happens to the rows -/

/-- `sys_session_create`, of the level the account's second factor asks for. -/
def sysSessionCreate (db : MfaDb) (id accountId : Uuid) (level : SessionLevel) (remember : Bool) (now : Timestamp) :
    Option MfaDb :=
  if db.accounts.any fun a => decide (a.id = accountId ∧ a.disabledAt = none ∧
      (a.mfaEnabledAt ≠ none ↔ level = .partialLevel)) then
    (db.sessions.insert? {
      id := id, accountId := accountId, level := level, remember := remember, createdAt := now, lastSeenAt := now
      expiresAt := match level with
        | .partialLevel => now + seconds 300
        | .full => now + days (if remember then 90 else 30)
      absoluteExpiresAt := match level with
        | .partialLevel => now + seconds 300
        | .full => now + days 180
      reauthAt := none, mfaFailures := 0 }).map fun sessions =>
        { db with
          sessions := sessions
          drawn := { db.drawn with complete := if level = .full then id :: db.drawn.complete else db.drawn.complete } }
  else none

/-- `sys_create_account`. -/
def sysCreateAccount (db : MfaDb) (id : Uuid) : Option MfaDb :=
  (db.accounts.insert? ⟨id, none, none, none, none, none⟩).map fun accounts => { db with accounts := accounts }

/-- What a password change does to the rows: the sessions made before it are refused, and all but one are deleted. -/
def changePassword (db : MfaDb) (id : Uuid) (except : Option Uuid) (now : Timestamp) : Option MfaDb :=
  (db.updateAccount id (fun a => decide (a.disabledAt = none)) (fun a => { a with passwordChangedAt := some now })
    fun _ => rfl).map (·.deleteSessions fun s => decide (s.accountId = id ∧ some s.id ≠ except))

/-- What an instance admin's reset of the second factor, and the verification of an address, do to the rows. -/
def resetMfa (db : MfaDb) (id : Uuid) : Option MfaDb :=
  (db.updateAccount id (fun _ => true) Account.withoutMfa Account.id_withoutMfa).map fun db =>
    (db.deleteCodes id).deleteSessions fun s => decide (s.accountId = id)

/-! ## The system -/

/-- A step of the system. -/
inductive Event
  | createAccount (id : Uuid)
  | createSession (id accountId : Uuid) (level : SessionLevel) (remember : Bool)
  | revokeSession (id : Uuid)
  | setDisabled (id : Uuid) (disabledAt : Option Timestamp)
  | changePassword (id : Uuid) (except : Option Uuid)
  | resetMfa (id : Uuid)
  | startEnrollment (accountId : Uuid) (sealed : Sealed)
  | confirmEnrollment (accountId sessionId : Uuid) (step : ℕ)
  | verifySecondFactor (accountId sessionId : Uuid) (given : Option Given)
  | regenerateBackupCodes (accountId : Uuid) (given : Given)
  | disableMfa (accountId sessionId : Uuid) (given : Given)
  | reauthenticate (accountId sessionId : Uuid) (given : Given)
  | reseal (client sealing : ℕ)
  | finish (client : ℕ) (codes : List (Uuid × String))
  deriving DecidableEq, Repr

/-- The service on this database, or as it was. -/
def Service.write (s : Service) (db : Option MfaDb) : Service := { s with db := db.getD s.db }

/-- **One step**; `none` when it would draw a secret or an identifier that was drawn before. -/
def Service.next (s : Service) (e : Event × Timestamp) : Option Service :=
  match e.1 with
  | .createAccount id => some (s.write (sysCreateAccount s.db id))
  | .createSession id accountId level remember =>
    if id ∈ s.db.drawn.sessions then none
    else
      let db := { s.db with drawn := { s.db.drawn with sessions := id :: s.db.drawn.sessions } }
      some ({ s with db := db }.write (sysSessionCreate db id accountId level remember e.2))
  | .revokeSession id => some (s.write (some (s.db.deleteSessions fun r => decide (r.id = id))))
  | .setDisabled id disabledAt =>
    some (s.write (s.db.updateAccount id (fun _ => true) (fun a => { a with disabledAt := disabledAt }) fun _ => rfl))
  | .changePassword id except => some (s.write (Mfa.changePassword s.db id except e.2))
  | .resetMfa id => some (s.write (Mfa.resetMfa s.db id))
  | .startEnrollment accountId sealed =>
    if sealed.secret ∈ s.db.drawn.secrets then none
    else
      let db := { s.db with drawn := { s.db.drawn with secrets := sealed.secret :: s.db.drawn.secrets } }
      some ({ s with db := db }.write (sysMfaSetStart db accountId sealed))
  | .confirmEnrollment accountId sessionId step => some (Mfa.confirmEnrollment s accountId sessionId step)
  | .verifySecondFactor accountId sessionId given => some (Mfa.verifySecondFactor s accountId sessionId given)
  | .regenerateBackupCodes accountId given => some (s.withStep accountId given (.regenerate accountId))
  | .disableMfa accountId sessionId given => some (s.beginDisable accountId sessionId given)
  | .reauthenticate accountId sessionId given => some (s.withStep accountId given (.reauthenticate accountId sessionId))
  | .reseal client sealing => some (s.reseal client sealing)
  | .finish client codes =>
    if codes.any fun c => decide (c.1 ∈ s.db.drawn.codes) then none
    else
      let db := { s.db with drawn := { s.db.drawn with codes := codes.map Prod.fst ++ s.db.drawn.codes } }
      some ({ s with db := db }.finish client codes e.2)

/-- **The runs of the service**, from an empty database. -/
def secondFactor : System Service (Event × Timestamp) where
  init s := s = {}
  step s e s' := s.next e = some s'

/-! ## What a run keeps -/

/-- How many refused codes of a session were recorded. -/
def refusals (log : List Entry) (sessionId : Uuid) : ℕ := log.count (.refused sessionId)

/-- What must have been done before an entry of the log, `older` being the entries before it:

* a time step of a secret is greater than every one accepted of it, and a code of it was verified against that secret;
* a backup code has not been consumed;
* the second factor is enabled for the ciphertext a code was verified against;
* a session is promoted that is waiting and has not expired, right after a factor of its account was accepted, that has not
  been promoted and of which fewer than five refused codes were recorded;
* a refused code is recorded of a session that has fewer than five and has not been promoted. -/
def Justified (older : List Entry) : Entry → Prop
  | .verified _ _ _ => True
  | .accepted a secret step =>
    (∀ a' step', Entry.accepted a' secret step' ∈ older → step' < step) ∧
      ∃ sealed, Entry.verified a sealed step ∈ older ∧ sealed.secret = secret
  | .consumed _ codeId => ∀ a, Entry.consumed a codeId ∉ older
  | .enabled a stored => ∃ sealed step, stored = some sealed ∧ Entry.verified a sealed step ∈ older
  | .promoted session now =>
    session.live now = true ∧
      (∃ e, older.head? = some e ∧
        ((∃ secret step, e = .accepted session.accountId secret step) ∨ ∃ codeId, e = .consumed session.accountId codeId)) ∧
      (∀ session' now', Entry.promoted session' now' ∈ older → session'.id ≠ session.id) ∧
      refusals older session.id < maxFailures
  | .refused sessionId =>
    refusals older sessionId < maxFailures ∧
      ∀ session now, Entry.promoted session now ∈ older → session.id ≠ sessionId

/-- Every entry of the log is justified by those before it. -/
def Each (P : List Entry → Entry → Prop) : List Entry → Prop
  | [] => True
  | e :: older => P older e ∧ Each P older

/-- The second factor of an account is on only for a secret that it was enabled for. -/
def EnabledFor (db : MfaDb) : Prop :=
  ∀ a ∈ db.accounts, a.mfaEnabledAt ≠ none → ∃ sealed stored, a.mfaSecret = some sealed ∧
    stored.secret = sealed.secret ∧ Entry.enabled a.id (some stored) ∈ db.log

/-- The session was made complete at once, or promoted. -/
def Complete (db : MfaDb) (id : Uuid) : Prop :=
  id ∈ db.drawn.complete ∨ ∃ s now, Entry.promoted s now ∈ db.log ∧ s.id = id

/-- No session is complete but those that were made so and those that were promoted. -/
def PromotedFor (db : MfaDb) : Prop := ∀ s ∈ db.sessions, s.level = .full → Complete db s.id

end SlugBase.Mfa
