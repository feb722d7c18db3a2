import SlugBase.Auth.Store

/-!
# The store of the second factor

The rows of the second factor and the transactions on them. A transaction decides on rows it has locked, so it is one
step: it answers with the database it leaves, or it is rolled back with an outcome. Each writes down what it did in a
log, which is no table.

* `Account`, `BackupCode`, `Session`: the rows; `Sealed`: a sealed secret; `Entry`: what was done;
* `sysMfaSetStart`, `sysMfaSetReseal`, `sysMfaSetActivate`, `sysMfaAcceptStep`, `sysBackupCodesReplace`,
  `sysBackupCodeConsume`, `sysSessionPromote`, `sysSessionMfaFailure`, `sysMfaLock`, `sysMfaDisable`: the functions;
* `activateMfa`, `completeMfaSignIn`, `regenerateBackupCodes`, `disableMfa`, `reauthenticateWithStep`: the transactions.
-/

namespace SlugBase.Mfa

open Relational Auth

/-! ## Rows -/

/-- A sealed secret: the secret, and which of its sealings this ciphertext is. -/
structure Sealed where
  secret : ℕ
  sealing : ℕ
  deriving DecidableEq, Repr

/-- A row of `accounts`. -/
structure Account where
  id : Uuid
  disabledAt : Option Timestamp
  passwordChangedAt : Option Timestamp
  mfaSecret : Option Sealed
  mfaEnabledAt : Option Timestamp
  mfaLastStep : Option ℕ
  deriving DecidableEq, Repr

/-- A row of `mfa_backup_codes`. -/
structure BackupCode where
  id : Uuid
  accountId : Uuid
  codeHash : String
  usedAt : Option Timestamp
  deriving DecidableEq, Repr

/-- A row of `sessions`, without its token. -/
structure Session where
  id : Uuid
  accountId : Uuid
  level : SessionLevel
  remember : Bool
  createdAt : Timestamp
  lastSeenAt : Timestamp
  expiresAt : Timestamp
  absoluteExpiresAt : Timestamp
  reauthAt : Option Timestamp
  mfaFailures : ℕ
  deriving DecidableEq, Repr

/-- What was done: a code of this time step was verified against a sealed secret, a time step was accepted of a code that
had been verified against this secret, a backup code was consumed, the second factor was enabled while this was the
account's sealed secret, a session as it was found was promoted, a refused code was recorded. -/
inductive Entry
  | verified (accountId : Uuid) (sealed : Sealed) (step : ℕ)
  | accepted (accountId : Uuid) (secret step : ℕ)
  | consumed (accountId codeId : Uuid)
  | enabled (accountId : Uuid) (stored : Option Sealed)
  | promoted (session : Session) (now : Timestamp)
  | refused (sessionId : Uuid)
  deriving DecidableEq, Repr

/-- The secrets and identifiers drawn so far, and the sessions that were made complete at once, of an account whose second
factor was off. -/
structure Drawn where
  secrets : List ℕ := []
  codes : List Uuid := []
  sessions : List Uuid := []
  complete : List Uuid := []
  deriving DecidableEq, Repr

/-- The tables of the second factor, each under the key its rows are found by; the log, newest first. -/
structure MfaDb where
  accounts : Table Account Account.id := ∅
  codes : Table BackupCode BackupCode.id := ∅
  sessions : Table Session Session.id := ∅
  log : List Entry := []
  drawn : Drawn := {}

namespace MfaDb

variable (db : MfaDb)

/-- With one more entry in the log. -/
def record (e : Entry) : MfaDb := { db with log := e :: db.log }

/-- `UPDATE accounts SET … WHERE id = … AND …`; `none` when it finds no row. -/
def updateAccount (id : Uuid) (p : Account → Bool) (f : Account → Account) (hf : ∀ a, (f a).id = a.id) : Option MfaDb :=
  if db.accounts.any fun a => decide (a.id = id) && p a then
    some { db with accounts := db.accounts.updateWhere (fun a => decide (a.id = id) && p a) f hf }
  else none

/-- The account's row. -/
def account (id : Uuid) : Option Account := db.accounts.find? fun a => decide (a.id = id)

/-- An account that is not disabled and whose second factor is on. -/
def enrolled (id : Uuid) : Bool :=
  db.accounts.any fun a => decide (a.id = id) && decide (a.disabledAt = none ∧ a.mfaEnabledAt ≠ none)

/-- `DELETE FROM mfa_backup_codes WHERE account_id = …`. -/
def deleteCodes (id : Uuid) : MfaDb := { db with codes := db.codes.deleteWhere fun c => decide (c.accountId = id) }

/-- `DELETE FROM sessions WHERE …`. -/
def deleteSessions (p : Session → Bool) : MfaDb := { db with sessions := db.sessions.deleteWhere p }

end MfaDb

/-! ## The functions

Each answers with the database it leaves, or `none` when it answers false or raises and changes nothing. -/

section

variable (db : MfaDb)

/-- What `sys_mfa_get_secret` answers. -/
structure MfaState where
  secret : Sealed
  enabledAt : Option Timestamp
  lastStep : Option ℕ
  deriving DecidableEq, Repr

/-- `sys_mfa_get_secret(account_id)`. -/
def sysMfaGetSecret (accountId : Uuid) : Option MfaState :=
  (db.account accountId).bind fun a =>
    match a.disabledAt, a.mfaSecret with
    | none, some secret => some ⟨secret, a.mfaEnabledAt, a.mfaLastStep⟩
    | _, _ => none

/-- `sys_mfa_set(account_id, 'start', secret, key_id, NULL)`. -/
def sysMfaSetStart (accountId : Uuid) (secret : Sealed) : Option MfaDb :=
  db.updateAccount accountId (fun a => decide (a.disabledAt = none ∧ a.mfaEnabledAt = none))
    (fun a => { a with mfaSecret := some secret, mfaLastStep := none }) fun _ => rfl

/-- `sys_mfa_set(account_id, 'reseal', secret, key_id, expected_secret)`. -/
def sysMfaSetReseal (accountId : Uuid) (secret expected : Sealed) : Option MfaDb :=
  db.updateAccount accountId (fun a => decide (a.disabledAt = none ∧ a.mfaSecret = some expected))
    (fun a => { a with mfaSecret := some secret }) fun _ => rfl

/-- `sys_mfa_set(account_id, 'activate', NULL, NULL, expected_secret)`. -/
def sysMfaSetActivate (accountId : Uuid) (expected : Sealed) (now : Timestamp) : Option MfaDb :=
  (db.updateAccount accountId
    (fun a => decide (a.disabledAt = none ∧ a.mfaEnabledAt = none ∧ a.mfaSecret = some expected ∧ a.mfaLastStep ≠ none))
    (fun a => { a with mfaEnabledAt := some now }) fun _ => rfl).map
      (MfaDb.record · (.enabled accountId ((db.account accountId).bind Account.mfaSecret)))

/-- `sys_mfa_accept_step(account_id, step)`; which secret the code was verified against is for the log only. -/
def sysMfaAcceptStep (accountId : Uuid) (step secret : ℕ) : Option MfaDb :=
  if step < 1 then none
  else
    (db.updateAccount accountId
      (fun a => decide (a.disabledAt = none ∧ a.mfaSecret ≠ none) && a.mfaLastStep.all fun last => decide (last < step))
      (fun a => { a with mfaLastStep := some step }) fun _ => rfl).map
        (MfaDb.record · (.accepted accountId secret step))

/-- The rows of these backup codes inserted; `none` when a key is taken. -/
def insertCodes (codes : Table BackupCode BackupCode.id) (accountId : Uuid) :
    List (Uuid × String) → Option (Table BackupCode BackupCode.id)
  | [] => some codes
  | (id, hash) :: rest => (codes.insert? ⟨id, accountId, hash, none⟩).bind fun codes => insertCodes codes accountId rest

/-- `sys_backup_codes_replace(account_id, ids, hashes)`. -/
def sysBackupCodesReplace (accountId : Uuid) (codes : List (Uuid × String)) : Option MfaDb :=
  if codes = [] ∨ 20 < codes.length ∨ codes.any fun c => decide (c.2 = "") then none
  else if !db.enrolled accountId then none
  else (insertCodes (db.deleteCodes accountId).codes accountId codes).map fun codes => { db with codes := codes }

/-- `sys_backup_code_consume(account_id, code_id)`. -/
def sysBackupCodeConsume (accountId codeId : Uuid) (now : Timestamp) : Option MfaDb :=
  let own (c : BackupCode) := decide (c.id = codeId ∧ c.accountId = accountId ∧ c.usedAt = none)
  if db.codes.any own && db.accounts.any fun a => decide (a.id = accountId ∧ a.disabledAt = none) then
    some (MfaDb.record { db with codes := db.codes.updateWhere own (fun c => { c with usedAt := some now }) fun _ => rfl }
      (.consumed accountId codeId))
  else none

/-- `sys_backup_codes_unused(account_id)`. -/
def sysBackupCodesUnused (accountId : Uuid) : List BackupCode :=
  if db.enrolled accountId then
    db.codes.rows.filter fun c => decide (c.accountId = accountId ∧ c.usedAt = none)
  else []

/-- The session is waiting for its second factor and has not expired. -/
def Session.live (s : Session) (now : Timestamp) : Bool :=
  decide (s.level = .partialLevel ∧ now < s.expiresAt ∧ now < s.absoluteExpiresAt)

/-- A partial session becomes a complete one. -/
def Session.promote (s : Session) (now : Timestamp) : Session :=
  { s with
    level := .full
    createdAt := now
    lastSeenAt := now
    expiresAt := now + days (if s.remember then 90 else 30)
    absoluteExpiresAt := now + days 180
    mfaFailures := 0 }

/-- `sys_session_promote(id, account_id, new_token_hash)`. -/
def sysSessionPromote (id accountId : Uuid) (now : Timestamp) : Option MfaDb :=
  (db.accounts.find? fun a => decide (a.id = accountId) && decide (a.disabledAt = none ∧ a.mfaEnabledAt ≠ none)).bind
    fun a =>
      let own (s : Session) := decide (s.id = id ∧ s.accountId = accountId) && s.live now &&
        a.passwordChangedAt.all fun changed => decide (changed ≤ s.createdAt)
      (db.sessions.find? own).map fun s =>
        MfaDb.record { db with sessions := db.sessions.updateWhere own (·.promote now) fun _ => rfl } (.promoted s now)

/-- The refusals that end a partial session. -/
def maxFailures : ℕ := 5

/-- `sys_session_mfa_failure(id, account_id)`: whether the session is over. -/
def sysSessionMfaFailure (id accountId : Uuid) : Bool × MfaDb :=
  let own (s : Session) := decide (s.id = id ∧ s.accountId = accountId ∧ s.level = .partialLevel)
  match db.sessions.find? own with
  | none => (true, db)
  | some s =>
    if maxFailures ≤ s.mfaFailures + 1 then
      (true, (db.deleteSessions fun s => decide (s.id = id)).record (.refused s.id))
    else
      (false, MfaDb.record { db with
        sessions := db.sessions.updateWhere own (fun s => { s with mfaFailures := s.mfaFailures + 1 }) fun _ => rfl }
          (.refused s.id))

/-- `sys_mfa_lock(account_id)`: the locks the rest of the transaction decides under. -/
def sysMfaLock (accountId : Uuid) : Option MfaDb := if db.enrolled accountId then some db else none

/-- The account's row without a second factor. -/
def Account.withoutMfa (a : Account) : Account :=
  { a with mfaSecret := none, mfaEnabledAt := none, mfaLastStep := none }

theorem Account.id_withoutMfa (a : Account) : a.withoutMfa.id = a.id := rfl

/-- `sys_mfa_disable(account_id)`. -/
def sysMfaDisable (accountId : Uuid) : Option MfaDb :=
  (db.updateAccount accountId (fun a => decide (a.disabledAt = none ∧ a.mfaEnabledAt ≠ none)) Account.withoutMfa
    Account.id_withoutMfa).map (·.deleteCodes accountId)

/-- `UPDATE sessions SET …` of a complete session of the account. -/
def updateFullSession (id accountId : Uuid) (f : Session → Session) (hf : ∀ s, (f s).id = s.id) : Option MfaDb :=
  let own (s : Session) := decide (s.id = id ∧ s.accountId = accountId ∧ s.level = .full)
  if db.sessions.any own then some { db with sessions := db.sessions.updateWhere own f hf } else none

/-- `sys_session_rotate(id, account_id, new_token_hash)`. -/
def sysSessionRotate (id accountId : Uuid) (now : Timestamp) : Option MfaDb :=
  updateFullSession db id accountId (fun s => { s with createdAt := now }) fun _ => rfl

/-- `sys_session_reauth(id, account_id)`. -/
def sysSessionReauth (id accountId : Uuid) (now : Timestamp) : Option MfaDb :=
  updateFullSession db id accountId (fun s => { s with reauthAt := some now }) fun _ => rfl

end

/-! ## The transactions -/

/-- Why a transaction of the store was rolled back. -/
inductive StoreOutcome
  | replayed
  | changed
  | noSession
  | notEnabled
  deriving DecidableEq, Repr

/-- The rest of a transaction needs a function to have answered. -/
def orRollBack (outcome : StoreOutcome) : Option MfaDb → Except StoreOutcome MfaDb
  | some db => .ok db
  | none => .error outcome

/-- What a typed code matched: the time step of a code of the authenticator, or a backup code. -/
inductive SecondFactor
  | totp (step : ℕ)
  | backup (codeId : Uuid)
  deriving DecidableEq, Repr

section

variable (db : MfaDb)

/-- The function that accepts a factor once. -/
def acceptFactor (accountId : Uuid) (factor : SecondFactor) (secret : ℕ) (now : Timestamp) : Option MfaDb :=
  match factor with
  | .totp step => sysMfaAcceptStep db accountId step secret
  | .backup codeId => sysBackupCodeConsume db accountId codeId now

/-- `activateMfa`. -/
def activateMfa (accountId sessionId : Uuid) (step : ℕ) (secret : Sealed) (backupCodes : List (Uuid × String))
    (now : Timestamp) : Except StoreOutcome MfaDb := do
  let db ← orRollBack .replayed (sysMfaAcceptStep db accountId step secret.secret)
  let db ← orRollBack .changed (sysMfaSetActivate db accountId secret now)
  let db ← orRollBack .changed (sysBackupCodesReplace db accountId backupCodes)
  orRollBack .noSession (sysSessionRotate db sessionId accountId now)

/-- `completeMfaSignIn`. -/
def completeMfaSignIn (accountId sessionId : Uuid) (factor : SecondFactor) (secret : ℕ) (now : Timestamp) :
    Except StoreOutcome MfaDb := do
  let db ← orRollBack .replayed (acceptFactor db accountId factor secret now)
  orRollBack .noSession (sysSessionPromote db sessionId accountId now)

/-- `regenerateBackupCodes`. -/
def regenerateBackupCodes (accountId : Uuid) (step secret : ℕ) (backupCodes : List (Uuid × String)) :
    Except StoreOutcome MfaDb := do
  let db ← orRollBack .notEnabled (sysMfaLock db accountId)
  let db ← orRollBack .replayed (sysMfaAcceptStep db accountId step secret)
  orRollBack .notEnabled (sysBackupCodesReplace db accountId backupCodes)

/-- `disableMfa`. -/
def disableMfa (accountId sessionId : Uuid) (factor : SecondFactor) (secret : ℕ) (now : Timestamp) :
    Except StoreOutcome MfaDb := do
  let db ← orRollBack .notEnabled (sysMfaLock db accountId)
  let db ← orRollBack .replayed (acceptFactor db accountId factor secret now)
  let db ← orRollBack .notEnabled (sysMfaDisable db accountId)
  orRollBack .noSession (sysSessionRotate db sessionId accountId now)

/-- `reauthenticateWithStep`. -/
def reauthenticateWithStep (accountId sessionId : Uuid) (step secret : ℕ) (now : Timestamp) :
    Except StoreOutcome MfaDb := do
  let db ← orRollBack .replayed (sysMfaAcceptStep db accountId step secret)
  orRollBack .noSession (sysSessionReauth db sessionId accountId now)

end

end SlugBase.Mfa
