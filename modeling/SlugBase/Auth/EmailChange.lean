import SlugBase.Auth.Recovery

/-!
# Changing the address of an account

The pending address, its two emailed tokens and the mail job that issues them.

* `sysCreateAccount`: no account is made on an address that is reserved;
* `sysEmailChangeRequest`, `sysEmailChangeClear`, `sysEmailChangeTokenIssue`;
* `sysEmailChangeConfirm`, `sysEmailChangeCancel`: the link to the new address and the link of the notice to the old;
* `mailSendJob`: the messages of a job, in the order they are handed to the mail port.
-/

namespace SlugBase.Auth

open Relational

/-! ## Reserved addresses -/

/-- An unused cancel token that has not expired and records this address. -/
def CredentialToken.reserves (t : CredentialToken) (email : Address) (now : Timestamp) : Bool :=
  decide (t.purpose = .emailChangeCancel ∧ t.usedAt = none ∧ now < t.expiresAt ∧ t.targetEmail = some email)

/-- Whether another account holds the address. -/
def heldByOther (db : AuthDb) (email : Address) (accountId : Uuid) : Bool :=
  db.accounts.any fun o => decide (o.email = email ∧ o.id ≠ accountId)

/-- Whether the address is reserved to another account. -/
def reservedByOther (db : AuthDb) (email : Address) (accountId : Uuid) (now : Timestamp) : Bool :=
  db.tokens.any fun r => r.reserves email now && decide (r.accountId ≠ accountId)

/-- What an account is created with. -/
structure NewAccount where
  id : Uuid
  email : Address
  passwordHash : Option PasswordHash
  emailVerified : Bool
  deriving DecidableEq, Repr

/-- `sys_create_account`; `false` when the address is reserved or taken. -/
def sysCreateAccount (db : AuthDb) (a : NewAccount) (now : Timestamp) : Bool × AuthDb :=
  if db.tokens.any (·.reserves a.email now) || db.accounts.any fun o => decide (o.email = a.email) then (false, db)
  else
    match db.accounts.insert? ⟨a.id, a.email, if a.emailVerified then some now else none, none, a.passwordHash, none,
      none, none, .full⟩ with
    | none => (false, db)
    | some accounts => (true, { db with accounts := accounts })

/-! ## The pending change -/

/-- The unused tokens of an account's pending change: the confirmations, and the cancel tokens that record the address
it holds, or none. -/
def ofPendingChange (accountId : Uuid) (email : Address) (t : CredentialToken) : Bool :=
  decide (t.accountId = accountId ∧ t.usedAt = none ∧
    (t.purpose = .emailChange ∨
      t.purpose = .emailChangeCancel ∧ (t.targetEmail = none ∨ t.targetEmail = some email)))

/-- `sys_email_change_request(account_id, email)`. -/
def sysEmailChangeRequest (db : AuthDb) (accountId : Uuid) (email : Address) : Bool × AuthDb :=
  match db.enabledAccount accountId with
  | none => (false, db)
  | some a =>
    (true, (db.deleteTokens (ofPendingChange accountId a.email)).updateAccount accountId
      (fun a => { a with pendingEmail := some email }) fun _ => rfl)

/-- `sys_email_change_clear(account_id)`. -/
def sysEmailChangeClear (db : AuthDb) (accountId : Uuid) : Bool × AuthDb :=
  match db.enabledAccount accountId with
  | none => (false, db)
  | some a =>
    (true, (db.deleteTokens (ofPendingChange accountId a.email)).updateAccount accountId
      (fun a => { a with pendingEmail := none }) fun _ => rfl)

/-- The unused confirmations of an account. -/
def confirmations (accountId : Uuid) (t : CredentialToken) : Bool :=
  decide (t.accountId = accountId ∧ t.purpose = .emailChange ∧ t.usedAt = none)

/-- The unused cancel tokens of an account that record this address, or none. -/
def notices (accountId : Uuid) (email : Address) (t : CredentialToken) : Bool :=
  decide (t.accountId = accountId ∧ t.purpose = .emailChangeCancel ∧ t.usedAt = none ∧
    (t.targetEmail = none ∨ t.targetEmail = some email))

/-- The account whose change a token may be issued for: enabled, with a verified address. -/
def changingAccount (db : AuthDb) (accountId : Uuid) : Option Account :=
  db.accounts.find? fun a => decide (a.id = accountId ∧ a.disabledAt = none ∧ a.emailVerifiedAt ≠ none)

/-- `sys_email_change_token_issue` for the purpose `email_change_cancel`. -/
def issueCancelToken (db : AuthDb) (accountId : Uuid) (tokenHash : TokenHash) (ttlSeconds : ℕ) (now : Timestamp) :
    Option (Option Address × AuthDb) :=
  match changingAccount db accountId with
  | none => some (none, db)
  | some a =>
    match a.pendingEmail with
    | none => some (none, db)
    | some pending =>
      ((db.deleteTokens (notices accountId a.email)).insertToken
        ⟨tokenHash, .emailChangeCancel, accountId, some a.email, now, now + seconds ttlSeconds, none⟩).map fun db =>
          (some pending, db)

/-- `sys_email_change_token_issue` for the purpose `email_change`. -/
def issueChangeToken (db : AuthDb) (accountId : Uuid) (tokenHash : TokenHash) (ttlSeconds : ℕ) (now : Timestamp) :
    Option (Option Address × AuthDb) :=
  match changingAccount db accountId with
  | none => some (none, db)
  | some a =>
    match a.pendingEmail with
    | none => some (none, db)
    | some pending =>
      if decide (pending = a.email) || heldByOther db pending accountId || reservedByOther db pending accountId now then
        some (none, db.deleteTokens (confirmations accountId))
      else
        match sysCredentialTokenIssue db .emailChange accountId tokenHash (some pending) ttlSeconds now with
        | none => none
        | some (false, db) => some (none, db)
        | some (true, db) => some (some pending, db)

/-! ## Redemption -/

/-- `sys_email_change_confirm(token_hash)`: the account it moved to the new address. -/
def sysEmailChangeConfirm (db : AuthDb) (tokenHash : TokenHash) (now : Timestamp) : Option Uuid × AuthDb :=
  match sysCredentialTokenConsume db .emailChange tokenHash now with
  | none => (none, db)
  | some (t, db) =>
    match t.targetEmail with
    | none => (none, db)
    | some target =>
      if !db.accounts.any fun a => decide (a.id = t.accountId ∧ a.disabledAt = none ∧ a.emailVerifiedAt ≠ none ∧
          a.pendingEmail = some target) then (none, db)
      else if heldByOther db target t.accountId || reservedByOther db target t.accountId now then (none, db)
      else
        (some t.accountId, (db.deleteTokens (confirmations t.accountId)).updateAccount t.accountId
          (fun a => { a with email := target, pendingEmail := none }) fun _ => rfl)

/-- The unused tokens that putting an address back ends: what was sent for the addresses the account held later. -/
def endedByUndo (accountId : Uuid) (issued : Timestamp) (t : CredentialToken) : Bool :=
  decide (t.accountId = accountId ∧ t.usedAt = none ∧
    (t.purpose = .passwordReset ∨ t.purpose = .emailChange ∨
      t.purpose = .emailChangeCancel ∧ (t.targetEmail = none ∨ issued < t.createdAt)))

/-- `sys_email_change_cancel(token_hash)`: the account whose change it cancelled or undid. -/
def sysEmailChangeCancel (db : AuthDb) (tokenHash : TokenHash) (now : Timestamp) : Option Uuid × AuthDb :=
  match sysCredentialTokenConsume db .emailChangeCancel tokenHash now with
  | none => (none, db)
  | some (t, db) =>
    match db.enabledAccount t.accountId with
    | none => (none, db)
    | some a =>
      let cleared := db.updateAccount t.accountId (fun a => { a with pendingEmail := none }) fun _ => rfl
      let restored :=
        match t.targetEmail with
        | some target =>
          if a.email = target then cleared.deleteTokens (confirmations t.accountId)
          else
            (if heldByOther cleared target t.accountId then cleared
              else cleared.updateAccount t.accountId (fun a => { a with email := target }) fun _ => rfl).deleteTokens
                (endedByUndo t.accountId t.createdAt)
        | none => cleared.deleteTokens (confirmations t.accountId)
      (some t.accountId, sysSessionRevokeAll restored t.accountId none)

/-! ## The mail job -/

/-- A message that carries a token, and the address it goes to. -/
inductive Mail
  | emailChangeNotice (recipient : Address) (token : TokenHash)
  | emailChange (recipient : Address) (token : TokenHash)
  | passwordReset (recipient : Address) (token : TokenHash)
  | verifyEmail (recipient : Address) (token : TokenHash)
  deriving DecidableEq, Repr

/-- The templates whose message carries a token. -/
inductive MailTemplate
  | emailChange
  | passwordReset
  | verifyEmail
  deriving DecidableEq, Repr

/-- The tokens a run of the job generates. -/
structure GeneratedTokens where
  first : TokenHash
  second : TokenHash
  deriving DecidableEq, Repr

/-- `CREDENTIAL_TOKEN_TTL_SECONDS`. -/
def credentialTokenTtlSeconds : CredentialTokenPurpose → ℕ
  | .emailVerify => 24 * 60 * 60
  | .emailChange | .emailChangeCancel | .passwordReset => 60 * 60

/-- The one message of a job whose template takes a token of its own. -/
def issueAndMail (db : AuthDb) (a : Account) (purpose : CredentialTokenPurpose) (token : TokenHash)
    (message : Address → TokenHash → Mail) (now : Timestamp) : Option (List Mail × AuthDb) :=
  (sysCredentialTokenIssue db purpose a.id token none (credentialTokenTtlSeconds purpose) now).map fun r =>
    (if r.1 then [message a.email token] else [], r.2)

/-- The transaction of `mailSendJob`: the messages it hands to the mail port afterwards, one by one. -/
def mailSendJob (db : AuthDb) (template : MailTemplate) (accountId : Uuid) (tokens : GeneratedTokens)
    (now : Timestamp) : Option (List Mail × AuthDb) :=
  match db.accounts.find? fun a => decide (a.id = accountId) with
  | none => some ([], db)
  | some profile =>
    match template with
    | .passwordReset =>
      if profile.passwordHash = none ∨ profile.emailVerifiedAt = none then some ([], db)
      else issueAndMail db profile .passwordReset tokens.first .passwordReset now
    | .verifyEmail =>
      if profile.emailVerifiedAt ≠ none then some ([], db)
      else issueAndMail db profile .emailVerify tokens.first .verifyEmail now
    | .emailChange =>
      if profile.emailVerifiedAt = none then some ([], db)
      else
        match issueCancelToken db accountId tokens.first (credentialTokenTtlSeconds .emailChangeCancel) now with
        | none => none
        | some (none, db) => some ([], db)
        | some (some _, db) =>
          match issueChangeToken db accountId tokens.second (credentialTokenTtlSeconds .emailChange) now with
          | none => none
          | some (none, db) => some ([.emailChangeNotice profile.email tokens.first], db)
          | some (some pending, db) =>
            some ([.emailChangeNotice profile.email tokens.first, .emailChange pending tokens.second], db)

end SlugBase.Auth
