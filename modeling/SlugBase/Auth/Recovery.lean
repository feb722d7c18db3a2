import SlugBase.Auth.Store

/-!
# Identities and recovery

Linked identities, and the two ways an account is taken back by its mailbox.

* `sysIdentityLink`, `sysIdentityLinkByEmail`, `sysIdentityUnlink`;
* `sysPasswordReset`: the redemption of a reset token;
* `accountMarkVerified`, `sysEmailVerify`: the first verification of an address, which takes away what was set up
  before it.
-/

namespace SlugBase.Auth

open Relational

/-! ## Identities -/

/-- What `sys_identity_link` answers. -/
inductive IdentityLinkOutcome
  | linked
  | alreadyLinked
  | taken
  | noAccount
  deriving DecidableEq, Repr

/-- `sys_identity_link`. -/
def sysIdentityLink (db : AuthDb) (i : AccountIdentity) : IdentityLinkOutcome × AuthDb :=
  match db.enabledAccount i.accountId with
  | none => (.noAccount, db)
  | some _ =>
    match db.identities.insert? i with
    | some identities => (.linked, { db with identities := identities })
    | none =>
      if db.identities.any fun j => decide (j.key = i.key ∧ j.accountId = i.accountId) then (.alreadyLinked, db)
      else (.taken, db)

/-- `sys_identity_link_by_email`: the identity goes to the verified account of the provider's address. -/
def sysIdentityLinkByEmail (db : AuthDb) (id : Uuid) (provider subject : String) (email : Address) :
    IdentityLinkOutcome × AuthDb :=
  match db.accounts.find? fun a => decide (a.email = email ∧ a.emailVerifiedAt ≠ none ∧ a.disabledAt = none) with
  | none => (.noAccount, db)
  | some a => sysIdentityLink db ⟨id, a.id, provider, subject⟩

/-- What `sys_identity_unlink` answers. -/
inductive IdentityUnlinkOutcome
  | unlinked
  | notFound
  | lastSignInMethod
  deriving DecidableEq, Repr

/-- `sys_identity_unlink`. -/
def sysIdentityUnlink (db : AuthDb) (accountId id : Uuid) : IdentityUnlinkOutcome × AuthDb :=
  match db.enabledAccount accountId with
  | none => (.notFound, db)
  | some a =>
    if !db.identities.any fun i => decide (i.id = id ∧ i.accountId = accountId) then (.notFound, db)
    else if a.passwordHash = none ∧
        (db.identities.any fun i => decide (i.accountId = accountId ∧ i.id ≠ id)) = false then
      (.lastSignInMethod, db)
    else
      (.unlinked, { db with
        identities := db.identities.deleteWhere fun i => decide (i.id = id ∧ i.accountId = accountId) })

/-! ## Recovery -/

/-- What an account loses to its owner's recovery: its sessions, its identities and the handshakes that would link one.
Its API tokens go with them. -/
def endAccess (db : AuthDb) (accountId : Uuid) : AuthDb :=
  let db := sysSessionRevokeAll db accountId none
  { db with
    identities := db.identities.deleteWhere fun i => decide (i.accountId = accountId)
    states := db.states.deleteWhere fun s => decide (s.linkAccountId = some accountId) }

/-- The session a redemption signs in with. -/
structure RedemptionSession where
  id : Uuid
  tokenHash : TokenHash
  replacedTokenHash : Option TokenHash
  deriving DecidableEq, Repr

/-- The redemption's own session, which must be created. -/
def signInRedeemed (db : AuthDb) (accountId : Uuid) (mfa : Bool) (session : RedemptionSession) (now : Timestamp) :
    Option (Option (Uuid × SessionLevel) × AuthDb) :=
  let level := if mfa then SessionLevel.partialLevel else .full
  match sysSessionCreate db ⟨session.id, accountId, level, false, session.tokenHash, session.replacedTokenHash⟩ now with
  | some (true, db) => some (some (accountId, level), db)
  | _ => none

/-- `sys_password_reset`. -/
def sysPasswordReset (db : AuthDb) (tokenHash : TokenHash) (passwordHash : PasswordHash)
    (session : RedemptionSession) (now : Timestamp) : Option (Option (Uuid × SessionLevel) × AuthDb) :=
  match sysCredentialTokenConsume db .passwordReset tokenHash now with
  | none => some (none, db)
  | some (t, db) =>
    match db.accounts.find? fun a =>
      decide (a.id = t.accountId ∧ a.disabledAt = none ∧ a.emailVerifiedAt ≠ none) with
    | none => some (none, db)
    | some a =>
      match sysPasswordSet db t.accountId passwordHash now with
      | (false, _) => none
      | (true, db) => signInRedeemed (endAccess db t.accountId) t.accountId a.mfaEnabledAt.isSome session now

/-- The tokens of an account that verifying its address ends. -/
def endedByVerification (accountId : Uuid) (t : CredentialToken) : Bool :=
  decide (t.accountId = accountId ∧ t.usedAt = none ∧
    (t.purpose = .passwordReset ∨ t.purpose = .emailChange ∨ t.purpose = .emailChangeCancel))

/-- `account_mark_verified(account_id, password_hash)`. -/
def accountMarkVerified (db : AuthDb) (accountId : Uuid) (passwordHash : Option PasswordHash) (now : Timestamp) :
    Option AuthDb :=
  if !db.accounts.any fun a => decide (a.id = accountId ∧ a.emailVerifiedAt = none) then none
  else
    let stored :=
      match passwordHash with
      | none => (true, db.updateAccount accountId
          (fun a => { a with passwordHash := none, passwordChangedAt := some now }) fun _ => rfl)
      | some hash => sysPasswordSet db accountId hash now
    if !stored.1 then none
    else
      some (((endAccess stored.2 accountId).deleteTokens (endedByVerification accountId)).updateAccount accountId
        (fun a => { a with mfaEnabledAt := none, pendingEmail := none, emailVerifiedAt := some now }) fun _ => rfl)

/-- `sys_email_verify`; what it does to the workspaces of the account is the members' model. -/
def sysEmailVerify (db : AuthDb) (tokenHash : TokenHash) (passwordHash : PasswordHash) (session : RedemptionSession)
    (now : Timestamp) : Option (Option (Uuid × SessionLevel) × AuthDb) :=
  match sysCredentialTokenConsume db .emailVerify tokenHash now with
  | none => some (none, db)
  | some (t, db) =>
    match db.enabledAccount t.accountId with
    | none => some (none, db)
    | some a =>
      if a.emailVerifiedAt = none then
        (accountMarkVerified db t.accountId (some passwordHash) now).bind fun db =>
          signInRedeemed db t.accountId false session now
      else signInRedeemed db t.accountId a.mfaEnabledAt.isSome session now

end SlugBase.Auth
