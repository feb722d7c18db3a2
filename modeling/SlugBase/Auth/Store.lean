import SlugBase.Schema

/-!
# Accounts, sessions and emailed tokens

The rows behind signing in, and the functions on sessions, tokens and passwords that the operations on an account
are made of. Each runs at one time `now` of the database's clock; `none` is a statement that raises, which undoes
the transaction.

* `AuthDb`: accounts, sessions, emailed tokens, linked identities and pending handshakes;
* `sysSessionCreate`, `sysSessionLookup`, `sysSessionRotate`, `sysSessionPromote`, `sysSessionRevokeAll`;
* `sysCredentialTokenIssue`, `sysCredentialTokenConsume`;
* `sysPasswordSet`, `sysPasswordSetInitial`.
-/

namespace SlugBase.Auth

open Relational

/-! ## Rows -/

/-- An address as `citext` compares it. -/
abbrev Address := String

/-- A password's argon2id hash. -/
abbrev PasswordHash := String

/-- The SHA-256 of a token. -/
abbrev TokenHash := ℕ

/-- A row of `accounts`. -/
structure Account where
  id : Uuid
  email : Address
  emailVerifiedAt : Option Timestamp
  pendingEmail : Option Address
  passwordHash : Option PasswordHash
  passwordChangedAt : Option Timestamp
  mfaEnabledAt : Option Timestamp
  disabledAt : Option Timestamp
  accessMode : AccessMode
  deriving DecidableEq, Repr

/-- The levels of a session: waiting for the second factor, or complete. -/
inductive SessionLevel
  | partialLevel
  | full
  deriving DecidableEq, Repr

/-- A row of `sessions`. -/
structure Session where
  id : Uuid
  tokenHash : TokenHash
  accountId : Uuid
  level : SessionLevel
  remember : Bool
  createdAt : Timestamp
  lastSeenAt : Timestamp
  expiresAt : Timestamp
  absoluteExpiresAt : Timestamp
  reauthAt : Option Timestamp
  deriving DecidableEq, Repr

/-- What an emailed token is for. -/
inductive CredentialTokenPurpose
  | emailVerify
  | emailChange
  | emailChangeCancel
  | passwordReset
  deriving DecidableEq, Repr

/-- A row of `credential_tokens`. -/
structure CredentialToken where
  tokenHash : TokenHash
  purpose : CredentialTokenPurpose
  accountId : Uuid
  targetEmail : Option Address
  createdAt : Timestamp
  expiresAt : Timestamp
  usedAt : Option Timestamp
  deriving DecidableEq, Repr

/-- A row of `account_identities`. -/
structure AccountIdentity where
  id : Uuid
  accountId : Uuid
  provider : String
  subject : String
  deriving DecidableEq, Repr

/-- The column `intent` of `oidc_login_states`. -/
inductive OidcIntent
  | login
  | link
  | reauth
  deriving DecidableEq, Repr

/-- A row of `oidc_login_states`. -/
structure OidcLoginState where
  stateHash : TokenHash
  provider : String
  intent : OidcIntent
  linkAccountId : Option Uuid
  expiresAt : Timestamp
  deriving DecidableEq, Repr

/-- The pair an identity is unique by. -/
def AccountIdentity.key (i : AccountIdentity) : String × String := (i.provider, i.subject)

/-- **The tables behind signing in**, each under the key its rows are found by. -/
structure AuthDb where
  accounts : Table Account Account.id := ∅
  sessions : Table Session Session.id := ∅
  tokens : Table CredentialToken CredentialToken.tokenHash := ∅
  identities : Table AccountIdentity AccountIdentity.key := ∅
  states : Table OidcLoginState OidcLoginState.stateHash := ∅

/-- So many seconds. -/
def seconds (n : ℕ) : Timestamp := n * 1000000

/-- So many days. -/
def days (n : ℕ) : Timestamp := seconds (n * 86400)

namespace AuthDb

variable (db : AuthDb)

/-- The account of an identifier, unless it is disabled. -/
def enabledAccount (id : Uuid) : Option Account :=
  db.accounts.find? fun a => decide (a.id = id ∧ a.disabledAt = none)

/-- `UPDATE accounts … WHERE id = …`. -/
def updateAccount (id : Uuid) (f : Account → Account) (hf : ∀ a, (f a).id = a.id) : AuthDb :=
  { db with accounts := db.accounts.updateWhere (fun a => decide (a.id = id)) f hf }

/-- The part of `sys_instance_update_account` that switches an account off or on. -/
def setDisabled (id : Uuid) (disabledAt : Option Timestamp) : AuthDb :=
  db.updateAccount id (fun a => { a with disabledAt := disabledAt }) fun _ => rfl

/-- `DELETE FROM credential_tokens WHERE …`. -/
def deleteTokens (p : CredentialToken → Bool) : AuthDb := { db with tokens := db.tokens.deleteWhere p }

/-- `DELETE FROM sessions WHERE …`. -/
def deleteSessions (p : Session → Bool) : AuthDb := { db with sessions := db.sessions.deleteWhere p }

/-- `INSERT INTO credential_tokens`, which raises when the hash is taken. -/
def insertToken (t : CredentialToken) : Option AuthDb :=
  (db.tokens.insert? t).map fun tokens => { db with tokens := tokens }

variable {db}

theorem enabledAccount_some {id : Uuid} {a : Account} (h : db.enabledAccount id = some a) :
    a ∈ db.accounts ∧ a.id = id ∧ a.disabledAt = none := by
  obtain ⟨hmem, ha⟩ := Table.find?_some h
  obtain ⟨hid, henabled⟩ := of_decide_eq_true ha
  exact ⟨hmem, hid, henabled⟩

theorem updateAccount_mem {id : Uuid} {f : Account → Account} {hf : ∀ a, (f a).id = a.id} {a : Account}
    (h : a ∈ db.accounts) : (if a.id = id then f a else a) ∈ (db.updateAccount id f hf).accounts := by
  simp only [updateAccount, Table.mem_updateWhere, decide_eq_true_eq]
  exact ⟨a, h, rfl⟩

theorem mem_updateAccount {id : Uuid} {f : Account → Account} {hf : ∀ a, (f a).id = a.id} {a : Account}
    (h : a ∈ (db.updateAccount id f hf).accounts) :
    ∃ a₀ ∈ db.accounts, a₀.id = a.id ∧ a = if a₀.id = id then f a₀ else a₀ := by
  simp only [updateAccount, Table.mem_updateWhere, decide_eq_true_eq] at h
  obtain ⟨a₀, ha₀, rfl⟩ := h
  refine ⟨a₀, ha₀, ?_, rfl⟩
  split
  · exact (hf a₀).symm
  · rfl

theorem insertToken_some {t : CredentialToken} {db' : AuthDb} (h : db.insertToken t = some db') :
    ∃ tokens, db.tokens.insert? t = some tokens ∧ db' = { db with tokens := tokens } := by
  obtain ⟨tokens, htokens, rfl⟩ := Option.map_eq_some_iff.mp h
  exact ⟨tokens, htokens, rfl⟩

theorem insertToken_mem {p : CredentialToken → Bool} {t c : CredentialToken} {db' : AuthDb}
    (h : (db.deleteTokens p).insertToken t = some db') (hc : c ∈ db.tokens) (hp : p c = false) : c ∈ db'.tokens := by
  obtain ⟨tokens, htokens, rfl⟩ := insertToken_some h
  exact (Table.mem_insert? htokens).mpr (.inl (Table.mem_deleteWhere.mpr ⟨hc, hp⟩))

theorem mem_insertToken {p : CredentialToken → Bool} {t c : CredentialToken} {db' : AuthDb}
    (h : (db.deleteTokens p).insertToken t = some db') (hc : c ∈ db'.tokens) :
    (c ∈ db.tokens ∧ p c = false) ∨ c = t := by
  obtain ⟨tokens, htokens, rfl⟩ := insertToken_some h
  exact ((Table.mem_insert? htokens).mp hc).imp Table.mem_deleteWhere.mp id

theorem insertToken_accounts {p : CredentialToken → Bool} {t : CredentialToken} {db' : AuthDb}
    (h : (db.deleteTokens p).insertToken t = some db') : db'.accounts = db.accounts := by
  obtain ⟨tokens, -, rfl⟩ := insertToken_some h
  rfl

end AuthDb

/-! ## Sessions -/

/-- What a session is created with. -/
structure NewSession where
  id : Uuid
  accountId : Uuid
  level : SessionLevel
  remember : Bool
  tokenHash : TokenHash
  replacedTokenHash : Option TokenHash
  deriving DecidableEq, Repr

/-- The row of a session made at this time: a partial one lasts five minutes, a complete one 30 days, or 90 when it is
remembered, from the last time it was seen, and 180 days in all. -/
def NewSession.row (s : NewSession) (now : Timestamp) : Session where
  id := s.id
  tokenHash := s.tokenHash
  accountId := s.accountId
  level := s.level
  remember := s.remember
  createdAt := now
  lastSeenAt := now
  expiresAt :=
    match s.level with
    | .partialLevel => now + seconds 300
    | .full => now + days (if s.remember then 90 else 30)
  absoluteExpiresAt :=
    match s.level with
    | .partialLevel => now + seconds 300
    | .full => now + days 180
  reauthAt := none

/-- `INSERT INTO sessions`, which raises when the identifier or the token's hash is taken, and the deletion of the
session whose token the new one replaces. -/
def insertSession (db : AuthDb) (row : Session) (replacedTokenHash : Option TokenHash) : Option AuthDb :=
  if db.sessions.any fun s => decide (s.tokenHash = row.tokenHash) then none
  else
    (db.sessions.insert? row).map fun sessions =>
      ({ db with sessions := sessions } : AuthDb).deleteSessions fun s => decide (some s.tokenHash = replacedTokenHash)

/-- `sys_session_create`: for an account that is not disabled, of the level its second factor asks for. -/
def sysSessionCreate (db : AuthDb) (s : NewSession) (now : Timestamp) : Option (Bool × AuthDb) :=
  match db.accounts.find? fun a => decide (a.id = s.accountId ∧ a.disabledAt = none ∧
    (a.mfaEnabledAt.isSome = true ↔ s.level = .partialLevel)) with
  | none => some (false, db)
  | some _ => (insertSession db (s.row now) s.replacedTokenHash).map fun db => (true, db)

/-- Whether `sys_session_lookup` accepts a session: it has not expired, its account is not disabled and it was not made
before the account's password changed. -/
def accepted (db : AuthDb) (s : Session) (now : Timestamp) : Bool :=
  decide (now < s.expiresAt ∧ now < s.absoluteExpiresAt) &&
    db.accounts.any fun a => decide (a.id = s.accountId ∧ a.disabledAt = none) &&
      a.passwordChangedAt.all fun changed => decide (changed ≤ s.createdAt)

/-- A complete session that is used slides its expiry, at most once a minute. -/
def slid (s : Session) (now : Timestamp) : Session :=
  { s with
    lastSeenAt := now
    expiresAt := min (now + days (if s.remember then 90 else 30)) s.absoluteExpiresAt }

/-- `sys_session_lookup(token_hash)`. -/
def sysSessionLookup (db : AuthDb) (tokenHash : TokenHash) (now : Timestamp) : Option Session × AuthDb :=
  match db.sessions.find? fun s => decide (s.tokenHash = tokenHash) && accepted db s now with
  | none => (none, db)
  | some s =>
    (some s, if s.level = .full ∧ s.lastSeenAt + seconds 60 ≤ now then
      { db with sessions := db.sessions.updateWhere (fun r => decide (r.id = s.id)) (slid · now) fun _ => rfl }
    else db)

/-- `sys_session_revoke_all(account_id, except_id)`. -/
def sysSessionRevokeAll (db : AuthDb) (accountId : Uuid) (exceptId : Option Uuid) : AuthDb :=
  db.deleteSessions fun s => decide (s.accountId = accountId ∧ some s.id ≠ exceptId)

/-- `sys_session_rotate(id, account_id, new_token_hash)`: a complete session goes on under a new token. -/
def sysSessionRotate (db : AuthDb) (id accountId : Uuid) (newTokenHash : TokenHash) (now : Timestamp) :
    Option (Bool × AuthDb) :=
  let own (s : Session) := decide (s.id = id ∧ s.accountId = accountId ∧ s.level = .full)
  if !db.sessions.any own then some (false, db)
  else if db.sessions.any fun s => decide (s.tokenHash = newTokenHash ∧ s.id ≠ id) then none
  else
    some (true, { db with
      sessions := db.sessions.updateWhere own
        (fun s => { s with tokenHash := newTokenHash, createdAt := now }) fun _ => rfl })

/-- A partial session becomes a complete one under a new token. -/
def promoted (s : Session) (newTokenHash : TokenHash) (now : Timestamp) : Session :=
  { s with
    level := .full
    tokenHash := newTokenHash
    createdAt := now
    lastSeenAt := now
    expiresAt := now + days (if s.remember then 90 else 30)
    absoluteExpiresAt := now + days 180 }

/-- `sys_session_promote(id, account_id, new_token_hash)`. -/
def sysSessionPromote (db : AuthDb) (id accountId : Uuid) (newTokenHash : TokenHash) (now : Timestamp) :
    Option (Bool × AuthDb) :=
  match db.accounts.find? fun a => decide (a.id = accountId ∧ a.disabledAt = none ∧ a.mfaEnabledAt ≠ none) with
  | none => some (false, db)
  | some a =>
    let own (s : Session) := decide (s.id = id ∧ s.accountId = accountId ∧ s.level = .partialLevel ∧
      now < s.expiresAt ∧ now < s.absoluteExpiresAt) &&
        a.passwordChangedAt.all fun changed => decide (changed ≤ s.createdAt)
    if !db.sessions.any own then some (false, db)
    else if db.sessions.any fun s => decide (s.tokenHash = newTokenHash ∧ s.id ≠ id) then none
    else
      some (true, { db with
        sessions := db.sessions.updateWhere own (promoted · newTokenHash now) fun _ => rfl })

/-! ## Emailed tokens -/

/-- `sys_credential_token_issue`: the older unused tokens of the purpose are replaced. -/
def sysCredentialTokenIssue (db : AuthDb) (purpose : CredentialTokenPurpose) (accountId : Uuid)
    (tokenHash : TokenHash) (targetEmail : Option Address) (ttlSeconds : ℕ) (now : Timestamp) :
    Option (Bool × AuthDb) :=
  match db.enabledAccount accountId with
  | none => some (false, db)
  | some _ =>
    ((db.deleteTokens fun t =>
      decide (t.accountId = accountId ∧ t.purpose = purpose ∧ t.usedAt = none)).insertToken
        ⟨tokenHash, purpose, accountId, targetEmail, now, now + seconds ttlSeconds, none⟩).map fun db => (true, db)

/-- Whether a token can be redeemed for a purpose. -/
def CredentialToken.redeemable (t : CredentialToken) (purpose : CredentialTokenPurpose) (tokenHash : TokenHash)
    (now : Timestamp) : Bool :=
  decide (t.purpose = purpose ∧ t.tokenHash = tokenHash ∧ t.usedAt = none ∧ now < t.expiresAt)

/-- The table of tokens after one is marked used. -/
def AuthDb.markUsed (db : AuthDb) (p : CredentialToken → Bool) (now : Timestamp) : AuthDb :=
  { db with tokens := db.tokens.updateWhere p (fun t => { t with usedAt := some now }) fun _ => rfl }

theorem mem_markUsed {db : AuthDb} {p : CredentialToken → Bool} {now : Timestamp} {t' : CredentialToken}
    (h : t' ∈ (db.markUsed p now).tokens) :
    ∃ t ∈ db.tokens, (p t = true ∧ t' = { t with usedAt := some now }) ∨ (p t = false ∧ t' = t) := by
  simp only [AuthDb.markUsed, Table.mem_updateWhere] at h
  obtain ⟨t, ht, rfl⟩ := h
  refine ⟨t, ht, ?_⟩
  by_cases hp : p t = true
  · exact .inl ⟨hp, if_pos hp⟩
  · exact .inr ⟨Bool.eq_false_iff.mpr hp, if_neg hp⟩

theorem markUsed_mem {db : AuthDb} (p : CredentialToken → Bool) (now : Timestamp) {t : CredentialToken}
    (h : t ∈ db.tokens) : (if p t then { t with usedAt := some now } else t) ∈ (db.markUsed p now).tokens := by
  simp only [AuthDb.markUsed, Table.mem_updateWhere]
  exact ⟨t, h, rfl⟩

/-- `sys_credential_token_consume(purpose, hash)`: the token it redeemed, used from now on. -/
def sysCredentialTokenConsume (db : AuthDb) (purpose : CredentialTokenPurpose) (tokenHash : TokenHash)
    (now : Timestamp) : Option (CredentialToken × AuthDb) :=
  (db.tokens.find? (·.redeemable purpose tokenHash now)).map fun t =>
    (t, db.markUsed (·.redeemable purpose tokenHash now) now)

theorem sysCredentialTokenConsume_some {db db' : AuthDb} {purpose : CredentialTokenPurpose} {tokenHash : TokenHash}
    {now : Timestamp} {t : CredentialToken} (h : sysCredentialTokenConsume db purpose tokenHash now = some (t, db')) :
    t ∈ db.tokens ∧ t.redeemable purpose tokenHash now = true ∧
      db' = db.markUsed (·.redeemable purpose tokenHash now) now := by
  obtain ⟨t', hfind, heq⟩ := Option.map_eq_some_iff.mp h
  obtain ⟨rfl, rfl⟩ := Prod.mk.inj heq
  obtain ⟨hmem, hlive⟩ := Table.find?_some hfind
  exact ⟨hmem, hlive, rfl⟩

theorem CredentialToken.redeemable_purpose {t : CredentialToken} {purpose : CredentialTokenPurpose}
    {tokenHash : TokenHash} {now : Timestamp} (h : t.redeemable purpose tokenHash now = true) : t.purpose = purpose :=
  (of_decide_eq_true h).1

/-! ## Passwords -/

/-- `sys_password_set(account_id, hash)`. -/
def sysPasswordSet (db : AuthDb) (accountId : Uuid) (hash : PasswordHash) (now : Timestamp) : Bool × AuthDb :=
  match db.enabledAccount accountId with
  | none => (false, db)
  | some _ =>
    (true, db.updateAccount accountId
      (fun a => { a with passwordHash := some hash, passwordChangedAt := some now }) fun _ => rfl)

/-- `sys_password_set_initial(account_id, hash)`. -/
def sysPasswordSetInitial (db : AuthDb) (accountId : Uuid) (hash : PasswordHash) (now : Timestamp) : Bool × AuthDb :=
  match db.enabledAccount accountId with
  | none => (false, db)
  | some a => if a.passwordHash.isSome then (false, db) else sysPasswordSet db accountId hash now

/-- What a password change writes. -/
structure PasswordChange where
  accountId : Uuid
  sessionId : Uuid
  passwordHash : PasswordHash
  initial : Bool
  newTokenHash : TokenHash
  deriving DecidableEq, Repr

end SlugBase.Auth
