import SlugBase.Schema
import SlugBase.Lib.ReadCommitted
import Mathlib.Data.List.Dedup
import Mathlib.Data.List.Sort

/-!
# The accounts of an instance under concurrent transactions

The accounts with the flags an instance admin or the end of a period changes, and the log of those changes. An account
is made under an identifier drawn at random, so no operation names it before it is there.

* `AccountRow`, `AuditEvent`: the rows; an event of the end of a period says which period it was;
* `Statement`: the statements that write one row;
* `sysInstanceUpdateAccount`: the admin flag and the disabled state; `sysDeleteAccount`,
  `sysInstanceDeleteAccount`: the deletion;
* `accessModeApply`, `sysAccountAccessModeEnd`, `endAccessMode`: the export-only access mode;
* `Request`, `Request.program`: the requests a database serves.
-/

namespace SlugBase.Instance

open ReadCommitted

/-! ## Rows -/

/-- The column `export_only_end_action`, and the action a period is ended with. -/
inductive EndAction
  | disable
  | delete
  deriving DecidableEq, Repr

/-- The columns of the export-only access mode, which are set exactly while the mode is `export_only`. `setBy` is no
column: it is the event under which the period was set, and tells the periods apart. -/
structure ExportOnly where
  exportOnlyUntil : Timestamp
  exportOnlyEndAction : EndAction
  setBy : Uuid
  deriving DecidableEq, Repr

/-- A row of `accounts`. -/
structure AccountRow where
  emailVerifiedAt : Option Timestamp
  disabledAt : Option Timestamp
  mfaEnabledAt : Option Timestamp
  isInstanceAdmin : Bool
  exportOnly : Option ExportOnly
  deriving DecidableEq, Repr

/-- The action and the metadata of a row of `audit_events`. The end of a period also says which period ended and what
the clock said when it was found due, which are no columns. -/
inductive AuditEvent
  | accountAdminGranted
  | accountAdminRevoked
  | accountDisabled
  | accountEnabled
  | accountEmailVerified
  | accountDeleted
  | accountExportOnlySet (exportOnlyUntil : Timestamp) (endAction : EndAction)
  | accountExportOnlyCleared
  | accountExportOnlyEnded (endAction : EndAction) (period : Uuid) (foundDueAt : Timestamp)
  deriving DecidableEq, Repr

/-- The rows' keys, and the key of the advisory lock of the set of instance admins. -/
inductive Key
  | account (id : Uuid)
  | auditEvent (id : Uuid)
  | instanceAdmins
  deriving DecidableEq, Repr

/-- The row of a key. -/
@[reducible] def Row : Key → Type
  | .account _ => AccountRow
  | .auditEvent _ => AuditEvent
  | .instanceAdmins => Unit

/-- The rows of a database. -/
abbrev Rows := AList Row

namespace Rows

variable (db : Rows)

/-- The row of an account. -/
abbrev account (id : Uuid) : Option AccountRow := db.lookup (.account id)

/-- The row of an audit event. -/
abbrev auditEvent (id : Uuid) : Option AuditEvent := db.lookup (.auditEvent id)

/-- The rows of `accounts`. -/
def accounts : List (Uuid × AccountRow) :=
  db.entries.filterMap fun
    | ⟨.account a, row⟩ => some (a, row)
    | _ => none

variable {db}

theorem mem_accounts {a : Uuid} {row : AccountRow} : (a, row) ∈ accounts db ↔ db.account a = some row := by
  rw [accounts, List.mem_filterMap]
  constructor
  · rintro ⟨⟨k, row'⟩, hmem, heq⟩
    cases k with
    | account a' =>
      cases heq
      exact AList.mem_lookup_iff.mpr hmem
    | auditEvent | instanceAdmins => cases heq
  · intro h
    exact ⟨⟨.account a, row⟩, AList.mem_lookup_iff.mp h, rfl⟩

end Rows

/-- `is_instance_admin AND disabled_at IS NULL`. -/
def AccountRow.enabledAdmin (row : AccountRow) : Bool := row.isInstanceAdmin && row.disabledAt.isNone

/-- The account is an instance admin that is enabled. -/
def EnabledAdmin (db : Rows) (a : Uuid) : Prop := ∃ row, db.account a = some row ∧ row.enabledAdmin = true

/-- `EXISTS (SELECT 1 FROM accounts WHERE is_instance_admin AND disabled_at IS NULL AND id <> account_id)`. -/
def otherEnabledAdmin (db : Rows) (accountId : Uuid) : Bool :=
  (Rows.accounts db).any fun a => a.2.enabledAdmin && decide (a.1 ≠ accountId)

theorem otherEnabledAdmin_iff {db : Rows} {a : Uuid} :
    otherEnabledAdmin db a = true ↔ ∃ b, b ≠ a ∧ EnabledAdmin db b := by
  rw [otherEnabledAdmin, List.any_eq_true]
  constructor
  · rintro ⟨⟨b, row⟩, hmem, h⟩
    obtain ⟨hrow, hne⟩ := Bool.and_eq_true_iff.mp h
    exact ⟨b, of_decide_eq_true hne, row, Rows.mem_accounts.mp hmem, hrow⟩
  · rintro ⟨b, hne, row, hlookup, hrow⟩
    have hmem : (b, row) ∈ Rows.accounts db := Rows.mem_accounts.mpr hlookup
    exact ⟨(b, row), hmem, Bool.and_eq_true_iff.mpr ⟨hrow, decide_eq_true hne⟩⟩

/-! ## Statements -/

/-- The `SET` of an `UPDATE accounts`. -/
inductive AccountSet
  | isInstanceAdmin (value : Bool)
  | disabledAt (value : Option Timestamp)
  | emailVerifiedAt (now : Timestamp)
  | mfaEnabledAt (value : Option Timestamp)
  | exportOnly (value : Option ExportOnly)
  | exportOnlyEnded (now : Timestamp)
  deriving DecidableEq, Repr

/-- The row with these columns set. -/
def AccountSet.apply (row : AccountRow) : AccountSet → AccountRow
  | .isInstanceAdmin value => { row with isInstanceAdmin := value }
  | .disabledAt value => { row with disabledAt := value }
  | .emailVerifiedAt now => { row with emailVerifiedAt := some now }
  | .mfaEnabledAt value => { row with mfaEnabledAt := value }
  | .exportOnly value => { row with exportOnly := value }
  | .exportOnlyEnded now => { row with disabledAt := row.disabledAt <|> some now, exportOnly := none }

/-- The statements that write one row. -/
inductive Statement
  | updateAccount (id : Uuid) (set : AccountSet)
  | deleteAccount (id : Uuid)
  | insertAuditEvent (id : Uuid) (event : AuditEvent)
  deriving DecidableEq, Repr

/-- The row a statement writes. -/
@[reducible] def Statement.target : Statement → Key
  | .updateAccount id _ | .deleteAccount id => .account id
  | .insertAuditEvent id _ => .auditEvent id

/-- The lock a statement takes. -/
def Statement.mode : Statement → LockMode
  | .updateAccount _ _ => .noKeyUpdate
  | .deleteAccount _ | .insertAuditEvent _ _ => .update

/-- What a statement makes of its row: an `UPDATE` or a `DELETE` of no row does nothing, and an `INSERT` raises when the
key is taken. -/
def Statement.change (db : Rows) : (q : Statement) → Change (Row q.target)
  | .updateAccount id set =>
    match db.account id with
    | none => .nothing
    | some row => .becomes (some (set.apply row))
  | .deleteAccount id =>
    match db.account id with
    | none => .nothing
    | some _ => .becomes none
  | .insertAuditEvent id event =>
    match db.auditEvent id with
    | none => .becomes (some event)
    | some _ => .raises

/-! ## Answers -/

/-- The field a refused change names. -/
inductive AccountField
  | isInstanceAdmin
  | disabled
  deriving DecidableEq, Repr

inductive UpdateAccountOutcome
  | updated (adminChanged disabledChanged verifiedChanged : Bool)
  | unknownAccount
  | exportOnly (refusedField : AccountField)
  | lastInstanceAdmin (refusedField : AccountField)
  deriving DecidableEq, Repr

inductive AccessModeOutcome
  | set
  | cleared
  | unchanged
  | unknownAccount
  | accountDisabled
  | instanceAdmin
  | untilTooSoon
  deriving DecidableEq, Repr

/-- What `sys_account_access_mode_end` answers. -/
inductive AccessModeEndStoreOutcome
  | disabled
  | deleted
  | notDue
  | blocked
  | unavailable
  deriving DecidableEq, Repr

inductive AccessModeEndOutcome
  | disabled (deletionBlocked : Bool)
  | deleted
  | notDue
  | unavailable
  deriving DecidableEq, Repr

inductive DeleteAccountOutcome
  | deleted
  | unknownAccount
  | lastInstanceAdmin
  | self
  | unavailable
  deriving DecidableEq, Repr

/-- What a request answers. -/
inductive Answer
  | updateAccount (outcome : UpdateAccountOutcome)
  | accessMode (outcome : AccessModeOutcome)
  | accessModeEnd (outcome : AccessModeEndOutcome)
  | deleteAccount (outcome : DeleteAccountOutcome)
  | flag (value : Bool)
  deriving DecidableEq, Repr

/-- What a request does. -/
abbrev Program := Prog Row Statement Answer

/-- **The statements of the accounts and their log**; no trigger is deferred. -/
def rules : Rules Row Statement Empty Answer where
  target := Statement.target
  mode := Statement.mode
  change q db := q.change db
  queue _ _ _ := []
  handler e _ := e.elim
  exclusive q q' := by cases q <;> cases q' <;> rfl

/-! ## Locks and checks -/

/-- The statements one after the other, whatever each finds. -/
def writeAll (statements : List Statement) (rest : Program) : Program :=
  statements.foldr (fun q rest => .write q fun _ => rest) rest

/-- `SELECT … FROM accounts WHERE id IN … ORDER BY id FOR UPDATE`; an account that is not there is passed over. -/
def lockAccounts (ids : List Uuid) (rest : Program) : Program :=
  (ids.dedup.insertionSort (· ≤ ·)).foldr (fun id rest => .lock (.account id) .update Option.isSome fun _ => rest)
    rest

/-- `is_instance_admin AND mfa_enabled_at IS NOT NULL AND disabled_at IS NULL`. -/
def instanceAdmin : Option AccountRow → Bool
  | some row => row.isInstanceAdmin && row.mfaEnabledAt.isSome && row.disabledAt.isNone
  | none => false

/-- The operations for instance admins raise for anyone else. -/
def forInstanceAdmin (appAccountId : Uuid) (rest : Program) : Program :=
  .read fun (db : Rows) => if instanceAdmin (db.account appAccountId) then rest else .raise

/-- Takes the advisory lock of the set of instance admins; `next` gets whether no other one is enabled. -/
def lastInstanceAdmin (accountId : Uuid) (next : Bool → Program) : Program :=
  .lock .instanceAdmins .update (fun _ => true) fun _ =>
    .read fun (db : Rows) => next (!otherEnabledAdmin db accountId)

/-! ## The admin flag and the disabled state -/

structure UpdateAccountAsk where
  appAccountId : Uuid
  accountId : Uuid
  isAdmin : Option Bool
  isDisabled : Option Bool
  markVerified : Bool
  adminEventId : Uuid
  disabledEventId : Uuid
  verifiedEventId : Uuid
  now : Timestamp
  deriving DecidableEq, Repr

namespace UpdateAccountAsk

variable (ask : UpdateAccountAsk) (was : AccountRow)

/-- The admin flag asked for is not the one there is. -/
def adminChange : Bool := ask.isAdmin.any fun b => decide (b ≠ was.isInstanceAdmin)

/-- The disabled state asked for is not the one there is. -/
def disabledChange : Bool := ask.isDisabled.any fun b => decide (b ≠ was.disabledAt.isSome)

/-- The address is to be marked verified and is not yet. -/
def verifiedChange : Bool := ask.markVerified && was.emailVerifiedAt.isNone

/-- What the change writes of the account and of the log. `account_mark_verified` also takes the second factor of an
account that is not the caller's own. -/
def writes : List Statement :=
  (if ask.adminChange was then [.updateAccount ask.accountId (.isInstanceAdmin (ask.isAdmin.getD false))] else []) ++
  (if ask.disabledChange was then
    [.updateAccount ask.accountId (.disabledAt (if ask.isDisabled.getD false then some ask.now else none))] else []) ++
  (if ask.verifiedChange was then
    (if ask.accountId = ask.appAccountId then [] else [.updateAccount ask.accountId (.mfaEnabledAt none)]) ++
      [.updateAccount ask.accountId (.emailVerifiedAt ask.now)] else []) ++
  (if ask.adminChange was then
    [.insertAuditEvent ask.adminEventId
      (if ask.isAdmin.getD false then .accountAdminGranted else .accountAdminRevoked)] else []) ++
  (if ask.disabledChange was then
    [.insertAuditEvent ask.disabledEventId
      (if ask.isDisabled.getD false then .accountDisabled else .accountEnabled)] else []) ++
  if ask.verifiedChange was then [.insertAuditEvent ask.verifiedEventId .accountEmailVerified] else []

/-- An enabled admin would be one no longer. -/
def takesAdmin : Bool :=
  was.enabledAdmin && (!ask.isAdmin.getD was.isInstanceAdmin || ask.isDisabled.getD was.disabledAt.isSome)

end UpdateAccountAsk

/-- `sys_instance_update_account`; without `markVerified` it is the form of six arguments. -/
def sysInstanceUpdateAccount (ask : UpdateAccountAsk) : Program :=
  let answer (outcome : UpdateAccountOutcome) : Program := .done (.updateAccount outcome)
  if ask.isAdmin = none ∧ ask.isDisabled = none ∧ ask.markVerified = false then .raise
  else
    forInstanceAdmin ask.appAccountId <| lockAccounts [ask.appAccountId, ask.accountId] <|
      forInstanceAdmin ask.appAccountId <|
        .read fun (db : Rows) =>
          match db.account ask.accountId with
          | none => answer .unknownAccount
          | some was =>
            if ask.isAdmin = some true ∧ was.isInstanceAdmin = false ∧ was.exportOnly.isSome = true then
              answer (.exportOnly .isInstanceAdmin)
            else
              let change := writeAll (ask.writes was)
                (answer (.updated (ask.adminChange was) (ask.disabledChange was) (ask.verifiedChange was)))
              if ask.takesAdmin was then
                lastInstanceAdmin ask.accountId fun last =>
                  if last then
                    answer (.lastInstanceAdmin (if ask.isAdmin = some false then .isInstanceAdmin else .disabled))
                  else change
              else change

/-! ## The deletion of an account -/

/-- What the deletion scope says of the workspaces of the account: whether one is in the way, and whether those that
go with the account are those asked about. -/
structure DeletionScope where
  blocking : Bool
  soleAsAsked : Bool
  deriving DecidableEq, Repr

/-- `sys_account_deletion_scope(account_id)`: the lock of the account's row. -/
def sysAccountDeletionScope (accountId : Uuid) (rest : Program) : Program :=
  .lock (.account accountId) .update Option.isSome fun _ => rest

/-- `sys_account_last_instance_admin(account_id)`, asked by the account itself; `next` gets its answer. -/
def sysAccountLastInstanceAdmin (accountId : Uuid) (next : Bool → Program) : Program :=
  .read fun (db : Rows) =>
    if (db.account accountId).any AccountRow.isInstanceAdmin then lastInstanceAdmin accountId next else next false

structure DeleteAccountAsk where
  accountId : Uuid
  appAccountId : Option Uuid
  appWorkspaceId : Option Uuid
  scope : DeletionScope
  deriving DecidableEq, Repr

/-- `sys_delete_account(account_id, sole_workspace_ids)`. -/
def sysDeleteAccount (ask : DeleteAccountAsk) : Program :=
  if ask.appAccountId ≠ some ask.accountId ∨ ask.appWorkspaceId ≠ none then .done (.flag false)
  else
    sysAccountDeletionScope ask.accountId <|
      sysAccountLastInstanceAdmin ask.accountId fun last =>
        if last || ask.scope.blocking || !ask.scope.soleAsAsked then .done (.flag false)
        else
          .read fun (db : Rows) =>
            if (db.account ask.accountId).isNone then .done (.flag false)
            else writeAll [.deleteAccount ask.accountId] (.done (.flag true))

/-- `sys_instance_delete_account`. -/
def sysInstanceDeleteAccount (appAccountId accountId eventId : Uuid) (scope : DeletionScope) : Program :=
  let answer (outcome : DeleteAccountOutcome) : Program := .done (.deleteAccount outcome)
  forInstanceAdmin appAccountId <| lockAccounts [appAccountId, accountId] <| forInstanceAdmin appAccountId <|
    .read fun (db : Rows) =>
      match db.account accountId with
      | none => answer .unknownAccount
      | some target =>
        let decide (last : Bool) : Program :=
          if last then answer .lastInstanceAdmin
          else if accountId = appAccountId then answer .self
          else if scope.blocking || !scope.soleAsAsked then answer .unavailable
          else writeAll [.deleteAccount accountId, .insertAuditEvent eventId .accountDeleted] (answer .deleted)
        if target.isInstanceAdmin then lastInstanceAdmin accountId decide else decide false

/-! ## The export-only access mode -/

/-- A day. -/
def oneDay : Timestamp := 86400 * 1000000

/-- The mode asked for, with what goes with it. -/
inductive AccessModeChange
  | full
  | exportOnly (exportOnlyUntil : Timestamp) (endAction : EndAction)
  deriving DecidableEq, Repr

/-- `access_mode_apply`. -/
def accessModeApply (accountId : Uuid) (change : AccessModeChange) (eventId : Uuid) (now : Timestamp) : Program :=
  let answer (outcome : AccessModeOutcome) : Program := .done (.accessMode outcome)
  .read fun (db : Rows) =>
    match db.account accountId with
    | none => answer .unknownAccount
    | some was =>
      match change with
      | .exportOnly exportOnlyUntil endAction =>
        if was.disabledAt.isSome then answer .accountDisabled
        else if was.isInstanceAdmin then answer .instanceAdmin
        else if was.exportOnly.any fun p =>
            decide (p.exportOnlyUntil = exportOnlyUntil ∧ p.exportOnlyEndAction = endAction) then
          answer .unchanged
        else if exportOnlyUntil < now + oneDay then answer .untilTooSoon
        else
          writeAll [.updateAccount accountId (.exportOnly (some ⟨exportOnlyUntil, endAction, eventId⟩)),
            .insertAuditEvent eventId (.accountExportOnlySet exportOnlyUntil endAction)] (answer .set)
      | .full =>
        if was.exportOnly.isNone then answer .unchanged
        else
          writeAll [.updateAccount accountId (.exportOnly none), .insertAuditEvent eventId .accountExportOnlyCleared]
            (answer .cleared)

/-- `sys_instance_set_account_access_mode`. -/
def sysInstanceSetAccountAccessMode (appAccountId accountId : Uuid) (change : AccessModeChange) (eventId : Uuid)
    (now : Timestamp) : Program :=
  forInstanceAdmin appAccountId <| lockAccounts [appAccountId, accountId] <| forInstanceAdmin appAccountId <|
    accessModeApply accountId change eventId now

structure SetAccessModeAsk where
  accountId : Uuid
  appAccountId : Option Uuid
  appWorkspaceId : Option Uuid
  change : AccessModeChange
  eventId : Uuid
  now : Timestamp
  deriving DecidableEq, Repr

/-- `sys_account_set_access_mode`. -/
def sysAccountSetAccessMode (ask : SetAccessModeAsk) : Program :=
  if ask.appAccountId ≠ some ask.accountId ∨ ask.appWorkspaceId ≠ none then .done (.accessMode .unknownAccount)
  else
    .lock (.account ask.accountId) .update Option.isSome fun _ =>
      accessModeApply ask.accountId ask.change ask.eventId ask.now

/-- `sys_account_access_mode_end`, in a transaction of the account; `next` gets its answer. -/
def sysAccountAccessModeEnd (accountId : Uuid) (action : EndAction) (eventId : Uuid) (scope : DeletionScope)
    (now : Timestamp) (next : AccessModeEndStoreOutcome → Program) : Program :=
  sysAccountDeletionScope accountId <|
    .read fun (db : Rows) =>
      match (db.account accountId).bind AccountRow.exportOnly with
      | none => next .notDue
      | some period =>
        if now < period.exportOnlyUntil ∨ action = .delete ∧ period.exportOnlyEndAction ≠ .delete then next .notDue
        else
          match action with
          | .disable =>
            writeAll [.updateAccount accountId (.exportOnlyEnded now),
              .insertAuditEvent eventId (.accountExportOnlyEnded .disable period.setBy now)] (next .disabled)
          | .delete =>
            if scope.blocking then next .blocked
            else
              sysAccountLastInstanceAdmin accountId fun last =>
                if last then next .blocked
                else if !scope.soleAsAsked then next .unavailable
                else
                  writeAll [.deleteAccount accountId,
                    .insertAuditEvent eventId (.accountExportOnlyEnded .delete period.setBy now)] (next .deleted)

structure EndAccessModeAsk where
  accountId : Uuid
  endAction : EndAction
  deleteEventId : Uuid
  disableEventId : Uuid
  scope : DeletionScope
  now : Timestamp
  deriving DecidableEq, Repr

/-- `endAccessMode`, in the transaction of the account whose period ends. -/
def endAccessMode (ask : EndAccessModeAsk) : Program :=
  let answer (outcome : AccessModeEndOutcome) : Program := .done (.accessModeEnd outcome)
  let disable (deletionBlocked : Bool) : Program :=
    sysAccountAccessModeEnd ask.accountId .disable ask.disableEventId ask.scope ask.now fun
      | .disabled => answer (.disabled deletionBlocked)
      | .notDue => answer .notDue
      | _ => answer .unavailable
  match ask.endAction with
  | .disable => disable false
  | .delete =>
    sysAccountDeletionScope ask.accountId <|
      sysAccountLastInstanceAdmin ask.accountId fun last =>
        if ask.scope.blocking || last then disable true
        else
          sysAccountAccessModeEnd ask.accountId .delete ask.deleteEventId ask.scope ask.now fun
            | .deleted => answer .deleted
            | .blocked => disable true
            | .notDue => answer .notDue
            | _ => answer .unavailable

/-! ## Requests -/

/-- The requests that write accounts, each with the time its statements read from the clock. -/
inductive Request
  | updateAccount (ask : UpdateAccountAsk)
  | deleteAccount (ask : DeleteAccountAsk)
  | instanceDeleteAccount (appAccountId accountId eventId : Uuid) (scope : DeletionScope)
  | instanceSetAccessMode (appAccountId accountId : Uuid) (change : AccessModeChange) (eventId : Uuid)
      (now : Timestamp)
  | setAccessMode (ask : SetAccessModeAsk)
  | endAccessMode (ask : EndAccessModeAsk)
  | verifyEmail (accountId : Uuid) (now : Timestamp)
  | setSecondFactor (accountId : Uuid) (mfaEnabledAt : Option Timestamp)
  deriving DecidableEq, Repr

/-- What the transaction of a request does. -/
def Request.program : Request → Program
  | .updateAccount ask => sysInstanceUpdateAccount ask
  | .deleteAccount ask => sysDeleteAccount ask
  | .instanceDeleteAccount app a eventId scope => sysInstanceDeleteAccount app a eventId scope
  | .instanceSetAccessMode app a change eventId now => sysInstanceSetAccountAccessMode app a change eventId now
  | .setAccessMode ask => sysAccountSetAccessMode ask
  | .endAccessMode ask => Instance.endAccessMode ask
  | .verifyEmail a now => writeAll [.updateAccount a (.emailVerifiedAt now)] (.done (.flag true))
  | .setSecondFactor a value => writeAll [.updateAccount a (.mfaEnabledAt value)] (.done (.flag true))

end SlugBase.Instance
