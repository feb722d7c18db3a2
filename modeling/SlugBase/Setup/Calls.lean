import SlugBase.Schema
import SlugBase.Lib.Transition

/-!
# First-run setup

The calls of the setup operations, each in a transaction at read committed: a statement reads what is committed
when it runs, under the rows its own call has written, and a commit shows them all at once.

* `Rows`, `Rows.view`, `Rows.withoutAccount`: the tables, the tables under a call's own rows, an account's deletion;
* `setupStatus`, `setupTokenTurn`, `completeTurn`, `createAccountTurn`: the statements of the operations;
* `World`, `step`, `system`: the calls in flight, the advisory lock and what each call answered.
-/

namespace SlugBase.Setup

open Transition

/-- The SHA-256 of a setup or session token: 32 bytes. -/
abbrev TokenHash := BitVec 256

/-! ## The tables -/

/-- An account. The `call` of this row and of those below is the call that wrote it. -/
structure Account where
  id : Uuid
  /-- As `citext` compares it. -/
  email : String
  emailVerifiedAt : Option Timestamp
  displayName : String
  passwordHash : Option String
  locale : String
  isInstanceAdmin : Bool := false
  disabledAt : Option Timestamp := none
  mfaEnabledAt : Option Timestamp := none
  call : ℕ

/-- A workspace. -/
structure Workspace where
  id : Uuid
  name : String
  createdBy : Option Uuid
  selfCreated : Bool
  call : ℕ

/-- A membership. -/
structure WorkspaceMember where
  workspaceId : Uuid
  accountId : Uuid
  role : MemberRole
  call : ℕ

/-- The settings of a workspace. -/
structure WorkspaceSettings where
  workspaceId : Uuid
  updatedBy : Option Uuid
  call : ℕ

/-- A session. -/
structure SessionRow where
  id : Uuid
  tokenHash : TokenHash
  accountId : Uuid
  activeWorkspaceId : Option Uuid := none
  createdAt : Timestamp
  ipPrefix : Option String
  userAgent : Option String
  call : ℕ

/-- The row of `instance_state`. -/
structure InstanceState where
  setupCompletedAt : Option Timestamp
  setupBy : Option Uuid
  setupTokenHash : Option TokenHash
  call : ℕ

/-- The tables of a database, or the rows that a call has written. -/
structure Rows where
  accounts : List Account := []
  workspaces : List Workspace := []
  members : List WorkspaceMember := []
  settings : List WorkspaceSettings := []
  sessions : List SessionRow := []
  instanceState : Option InstanceState := none

/-- The tables as a call that has written `own` sees them, and as its commit leaves them. -/
def Rows.view (db own : Rows) : Rows where
  accounts := db.accounts ++ own.accounts
  workspaces := db.workspaces ++ own.workspaces
  members := db.members ++ own.members
  settings := db.settings ++ own.settings
  sessions := db.sessions ++ own.sessions
  instanceState := own.instanceState.or db.instanceState

/-- `ON DELETE SET NULL`. -/
def cleared (id : Uuid) (reference : Option Uuid) : Option Uuid := if reference = some id then none else reference

/-- The deletion of an account, with what the foreign keys do. -/
def Rows.withoutAccount (db : Rows) (id : Uuid) : Rows where
  accounts := db.accounts.filter fun a => a.id != id
  workspaces := db.workspaces.map fun w => { w with createdBy := cleared id w.createdBy }
  members := db.members.filter fun m => m.accountId != id
  settings := db.settings.map fun s => { s with updatedBy := cleared id s.updatedBy }
  sessions := db.sessions.filter fun s => s.accountId != id
  instanceState := db.instanceState.map fun s => { s with setupBy := cleared id s.setupBy }

/-- Whether setup has been completed. -/
def Rows.completed (db : Rows) : Bool := db.instanceState.any fun s => s.setupCompletedAt.isSome

/-- The stored hash of the setup token. -/
def Rows.token (db : Rows) : Option TokenHash := db.instanceState.bind InstanceState.setupTokenHash

/-- `sys_setup_status`: no account, and setup not completed. -/
def setupStatus (db : Rows) : Bool := db.accounts.isEmpty && !db.completed

/-! ## The calls -/

/-- The request of a setup completion. -/
structure CompleteSetup where
  accountId : Uuid
  workspaceId : Uuid
  sessionId : Uuid
  email : String
  displayName : String
  passwordHash : String
  locale : String
  workspaceName : String
  tokenRequired : Bool
  tokenHash : Option TokenHash
  sessionTokenHash : TokenHash
  ipPrefix : Option String
  userAgent : Option String

/-- The arguments of `sys_create_account`. -/
structure CreateAccount where
  id : Uuid
  email : String
  displayName : String
  passwordHash : Option String
  locale : String
  emailVerified : Bool

/-- What a call asks for. -/
inductive Request
  | setSetupToken (hash : TokenHash)
  | completeSetup (setup : CompleteSetup)
  | createAccount (account : CreateAccount)

/-- What a completion answers. -/
inductive SetupOutcome
  | completed
  | setupCompleted
  | forbidden
  deriving DecidableEq

/-- What a call answers. -/
inductive Answer
  | stored (b : Bool)
  | outcome (o : SetupOutcome)
  | created (b : Bool)
  deriving DecidableEq

/-- How far a call is: the statement it has done last, or the answer it gives once it commits. -/
inductive Phase
  | called
  | serialised
  | pending
  | admitted
  | signedUp
  | promoted
  | furnished
  | recorded
  | signedIn
  | answered (a : Answer)

/-- A call in flight. -/
structure Call where
  request : Request
  phase : Phase := .called
  writes : Rows := {}

/-- What a call does next: it asks for the advisory lock, does a statement, raises, or has nothing left to do. -/
inductive Turn
  | locks
  | goes (c : Call)
  | raises
  | waits

section

variable (db : Rows) (k : ℕ) (now : Timestamp) (reserved : Bool) (c : Call)

/-- The call, with its answer. -/
def Call.answer (a : Answer) : Turn := .goes { c with phase := .answered a }

/-- `sys_setup_token_set`, statement by statement. -/
def setupTokenTurn (hash : TokenHash) : Turn :=
  match c.phase with
  | .called => .locks
  | .serialised =>
    if setupStatus (db.view c.writes) then .goes { c with phase := .pending } else c.answer (.stored false)
  | .pending =>
    match (db.view c.writes).instanceState with
    | none => .goes { c with
        phase := .answered (.stored true)
        writes := { c.writes with instanceState := some ⟨none, none, some hash, k⟩ } }
    | some s =>
      if s.setupCompletedAt.isNone then .goes { c with
        phase := .answered (.stored true)
        writes := { c.writes with instanceState := some { s with setupTokenHash := some hash, call := k } } }
      else c.answer (.stored false)
  | _ => .waits

/-- `sys_create_account`: the row that it inserts, or none where the address or the identifier is taken. An unused
"this wasn't me" token may reserve the address. -/
def newAccount (accounts : List Account) (a : CreateAccount) : Option Account :=
  if reserved || accounts.any fun b => decide (b.id = a.id ∨ b.email = a.email) then none
  else some ⟨a.id, a.email, if a.emailVerified then some now else none, a.displayName, a.passwordHash, a.locale,
    false, none, none, k⟩

/-- The account that a completion creates. -/
def CompleteSetup.account (r : CompleteSetup) : CreateAccount :=
  ⟨r.accountId, r.email, r.displayName, some r.passwordHash, r.locale, true⟩

/-- Whether the presented token is the stored one. -/
def tokenAccepted (stored presented : Option TokenHash) : Bool :=
  match stored, presented with
  | some s, some p => decide (s = p)
  | _, _ => false

/-- The rows of `sys_create_workspace`. -/
def withWorkspace (own : Rows) (accountId workspaceId : Uuid) (name : String) : Rows := { own with
  workspaces := own.workspaces ++ [⟨workspaceId, name, some accountId, true, k⟩]
  members := own.members ++ [⟨workspaceId, accountId, .owner, k⟩]
  settings := own.settings ++ [⟨workspaceId, some accountId, k⟩] }

/-- The row of `sys_session_create`, for a full session. -/
def newSession (r : CompleteSetup) : SessionRow :=
  ⟨r.sessionId, r.sessionTokenHash, r.accountId, none, now, r.ipPrefix,
    r.userAgent.map fun s => (s.take 256).toString, k⟩

/-- `sys_complete_setup`, statement by statement. A failing insert and a false answer of a nested operation raise. -/
def completeTurn (r : CompleteSetup) : Turn :=
  let view := db.view c.writes
  match c.phase with
  | .called => .locks
  | .serialised => if setupStatus view then .goes { c with phase := .pending } else c.answer (.outcome .setupCompleted)
  | .pending =>
    if r.tokenRequired && !tokenAccepted view.token r.tokenHash then c.answer (.outcome .forbidden)
    else .goes { c with phase := .admitted }
  | .admitted =>
    match newAccount k now reserved view.accounts r.account with
    | none => c.answer (.outcome .setupCompleted)
    | some a => .goes { c with
        phase := .signedUp
        writes := { c.writes with accounts := c.writes.accounts ++ [a] } }
  | .signedUp => .goes { c with
      phase := .promoted
      writes := { c.writes with accounts := c.writes.accounts.map fun a =>
        if a.id = r.accountId then { a with isInstanceAdmin := true } else a } }
  | .promoted =>
    if (view.accounts.any fun a => decide (a.id = r.accountId) && a.disabledAt.isNone) &&
        !(view.workspaces.any fun w => decide (w.id = r.workspaceId)) then .goes { c with
      phase := .furnished
      writes := withWorkspace k c.writes r.accountId r.workspaceId r.workspaceName }
    else .raises
  | .furnished => .goes { c with
      phase := .recorded
      writes := { c.writes with instanceState := some ⟨some now, some r.accountId, none, k⟩ } }
  | .recorded =>
    if (view.accounts.any fun a => decide (a.id = r.accountId) && a.disabledAt.isNone && a.mfaEnabledAt.isNone) &&
        !(view.sessions.any fun s => decide (s.id = r.sessionId ∨ s.tokenHash = r.sessionTokenHash)) then .goes { c with
      phase := .signedIn
      writes := { c.writes with sessions := c.writes.sessions ++ [newSession k now r] } }
    else .raises
  | .signedIn => .goes { c with
      phase := .answered (.outcome .completed)
      writes := { c.writes with sessions := c.writes.sessions.map fun s =>
        if s.id = r.sessionId then { s with activeWorkspaceId := some r.workspaceId } else s } }
  | .answered _ => .waits

/-- `sys_create_account` as a call of its own, which takes no lock. -/
def createAccountTurn (a : CreateAccount) : Turn :=
  match c.phase with
  | .called =>
    match newAccount k now reserved (db.view c.writes).accounts a with
    | none => c.answer (.created false)
    | some row => .goes { c with
        phase := .answered (.created true)
        writes := { c.writes with accounts := c.writes.accounts ++ [row] } }
  | _ => .waits

/-- What a call does next. -/
def Call.turn : Turn :=
  match c.request with
  | .setSetupToken hash => setupTokenTurn db k c hash
  | .completeSetup r => completeTurn db k now reserved c r
  | .createAccount a => createAccountTurn db k now reserved c a

end

/-! ## The runs -/

/-- How a call ended: its answer once it has committed, or nothing where it failed. -/
structure Entry where
  call : ℕ
  request : Request
  answer : Option Answer

/-- The database, the holder of the advisory lock, the calls in flight and how those before ended, newest first. -/
structure World where
  db : Rows := {}
  lock : Option ℕ := none
  calls : ℕ → Option Call := fun _ => none
  next : ℕ := 0
  log : List Entry := []

/-- An empty database, before any call. -/
def World.empty : World := {}

/-- What happens: a call begins, does a statement, commits or fails at any point; or an account is deleted. -/
inductive Event
  | begins (request : Request)
  | advances (k : ℕ) (now : Timestamp) (reserved : Bool)
  | commits (k : ℕ)
  | fails (k : ℕ)
  | deletesAccount (id : Uuid)

/-- The call is over, and its lock is released. -/
def World.ended (w : World) (k : ℕ) (c : Call) (answer : Option Answer) : World := { w with
  lock := if w.lock = some k then none else w.lock
  calls := Function.update w.calls k none
  log := ⟨k, c.request, answer⟩ :: w.log }

/-- The commit of a call that has an answer. -/
def World.committed (w : World) (k : ℕ) (c : Call) (answer : Answer) : World :=
  { w.ended k c (some answer) with db := w.db.view c.writes }

/-- What an event does, where it can happen. -/
def step (w : World) : Event → Option World
  | .begins request => some { w with
      calls := Function.update w.calls w.next (some { request := request })
      next := w.next + 1 }
  | .advances k now reserved => (w.calls k).bind fun c =>
      match c.turn w.db k now reserved with
      | .locks =>
        if w.lock.isNone then
          some { w with lock := some k, calls := Function.update w.calls k (some { c with phase := .serialised }) }
        else none
      | .goes c' => some { w with calls := Function.update w.calls k (some c') }
      | .raises => some (w.ended k c none)
      | .waits => none
  | .commits k => (w.calls k).bind fun c =>
      match c.phase with
      | .answered a => some (w.committed k c a)
      | _ => none
  | .fails k => (w.calls k).map fun c => w.ended k c none
  | .deletesAccount id => some { w with db := w.db.withoutAccount id }

/-- The runs from an empty database. -/
def system : System World Event where
  init w := w = World.empty
  step w e w' := step w e = some w'

end SlugBase.Setup
