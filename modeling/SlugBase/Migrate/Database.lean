import Mathlib.Data.Nat.Notation
import Mathlib.Logic.Function.Basic
import SlugBase.Lib.Interrupted

/-!
# The database of the pg-boss migrations

What `installPgBoss` reads and writes: the version table of pg-boss, the record of the index builds still to run, the
tables and indexes of the schema `pgboss`, and the session it works in. Between two commands others may drop or create
tables, replace the session or install pg-boss; nobody else leaves an INVALID index behind.

* `Statement`, `Script`, `Package`: the plans of a build of pg-boss;
* `Database`, `Others`: the store and what others do to it;
* one definition for each command, with what it leaves when it breaks part-way.

The history of upgrades and builds is a ghost: no command reads it.
-/

namespace SlugBase.Migrate

/-! ## Plans -/

/-- What `BUILD_TARGET` reads in the text of a build. -/
structure Target where
  index : String
  schema : String
  table : String
deriving DecidableEq

/-- One statement after the transaction of a plan: its text, whether `INDEX_STATEMENT` matches it and it is a single
statement, and what `BUILD_TARGET` reads in it. -/
structure Statement where
  text : String
  indexStatement : Bool
  single : Bool
  target : Option Target
  ifNotExists : Bool
deriving DecidableEq

/-- A partition of the job table, with the policy of its queue. -/
structure Partition where
  tableName : String
  policy : String
deriving DecidableEq

/-- A migration plan of pg-boss: whether it starts with one transaction, the version that this transaction stamps, and
the statements after it. -/
structure Script where
  wrapped : Bool
  stamps : Option ℕ
  statements : List Statement

/-- A build of pg-boss: the version of its schema, its construction plan by the version that it stamps, and its
migration plans. A migration plan stamps the version of the build in its own transaction. Assumed of its plans, by the code
as here: a statement that `BUILD_TARGET` does not read runs whatever a broken attempt of it has left. -/
structure Package where
  expected : ℕ
  constructs : ℕ
  getMigrationPlans : ℕ → List Partition → Script
  stamps_expected : ∀ found partitions, (getMigrationPlans found partitions).stamps = some expected

/-! ## The store -/

/-- An index of the schema `pgboss`. -/
inductive Index where
  | absent
  | invalid
  | valid
deriving DecidableEq

/-- The row of `drizzle.pgboss_pending_builds`. -/
structure PendingBuilds where
  target : ℕ
  statements : List Statement
  done : ℕ
deriving DecidableEq

/-- What happened to the builds: an upgrade committed, the server ran a statement to its end, it skipped a statement
over an INVALID index, or the table of a build was found gone. -/
inductive Entry where
  | upgraded (found target : ℕ) (builds : List Statement)
  | ran (statement : Statement)
  | skipped (statement : Statement)
  | gone (statement : Statement)
deriving DecidableEq

/-- The database: the version table and the table of the record (absent, empty or with its row), the objects of the
schema, the partitions in the catalog, the partitioned queues, the session of the run and whether the lock of `migrate`
is free to it. The newest entry of the history is the first. -/
structure Database where
  version : Option (Option ℕ)
  pending : Option (Option PendingBuilds)
  tables : List String
  indexes : String → Index
  partitions : List String
  queues : List Partition
  session : ℕ
  lockFree : Bool
  history : List Entry

/-- The record of pending builds, when there is one. -/
def Database.recorded (s : Database) : Option PendingBuilds := s.pending.join

/-- What others do to an index. -/
inductive Change where
  | kept
  | dropped
  | built
deriving DecidableEq

/-- An index after others. -/
def Change.apply : Change → Index → Index
  | .kept, i => i
  | .dropped, _ => .absent
  | .built, _ => .valid

/-- What others do between two commands. Where pg-boss is not installed, they may install it. -/
structure Others where
  tables : List String
  indexes : String → Change
  partitions : List String
  queues : List Partition
  session : ℕ
  lockFree : Bool
  installs : Option ℕ

/-- The database after others. -/
def Others.apply (e : Others) (s : Database) : Database :=
  { s with
    version := s.version.or (e.installs.map some)
    tables := e.tables
    indexes := fun name => (e.indexes name).apply (s.indexes name)
    partitions := e.partitions
    queues := e.queues
    session := e.session
    lockFree := e.lockFree }

/-! ## Commands -/

/-- A program that works on the database. -/
abbrev Run (α : Type) : Type := Interrupted.Program Database Others α

/-- A fate of one of its commands. -/
abbrev Fate : Type := Interrupted.Fate Others

open Interrupted (Program)

/-- A command that runs in a transaction, or changes nothing: when it breaks, nothing is left of it. -/
def execute {α : Type} (act : Database → Option (α × Database)) : Run α := Program.command Others.apply act id

/-- A command that only reads. -/
def select {α : Type} (read : Database → Option α) : Run α := execute fun s => (read s).map fun a => (a, s)

/-- `SELECT pg_backend_pid()`. -/
def backendPid : Run ℕ := select fun s => some s.session

/-- `SELECT pg_try_advisory_lock(…), pg_backend_pid()`. -/
def tryMigrateLock : Run (Bool × ℕ) := select fun s => some (s.lockFree, s.session)

/-- Whether pg-boss has its version table. -/
def isInstalled : Run Bool := select fun s => some s.version.isSome

/-- The version in the version table, an error without one. -/
def schemaVersion : Run (Option ℕ) := select fun s => s.version

/-- The construction plan: `true` once it has run, `false` for `already exists`. -/
def construct (version : ℕ) : Run Bool :=
  execute fun s => if s.version.isSome then some (false, s) else some (true, { s with version := some (some version) })

/-- `SET lock_timeout = 0`, and the creation of a queue: nothing that this model keeps. -/
def unobserved : Run Unit := select fun _ => some ()

/-- Whether the table of the record is there. -/
def pendingPresent : Run Bool := select fun s => some s.pending.isSome

/-- `SELECT target_version, statements, done`. -/
def selectPending : Run (Option PendingBuilds) := select fun s => s.pending

/-- `CREATE TABLE IF NOT EXISTS` of the record. -/
def createPendingTable : Run Unit := execute fun s => some ((), { s with pending := some s.pending.join })

/-- The upsert of the record. -/
def upsertPending (target : ℕ) (statements : List Statement) : Run Unit :=
  execute fun s => s.pending.map fun _ => ((), { s with pending := some (some ⟨target, statements, 0⟩) })

/-- `UPDATE … SET done = $1`. -/
def updateDone (done : ℕ) : Run Unit :=
  execute fun s => s.pending.map fun row =>
    ((), { s with pending := some (row.map fun pending => ⟨pending.target, pending.statements, done⟩) })

/-- `DELETE FROM` the record. -/
def clearPending : Run Unit := execute fun s => s.pending.map fun _ => ((), { s with pending := some none })

/-- The partitions of the job table in the catalog. -/
def selectPartitions : Run (List String) := select fun s => some s.partitions

/-- The partitioned queues. -/
def selectQueues : Run (List Partition) := select fun s => some s.queues

/-- The transaction of an upgrade: it stamps the version of its plan. -/
def commitUpgrade (found target : ℕ) (stamps : Option ℕ) (builds : List Statement) : Run Unit :=
  execute fun s => s.version.map fun version =>
    ((), { s with version := some (stamps.or version), history := .upgraded found target builds :: s.history })

/-- Whether the table of a build is there; without it the build has nothing to build. -/
def tablePresent (statement : Statement) (table : String) : Run Bool :=
  execute fun s =>
    if table ∈ s.tables then some (true, s) else some (false, { s with history := .gone statement :: s.history })

/-- Whether there is an INVALID index of the name. -/
def indexInvalid (index : String) : Run Bool := select fun s => some (decide (s.indexes index = .invalid))

/-- The database with the index in this condition. -/
def Database.setIndex (s : Database) (index : String) (condition : Index) : Database :=
  { s with indexes := Function.update s.indexes index condition }

/-- The database with one more entry in its history. -/
def Database.logged (s : Database) (entry : Entry) : Database := { s with history := entry :: s.history }

/-- `DROP INDEX CONCURRENTLY`: broken, it leaves the index INVALID. -/
def dropIndex (index : String) : Run Unit :=
  Program.command Others.apply
    (fun s => if s.indexes index = .absent then none else some ((), s.setIndex index .absent))
    (fun s => if s.indexes index = .absent then s else s.setIndex index .invalid)

/-- The server runs a build that names its index and table: an index of the name is an error, or with `IF NOT EXISTS` a
reason to skip the build, whether it is valid or not. -/
def Database.built (s : Database) (statement : Statement) (target : Target) : Option Database :=
  if target.table ∈ s.tables then
    match s.indexes target.index with
    | .absent => some ((s.setIndex target.index .valid).logged (.ran statement))
    | .valid => if statement.ifNotExists then some (s.logged (.ran statement)) else none
    | .invalid => if statement.ifNotExists then some (s.logged (.skipped statement)) else none
  else none

/-- What a build leaves that breaks part-way: an INVALID index of its name. -/
def Database.halfBuilt (s : Database) (target : Target) : Database :=
  if target.table ∈ s.tables ∧ s.indexes target.index = .absent then s.setIndex target.index .invalid else s

/-- The statement of a build. One that `BUILD_TARGET` does not read has run when the server reports its end: what a broken
attempt of it left is not modelled, as `Package` assumes. -/
def runStatement (statement : Statement) : Run Unit :=
  Program.command Others.apply
    (fun s => (statement.target.elim (some (s.logged (.ran statement))) (s.built statement)).map fun s' => ((), s'))
    (fun s => statement.target.elim s s.halfBuilt)

end SlugBase.Migrate
