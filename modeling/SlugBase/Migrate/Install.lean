import SlugBase.Migrate.Database

/-!
# `installPgBoss`

The run of `migrate` over the pg-boss schema, command by command: it takes the migrate lock, installs the schema when
there is none, finishes or discards the builds an earlier run recorded, upgrades an older schema, and checks the version
that it leaves.

* `readPending`, `writePending`, `runBuild`, `finishBuilds`, `upgrade`: the steps of the run;
* `installPgBoss`: the run; its result is the version it installed or upgraded to, if it changed anything.

A ROLLBACK after a failed command changes nothing and its own failure is ignored, so it is no command here.
-/

namespace SlugBase.Migrate

open Interrupted.Program (check onlyIf required stop)

/-- The schema of pg-boss. -/
def pgbossSchema : String := "pgboss"

/-- `IDENTIFIER`: a lower-case letter or an underscore, then lower-case letters, digits and underscores. -/
def isIdentifier (name : String) : Bool :=
  match name.toList with
  | [] => false
  | c :: rest => (c.isLower || c == '_') && rest.all fun d => d.isLower || d.isDigit || d == '_'

/-- The session is still that of the run. -/
def assertSession (pid : ℕ) : Run Unit := do
  let now ← backendPid
  check (now = pid)

/-- The lock of `migrate`, polled until the deadline. -/
def takeMigrateLock (pid : ℕ) : ℕ → Run Unit
  | 0 => stop
  | polls + 1 => do
    let lock ← tryMigrateLock
    let _ ← check (lock.2 = pid)
    if lock.1 then pure () else takeMigrateLock pid polls

/-- The plan of an upgrade: the version that its transaction stamps and the builds after it. Anything else in the script
is refused. -/
def upgradePlan (script : Script) : Option (Option ℕ × List Statement) :=
  if script.wrapped && script.statements.all (fun st => st.indexStatement && st.single) then
    some (script.stamps, script.statements)
  else none

/-- The partitions of the job table, each with the policy of its queue. -/
def partitionTables : Run (List Partition) := do
  let tables ← selectPartitions
  let queues ← selectQueues
  let _ ← check (tables.all isIdentifier)
  pure (tables.map fun name => ⟨name, ((queues.reverse.find? (·.tableName = name)).map (·.policy)).getD ""⟩)

/-- The record of pending builds. -/
def readPending : Run (Option PendingBuilds) := do
  let present ← pendingPresent
  if present then do
    let row ← selectPending
    let _ ← check (row.all fun pending => pending.done ≤ pending.statements.length)
    pure row
  else pure none

/-- The record is written over whatever record there was. -/
def writePending (target : ℕ) (statements : List Statement) : Run Unit := do
  let _ ← unobserved
  let _ ← createPendingTable
  upsertPending target statements

/-- An INVALID index of the name of a build is dropped before it. -/
def dropInvalid (index : String) : Run Unit := do
  let invalid ← indexInvalid index
  onlyIf invalid (dropIndex index)

/-- One recorded build whose index and table `BUILD_TARGET` reads. -/
def runTargeted (statement : Statement) (target : Target) : Run Unit := do
  let _ ← check (target.schema = pgbossSchema && isIdentifier target.index && isIdentifier target.table)
  let present ← tablePresent statement target.table
  onlyIf present do
    let _ ← dropInvalid target.index
    runStatement statement

/-- One recorded build. -/
def runBuild (statement : Statement) : Run Unit := do
  let _ ← check (statement.indexStatement && statement.single)
  statement.target.elim (runStatement statement) (runTargeted statement)

/-- The builds from `index` on, each recorded once it has run. -/
def buildFrom (pid : ℕ) : ℕ → List Statement → Run Unit
  | _, [] => pure ()
  | index, statement :: rest => do
    let _ ← assertSession pid
    let _ ← runBuild statement
    let _ ← updateDone (index + 1)
    buildFrom pid (index + 1) rest

/-- The builds of the record that are still to run, and the end of the record. -/
def finishBuilds (pid : ℕ) (pending : PendingBuilds) : Run Unit := do
  let _ ← assertSession pid
  let _ ← unobserved
  let _ ← buildFrom pid pending.done (pending.statements.drop pending.done)
  clearPending

/-- One upgrade: the record of its builds, its transaction, and its builds. -/
def upgrade (package : Package) (pid found : ℕ) : Run Unit := do
  let partitions ← partitionTables
  let plan ← required (upgradePlan (package.getMigrationPlans found partitions))
  let _ ← assertSession pid
  let _ ← onlyIf (!plan.2.isEmpty) (writePending package.expected plan.2)
  let _ ← commitUpgrade found package.expected plan.1 plan.2
  onlyIf (!plan.2.isEmpty) do
    let pending ← readPending
    pending.elim (pure ()) (finishBuilds pid)

/-- The schema is installed where there is none: the session that holds the lock after it, and whether this run
installed it. A plan that finds the schema installed carries on in a new session. -/
def install (package : Package) (pid polls : ℕ) : Run (ℕ × Bool) := do
  let installed ← isInstalled
  if installed then pure (pid, false)
  else do
    let constructed ← construct package.constructs
    if constructed then pure (pid, true)
    else do
      let again ← backendPid
      let _ ← takeMigrateLock again polls
      pure (again, false)

/-- The builds of an earlier run: finished where its upgrade committed, else discarded. The result is whether they were
finished. -/
def settlePending (pid : ℕ) (found : Option ℕ) : Run Bool := do
  let pending ← readPending
  match pending with
  | none => pure false
  | some pending =>
    if found.any (pending.target ≤ ·) then do
      let _ ← finishBuilds pid pending
      pure true
    else do
      let _ ← clearPending
      pure false

/-- An older schema is upgraded. The result is whether it was. -/
def upgradeOlder (package : Package) (pid : ℕ) (found : Option ℕ) : Run Bool :=
  match found with
  | none => pure false
  | some version =>
    if version < package.expected then do
      let _ ← upgrade package pid version
      pure true
    else pure false

/-- The queues of the jobs. -/
def createQueues : List String → Run Unit
  | [] => pure ()
  | _ :: jobs => do
    let _ ← unobserved
    createQueues jobs

/-- **One run of `migrate` over the pg-boss schema.** -/
def installPgBoss (package : Package) (polls : ℕ) (jobs : List String) : Run (Option ℕ) := do
  let pid ← backendPid
  let _ ← takeMigrateLock pid polls
  let session ← install package pid polls
  let found ← schemaVersion
  let _ ← check (found.all (· ≤ package.expected))
  let finished ← settlePending session.1 found
  let upgraded ← upgradeOlder package session.1 found
  let version ← schemaVersion
  let _ ← check (version = some package.expected)
  let _ ← createQueues jobs
  pure (if session.2 || finished || upgraded then some package.expected else none)

end SlugBase.Migrate
