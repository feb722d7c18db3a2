import SlugBase.Schema
import Mathlib.Data.Option.Basic
import Mathlib.Logic.Function.Basic

/-!
# Named rows

Tags, folders and teams: their names, which are unique up to case, and the operations that give, change and
take away a name, statement by statement.

* `NamedRow`, `Key`: the rows, and what the unique index holds of them;
* `tagsRename`, `foldersUpdate`, …: the operations of the three repositories as `Request`s;
* `Phase`, `State`: the operations in flight with the rows and the keys they hold;
* `State.keyState`, `State.waitsFor`: whom a statement waits for; `State.statement`: what it does.
-/

namespace SlugBase.Naming

open Relational

/-! ## Rows -/

inductive Kind
  | tag
  | folder
  | team
  deriving DecidableEq, Repr

/-- Within what a name is unique: the tags or the folders of an owner, the teams of a workspace. -/
structure Scope where
  kind : Kind
  workspaceId : Uuid
  ownerId : Option Uuid
  deriving DecidableEq, Repr

/-- The columns beside the name that an operation writes. -/
structure Details where
  icon : String
  color : ℕ
  description : Option String
  deriving DecidableEq, Repr

/-- A row of `tags`, `folders` or `teams`; `stamp` is the transaction that wrote it. -/
structure NamedRow where
  id : Uuid
  scope : Scope
  name : String
  details : Details
  version : ℤ
  stamp : ℕ
  deriving DecidableEq, Repr

/-- The rows of the three tables. -/
abbrev Rows := Table NamedRow NamedRow.id

/-- An entry of the unique index: a name as `citext` compares it. -/
structure Key where
  scope : Scope
  name : String
  deriving DecidableEq, Repr

section

variable (citext : String → String)

/-- The entry of a row in the unique index. -/
def NamedRow.key (r : NamedRow) : Key := ⟨r.scope, citext r.name⟩

/-- Whether a row other than `id` has the name (`EXISTS (SELECT 1 … AS other …)`). -/
def taken (rows : Rows) (id : Uuid) (key : Key) : Bool := rows.any fun o => decide (o.key citext = key ∧ o.id ≠ id)

end

/-- The row of an identifier, within the scope of the caller. -/
def find (rows : Rows) (id : Uuid) (scope : Scope) : Option NamedRow :=
  rows.find? fun r => decide (r.id = id ∧ r.scope = scope)

/-- The rows with a row in the place of the one of its identifier. -/
def replace (rows : Rows) (row : NamedRow) : Rows :=
  rows.updateWhere (fun r => decide (r.id = row.id)) (fun r => { row with id := r.id }) fun _ => rfl

/-! ## Requests -/

/-- The columns a change names. -/
structure Changes where
  name : Option String := none
  icon : Option String := none
  color : Option ℕ := none
  description : Option (Option String) := none
  deriving DecidableEq, Repr

/-- The columns of a change that differ from the row. -/
def setOf (changes : Changes) (current : NamedRow) : Changes where
  name := changes.name.filter fun name => decide (name ≠ current.name)
  icon := changes.icon.filter fun icon => decide (icon ≠ current.details.icon)
  color := changes.color.filter fun color => decide (color ≠ current.details.color)
  description := changes.description.filter fun description => decide (description ≠ current.details.description)

namespace Changes

/-- `Object.keys(set).length === 0`. -/
def isEmpty (set : Changes) : Bool :=
  set.name.isNone && set.icon.isNone && set.color.isNone && set.description.isNone

/-- The row with the columns set. -/
def applied (set : Changes) (r : NamedRow) : NamedRow :=
  { r with
    name := set.name.getD r.name
    details :=
      { icon := set.icon.getD r.details.icon
        color := set.color.getD r.details.color
        description := set.description.getD r.details.description } }

end Changes

/-- `folders_bump_version()` and `teams_bump_version()`: the name is compared as text. -/
def bumpVersion (old new : NamedRow) : NamedRow :=
  { new with
    version := if new.name ≠ old.name ∨ new.details ≠ old.details then old.version + 1 else old.version }

/-- An operation of a repository, in a transaction of its own. -/
inductive Request
  | create (id : Uuid) (scope : Scope) (name : String) (details : Details)
  | rename (id : Uuid) (scope : Scope) (name : String)
  | update (id : Uuid) (scope : Scope) (changes : Changes) (expectedVersions : Option (List ℤ))
  | remove (id : Uuid) (scope : Scope)
  deriving DecidableEq, Repr

namespace Request

/-- The row an operation is about. -/
def id : Request → Uuid
  | create id _ _ _ | rename id _ _ | update id _ _ _ | remove id _ => id

def scope : Request → Scope
  | create _ scope _ _ | rename _ scope _ | update _ scope _ _ | remove _ scope => scope

/-- The row that a creation makes. -/
def creates : Request → Option Uuid
  | create id _ _ _ => some id
  | _ => none

/-- The name an operation is to give, as the unique index has it. -/
def wanted (citext : String → String) : Request → Option Key
  | create _ scope name _ | rename _ scope name => some ⟨scope, citext name⟩
  | update _ scope changes _ => changes.name.map fun name => ⟨scope, citext name⟩
  | remove _ _ => none

/-- The versions an update accepts. -/
def expectedVersions : Request → Option (List ℤ)
  | update _ _ _ expectedVersions => expectedVersions
  | _ => none

def isUpdate : Request → Bool
  | update _ _ _ _ => true
  | _ => false

end Request

/-- The columns of a tag beside its name. -/
def noDetails : Details := ⟨"", 0, none⟩

section

variable (workspaceId owner id : Uuid)

def tagsCreate (name : String) : Request := .create id ⟨.tag, workspaceId, some owner⟩ name noDetails

def tagsRename (name : String) : Request := .rename id ⟨.tag, workspaceId, some owner⟩ name

def tagsRemove : Request := .remove id ⟨.tag, workspaceId, some owner⟩

def foldersCreate (name icon : String) (color : ℕ) : Request :=
  .create id ⟨.folder, workspaceId, some owner⟩ name ⟨icon, color, none⟩

def foldersUpdate (name icon : Option String) (color : Option ℕ) (expectedVersions : Option (List ℤ)) : Request :=
  .update id ⟨.folder, workspaceId, some owner⟩ { name := name, icon := icon, color := color } expectedVersions

def foldersRemove : Request := .remove id ⟨.folder, workspaceId, some owner⟩

def teamsCreate (name : String) (description : Option String) : Request :=
  .create id ⟨.team, workspaceId, none⟩ name ⟨"", 0, description⟩

def teamsUpdate (name : Option String) (description : Option (Option String)) (expectedVersions : Option (List ℤ)) :
    Request :=
  .update id ⟨.team, workspaceId, none⟩ { name := name, description := description } expectedVersions

def teamsRemove : Request := .remove id ⟨.team, workspaceId, none⟩

end

/-- The requests the repositories make. -/
inductive Request.Made : Request → Prop
  | tagsCreate (w a id : Uuid) (name : String) : Made (Naming.tagsCreate w a id name)
  | tagsRename (w a id : Uuid) (name : String) : Made (Naming.tagsRename w a id name)
  | tagsRemove (w a id : Uuid) : Made (Naming.tagsRemove w a id)
  | foldersCreate (w a id : Uuid) (name icon : String) (color : ℕ) : Made (Naming.foldersCreate w a id name icon color)
  | foldersUpdate (w a id : Uuid) (name icon : Option String) (color : Option ℕ) (versions : Option (List ℤ)) :
      Made (Naming.foldersUpdate w a id name icon color versions)
  | foldersRemove (w a id : Uuid) : Made (Naming.foldersRemove w a id)
  | teamsCreate (w id : Uuid) (name : String) (description : Option String) :
      Made (Naming.teamsCreate w id name description)
  | teamsUpdate (w id : Uuid) (name : Option String) (description : Option (Option String))
      (versions : Option (List ℤ)) : Made (Naming.teamsUpdate w id name description versions)
  | teamsRemove (w id : Uuid) : Made (Naming.teamsRemove w id)

/-- The outcomes of the operations; `databaseError` is none that they declare. -/
inductive Answer
  | created
  | changed
  | unchanged
  | removed
  | nameTaken
  | notFound
  | stale
  | databaseError
  deriving DecidableEq, Repr

/-! ## Operations in flight -/

/-- Where an operation is, with what it has read and what it has written. -/
inductive Phase
  | asked
  /-- a tag is to be renamed -/
  | judging (name : String)
  /-- the `UPDATE` of a tag has found its row and the name free in its snapshot, and is to lock the row -/
  | found (name : String) (snapshot : Rows) (since : ℕ)
  /-- the `UPDATE` of a tag has met no row -/
  | passed
  | held (current : NamedRow) (changes : Changes)
  /-- the row is written, its new name not yet in the unique index -/
  | writing (old new : NamedRow) (snapshot : Rows) (since : ℕ)
  | inserted (row : NamedRow)
  | written (old new : NamedRow) (named : Bool)
  | removing (row : NamedRow)

namespace Phase

/-- The row an operation has locked. -/
def row : Phase → Option NamedRow
  | held current _ => some current
  | writing old _ _ _ | written old _ _ => some old
  | removing row => some row
  | _ => none

/-- Whether the operation has written the row that it has locked. -/
def writes : Phase → Bool
  | writing _ _ _ _ | written _ _ _ | removing _ => true
  | _ => false

/-- The entry of the unique index that an operation has made. -/
def claimed (citext : String → String) : Phase → Option Key
  | inserted row => some (row.key citext)
  | written _ new true => some (new.key citext)
  | _ => none

/-- What the `UPDATE` of a name has been judged by, and when. -/
def snapshot : Phase → Option (Rows × ℕ)
  | found _ snapshot since => some (snapshot, since)
  | writing _ _ snapshot since => some (snapshot, since)
  | _ => none

end Phase

/-- An operation in flight, with the committed rows its statements have met. -/
structure Txn where
  request : Request
  phase : Phase
  seen : List Rows

/-- An operation that has ended: the row it had locked, and the committed rows before and after. -/
structure Deed where
  request : Request
  seen : List Rows
  judged : Option NamedRow
  answer : Answer
  before : Rows
  after : Rows

/-- The committed rows, the operations in flight, who holds which row and which entry of the unique index, the
identifiers ever given, a clock of the steps, and the answers so far. -/
structure State where
  rows : Rows
  running : ℕ → Option Txn
  locks : Uuid → Option ℕ
  claims : Key → Option ℕ
  known : List Uuid
  clock : ℕ
  history : List Deed

/-- What a statement finds at a key of the unique index. -/
inductive KeyState
  | free
  | pending (j : ℕ)
  | taken
  deriving DecidableEq

/-- The transaction that has to end before the key is judged. -/
def KeyState.holder : KeyState → Option ℕ
  | pending j => some j
  | _ => none

namespace State

variable (citext : String → String) (s : State)

/-- The transaction that has written a row and not ended. -/
def writer (id : Uuid) : Option ℕ :=
  (s.locks id).filter fun j => ((s.running j).map fun t => t.phase.writes).getD false

/-- The key as the unique index has it, for a statement that gives it to the row `own`. -/
def keyState (own : Uuid) (key : Key) : KeyState :=
  match s.claims key with
  | some j => .pending j
  | none =>
    match s.rows.find? fun r => decide (r.key citext = key ∧ r.id ≠ own) with
    | none => .free
    | some r =>
      match s.writer r.id with
      | some j => .pending j
      | none => .taken

/-- The transaction that holds the row a statement is to lock. -/
def rowHolder (r : Request) : Option ℕ := (find s.rows r.id r.scope).bind fun row => s.locks row.id

/-- **Whom the next statement of an operation waits for.** -/
def waitsFor (i : ℕ) : Option ℕ :=
  (s.running i).bind fun t =>
    match t.phase with
    | .asked =>
      match t.request with
      | .create id scope name _ => (s.keyState citext id ⟨scope, citext name⟩).holder
      | .rename _ _ _ => none
      | .update _ _ _ _ | .remove _ _ => s.rowHolder t.request
    | .found _ _ _ => s.rowHolder t.request
    | .writing _ new _ _ => (s.keyState citext new.id (new.key citext)).holder
    | _ => none

end State

/-- How a statement ends: the operation goes on, or ends with the rows it leaves committed. -/
inductive Outcome
  | go (phase : Phase)
  | finish (answer : Answer) (after : Rows)

namespace State

variable (citext : String → String) (s : State)

/-- **The statements of the operations**, when they wait for nobody. -/
def statement (r : Request) : Phase → Outcome
  | .asked =>
    match r with
    | .create id scope name details =>
      if s.keyState citext id ⟨scope, citext name⟩ = .taken then .finish .nameTaken s.rows
      else .go (.inserted { id := id, scope := scope, name := name, details := details, version := 1, stamp := 0 })
    | .rename id scope name =>
      match find s.rows id scope with
      | none => .finish .notFound s.rows
      | some current => if current.name = name then .finish .unchanged s.rows else .go (.judging name)
    | .update id scope changes expectedVersions =>
      match find s.rows id scope with
      | none => .finish .notFound s.rows
      | some current =>
        if (expectedVersions.map fun versions => !versions.contains current.version).getD false then
          .finish .stale s.rows
        else .go (.held current changes)
    | .remove id scope =>
      match find s.rows id scope with
      | none => .finish .notFound s.rows
      | some row => .go (.removing row)
  | .judging name =>
    match find s.rows r.id r.scope with
    | none => .go .passed
    | some _ =>
      if taken citext s.rows r.id ⟨r.scope, citext name⟩ then .go .passed
      else .go (.found name s.rows s.clock)
  -- the row is met as it is now, whether or not it was waited for, and the names of the others as the statement began
  | .found name snapshot since =>
    match find s.rows r.id r.scope with
    | none => .go .passed
    | some row => .go (.writing row { row with name := name } snapshot since)
  | .passed => .finish (if (find s.rows r.id r.scope).isSome then .nameTaken else .notFound) s.rows
  | .held current changes =>
    let set := setOf changes current
    if set.isEmpty then .finish .unchanged s.rows
    else
      let new := bumpVersion current (set.applied current)
      match set.name with
      | some name =>
        if taken citext s.rows r.id ⟨r.scope, citext name⟩ then .finish .nameTaken s.rows
        else .go (.writing current new s.rows s.clock)
      | none => .go (.written current new false)
  -- a row of the name fails the statement, which rolls the transaction back
  | .writing old new _ _ =>
    if s.keyState citext new.id (new.key citext) = .taken then .finish .nameTaken s.rows
    else .go (.written old new true)
  | .inserted row => .finish .created ((s.rows.insert? { row with stamp := s.clock }).getD s.rows)
  | .written _ new _ => .finish .changed (replace s.rows { new with stamp := s.clock })
  | .removing row => .finish .removed (s.rows.deleteWhere fun r => decide (r.id = row.id))

end State

end SlugBase.Naming
