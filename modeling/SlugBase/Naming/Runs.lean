import SlugBase.Naming.Store
import SlugBase.Lib.Transition
import SlugBase.Lib.Waiting

/-!
# Operations on names at once

Any number of operations, each a transaction of its own, between one another's statements.

* `State.run`: the next statement of an operation that waits for nobody; `State.aborted`: the database ends an
  operation that waits, through others, for itself;
* `system`: the runs; `Undisturbed`: no tag's `UPDATE` meets a row that was written since its snapshot;
* `Goes`, `Ends`, **`statement_ends`**: every way a statement ends.
-/

namespace SlugBase.Naming

open Relational Transition

inductive Label
  | ask (i : ℕ) (request : Request)
  | run (i : ℕ)
  | abort (i : ℕ)

namespace State

variable (citext : String → String) (s : State)

/-- A request arrives; the identifier of a row that it makes was never given before. -/
def asked (i : ℕ) (request : Request) : Option State :=
  if (s.running i).isSome || (request.creates.map s.known.contains).getD false then none
  else some { s with
    running := Function.update s.running i (some { request := request, phase := .asked, seen := [] })
    known := request.creates.toList ++ s.known
    clock := s.clock + 1 }

/-- An operation goes on, and takes hold of the row and the key of where it is. -/
def goOn (i : ℕ) (t : Txn) (phase : Phase) : State :=
  { s with
    running := Function.update s.running i (some { t with phase := phase, seen := s.rows :: t.seen })
    locks := (phase.row.map fun row => Function.update s.locks row.id (some i)).getD s.locks
    claims := ((phase.claimed citext).map fun key => Function.update s.claims key (some i)).getD s.claims
    clock := s.clock + 1 }

/-- An operation ends, and lets go of what it holds. -/
def ended (i : ℕ) (t : Txn) (answer : Answer) (after : Rows) : State where
  rows := after
  running := Function.update s.running i none
  locks id := if s.locks id = some i then none else s.locks id
  claims key := if s.claims key = some i then none else s.claims key
  known := s.known
  clock := s.clock + 1
  history := { request := t.request, seen := s.rows :: t.seen, judged := t.phase.row, answer := answer,
               before := s.rows, after := after } :: s.history

/-- The next statement of an operation, unless it waits. -/
def run (i : ℕ) : Option State :=
  match s.running i with
  | none => none
  | some t =>
    if (s.waitsFor citext i).isSome then none
    else match s.statement citext t.request t.phase with
      | .go phase => some (s.goOn citext i t phase)
      | .finish answer after => some (s.ended i t answer after)

/-- A step of the operations. -/
def step? : Label → Option State
  | .ask i request => s.asked i request
  | .run i => s.run citext i
  | .abort _ => none

/-- One operation waits for another. -/
def Waits (i j : ℕ) : Prop := s.waitsFor citext i = some j

end State

/-- **The runs of operations on names**, from rows whose names differ. -/
def system (citext : String → String) : System State Label where
  init s := (∀ r ∈ s.rows, ∀ r' ∈ s.rows, r.key citext = r'.key citext → r.id = r'.id) ∧
    (∀ r ∈ s.rows, r.id ∈ s.known ∧ r.stamp < s.clock) ∧ s.running = (fun _ => none) ∧ s.locks = (fun _ => none) ∧
    s.claims = (fun _ => none) ∧ s.history = []
  step s label s' :=
    (∃ i request, label = .ask i request ∧ request.Made ∧ s.asked i request = some s') ∨
    (∃ i, label = .run i ∧ s.run citext i = some s') ∨
    ∃ i t, label = .abort i ∧ Waiting.Deadlocked (s.Waits citext) i ∧ s.running i = some t ∧
      s' = s.ended i t .databaseError s.rows

/-- No tag's `UPDATE` meets another row than the one of the snapshot that it judged the name by, whether it has waited
for the row or not. -/
def Undisturbed (s : State) (label : Label) (_ : State) : Prop :=
  ∀ i t name snapshot since row, label = .run i → s.running i = some t → t.phase = .found name snapshot since →
    find s.rows t.request.id t.request.scope = some row → row ∈ snapshot

/-! ## The ways of a statement -/

/-- The version of the row is one that the request accepts. -/
def Accepts (r : Request) (row : NamedRow) : Prop := ∀ versions, r.expectedVersions = some versions → row.version ∈ versions

/-- A row that an operation writes in the place of another. -/
structure Follows (r : Request) (old new : NamedRow) : Prop where
  id : new.id = old.id
  scope : new.scope = old.scope
  accepts : Accepts r old
  version : old.version ≤ new.version
  moved : r.isUpdate = true → old.version < new.version

section

variable (citext : String → String) (s : State) (r : Request)

/-- No other row of a snapshot has the name that the operation gives. -/
def Judged (snapshot : Rows) : Prop := ∀ o ∈ snapshot, some (o.key citext) = r.wanted citext → o.id = r.id

/-- **How an operation goes on**: every way from one phase to the next. -/
inductive Goes : Phase → Phase → Prop
  | insert {row : NamedRow} : r.creates = some row.id → row.id = r.id → some (row.key citext) = r.wanted citext →
      s.keyState citext row.id (row.key citext) ≠ .taken → Goes .asked (.inserted row)
  | read {name : String} {row : NamedRow} : r.creates = none → r.isUpdate = false →
      some ⟨r.scope, citext name⟩ = r.wanted citext →
      r.expectedVersions = none → find s.rows r.id r.scope = some row → Goes .asked (.judging name)
  | miss {name : String} : find s.rows r.id r.scope = none ∨ taken citext s.rows r.id ⟨r.scope, citext name⟩ = true →
      Goes (.judging name) .passed
  | judge {name : String} : taken citext s.rows r.id ⟨r.scope, citext name⟩ = false →
      Goes (.judging name) (.found name s.rows s.clock)
  | gone {name : String} {snapshot : Rows} {since : ℕ} : find s.rows r.id r.scope = none →
      Goes (.found name snapshot since) .passed
  | grant {name : String} {snapshot : Rows} {since : ℕ} {row : NamedRow} : find s.rows r.id r.scope = some row →
      Goes (.found name snapshot since) (.writing row { row with name := name } snapshot since)
  | lock {row : NamedRow} {changes : Changes} : r.isUpdate = true → r.creates = none → (∀ name, changes.name = some name →
      some ⟨r.scope, citext name⟩ = r.wanted citext) → find s.rows r.id r.scope = some row → Accepts r row →
      Goes .asked (.held row changes)
  | write {row : NamedRow} {changes : Changes} {name : String} : (setOf changes row).isEmpty = false →
      (setOf changes row).name = some name → taken citext s.rows r.id ⟨r.scope, citext name⟩ = false →
      Goes (.held row changes)
        (.writing row (bumpVersion row ((setOf changes row).applied row)) s.rows s.clock)
  | touch {row : NamedRow} {changes : Changes} : (setOf changes row).isEmpty = false → (setOf changes row).name = none →
      Goes (.held row changes) (.written row (bumpVersion row ((setOf changes row).applied row)) false)
  | claim {old new : NamedRow} {snapshot : Rows} {since : ℕ} : s.keyState citext new.id (new.key citext) ≠ .taken →
      Goes (.writing old new snapshot since) (.written old new true)
  | mark {row : NamedRow} : r = .remove r.id r.scope → find s.rows r.id r.scope = some row → Goes .asked (.removing row)

/-- **How a statement ends.** -/
inductive Ends : Phase → Outcome → Prop
  | goes {phase phase' : Phase} : Goes citext s r phase phase' → Ends phase (.go phase')
  | refuse {phase : Phase} {answer : Answer} : answer = .unchanged ∨ answer = .notFound ∨ answer = .stale →
      Ends phase (.finish answer s.rows)
  | createTaken {key : Key} : r.creates = some r.id → some key = r.wanted citext →
      s.keyState citext r.id key = .taken → Ends .asked (.finish .nameTaken s.rows)
  | writeTaken {old new : NamedRow} {snapshot : Rows} {since : ℕ} : s.keyState citext new.id (new.key citext) = .taken →
      Ends (.writing old new snapshot since) (.finish .nameTaken s.rows)
  | judgedTaken {row : NamedRow} {changes : Changes} {name : String} : (setOf changes row).name = some name →
      taken citext s.rows r.id ⟨r.scope, citext name⟩ = true → Ends (.held row changes) (.finish .nameTaken s.rows)
  | stillThere {row : NamedRow} : find s.rows r.id r.scope = some row → Ends .passed (.finish .nameTaken s.rows)
  | create {row : NamedRow} :
      Ends (.inserted row) (.finish .created ((s.rows.insert? { row with stamp := s.clock }).getD s.rows))
  | change {old new : NamedRow} {named : Bool} :
      Ends (.written old new named) (.finish .changed (replace s.rows { new with stamp := s.clock }))
  | remove {row : NamedRow} :
      Ends (.removing row) (.finish .removed (s.rows.deleteWhere fun r => decide (r.id = row.id)))

end

section

variable (citext : String → String) (s : State) (r : Request)

/-- **Every statement ends in one of these ways.** -/
theorem statement_ends (phase : Phase) : Ends citext s r phase (s.statement citext r phase) := by
  cases phase with
  | asked =>
    cases r with
    | create id scope name details =>
      simp only [State.statement]
      split_ifs with htaken
      · exact .createTaken rfl rfl htaken
      · exact .goes (.insert rfl rfl rfl htaken)
    | rename id scope name =>
      simp only [State.statement]
      cases hfind : find s.rows id scope with
      | none => exact .refuse (.inr (.inl rfl))
      | some current =>
        dsimp only
        split_ifs
        · exact .refuse (.inl rfl)
        · exact .goes (.read rfl rfl rfl rfl hfind)
    | update id scope changes expectedVersions =>
      simp only [State.statement]
      cases hfind : find s.rows id scope with
      | none => exact .refuse (.inr (.inl rfl))
      | some current =>
        dsimp only
        split_ifs with hstale
        · exact .refuse (.inr (.inr rfl))
        · refine .goes (.lock rfl rfl ?_ hfind ?_)
          · intro name hname
            rw [Request.wanted, hname]
            rfl
          · intro versions hversions
            obtain rfl : expectedVersions = some versions := hversions
            simpa using hstale
    | remove id scope =>
      simp only [State.statement]
      cases hfind : find s.rows id scope with
      | none => exact .refuse (.inr (.inl rfl))
      | some row => exact .goes (.mark rfl hfind)
  | judging name =>
    simp only [State.statement]
    cases hfind : find s.rows r.id r.scope with
    | none => exact .goes (.miss (.inl hfind))
    | some row =>
      dsimp only
      split_ifs with htaken
      · exact .goes (.miss (.inr htaken))
      · exact .goes (.judge (Bool.eq_false_iff.mpr htaken))
  | found name snapshot since =>
    simp only [State.statement]
    cases hfind : find s.rows r.id r.scope with
    | none => exact .goes (.gone hfind)
    | some row => exact .goes (.grant hfind)
  | passed =>
    simp only [State.statement]
    cases hfind : find s.rows r.id r.scope with
    | none => exact .refuse (.inr (.inl rfl))
    | some row => exact .stillThere hfind
  | held current changes =>
    simp only [State.statement]
    split_ifs with hempty
    · exact .refuse (.inl rfl)
    · cases hname : (setOf changes current).name with
      | none => exact .goes (.touch (Bool.eq_false_iff.mpr hempty) hname)
      | some name =>
        dsimp only
        split_ifs with htaken
        · exact .judgedTaken hname htaken
        · exact .goes (.write (Bool.eq_false_iff.mpr hempty) hname (Bool.eq_false_iff.mpr htaken))
  | writing old new snapshot since =>
    simp only [State.statement]
    split_ifs with htaken
    · exact .writeTaken htaken
    · exact .goes (.claim htaken)
  | inserted row => exact .create
  | written old new named => exact .change
  | removing row => exact .remove

end

end SlugBase.Naming
