import SlugBase.Lib.Transition
import Mathlib.Data.List.AList
import Mathlib.Data.List.Induction

/-!
# Transactions at read committed

Concurrent transactions over keyed rows. A statement reads what is committed when it runs under the writes
of its own transaction, a write holds the lock of its row until the transaction ends, and the row triggers
that are deferred run when the transaction is done, before it commits.

* `Prog`: what a transaction does, a tree of statements; `Rules`: what the statements of a database do;
* `Txn`, `Sys`, `Sys.step`: the transactions in flight, each at its own statement;
* **`Sys.sound`**: no two transactions hold conflicting locks, and what is written is locked;
* **`Guarantee.holds`**: what each transaction keeps of itself, and the commits of the others keep of it,
  holds in every reachable state.
-/

namespace ReadCommitted

open Transition

universe u

/-- The modes of a row lock, the weakest first. -/
inductive LockMode
  | keyShare
  | share
  | noKeyUpdate
  | update
  deriving DecidableEq, Repr

/-- Whether a lock of one mode waits for a lock of another that a different transaction holds. -/
def LockMode.conflicts : LockMode → LockMode → Bool
  | .keyShare, m => decide (m = .update)
  | .share, m => decide (m = .noKeyUpdate ∨ m = .update)
  | .noKeyUpdate, m => decide (m ≠ .keyShare)
  | .update, _ => true

theorem LockMode.conflicts_comm (m m' : LockMode) : m.conflicts m' = m'.conflicts m := by
  cases m <;> cases m' <;> rfl

variable {κ : Type u} [DecidableEq κ] {β : κ → Type u} {ς ε α ρ : Type u}

/-! ## Rows and writes -/

/-- A row as it becomes, or the row's absence. -/
def put (db : AList β) (k : κ) : Option (β k) → AList β
  | some row => db.insert k row
  | none => db.erase k

@[simp] theorem lookup_put_self (db : AList β) (k : κ) (row : Option (β k)) : (put db k row).lookup k = row := by
  cases row with
  | none => exact AList.lookup_erase k db
  | some b => exact AList.lookup_insert db

theorem lookup_put_ne (db : AList β) {k k' : κ} (row : Option (β k)) (h : k' ≠ k) :
    (put db k row).lookup k' = db.lookup k' := by
  cases row with
  | none => exact AList.lookup_erase_ne h
  | some b => exact AList.lookup_insert_ne h

/-- The rows under these writes, the oldest first. -/
def applied (writes : List (Σ k, Option (β k))) (db : AList β) : AList β :=
  writes.foldl (fun db w => put db w.1 w.2) db

@[simp] theorem applied_nil (db : AList β) : applied [] db = db := rfl

@[simp] theorem applied_concat (writes : List (Σ k, Option (β k))) (w : Σ k, Option (β k)) (db : AList β) :
    applied (writes ++ [w]) db = put (applied writes db) w.1 w.2 := by
  rw [applied, List.foldl_append]
  rfl

theorem lookup_applied_of_notMem {writes : List (Σ k, Option (β k))} {k : κ} (h : k ∉ writes.map Sigma.fst)
    (db : AList β) : (applied writes db).lookup k = db.lookup k := by
  induction writes using List.reverseRecOn with
  | nil => rfl
  | append_singleton writes w ih =>
    rw [List.map_append, List.mem_append, not_or] at h
    have hne : k ≠ w.1 := fun heq => h.2 (List.mem_singleton.mpr heq)
    rw [applied_concat, lookup_put_ne _ _ hne, ih h.1]

theorem lookup_applied_of_mem {writes : List (Σ k, Option (β k))} {k : κ} (h : k ∈ writes.map Sigma.fst)
    (db db' : AList β) : (applied writes db).lookup k = (applied writes db').lookup k := by
  induction writes using List.reverseRecOn with
  | nil => cases h
  | append_singleton writes w ih =>
    rw [applied_concat, applied_concat]
    by_cases heq : k = w.1
    · subst heq
      rw [lookup_put_self, lookup_put_self]
    · rw [List.map_append, List.mem_append] at h
      have hmem : k ∈ writes.map Sigma.fst := h.resolve_right fun hw => heq (List.mem_singleton.mp hw)
      rw [lookup_put_ne _ _ heq, lookup_put_ne _ _ heq, ih hmem]

/-! ## Programs -/

/-- What a statement that writes does to its row. -/
inductive Change (row : Type u)
  | raises
  | nothing
  | becomes (row : Option row)

/-- What a transaction does: it answers and commits, it raises and undoes what it did, or it runs a
statement and goes on by what the statement found. -/
inductive Prog (β : κ → Type u) (ς α : Type u) : Type u
  | done (answer : α)
  | raise
  | read (next : AList β → Prog β ς α)
  | lock (key : κ) (mode : LockMode) (wanted : Option (β key) → Bool) (next : Bool → Prog β ς α)
  | write (statement : ς) (next : Bool → Prog β ς α)

/-- What the statements of a database do: the row each writes and the lock it takes, what it makes of the row,
what a write of a row queues for the end of the transaction, and what is done about it there. -/
structure Rules (β : κ → Type u) (ς ε α : Type u) where
  target : ς → κ
  mode : ς → LockMode
  change : (q : ς) → AList β → Change (β (target q))
  queue : (k : κ) → Option (β k) → Option (β k) → List ε
  handler : ε → Prog β ς α → Prog β ς α
  exclusive : ∀ q q', (mode q).conflicts (mode q') = true

/-! ## Transactions -/

/-- A transaction in flight. -/
structure Txn (β : κ → Type u) (ς ε α : Type u) where
  prog : Prog β ς α
  writes : List (Σ k, Option (β k))
  locks : List (κ × LockMode)
  events : List ε
  handled : List ε

namespace Txn

variable (rules : Rules β ς ε α) (db : AList β) (free : κ → LockMode → Bool)

/-- A transaction that has done nothing yet. -/
def fresh (prog : Prog β ς α) : Txn β ς ε α := ⟨prog, [], [], [], []⟩

variable (x : Txn β ς ε α)

/-- The rows a statement of the transaction reads. -/
def view : AList β := applied x.writes db

/-- The transaction has done everything and its deferred triggers have run. -/
def Ready : Prop := (∃ answer, x.prog = .done answer) ∧ x.events = []

/-- The transaction after a statement made `row` of its row. -/
def wrote (q : ς) (row : Option (β (rules.target q))) (next : Prog β ς α) : Txn β ς ε α where
  prog := next
  writes := x.writes ++ [⟨rules.target q, row⟩]
  locks := (rules.target q, rules.mode q) :: x.locks
  events := x.events ++ rules.queue (rules.target q) ((x.view db).lookup (rules.target q)) row
  handled := x.handled

/-- The next thing that happens to a transaction. -/
inductive Turn (β : κ → Type u) (ς ε α : Type u)
  | waits
  | ends
  | commits
  | goes (x : Txn β ς ε α)

/-- The next thing that happens to the transaction, `free` being the locks no other one stands in the way of. -/
def turn : Turn β ς ε α :=
  match x.prog with
  | .raise => .ends
  | .done _ =>
    match x.events with
    | [] => .commits
    | e :: events =>
      .goes { x with prog := rules.handler e x.prog, events := events, handled := e :: x.handled }
  | .read next => .goes { x with prog := next (x.view db) }
  | .lock key mode wanted next =>
    match wanted ((x.view db).lookup key), free key mode with
    | false, _ => .goes { x with prog := next false }
    | true, true => .goes { x with prog := next true, locks := (key, mode) :: x.locks }
    | true, false => .waits
  | .write q next =>
    match rules.change q (x.view db), free (rules.target q) (rules.mode q) with
    | .raises, _ => .ends
    | .nothing, _ => .goes { x with prog := next false }
    | .becomes row, true => .goes (x.wrote rules db q row (next true))
    | .becomes _, false => .waits

/-- What one statement of a transaction, or the start of a deferred trigger, makes of it. -/
inductive Step : Txn β ς ε α → Prop
  | read {next : AList β → Prog β ς α} : x.prog = .read next → Step { x with prog := next (x.view db) }
  | missed {key : κ} {mode : LockMode} {wanted : Option (β key) → Bool} {next : Bool → Prog β ς α} :
    x.prog = .lock key mode wanted next → wanted ((x.view db).lookup key) = false →
      Step { x with prog := next false }
  | locked {key : κ} {mode : LockMode} {wanted : Option (β key) → Bool} {next : Bool → Prog β ς α} :
    x.prog = .lock key mode wanted next → wanted ((x.view db).lookup key) = true → free key mode = true →
      Step { x with prog := next true, locks := (key, mode) :: x.locks }
  | unchanged {q : ς} {next : Bool → Prog β ς α} :
    x.prog = .write q next → rules.change q (x.view db) = .nothing → Step { x with prog := next false }
  | wrote {q : ς} {next : Bool → Prog β ς α} {row : Option (β (rules.target q))} :
    x.prog = .write q next → rules.change q (x.view db) = .becomes row →
      free (rules.target q) (rules.mode q) = true → Step (x.wrote rules db q row (next true))
  | handles {answer : α} {e : ε} {events : List ε} : x.prog = .done answer → x.events = e :: events →
      Step { x with prog := rules.handler e x.prog, events := events, handled := e :: x.handled }

variable {rules db free x}

theorem step_of_turn {x' : Txn β ς ε α} (h : x.turn rules db free = .goes x') : x.Step rules db free x' := by
  unfold turn at h
  split at h
  · cases h
  · rename_i hprog
    split at h
    · cases h
    · rename_i hevents
      cases h
      exact .handles hprog hevents
  · rename_i hprog
    cases h
    exact .read hprog
  · rename_i hprog
    split at h
    · rename_i hwanted
      cases h
      exact .missed hprog hwanted
    · rename_i hwanted hfree
      cases h
      exact .locked hprog hwanted hfree
    · cases h
  · rename_i hprog
    split at h
    · cases h
    · rename_i hchange
      cases h
      exact .unchanged hprog hchange
    · rename_i hchange hfree
      cases h
      exact .wrote hprog hchange hfree
    · cases h

theorem ready_of_turn (h : x.turn rules db free = .commits) : x.Ready := by
  unfold turn at h
  split at h
  · cases h
  · rename_i answer hprog
    split at h
    · rename_i hevents
      exact ⟨⟨answer, hprog⟩, hevents⟩
    · cases h
  · cases h
  · split at h <;> cases h
  · split at h <;> cases h

/-- The view after a write. -/
@[simp] theorem view_wrote (q : ς) (row : Option (β (rules.target q))) (next : Prog β ς α) :
    (x.wrote rules db q row next).view db = put (x.view db) (rules.target q) row :=
  applied_concat _ _ _

end Txn

/-! ## The transactions of a database -/

/-- A database: what is committed and the transactions in flight. -/
structure Sys (β : κ → Type u) (ς ε α : Type u) where
  committed : AList β
  txns : AList fun _ : ℕ => Txn β ς ε α

/-- What may happen next: a transaction starts for a request, goes on, or is aborted. -/
inductive Action (ρ : Type u)
  | start (t : ℕ) (request : ρ)
  | run (t : ℕ)
  | abort (t : ℕ)
  deriving DecidableEq, Repr

namespace Sys

variable (rules : Rules β ς ε α) (program : ρ → Prog β ς α) (s : Sys β ς ε α)

/-- No transaction but `t` holds a lock that one of this mode waits for. -/
def free (t : ℕ) (key : κ) (mode : LockMode) : Bool :=
  s.txns.entries.all fun e => decide (e.1 = t) ||
    e.2.locks.all fun l => decide (l.1 ≠ key) || !l.2.conflicts mode

/-- **One step of a database**; `none` when the action cannot happen. -/
def step : Action ρ → Option (Sys β ς ε α)
  | .start t request =>
    match s.txns.lookup t with
    | none => some ⟨s.committed, s.txns.insert t (.fresh (program request))⟩
    | some _ => none
  | .abort t => some ⟨s.committed, s.txns.erase t⟩
  | .run t =>
    match s.txns.lookup t with
    | none => none
    | some x =>
      match x.turn rules s.committed (s.free t) with
      | .waits => none
      | .ends => some ⟨s.committed, s.txns.erase t⟩
      | .commits => some ⟨x.view s.committed, s.txns.erase t⟩
      | .goes x' => some ⟨s.committed, s.txns.insert t x'⟩

/-- The steps one after the other. -/
def run : List (Action ρ) → Sys β ς ε α → Option (Sys β ς ε α)
  | [], s => some s
  | a :: actions, s => (s.step rules program a).bind (run actions)

/-- What a step can do. -/
inductive Moves : Sys β ς ε α → Prop
  | starts {t : ℕ} (request : ρ) : s.txns.lookup t = none →
      Moves ⟨s.committed, s.txns.insert t (.fresh (program request))⟩
  | ends (t : ℕ) : Moves ⟨s.committed, s.txns.erase t⟩
  | goes {t : ℕ} {x x' : Txn β ς ε α} : s.txns.lookup t = some x → x.Step rules s.committed (s.free t) x' →
      Moves ⟨s.committed, s.txns.insert t x'⟩
  | commits {t : ℕ} {x : Txn β ς ε α} : s.txns.lookup t = some x → x.Ready →
      Moves ⟨x.view s.committed, s.txns.erase t⟩

variable {rules program s}

theorem moves_of_step {a : Action ρ} {s' : Sys β ς ε α} (h : s.step rules program a = some s') :
    s.Moves rules program s' := by
  cases a with
  | start t request =>
    rw [step] at h
    split at h
    · rename_i hnone
      cases h
      exact .starts request hnone
    · cases h
  | abort t =>
    cases h
    exact .ends t
  | run t =>
    rw [step] at h
    split at h
    · cases h
    · rename_i x hx
      split at h
      · cases h
      · cases h
        exact .ends t
      · rename_i hturn
        cases h
        exact .commits hx (Txn.ready_of_turn hturn)
      · rename_i hturn
        cases h
        exact .goes hx (Txn.step_of_turn hturn)

end Sys

/-- The runs of a database from the rows `initial` allows, with no transaction in flight. -/
def system (rules : Rules β ς ε α) (program : ρ → Prog β ς α) (initial : AList β → Prop) :
    System (Sys β ς ε α) (Action ρ) where
  init s := initial s.committed ∧ s.txns = ∅
  step s a s' := s.step rules program a = some s'

section

variable {rules : Rules β ς ε α} {program : ρ → Prog β ς α} {initial : AList β → Prop} {s s' : Sys β ς ε α}

theorem Sys.run_append (actions more : List (Action ρ)) (s : Sys β ς ε α) :
    s.run rules program (actions ++ more) = (s.run rules program actions).bind (Sys.run rules program more) := by
  induction actions generalizing s with
  | nil => rfl
  | cons a actions ih =>
    rw [List.cons_append, Sys.run, Sys.run]
    cases s.step rules program a with
    | none => rfl
    | some s₁ => exact ih s₁

theorem reachable_of_run {S : System (Sys β ς ε α) (Action ρ)}
    (hS : ∀ s a s', s.step rules program a = some s' → S.step s a s') {actions : List (Action ρ)}
    (h : S.Reachable s) (hrun : s.run rules program actions = some s') : S.Reachable s' := by
  induction actions generalizing s with
  | nil =>
    cases hrun
    exact h
  | cons a actions ih =>
    obtain ⟨s₁, hstep, hrun⟩ := Option.bind_eq_some_iff.mp hrun
    exact ih (.step h (hS s a s₁ hstep)) hrun

end

/-! ## Locks -/

namespace Txn

variable {rules : Rules β ς ε α} {db : AList β} {free : κ → LockMode → Bool} {x x' y : Txn β ς ε α}

/-- The rows the transaction has written. -/
def written (x : Txn β ς ε α) : List κ := x.writes.map Sigma.fst

/-- Every row the transaction has written is locked by it. -/
def Locked (rules : Rules β ς ε α) (x : Txn β ς ε α) : Prop :=
  ∀ k ∈ x.written, ∃ q, (k, rules.mode q) ∈ x.locks

/-- No lock of the one waits for a lock of the other. -/
def Apart (x y : Txn β ς ε α) : Prop :=
  ∀ l ∈ x.locks, ∀ l' ∈ y.locks, l.1 = l'.1 → l.2.conflicts l'.2 = false

omit [DecidableEq κ] in
theorem Apart.symm (h : x.Apart y) : y.Apart x := by
  intro l hl l' hl' heq
  rw [LockMode.conflicts_comm]
  exact h l' hl' l hl heq.symm

omit [DecidableEq κ] in
theorem Apart.notMem_written (h : x.Apart y) (hx : x.Locked rules) (hy : y.Locked rules) {k : κ}
    (hk : k ∈ x.written) : k ∉ y.written := by
  intro hk'
  obtain ⟨q, hq⟩ := hx k hk
  obtain ⟨q', hq'⟩ := hy k hk'
  have hno := h _ hq _ hq' rfl
  rw [rules.exclusive] at hno
  cases hno

theorem lookup_view_of_notMem {k : κ} (h : k ∉ x.written) (db : AList β) :
    (x.view db).lookup k = db.lookup k :=
  lookup_applied_of_notMem h db

theorem lookup_view_of_mem {k : κ} (h : k ∈ x.written) (db db' : AList β) :
    (x.view db).lookup k = (x.view db').lookup k :=
  lookup_applied_of_mem h db db'

theorem Step.of_mem_locks (h : x.Step rules db free x') {l : κ × LockMode} (hl : l ∈ x'.locks) :
    l ∈ x.locks ∨ free l.1 l.2 = true := by
  cases h with
  | read | missed | unchanged | handles => exact .inl hl
  | locked _ _ hfree | wrote _ _ hfree =>
    rcases List.mem_cons.mp hl with rfl | hl
    · exact .inr hfree
    · exact .inl hl

theorem Step.keeps_locked (h : x.Step rules db free x') (hx : x.Locked rules) : x'.Locked rules := by
  cases h with
  | read | missed | unchanged | handles => exact hx
  | locked =>
    intro k hk
    obtain ⟨q, hq⟩ := hx k hk
    exact ⟨q, List.mem_cons_of_mem _ hq⟩
  | @wrote q =>
    intro k hk
    rw [written, Txn.wrote, List.map_append, List.mem_append] at hk
    rcases hk with hk | hk
    · obtain ⟨q', hq'⟩ := hx k hk
      exact ⟨q', List.mem_cons_of_mem _ hq'⟩
    · obtain rfl := List.mem_singleton.mp hk
      exact ⟨q, List.mem_cons_self⟩

end Txn

/-! ## What holds in every run -/

section

variable {txns : AList fun _ : ℕ => Txn β ς ε α} {t u : ℕ} {x y : Txn β ς ε α}

omit [DecidableEq κ] in
theorem of_lookup_insert (h : (txns.insert t x).lookup u = some y) :
    u = t ∧ y = x ∨ u ≠ t ∧ txns.lookup u = some y := by
  by_cases hu : u = t
  · subst hu
    rw [AList.lookup_insert] at h
    exact .inl ⟨rfl, (Option.some.inj h).symm⟩
  · rw [AList.lookup_insert_ne hu] at h
    exact .inr ⟨hu, h⟩

omit [DecidableEq κ] in
theorem of_lookup_erase (h : (txns.erase t).lookup u = some y) : u ≠ t ∧ txns.lookup u = some y := by
  by_cases hu : u = t
  · subst hu
    rw [AList.lookup_erase] at h
    cases h
  · rw [AList.lookup_erase_ne hu] at h
    exact ⟨hu, h⟩

end

namespace Sys

variable {rules : Rules β ς ε α} {program : ρ → Prog β ς α} {initial : AList β → Prop} {s s' : Sys β ς ε α}

theorem conflicts_of_free {t u : ℕ} {key : κ} {mode : LockMode} {y : Txn β ς ε α} (h : s.free t key mode = true)
    (hy : s.txns.lookup u = some y) (hu : u ≠ t) {l : κ × LockMode} (hl : l ∈ y.locks) (hkey : l.1 = key) :
    l.2.conflicts mode = false := by
  have hall := List.all_eq_true.mp h ⟨u, y⟩ (AList.mem_lookup_iff.mp hy)
  simp only [decide_eq_false hu, Bool.false_or] at hall
  have hone := List.all_eq_true.mp hall l hl
  simpa [hkey] using hone

/-- The locks of a database: what is written is locked, and no two transactions hold conflicting locks. -/
structure Sound (rules : Rules β ς ε α) (s : Sys β ς ε α) : Prop where
  locked : ∀ t x, s.txns.lookup t = some x → x.Locked rules
  apart : ∀ t u x y, t ≠ u → s.txns.lookup t = some x → s.txns.lookup u = some y → x.Apart y

theorem Sound.moves (hs : s.Sound rules) (h : s.Moves rules program s') : s'.Sound rules := by
  cases h with
  | @starts t request hnone =>
    constructor
    · intro u x hx
      rcases of_lookup_insert hx with ⟨rfl, rfl⟩ | ⟨-, hx⟩
      · exact fun k hk => absurd hk List.not_mem_nil
      · exact hs.locked u x hx
    · intro u v x y huv hx hy
      rcases of_lookup_insert hx with ⟨rfl, rfl⟩ | ⟨-, hx⟩
      · exact fun l hl => absurd hl List.not_mem_nil
      · rcases of_lookup_insert hy with ⟨rfl, rfl⟩ | ⟨-, hy⟩
        · exact fun l _ l' hl' => absurd hl' List.not_mem_nil
        · exact hs.apart u v x y huv hx hy
  | ends t | commits =>
    exact ⟨fun u x hx => hs.locked u x (of_lookup_erase hx).2,
      fun u v x y huv hx hy => hs.apart u v x y huv (of_lookup_erase hx).2 (of_lookup_erase hy).2⟩
  | @goes t z z' hz hstep =>
    -- the locks of `z'` against those of another transaction
    have hothers : ∀ u y, u ≠ t → s.txns.lookup u = some y → z'.Apart y := by
      intro u y hut hy l hl l' hl' heq
      rcases hstep.of_mem_locks hl with hl | hfree
      · exact hs.apart t u z y (Ne.symm hut) hz hy l hl l' hl' heq
      · rw [LockMode.conflicts_comm]
        exact conflicts_of_free hfree hy hut hl' heq.symm
    constructor
    · intro u x hx
      rcases of_lookup_insert hx with ⟨rfl, rfl⟩ | ⟨-, hx⟩
      · exact hstep.keeps_locked (hs.locked u z hz)
      · exact hs.locked u x hx
    · intro u v x y huv hx hy
      rcases of_lookup_insert hx with ⟨hut, rfl⟩ | ⟨hut, hxs⟩
      · rcases of_lookup_insert hy with ⟨hvt, rfl⟩ | ⟨hvt, hys⟩
        · exact absurd (hut.trans hvt.symm) huv
        · exact hothers v y hvt hys
      · rcases of_lookup_insert hy with ⟨hvt, rfl⟩ | ⟨hvt, hys⟩
        · exact (hothers u x hut hxs).symm
        · exact hs.apart u v x y huv hxs hys

/-- **No two transactions hold conflicting locks**, and what a transaction has written is locked by it. -/
theorem sound (h : (system rules program initial).Reachable s) : s.Sound rules := by
  refine h.invariant (fun s hs => ?_) (fun s a s' hs hstep => hs.moves (moves_of_step hstep))
  have hnone (t : ℕ) (x : Txn β ς ε α) : s.txns.lookup t ≠ some x := by
    rw [hs.2, AList.lookup_empty]
    exact Option.some_ne_none x ∘ Eq.symm
  exact ⟨fun t x hx => absurd hx (hnone t x), fun t u x y _ hx => absurd hx (hnone t x)⟩

/-- What is committed meets `C`, and every transaction in flight meets `I`. -/
structure Holds (C : AList β → Prop) (I : AList β → Txn β ς ε α → Prop) (s : Sys β ς ε α) : Prop where
  committed : C s.committed
  inFlight : ∀ t x, s.txns.lookup t = some x → I s.committed x

end Sys

/-- What makes `C` hold of what is committed and `I` of every transaction in flight: a transaction keeps its own
`I`, the commit of one keeps the `I` of every other, and a transaction that meets `I` commits rows of `C`. -/
structure Guarantee (rules : Rules β ς ε α) (program : ρ → Prog β ς α) (C : AList β → Prop)
    (I : AList β → Txn β ς ε α → Prop) : Prop where
  starts : ∀ {db} request, C db → I db (.fresh (program request))
  keeps : ∀ {db free x x'}, C db → I db x → x.Step rules db free x' → I db x'
  others : ∀ {db x y}, C db → I db x → I db y → y.Ready → x.Apart y → (∀ k ∈ x.written, k ∉ y.written) →
    I (y.view db) x
  commits : ∀ {db y}, C db → I db y → y.Ready → C (y.view db)

namespace Guarantee

variable {rules : Rules β ς ε α} {program : ρ → Prog β ς α} {initial : AList β → Prop} {C : AList β → Prop}
  {I : AList β → Txn β ς ε α → Prop} {s s' : Sys β ς ε α}

theorem moves (g : Guarantee rules program C I) (hsound : s.Sound rules) (hs : s.Holds C I)
    (h : s.Moves rules program s') : s'.Holds C I := by
  cases h with
  | @starts t request hnone =>
    refine ⟨hs.committed, fun u x hx => ?_⟩
    rcases of_lookup_insert hx with ⟨rfl, rfl⟩ | ⟨-, hx⟩
    · exact g.starts request hs.committed
    · exact hs.inFlight u x hx
  | ends t => exact ⟨hs.committed, fun u x hx => hs.inFlight u x (of_lookup_erase hx).2⟩
  | @goes t z z' hz hstep =>
    refine ⟨hs.committed, fun u x hx => ?_⟩
    rcases of_lookup_insert hx with ⟨rfl, rfl⟩ | ⟨-, hx⟩
    · exact g.keeps hs.committed (hs.inFlight u z hz) hstep
    · exact hs.inFlight u x hx
  | @commits t y hy hready =>
    refine ⟨g.commits hs.committed (hs.inFlight t y hy) hready, fun u x hx => ?_⟩
    obtain ⟨hut, hx⟩ := of_lookup_erase hx
    have hapart := hsound.apart u t x y hut hx hy
    exact g.others hs.committed (hs.inFlight u x hx) (hs.inFlight t y hy) hready hapart
      fun k hk => hapart.notMem_written (hsound.locked u x hx) (hsound.locked t y hy) hk

/-- **The rule of concurrent transactions.** -/
theorem holds (g : Guarantee rules program C I) (h0 : ∀ db, initial db → C db)
    (h : (system rules program initial).Reachable s) : s.Holds C I := by
  refine h.invariant_of (J := Sys.Sound rules) (I := Sys.Holds C I) (fun s hs => Sys.sound hs)
    (fun s hs => ⟨h0 _ hs.1, fun t x hx => ?_⟩)
    (fun s a s' hsound hs hstep => g.moves hsound hs (Sys.moves_of_step hstep))
  rw [hs.2, AList.lookup_empty] at hx
  cases hx

end Guarantee

end ReadCommitted
