import SlugBase.Lib.ReadCommitted

/-!
# Transactions and the commits of the others

A rule for programs whose transactions run at read committed: a transaction relies on the commits of the others to keep
what they promise, and promises the same when it commits itself. Between two of its statements any number of others
may have committed, so what is carried from one statement to the next is stable.

* `Held`: what a transaction has written and locked; `Contract`: what holds of the committed rows and what a
  commit promises;
* `Contract.Stable`: the commits of the others keep it;
* `Contract.Safe`, `Contract.Triple`: a program from here on commits nothing but what it promises, with one rule for
  each kind of statement;
* **`Contract.holds`**: safe programs keep what holds of the committed rows.
-/

namespace ReadCommitted

open Relation Transition

universe u

variable {κ : Type u} [DecidableEq κ] {β : κ → Type u} {ς ε α ρ : Type u}

/-! ## What a transaction holds -/

/-- What a transaction has written, the oldest first, and the locks it holds. -/
structure Held (β : κ → Type u) where
  writes : List (Σ k, Option (β k))
  locks : List (κ × LockMode)

namespace Held

/-- A transaction that has done nothing holds nothing. -/
def empty : Held β := ⟨[], []⟩

variable (x : Held β)

/-- The rows a statement of the transaction reads. -/
def view (db : AList β) : AList β := applied x.writes db

/-- The rows the transaction has written. -/
def written : List κ := x.writes.map Sigma.fst

/-- With one more lock. -/
def locking (key : κ) (mode : LockMode) : Held β := { x with locks := (key, mode) :: x.locks }

/-- With one more row written. -/
def writing (key : κ) (mode : LockMode) (row : Option (β key)) : Held β :=
  ⟨x.writes ++ [⟨key, row⟩], (key, mode) :: x.locks⟩

/-- No lock of the one waits for a lock of the other. -/
def Apart (y : Held β) : Prop := ∀ l ∈ x.locks, ∀ l' ∈ y.locks, l.1 = l'.1 → l.2.conflicts l'.2 = false

/-- Every row the transaction has written is locked by it. -/
def Locked (rules : Rules β ς ε α) : Prop := ∀ k ∈ x.written, ∃ q, (k, rules.mode q) ∈ x.locks

variable {x} {y : Held β} {k : κ}

omit [DecidableEq κ] in
@[simp] theorem written_empty : (empty : Held β).written = [] := rfl

@[simp] theorem view_empty (db : AList β) : (empty : Held β).view db = db := rfl

omit [DecidableEq κ] in
@[simp] theorem written_locking (key : κ) (mode : LockMode) : (x.locking key mode).written = x.written := rfl

@[simp] theorem view_locking (key : κ) (mode : LockMode) (db : AList β) : (x.locking key mode).view db = x.view db :=
  rfl

omit [DecidableEq κ] in
@[simp] theorem written_writing (key : κ) (mode : LockMode) (row : Option (β key)) :
    (x.writing key mode row).written = x.written ++ [key] := by
  rw [written, writing, List.map_append]
  rfl

@[simp] theorem view_writing (key : κ) (mode : LockMode) (row : Option (β key)) (db : AList β) :
    (x.writing key mode row).view db = put (x.view db) key row :=
  applied_concat _ _ _

theorem lookup_view_of_notMem (h : k ∉ x.written) (db : AList β) : (x.view db).lookup k = db.lookup k :=
  lookup_applied_of_notMem h db

theorem lookup_view_of_mem (h : k ∈ x.written) (db db' : AList β) :
    (x.view db).lookup k = (x.view db').lookup k :=
  lookup_applied_of_mem h db db'

theorem view_of_written_nil (h : x.written = []) (db : AList β) : x.view db = db := by
  have hwrites : x.writes = [] := List.map_eq_nil_iff.mp h
  rw [view, hwrites, applied_nil]

variable {rules : Rules β ς ε α}

omit [DecidableEq κ] in
theorem notMem_written_of_lock (hapart : x.Apart y) (hy : y.Locked rules) {m : LockMode}
    (hm : ∀ q, m.conflicts (rules.mode q) = true) (hk : (k, m) ∈ x.locks) : k ∉ y.written := by
  intro hwritten
  obtain ⟨q, hq⟩ := hy k hwritten
  have hno := hapart _ hk _ hq rfl
  rw [hm q] at hno
  cases hno

end Held

/-- What the transaction holds. -/
def Txn.held (x : Txn β ς ε α) : Held β := ⟨x.writes, x.locks⟩

/-! ## Contracts -/

/-- What holds of the committed rows, and what a transaction that answers so promises of the rows its commit leaves. -/
structure Contract (rules : Rules β ς ε α) where
  committed : AList β → Prop
  promise : α → AList β → Held β → Prop
  commits : ∀ {answer db y}, committed db → promise answer db y → committed (y.view db)

namespace Contract

variable {rules : Rules β ς ε α} (c : Contract rules)

/-- The commit of another transaction keeps it. -/
def Stable (F : AList β → Held β → Prop) : Prop :=
  ∀ db x answer y, c.committed db → F db x → c.promise answer db y → y.Locked rules → x.Apart y →
    (∀ k ∈ x.written, k ∉ y.written) → F (y.view db) x

/-- Another transaction commits. -/
def Interferes (x : Held β) (db db' : AList β) : Prop :=
  c.committed db ∧ ∃ (answer : α) (y : Held β), c.promise answer db y ∧ y.Locked rules ∧ x.Apart y ∧
    (∀ k ∈ x.written, k ∉ y.written) ∧ db' = y.view db

/-- Other transactions commit, any number of them. -/
def Meanwhile (x : Held β) : AList β → AList β → Prop := ReflTransGen (c.Interferes x)

/-- From here on the program commits only what it promises, whatever the others commit meanwhile. -/
def Safe : Prog β ς α → AList β → Held β → Prop
  | .done answer, db, x => ∀ db', c.Meanwhile x db db' → c.promise answer db' x
  | .raise, _, _ => True
  | .read next, db, x => ∀ db', c.Meanwhile x db db' → Safe (next (x.view db')) db' x
  | .lock key mode wanted next, db, x => ∀ db', c.Meanwhile x db db' →
      (wanted ((x.view db').lookup key) = false → Safe (next false) db' x) ∧
        (wanted ((x.view db').lookup key) = true → Safe (next true) db' (x.locking key mode))
  | .write q next, db, x => ∀ db', c.Meanwhile x db db' →
      (rules.change q (x.view db') = .nothing → Safe (next false) db' x) ∧
        ∀ row, rules.change q (x.view db') = .becomes row →
          Safe (next true) db' (x.writing (rules.target q) (rules.mode q) row)

/-- The program is safe wherever `F` holds. -/
def Triple (F : AList β → Held β → Prop) (p : Prog β ς α) : Prop :=
  ∀ db x, c.committed db → F db x → c.Safe p db x

variable {c} {F G : AList β → Held β → Prop}

/-! ## Stability -/

theorem Stable.own (F : Held β → Prop) : c.Stable fun _ x => F x := fun _ _ _ _ _ h _ _ _ _ => h

theorem Stable.and (hF : c.Stable F) (hG : c.Stable G) : c.Stable fun db x => F db x ∧ G db x :=
  fun db x answer y hdb h hy hlocked hapart hdisjoint =>
    ⟨hF db x answer y hdb h.1 hy hlocked hapart hdisjoint, hG db x answer y hdb h.2 hy hlocked hapart hdisjoint⟩

theorem Stable.or (hF : c.Stable F) (hG : c.Stable G) : c.Stable fun db x => F db x ∨ G db x :=
  fun db x answer y hdb h hy hlocked hapart hdisjoint =>
    h.imp (fun h => hF db x answer y hdb h hy hlocked hapart hdisjoint) fun h =>
      hG db x answer y hdb h hy hlocked hapart hdisjoint

theorem Stable.row {k : κ} {m : LockMode} (hm : ∀ q, m.conflicts (rules.mode q) = true) (row : Option (β k)) :
    c.Stable fun db x => (k, m) ∈ x.locks ∧ db.lookup k = row := by
  intro db x _ y _ h _ hlocked hapart _
  have hk : k ∉ y.written := Held.notMem_written_of_lock hapart hlocked hm h.1
  exact ⟨h.1, (Held.lookup_view_of_notMem hk db).trans h.2⟩

theorem Stable.each {Rel : List (κ × LockMode) → (k : κ) → Option (β k) → Option (β k) → Prop}
    (hrefl : ∀ locks k row, Rel locks k row row) :
    c.Stable fun db x => ∀ k, Rel x.locks k (db.lookup k) ((x.view db).lookup k) := by
  intro db x _ y _ h _ _ _ hdisjoint k
  by_cases hk : k ∈ x.written
  · rw [Held.lookup_view_of_notMem (hdisjoint k hk), Held.lookup_view_of_mem hk _ db]
    exact h k
  · rw [Held.lookup_view_of_notMem hk]
    exact hrefl _ _ _

theorem Stable.meanwhile (hF : c.Stable F) {x : Held β} {db db' : AList β} (hdb : c.committed db) (h : F db x)
    (hrun : c.Meanwhile x db db') : c.committed db' ∧ F db' x := by
  induction hrun with
  | refl => exact ⟨hdb, h⟩
  | tail _ hstep ih =>
    obtain ⟨hdb', answer, y, hy, hlocked, hapart, hdisjoint, rfl⟩ := hstep
    exact ⟨c.commits hdb' hy, hF _ x answer y hdb' ih.2 hy hlocked hapart hdisjoint⟩

/-! ## Rules -/

section

variable {p : Prog β ς α}

theorem Triple.of_imp (h : c.Triple G p) (himp : ∀ {db x}, c.committed db → F db x → G db x) : c.Triple F p :=
  fun db x hdb hF => h db x hdb (himp hdb hF)

theorem Triple.raise : c.Triple F .raise := fun _ _ _ _ => trivial

theorem Triple.done {answer : α} (hF : c.Stable F) (h : ∀ {db x}, c.committed db → F db x → c.promise answer db x) :
    c.Triple F (.done answer) := by
  intro db x hdb hx db' hrun
  obtain ⟨hdb', hx'⟩ := hF.meanwhile hdb hx hrun
  exact h hdb' hx'

theorem Triple.read {next : AList β → Prog β ς α} (hF : c.Stable F)
    (h : ∀ {db x}, c.committed db → F db x → c.Safe (next (x.view db)) db x) : c.Triple F (.read next) := by
  intro db x hdb hx db' hrun
  obtain ⟨hdb', hx'⟩ := hF.meanwhile hdb hx hrun
  exact h hdb' hx'

theorem Triple.lock {key : κ} {mode : LockMode} {wanted : Option (β key) → Bool} {next : Bool → Prog β ς α}
    (hF : c.Stable F)
    (hmissed : ∀ {db x}, c.committed db → F db x → wanted ((x.view db).lookup key) = false →
      c.Safe (next false) db x)
    (hlocked : ∀ {db x}, c.committed db → F db x → wanted ((x.view db).lookup key) = true →
      c.Safe (next true) db (x.locking key mode)) : c.Triple F (.lock key mode wanted next) := by
  intro db x hdb hx db' hrun
  obtain ⟨hdb', hx'⟩ := hF.meanwhile hdb hx hrun
  exact ⟨hmissed hdb' hx', hlocked hdb' hx'⟩

theorem Triple.write {q : ς} {next : Bool → Prog β ς α} (hF : c.Stable F)
    (hnothing : ∀ {db x}, c.committed db → F db x → rules.change q (x.view db) = .nothing →
      c.Safe (next false) db x)
    (hbecomes : ∀ {db x row}, c.committed db → F db x → rules.change q (x.view db) = .becomes row →
      c.Safe (next true) db (x.writing (rules.target q) (rules.mode q) row)) : c.Triple F (.write q next) := by
  intro db x hdb hx db' hrun
  obtain ⟨hdb', hx'⟩ := hF.meanwhile hdb hx hrun
  exact ⟨hnothing hdb' hx', fun row => hbecomes hdb' hx'⟩

end

/-! ## Every run -/

theorem Safe.interferes {p : Prog β ς α} {db db' : AList β} {x : Held β} (h : c.Safe p db x)
    (hstep : c.Interferes x db db') : c.Safe p db' x := by
  cases p with
  | raise => trivial
  | done | read | lock | write => exact fun db'' hrun => h db'' (.head hstep hrun)

/-- What holds of a transaction in flight. -/
structure InFlight (c : Contract rules) (db : AList β) (x : Txn β ς ε α) : Prop where
  quiet : x.events = []
  locked : x.Locked rules
  safe : c.Safe x.prog db x.held

theorem InFlight.step {db : AList β} {free : κ → LockMode → Bool} {x x' : Txn β ς ε α} (h : c.InFlight db x)
    (hqueue : ∀ k old new, rules.queue k old new = []) (hstep : x.Step rules db free x') : c.InFlight db x' := by
  have hlocked := hstep.keeps_locked h.locked
  have hsafe := h.safe
  cases hstep with
  | read hprog =>
    rw [hprog] at hsafe
    exact ⟨h.quiet, hlocked, hsafe db .refl⟩
  | missed hprog hwanted =>
    rw [hprog] at hsafe
    exact ⟨h.quiet, hlocked, (hsafe db .refl).1 hwanted⟩
  | locked hprog hwanted =>
    rw [hprog] at hsafe
    exact ⟨h.quiet, hlocked, (hsafe db .refl).2 hwanted⟩
  | unchanged hprog hchange =>
    rw [hprog] at hsafe
    exact ⟨h.quiet, hlocked, (hsafe db .refl).1 hchange⟩
  | wrote hprog hchange =>
    rw [hprog] at hsafe
    refine ⟨?_, hlocked, (hsafe db .refl).2 _ hchange⟩
    rw [Txn.wrote, h.quiet, hqueue, List.append_nil]
  | handles _ hevents =>
    rw [h.quiet] at hevents
    cases hevents

theorem InFlight.promise {db : AList β} {x : Txn β ς ε α} (h : c.InFlight db x) {answer : α}
    (hprog : x.prog = .done answer) : c.promise answer db x.held := by
  have hsafe := h.safe
  rw [hprog] at hsafe
  exact hsafe db .refl

theorem guarantee {program : ρ → Prog β ς α} (hqueue : ∀ k old new, rules.queue k old new = [])
    (hsafe : ∀ request, c.Triple (fun _ x => x = .empty) (program request)) :
    Guarantee rules program c.committed c.InFlight where
  starts request hdb := ⟨rfl, fun k hk => absurd hk List.not_mem_nil, hsafe request _ _ hdb rfl⟩
  keeps _ hx hstep := hx.step hqueue hstep
  others {db x y} hdb hx hy hready hapart hdisjoint := by
    obtain ⟨⟨answer, hprog⟩, -⟩ := hready
    exact ⟨hx.quiet, hx.locked,
      hx.safe.interferes ⟨hdb, answer, y.held, hy.promise hprog, hy.locked, hapart, hdisjoint, rfl⟩⟩
  commits {db y} hdb hy hready := by
    obtain ⟨⟨answer, hprog⟩, -⟩ := hready
    exact c.commits hdb (hy.promise hprog)

/-- **What holds of the committed rows holds of them in every run**, when the programs of the requests are safe. -/
theorem holds {program : ρ → Prog β ς α} {initial : AList β → Prop} {s : Sys β ς ε α}
    (hqueue : ∀ k old new, rules.queue k old new = [])
    (hsafe : ∀ request, c.Triple (fun _ x => x = .empty) (program request))
    (hinitial : ∀ db, initial db → c.committed db) (h : (system rules program initial).Reachable s) :
    s.Holds c.committed c.InFlight :=
  (guarantee hqueue hsafe).holds hinitial h

end Contract

end ReadCommitted
