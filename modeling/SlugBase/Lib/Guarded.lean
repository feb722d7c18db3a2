import SlugBase.Lib.RelyGuarantee

/-!
# Statements that find what they need

The rule for transactions that rely on the commits of the others, for programs of which some statements may only run
where a guard holds: the guard holds at every such statement, whatever the others commit meanwhile.

* `Evolution`, `Held.Evolves`: what a transaction makes of each row goes by a relation;
* `Contract.Guarded`, `Contract.Upholds`: the program commits what it promises, and each statement that writes finds its
  guard, with one rule for each kind of statement;
* **`Contract.upheld`**: in every run, a transaction that is at a statement finds its guard.
-/

namespace ReadCommitted

open Relation Transition

universe u

variable {κ : Type u} [DecidableEq κ] {β : κ → Type u} {ς ε α ρ : Type u} {rules : Rules β ς ε α}

/-! ## What a transaction makes of each row -/

/-- A relation between a row and what becomes of it, under the locks of the transaction that makes it so. -/
structure Evolution (Rel : List (κ × LockMode) → (k : κ) → Option (β k) → Option (β k) → Prop) : Prop where
  refl : ∀ locks k row, Rel locks k row row
  trans : ∀ {locks k row row' row''}, Rel locks k row row' → Rel locks k row' row'' → Rel locks k row row''
  mono : ∀ {l locks k row row'}, Rel locks k row row' → Rel (l :: locks) k row row'

namespace Held

section

variable {x : Held β} {db : AList β} {k key : κ} {mode : LockMode} {row : Option (β key)}

theorem lookup_writing_ne (h : k ≠ key) : ((x.writing key mode row).view db).lookup k = (x.view db).lookup k := by
  rw [view_writing, lookup_put_ne _ _ h]

theorem lookup_writing_self : ((x.writing key mode row).view db).lookup key = row := by
  rw [view_writing, lookup_put_self]

omit [DecidableEq κ] in
theorem mem_written_writing : k ∈ (x.writing key mode row).written ↔ k ∈ x.written ∨ k = key := by
  rw [written_writing, List.mem_append, List.mem_singleton]

end

/-- What the transaction has made of every row goes by the relation. -/
def Evolves (Rel : List (κ × LockMode) → (k : κ) → Option (β k) → Option (β k) → Prop) (db : AList β) (x : Held β) : Prop :=
  ∀ k, Rel x.locks k (db.lookup k) ((x.view db).lookup k)

variable {Rel : List (κ × LockMode) → (k : κ) → Option (β k) → Option (β k) → Prop} {db : AList β} {x y : Held β}

theorem Evolves.of_unwritten (e : Evolution Rel) (h : x.written = []) : x.Evolves Rel db := by
  intro k
  rw [view_of_written_nil h]
  exact e.refl _ _ _

theorem Evolves.locking (e : Evolution Rel) (h : x.Evolves Rel db) (key : κ) (mode : LockMode) :
    (x.locking key mode).Evolves Rel db := fun k => e.mono (h k)

theorem Evolves.writing (e : Evolution Rel) (h : x.Evolves Rel db) {key : κ} {mode : LockMode} {row : Option (β key)}
    (hrow : Rel ((key, mode) :: x.locks) key ((x.view db).lookup key) row) :
    (x.writing key mode row).Evolves Rel db := by
  intro k
  rw [view_writing]
  by_cases heq : k = key
  · subst heq
    rw [lookup_put_self]
    exact e.trans (e.mono (h k)) hrow
  · rw [lookup_put_ne _ _ heq]
    exact e.mono (h k)

theorem Evolves.meanwhile (e : Evolution Rel) (h : y.Evolves Rel db) (x : Held β) (k : κ) :
    Rel y.locks k ((x.view db).lookup k) ((x.view (y.view db)).lookup k) := by
  by_cases hk : k ∈ x.written
  · rw [lookup_view_of_mem hk (y.view db) db]
    exact e.refl _ _ _
  · rw [lookup_view_of_notMem hk, lookup_view_of_notMem hk]
    exact h k

end Held

/-! ## Programs that find what they need -/

namespace Contract

section

variable (c : Contract rules) (guard : ς → AList β → Held β → Prop)

/-- From here on the program commits only what it promises, and each statement that writes finds its guard. -/
def Guarded : Prog β ς α → AList β → Held β → Prop
  | .done answer, db, x => ∀ db', c.Meanwhile x db db' → c.promise answer db' x
  | .raise, _, _ => True
  | .read next, db, x => ∀ db', c.Meanwhile x db db' → Guarded (next (x.view db')) db' x
  | .lock key mode wanted next, db, x => ∀ db', c.Meanwhile x db db' →
      (wanted ((x.view db').lookup key) = false → Guarded (next false) db' x) ∧
        (wanted ((x.view db').lookup key) = true → Guarded (next true) db' (x.locking key mode))
  | .write q next, db, x => ∀ db', c.Meanwhile x db db' → guard q db' x ∧
      (rules.change q (x.view db') = .nothing → Guarded (next false) db' x) ∧
        ∀ row, rules.change q (x.view db') = .becomes row →
          Guarded (next true) db' (x.writing (rules.target q) (rules.mode q) row)

/-- The program is guarded wherever `F` holds. -/
def Upholds (F : AList β → Held β → Prop) (p : Prog β ς α) : Prop :=
  ∀ db x, c.committed db → F db x → c.Guarded guard p db x

end

variable {c : Contract rules} {guard : ς → AList β → Held β → Prop} {F G : AList β → Held β → Prop}

/-! ## Rules -/

section

variable {p : Prog β ς α}

theorem Upholds.of_imp (h : c.Upholds guard G p) (himp : ∀ {db x}, c.committed db → F db x → G db x) :
    c.Upholds guard F p := fun db x hdb hF => h db x hdb (himp hdb hF)

theorem Upholds.raise : c.Upholds guard F .raise := fun _ _ _ _ => trivial

theorem Upholds.done {answer : α} (hF : c.Stable F) (h : ∀ {db x}, c.committed db → F db x → c.promise answer db x) :
    c.Upholds guard F (.done answer) := by
  intro db x hdb hx db' hrun
  obtain ⟨hdb', hx'⟩ := hF.meanwhile hdb hx hrun
  exact h hdb' hx'

theorem Upholds.read {next : AList β → Prog β ς α} (hF : c.Stable F)
    (h : ∀ {db x}, c.committed db → F db x → c.Guarded guard (next (x.view db)) db x) :
    c.Upholds guard F (.read next) := by
  intro db x hdb hx db' hrun
  obtain ⟨hdb', hx'⟩ := hF.meanwhile hdb hx hrun
  exact h hdb' hx'

theorem Upholds.lock {key : κ} {mode : LockMode} {wanted : Option (β key) → Bool} {next : Bool → Prog β ς α}
    (hF : c.Stable F)
    (hmissed : ∀ {db x}, c.committed db → F db x → wanted ((x.view db).lookup key) = false →
      c.Guarded guard (next false) db x)
    (hlocked : ∀ {db x}, c.committed db → F db x → wanted ((x.view db).lookup key) = true →
      c.Guarded guard (next true) db (x.locking key mode)) : c.Upholds guard F (.lock key mode wanted next) := by
  intro db x hdb hx db' hrun
  obtain ⟨hdb', hx'⟩ := hF.meanwhile hdb hx hrun
  exact ⟨hmissed hdb' hx', hlocked hdb' hx'⟩

theorem Upholds.write {q : ς} {next : Bool → Prog β ς α} (hF : c.Stable F)
    (hguard : ∀ {db x}, c.committed db → F db x → guard q db x)
    (hnothing : ∀ {db x}, c.committed db → F db x → rules.change q (x.view db) = .nothing →
      c.Guarded guard (next false) db x)
    (hbecomes : ∀ {db x row}, c.committed db → F db x → rules.change q (x.view db) = .becomes row →
      c.Guarded guard (next true) db (x.writing (rules.target q) (rules.mode q) row)) :
    c.Upholds guard F (.write q next) := by
  intro db x hdb hx db' hrun
  obtain ⟨hdb', hx'⟩ := hF.meanwhile hdb hx hrun
  exact ⟨hguard hdb' hx', hnothing hdb' hx', fun row => hbecomes hdb' hx'⟩

end

/-- Statements one after the other, whatever each finds. -/
def writeEach : List ς → Prog β ς α → Prog β ς α
  | [], rest => rest
  | q :: qs, rest => .write q fun _ => writeEach qs rest

theorem Upholds.writeEach {F : List ς → AList β → Held β → Prop} {rest : Prog β ς α} (hF : ∀ qs, c.Stable (F qs))
    (hguard : ∀ {q qs db x}, c.committed db → F (q :: qs) db x → guard q db x)
    (hnothing : ∀ {q qs db x}, c.committed db → F (q :: qs) db x → rules.change q (x.view db) = .nothing → F qs db x)
    (hbecomes : ∀ {q qs db x row}, c.committed db → F (q :: qs) db x → rules.change q (x.view db) = .becomes row →
      F qs db (x.writing (rules.target q) (rules.mode q) row))
    (hrest : c.Upholds guard (F []) rest) (qs : List ς) : c.Upholds guard (F qs) (writeEach qs rest) := by
  induction qs with
  | nil => exact hrest
  | cons q qs ih =>
    exact .write (hF _) hguard (fun hdb hx hchange => ih _ _ hdb (hnothing hdb hx hchange))
      fun hdb hx hchange => ih _ _ hdb (hbecomes hdb hx hchange)

/-! ## Every run -/

theorem Guarded.interferes {p : Prog β ς α} {db db' : AList β} {x : Held β} (h : c.Guarded guard p db x)
    (hstep : c.Interferes x db db') : c.Guarded guard p db' x := by
  cases p with
  | raise => trivial
  | done | read | lock | write => exact fun db'' hrun => h db'' (.head hstep hrun)

/-- What holds of a transaction in flight. -/
structure Flying (c : Contract rules) (guard : ς → AList β → Held β → Prop) (db : AList β) (x : Txn β ς ε α) :
    Prop where
  quiet : x.events = []
  locked : x.Locked rules
  guarded : c.Guarded guard x.prog db x.held

theorem Flying.step {db : AList β} {free : κ → LockMode → Bool} {x x' : Txn β ς ε α} (h : c.Flying guard db x)
    (hqueue : ∀ k old new, rules.queue k old new = []) (hstep : x.Step rules db free x') : c.Flying guard db x' := by
  have hlocked := hstep.keeps_locked h.locked
  have hguarded := h.guarded
  cases hstep with
  | read hprog =>
    rw [hprog] at hguarded
    exact ⟨h.quiet, hlocked, hguarded db .refl⟩
  | missed hprog hwanted =>
    rw [hprog] at hguarded
    exact ⟨h.quiet, hlocked, (hguarded db .refl).1 hwanted⟩
  | locked hprog hwanted =>
    rw [hprog] at hguarded
    exact ⟨h.quiet, hlocked, (hguarded db .refl).2 hwanted⟩
  | unchanged hprog hchange =>
    rw [hprog] at hguarded
    exact ⟨h.quiet, hlocked, (hguarded db .refl).2.1 hchange⟩
  | wrote hprog hchange =>
    rw [hprog] at hguarded
    refine ⟨?_, hlocked, (hguarded db .refl).2.2 _ hchange⟩
    rw [Txn.wrote, h.quiet, hqueue, List.append_nil]
  | handles _ hevents =>
    rw [h.quiet] at hevents
    cases hevents

theorem Flying.promise {db : AList β} {x : Txn β ς ε α} (h : c.Flying guard db x) {answer : α}
    (hprog : x.prog = .done answer) : c.promise answer db x.held := by
  have hguarded := h.guarded
  rw [hprog] at hguarded
  exact hguarded db .refl

theorem Flying.finds {db : AList β} {x : Txn β ς ε α} (h : c.Flying guard db x) {q : ς} {next : Bool → Prog β ς α}
    (hprog : x.prog = .write q next) : guard q db x.held := by
  have hguarded := h.guarded
  rw [hprog] at hguarded
  exact (hguarded db .refl).1

/-- **What holds of the committed rows holds of them in every run, and every statement finds its guard**, when the
programs of the requests are guarded. -/
theorem upheld {program : ρ → Prog β ς α} {initial : AList β → Prop} {s : Sys β ς ε α}
    (hqueue : ∀ k old new, rules.queue k old new = [])
    (hguarded : ∀ request, c.Upholds guard (fun _ x => x = .empty) (program request))
    (hinitial : ∀ db, initial db → c.committed db) (h : (system rules program initial).Reachable s) :
    s.Holds c.committed (c.Flying guard) := by
  have g : Guarantee rules program c.committed (c.Flying guard) := by
    refine ⟨fun request hdb => ?_, fun _ hx hstep => hx.step hqueue hstep,
      fun {db x y} hdb hx hy hready hapart hdisjoint => ?_, fun {db y} hdb hy hready => ?_⟩
    · exact ⟨rfl, fun k hk => absurd hk List.not_mem_nil, hguarded request _ _ hdb rfl⟩
    · obtain ⟨⟨answer, hprog⟩, -⟩ := hready
      exact ⟨hx.quiet, hx.locked,
        hx.guarded.interferes ⟨hdb, answer, y.held, hy.promise hprog, hy.locked, hapart, hdisjoint, rfl⟩⟩
    · obtain ⟨⟨answer, hprog⟩, -⟩ := hready
      exact c.commits hdb (hy.promise hprog)
  exact g.holds hinitial h

end Contract

end ReadCommitted
