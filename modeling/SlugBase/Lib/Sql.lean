import Mathlib.Data.Option.Basic
import Mathlib.Algebra.Order.Group.Int
import Mathlib.Tactic.SplitIfs

/-!
# SQL values and errors

The parts of SQL that the modelled statements rest on: a comparison of nullable values, `integer`
arithmetic that refuses to leave 32 bits, and a transaction that an error undoes.

* `sqlEq`: `a = b` over nullable values, true only of two equal values that are not `NULL`;
* `int4`: a value of type `integer`, or the error of one out of range;
* `SqlError`, `Answer`, `atomically`: **a statement that raises leaves the state it found**.
-/

namespace Relational

universe u

/-- The errors a statement can raise, with the name of the constraint or the text of the message. -/
inductive SqlError
  | invalidParameterValue (message : String)
  | numericValueOutOfRange
  | checkViolation (constraint : String)
  | uniqueViolation (constraint : String)
  | foreignKeyViolation (constraint : String)
  | raised (message : String)
  deriving DecidableEq, Repr

section

variable {α : Type*} [DecidableEq α]

/-- `a = b` in a condition: `NULL` on either side does not meet it. -/
def sqlEq (a b : Option α) : Bool :=
  match a, b with
  | some x, some y => decide (x = y)
  | _, _ => false

@[simp] theorem sqlEq_iff {a b : Option α} : sqlEq a b = true ↔ ∃ x, a = some x ∧ b = some x := by
  cases a <;> cases b <;> simp [sqlEq, eq_comm]

@[simp] theorem sqlEq_some {a : Option α} {x : α} : sqlEq a (some x) = decide (a = some x) := by
  cases a <;> simp [sqlEq]

@[simp] theorem sqlEq_none {a : Option α} : sqlEq a none = false := by
  cases a <;> rfl

end

/-- A value of the type `integer`. -/
def int4 (n : ℤ) : Except SqlError ℤ :=
  if -2147483648 ≤ n ∧ n ≤ 2147483647 then .ok n else .error .numericValueOutOfRange

theorem int4_ok {n m : ℤ} (h : int4 n = .ok m) : m = n := by
  unfold int4 at h
  split_ifs at h
  exact (Except.ok.inj h).symm

theorem ok_of_bind {ε : Type*} {α β : Type u} {x : Except ε α} {f : α → Except ε β} {b : β}
    (h : (x >>= f) = .ok b) : ∃ a, x = .ok a ∧ f a = .ok b := by
  cases x with
  | error e => cases h
  | ok a => exact ⟨a, rfl, h⟩

/-- A sequence of calls answers with what its calls answer. -/
theorem mem_of_mapM {ε : Type*} {α β : Type u} {f : α → Except ε β} {l : List α} {r : List β}
    (h : l.mapM f = .ok r) : (∀ a ∈ l, ∃ b ∈ r, f a = .ok b) ∧ ∀ b ∈ r, ∃ a ∈ l, f a = .ok b := by
  induction l generalizing r with
  | nil =>
    cases h
    exact ⟨fun a ha => absurd ha List.not_mem_nil, fun b hb => absurd hb List.not_mem_nil⟩
  | cons a l ih =>
    rw [List.mapM_cons] at h
    obtain ⟨b, hb, h⟩ := ok_of_bind h
    obtain ⟨bs, hbs, h⟩ := ok_of_bind h
    cases h
    obtain ⟨hto, hfrom⟩ := ih hbs
    constructor
    · intro x hx
      rcases List.mem_cons.mp hx with rfl | hx
      · exact ⟨b, List.mem_cons_self, hb⟩
      · obtain ⟨y, hy, hxy⟩ := hto x hx
        exact ⟨y, List.mem_cons_of_mem _ hy, hxy⟩
    · intro y hy
      rcases List.mem_cons.mp hy with rfl | hy
      · exact ⟨a, List.mem_cons_self, hb⟩
      · obtain ⟨x, hx, hxy⟩ := hfrom y hy
        exact ⟨x, List.mem_cons_of_mem _ hx, hxy⟩

theorem mapM_ok {ε : Type*} {α β : Type u} {f : α → Except ε β} {l : List α} (h : ∀ a ∈ l, ∃ b, f a = .ok b) :
    ∃ r, l.mapM f = .ok r := by
  induction l with
  | nil => exact ⟨[], rfl⟩
  | cons a l ih =>
    obtain ⟨b, hb⟩ := h a List.mem_cons_self
    obtain ⟨bs, hbs⟩ := ih fun x hx => h x (List.mem_cons_of_mem _ hx)
    exact ⟨b :: bs, by rw [List.mapM_cons, hb, hbs]; rfl⟩

/-- What a transaction answers: the error that ended it, or the answer of its last statement. -/
abbrev Outcome (α : Type*) := Except SqlError α

/-- A transaction: its writes are kept when it answers, and undone when it raises. -/
def atomically {σ α : Type*} (body : σ → Except SqlError (α × σ)) (s : σ) : Outcome α × σ :=
  match body s with
  | .ok (a, s') => (.ok a, s')
  | .error e => (.error e, s)

theorem atomically_cases {σ α : Type*} {body : σ → Except SqlError (α × σ)} {s s' : σ}
    {r : Outcome α} (h : atomically body s = (r, s')) :
    (∃ a, r = .ok a ∧ body s = .ok (a, s')) ∨ (∃ e, r = .error e ∧ s' = s) := by
  unfold atomically at h
  split at h
  · rename_i a t hb
    cases h
    exact .inl ⟨a, rfl, hb⟩
  · cases h
    exact .inr ⟨_, rfl, rfl⟩

end Relational
