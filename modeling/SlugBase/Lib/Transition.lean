import Mathlib.Logic.Relation

/-!
# Transition systems

A system is a set of initial states and a labelled step relation.

* `System`, `System.Reachable`, `System.restrict` (the runs whose steps all meet a condition),
  `System.startingAt` (the runs that go on from a state), `System.follow` (the state after given labels);
* **`System.Reachable.invariant`**: what holds initially and is kept by every step holds in every
  reachable state; `System.Reachable.invariant_of` lets the step use an invariant proved before.
-/

namespace Transition

universe u v

/-- A labelled transition system over states `σ` and labels `α`. -/
structure System (σ : Type u) (α : Type v) where
  init : σ → Prop
  step : σ → α → σ → Prop

namespace System

variable {σ : Type u} {α : Type v} (S : System σ α)

/-- The states some run of the system reaches. -/
inductive Reachable : σ → Prop
  | init {s : σ} : S.init s → Reachable s
  | step {s s' : σ} {a : α} : Reachable s → S.step s a s' → Reachable s'

variable {S}

/-- **The induction rule**: an invariant of the initial states and of every step holds throughout. -/
theorem Reachable.invariant {I : σ → Prop} (h0 : ∀ s, S.init s → I s)
    (hs : ∀ s a s', I s → S.step s a s' → I s') {s : σ} (h : S.Reachable s) : I s := by
  induction h with
  | init hi => exact h0 _ hi
  | step _ hst ih => exact hs _ _ _ ih hst

theorem Reachable.invariant_of {I J : σ → Prop} (hJ : ∀ s, S.Reachable s → J s)
    (h0 : ∀ s, S.init s → I s)
    (hs : ∀ s a s', J s → I s → S.step s a s' → I s') {s : σ} (h : S.Reachable s) : I s := by
  induction h with
  | init hi => exact h0 _ hi
  | step hr hst ih => exact hs _ _ _ (hJ _ hr) ih hst

/-- The system whose runs are those runs of `S` that only take steps meeting `P`. -/
def restrict (S : System σ α) (P : σ → α → σ → Prop) : System σ α where
  init := S.init
  step s a s' := S.step s a s' ∧ P s a s'

theorem Reachable.of_restrict {P : σ → α → σ → Prop} {s : σ} (h : (S.restrict P).Reachable s) :
    S.Reachable s := by
  induction h with
  | init hi => exact .init hi
  | step _ hst ih => exact .step ih hst.1

/-- The runs of `S` that go on from `s`. -/
def startingAt (S : System σ α) (s : σ) : System σ α where
  init s' := s' = s
  step := S.step

theorem Reachable.of_startingAt {s s' : σ} (h : S.Reachable s) (h' : (S.startingAt s).Reachable s') :
    S.Reachable s' := by
  induction h' with
  | init hi => exact hi ▸ h
  | step _ hst ih => exact .step ih hst

/-- The state after one label after the other, where `next` takes the steps. -/
def follow (next : σ → α → Option σ) : σ → List α → Option σ
  | s, [] => some s
  | s, a :: as => (next s a).bind fun s' => follow next s' as

theorem Reachable.follow {next : σ → α → Option σ} (hnext : ∀ s a s', next s a = some s' → S.step s a s') {s : σ}
    (hs : S.Reachable s) (as : List α) (d : σ) (h : (System.follow next s as).isSome) :
    S.Reachable ((System.follow next s as).getD d) := by
  induction as generalizing s with
  | nil => exact hs
  | cons a as ih =>
    obtain ⟨s', hs'⟩ := Option.isSome_iff_exists.mp h
    obtain ⟨s₁, hstep, hrest⟩ := Option.bind_eq_some_iff.mp hs'
    rw [System.follow, hstep, Option.bind_some]
    exact ih (hs.step (hnext s a s₁ hstep)) (hrest ▸ rfl)

end System

end Transition
