import Mathlib.Logic.Basic

/-!
# Chains of stages

Stages that each answer on their own or hand a context on to the next one.

* `Step`, `Stage`, `run`: the stages of a list in their order, up to the first that answers;
* `Leads`: from a context of which `P` holds, what is handed on satisfies `Q`;
* **`Leads.append`**, **`Leads.run`**: the rules for chains of chains, and for an invariant of every stage.
-/

namespace Pipeline

variable {C A : Type*}

/-- What a stage does: it answers, or it hands a context on. -/
inductive Step (C A : Type*)
  | answer (a : A)
  | next (c : C)

abbrev Stage (C A : Type*) := C → Step C A

/-- The stages in their order. -/
def run : List (Stage C A) → Stage C A
  | [], c => .next c
  | stage :: rest, c =>
    match stage c with
    | .answer a => .answer a
    | .next c => run rest c

/-- What a chain hands on satisfies `Q` when it was begun with `P`. -/
def Leads (P : C → Prop) (stages : List (Stage C A)) (Q : C → Prop) : Prop :=
  ∀ c c', P c → run stages c = .next c' → Q c'

variable {P Q R : C → Prop} {stage : Stage C A} {stages later : List (Stage C A)}

theorem run_cons_eq_next {c c' : C} :
    run (stage :: stages) c = .next c' ↔ ∃ between, stage c = .next between ∧ run stages between = .next c' := by
  rw [run]
  cases stage c with
  | answer a =>
    constructor
    · intro h
      cases h
    · rintro ⟨_, h, _⟩
      cases h
  | next between =>
    constructor
    · exact fun h => ⟨between, rfl, h⟩
    · rintro ⟨_, h, hrun⟩
      cases h
      exact hrun

theorem Leads.nil : Leads P ([] : List (Stage C A)) P := by
  intro c c' hP hrun
  cases hrun
  exact hP

theorem Leads.cons (hstage : ∀ c c', P c → stage c = .next c' → Q c') (hrest : Leads Q stages R) :
    Leads P (stage :: stages) R := by
  intro c c' hP hrun
  obtain ⟨between, hbetween, hrun⟩ := run_cons_eq_next.mp hrun
  exact hrest between c' (hstage c between hP hbetween) hrun

/-- **A chain behind a chain.** -/
theorem Leads.append (hfirst : Leads P stages Q) (hlater : Leads Q later R) : Leads P (stages ++ later) R := by
  induction stages generalizing P with
  | nil => exact fun c c' hP hrun => hlater c c' (hfirst c c hP rfl) hrun
  | cons stage rest ih =>
    intro c c' hP hrun
    obtain ⟨between, hbetween, hrun⟩ := run_cons_eq_next.mp hrun
    have hrest : Leads (· = between) rest Q := by
      intro c₁ c₂ heq hrest
      exact hfirst c c₂ hP (run_cons_eq_next.mpr ⟨between, hbetween, heq ▸ hrest⟩)
    exact ih hrest between c' rfl hrun

/-- **What every stage keeps, the chain keeps.** -/
theorem Leads.run (hkeeps : ∀ stage ∈ stages, ∀ c c', P c → stage c = .next c' → P c') : Leads P stages P := by
  induction stages with
  | nil => exact Leads.nil
  | cons stage rest ih =>
    exact Leads.cons (hkeeps stage List.mem_cons_self) (ih fun stage hstage => hkeeps stage (List.mem_cons_of_mem _ hstage))

end Pipeline
