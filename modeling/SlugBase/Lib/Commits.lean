import SlugBase.Lib.Guarded

/-!
# What a run commits

* `Sys.answered`: the answer of the transaction that commits in a step;
* `Sys.trace`: a run with the answers of what it commits;
* **`Sys.commit_cases`**: a step commits nothing, or what a transaction has written that is done.
-/

namespace ReadCommitted

open Transition

universe u

variable {κ : Type u} [DecidableEq κ] {β : κ → Type u} {ς ε α ρ : Type u}

namespace Sys

variable (rules : Rules β ς ε α) (program : ρ → Prog β ς α)

/-- The answer of the transaction that commits here, with its number. -/
def answered (s : Sys β ς ε α) : Action ρ → Option (ℕ × α)
  | .run n =>
    match s.txns.lookup n with
    | none => none
    | some x =>
      match x.turn rules s.committed (s.free n), x.prog with
      | .commits, .done answer => some (n, answer)
      | _, _ => none
  | _ => none

/-- What happens one after the other, with the answers of what commits. -/
def trace : List (Action ρ) → Sys β ς ε α → Option (List (ℕ × α) × Sys β ς ε α)
  | [], s => some ([], s)
  | act :: actions, s =>
    (s.step rules program act).bind fun s' =>
      (trace actions s').map fun run => ((s.answered rules act).toList ++ run.1, run.2)

variable {rules program} {s s' : Sys β ς ε α} {act : Action ρ}

/-- A step commits nothing, or what a transaction has written that is done. -/
theorem commit_cases (h : s.step rules program act = some s') :
    (s.answered rules act = none ∧ s'.committed = s.committed) ∨
      ∃ n x answer, s.txns.lookup n = some x ∧ s.answered rules act = some (n, answer) ∧ x.prog = .done answer ∧
        s'.committed = x.view s.committed := by
  cases act with
  | start n request =>
    refine .inl ⟨rfl, ?_⟩
    rw [step] at h
    split at h
    · cases h
      rfl
    · cases h
  | abort n =>
    cases h
    exact .inl ⟨rfl, rfl⟩
  | run n =>
    cases hx : s.txns.lookup n with
    | none =>
      rw [step, hx] at h
      cases h
    | some x =>
      rw [step, hx] at h
      dsimp only at h
      cases hturn : x.turn rules s.committed (s.free n) with
      | waits =>
        rw [hturn] at h
        cases h
      | ends | goes x' =>
        rw [hturn] at h
        cases h
        refine .inl ⟨?_, rfl⟩
        rw [answered, hx]
        dsimp only
        rw [hturn]
      | commits =>
        rw [hturn] at h
        cases h
        obtain ⟨⟨answer, hprog⟩, -⟩ := Txn.ready_of_turn hturn
        refine .inr ⟨n, x, answer, hx, ?_, hprog, rfl⟩
        rw [answered, hx]
        dsimp only
        rw [hturn, hprog]

theorem trace_cons {actions : List (Action ρ)} {log : List (ℕ × α)}
    (h : trace rules program (act :: actions) s = some (log, s')) :
    ∃ s₁ rest, s.step rules program act = some s₁ ∧ trace rules program actions s₁ = some (rest, s') ∧
      log = (s.answered rules act).toList ++ rest := by
  obtain ⟨s₁, hstep, hrest⟩ := Option.bind_eq_some_iff.mp h
  obtain ⟨⟨rest, s₂⟩, htrace, heq⟩ := Option.map_eq_some_iff.mp hrest
  cases heq
  exact ⟨s₁, rest, hstep, htrace, rfl⟩

/-- A run that commits `e` is a run up to its commit, the commit and the rest of the run. -/
theorem trace_split {actions : List (Action ρ)} {log log' : List (ℕ × α)} {e : ℕ × α}
    (h : trace rules program actions s = some (log ++ e :: log', s')) :
    ∃ actions₁ actions₂ act s₁ s₂, trace rules program actions₁ s = some (log, s₁) ∧
      s₁.step rules program act = some s₂ ∧ s₁.answered rules act = some e ∧
        trace rules program actions₂ s₂ = some (log', s') := by
  induction actions generalizing s log with
  | nil =>
    have hlog : ([] : List (ℕ × α)) = log ++ e :: log' := (Prod.mk.inj (Option.some.inj h)).1
    exact absurd hlog.symm (List.append_ne_nil_of_right_ne_nil _ (List.cons_ne_nil e log'))
  | cons act actions ih =>
    obtain ⟨s₁, rest, hstep, htrace, hlog⟩ := trace_cons h
    have more {log₁ : List (ℕ × α)} (hlog : log = (s.answered rules act).toList ++ log₁)
        (hrest : rest = log₁ ++ e :: log') : ∃ actions₁ actions₂ act' s₂ s₃, trace rules program actions₁ s = some (log, s₂) ∧
          s₂.step rules program act' = some s₃ ∧ s₂.answered rules act' = some e ∧
            trace rules program actions₂ s₃ = some (log', s') := by
      obtain ⟨actions₁, actions₂, act', s₂, s₃, hbefore, hcommit, hanswered, hafter⟩ := ih (hrest ▸ htrace)
      refine ⟨act :: actions₁, actions₂, act', s₂, s₃, ?_, hcommit, hanswered, hafter⟩
      rw [trace, hstep, Option.bind_some, hbefore, Option.map_some, hlog]
    cases hanswered : s.answered rules act with
    | none =>
      rw [hanswered] at hlog more
      exact more rfl hlog.symm
    | some e' =>
      rw [hanswered] at hlog more
      cases log with
      | nil =>
        obtain ⟨rfl, rfl⟩ := List.cons.inj hlog
        exact ⟨[], actions, act, s, s₁, rfl, hstep, hanswered, htrace⟩
      | cons e'' log =>
        obtain ⟨rfl, htail⟩ := List.cons.inj hlog
        exact more rfl htail.symm

end Sys

end ReadCommitted
