import Mathlib.Data.Nat.Notation
import Mathlib.Order.Basic

/-!
# Loops

A loop whose turn goes on from a state or ends with an answer, run for a number of turns.

* `run`: the answer of a loop, none when it has not ended in time; `visited`: the states in which its turns begin;
* `Answers`: a computation that is given turns has an answer from some number of them on;
* **`answers_of_measure`**: a loop whose turns lower a measure has an answer;
* `run_post`, `visited_pairwise`: what the answer is, and how the states of a run follow each other.
-/

namespace Loop

universe u v

variable {σ : Type u} {β : Type v}

/-- What a turn does: it goes on from a state, or it ends the loop. -/
inductive Turn (σ : Type u) (β : Type v)
  | again (s : σ)
  | done (b : β)

/-- The loop with so many turns. A turn that has no answer itself leaves the loop without one. -/
def run (turn : σ → Option (Turn σ β)) : ℕ → σ → Option β
  | 0, _ => none
  | fuel + 1, s =>
    match turn s with
    | none => none
    | some (.again s') => run turn fuel s'
    | some (.done b) => some b

/-- The states in which the turns begin. -/
def visited (turn : σ → Option (Turn σ β)) : ℕ → σ → List σ
  | 0, _ => []
  | fuel + 1, s =>
    match turn s with
    | some (.again s') => s :: visited turn fuel s'
    | _ => [s]

/-- The answer is the same with any number of turns above `n`. -/
def Answers (computation : ℕ → Option β) (n : ℕ) (b : β) : Prop := ∀ fuel, n < fuel → computation fuel = some b

variable {turn : σ → Option (Turn σ β)} {turns : ℕ → σ → Option (Turn σ β)}

/-- **The rule of partial correctness.** -/
theorem run_post (inv : σ → Prop) (post : β → Prop)
    (hagain : ∀ s s', inv s → turn s = some (.again s') → inv s')
    (hdone : ∀ s b, inv s → turn s = some (.done b) → post b) {fuel : ℕ} {s : σ} {b : β} (hs : inv s)
    (h : run turn fuel s = some b) : post b := by
  induction fuel generalizing s with
  | zero => cases h
  | succ fuel ih =>
    unfold run at h
    cases hturn : turn s with
    | none =>
      rw [hturn] at h
      cases h
    | some next =>
      rw [hturn] at h
      cases next with
      | again s' => exact ih (hagain s s' hs hturn) h
      | done b' =>
        obtain rfl := Option.some.inj h
        exact hdone s b' hs hturn

/-- **The rule of termination**: turns that have answers and lower a measure of at most `n`. -/
theorem answers_of_measure (inv : σ → Prop) (measure : σ → ℕ) {next : σ → Turn σ β} {n : ℕ}
    (hturns : ∀ s, inv s → Answers (fun fuel => turns fuel s) n (next s))
    (hagain : ∀ s s', inv s → next s = .again s' → inv s' ∧ measure s' < measure s) {s : σ} (hs : inv s)
    (hmeasure : measure s ≤ n) : ∃ b, Answers (fun fuel => run (turns fuel) fuel s) n b := by
  -- by induction on the measure, for any number of turns that exceeds it
  have hruns : ∀ k s, inv s → measure s < k → ∃ b, ∀ fuel, n < fuel → ∀ m, k ≤ m → run (turns fuel) m s = some b := by
    intro k
    induction k with
    | zero => exact fun s _ h => absurd h (Nat.not_lt_zero _)
    | succ k ih =>
      intro s hs hk
      cases hnext : next s with
      | again s' =>
        obtain ⟨hs', hless⟩ := hagain s s' hs hnext
        obtain ⟨b, hb⟩ := ih s' hs' (by omega)
        refine ⟨b, fun fuel hfuel m hm => ?_⟩
        obtain ⟨m, rfl⟩ := Nat.exists_eq_succ_of_ne_zero (Nat.ne_of_gt (Nat.lt_of_lt_of_le (Nat.succ_pos k) hm))
        have hturn : turns fuel s = some (.again s') := hnext ▸ hturns s hs fuel hfuel
        rw [run, hturn]
        exact hb fuel hfuel m (Nat.le_of_succ_le_succ hm)
      | done b =>
        refine ⟨b, fun fuel hfuel m hm => ?_⟩
        obtain ⟨m, rfl⟩ := Nat.exists_eq_succ_of_ne_zero (Nat.ne_of_gt (Nat.lt_of_lt_of_le (Nat.succ_pos k) hm))
        have hturn : turns fuel s = some (.done b) := hnext ▸ hturns s hs fuel hfuel
        rw [run, hturn]
  obtain ⟨b, hb⟩ := hruns (measure s + 1) s hs (Nat.lt_succ_self _)
  exact ⟨b, fun fuel hfuel => hb fuel hfuel fuel (by omega)⟩

theorem of_mem_visited (inv : σ → Prop) (hagain : ∀ s s', inv s → turn s = some (.again s') → inv s') {fuel : ℕ}
    {s t : σ} (hs : inv s) (ht : t ∈ visited turn fuel s) : inv t := by
  induction fuel generalizing s with
  | zero => cases ht
  | succ fuel ih =>
    unfold visited at ht
    split at ht
    · rename_i s' hturn
      rcases List.mem_cons.mp ht with rfl | ht
      · exact hs
      · exact ih (hagain s s' hs hturn) ht
    · rw [List.mem_singleton.mp ht]
      exact hs

/-- **The states of a run, each with all that come later.** -/
theorem visited_pairwise {rel : σ → σ → Prop} (hstep : ∀ s s', turn s = some (.again s') → rel s s')
    (hkeep : ∀ s t t', rel s t → turn t = some (.again t') → rel s t') (fuel : ℕ) (s : σ) :
    (visited turn fuel s).Pairwise rel := by
  induction fuel generalizing s with
  | zero => exact List.Pairwise.nil
  | succ fuel ih =>
    unfold visited
    split
    · rename_i s' hturn
      refine List.pairwise_cons.mpr ⟨fun t ht => ?_, ih s'⟩
      exact of_mem_visited (rel s) (hkeep s) (hstep s s' hturn) ht
    · exact List.pairwise_singleton _ _

end Loop
