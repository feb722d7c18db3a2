import SlugBase.Lib.Transition
import Mathlib.Data.List.Nodup
import Mathlib.Data.List.Perm.Basic
import Mathlib.Data.List.Range
import Mathlib.Data.List.Sort
import Mathlib.Data.List.Count

/-!
# The limiter of the identity adapter

At most `max` tasks run at once; the rest wait, and a finished task hands its slot to the next.

* `Limiter`, `Limiter.step`: what the limiter keeps and what the event loop holds for it, and one turn;
* `Sound`: how many tasks run, which slots are free and where every call is;
* `OnTime`: a call does not find a free slot while another call is still being handed one;
* **`limiter_sound`**: every run is sound, and its tasks start in the order they asked exactly when it is on time.

A call is named by the number of calls that asked before it.
-/

namespace SlugBase.Identity

open Transition

variable {α ε : Type}

/-! ## The limiter -/

/-- What happens to a limiter. -/
inductive LimiterEvent (α ε : Type)
  /-- A call asks. -/
  | asks
  /-- The oldest microtask of a waiter that was handed a slot calls its task. -/
  | resumes
  /-- A task returns a promise. -/
  | returns (call : ℕ)
  /-- A task throws before it returns a promise. -/
  | throws (call : ℕ) (error : ε)
  /-- The promise of a task has resolved or rejected, and what stands behind the `await` runs. -/
  | settles (call : ℕ) (outcome : Except ε α)

/-- The variables of `createFifoLimiter`, and the calls by how far they are. -/
structure Limiter (α ε : Type) where
  running : ℤ := 0
  waiting : List ℕ := []
  /-- The waiters that were handed a slot, in the order of their microtasks. -/
  resuming : List ℕ := []
  /-- The calls whose task has been called and has not returned. -/
  called : List ℕ := []
  /-- The calls whose promise is awaited. -/
  awaited : List ℕ := []
  asked : ℕ := 0
  started : List ℕ := []
  answers : List (ℕ × Except ε α) := []

namespace Limiter

variable (max : ℕ) (l : Limiter α ε)

/-- The call of a task. -/
def start (call : ℕ) : Limiter α ε := { l with called := l.called ++ [call], started := l.started ++ [call] }

/-- A call, up to its task or its place in the queue. -/
def ask : Limiter α ε :=
  if l.running < max then ({ l with running := l.running + 1, asked := l.asked + 1 } : Limiter α ε).start l.asked
  else { l with waiting := l.waiting ++ [l.asked], asked := l.asked + 1 }

/-- What `finally` does, and the answer of the call. -/
def finish (call : ℕ) (outcome : Except ε α) : Limiter α ε :=
  match l.waiting with
  | [] => { l with running := l.running - 1, answers := l.answers ++ [(call, outcome)] }
  | next :: rest =>
    { l with waiting := rest, resuming := l.resuming ++ [next], answers := l.answers ++ [(call, outcome)] }

/-- One turn; none when the event cannot happen. -/
def step : LimiterEvent α ε → Option (Limiter α ε)
  | .asks => some (l.ask max)
  | .resumes =>
    match l.resuming with
    | [] => none
    | call :: rest => some (({ l with resuming := rest } : Limiter α ε).start call)
  | .returns call =>
    if call ∈ l.called then some { l with called := l.called.erase call, awaited := l.awaited ++ [call] } else none
  | .throws call error =>
    if call ∈ l.called then
      some (({ l with called := l.called.erase call } : Limiter α ε).finish call (.error error))
    else none
  | .settles call outcome =>
    if call ∈ l.awaited then
      some (({ l with awaited := l.awaited.erase call } : Limiter α ε).finish call outcome)
    else none

/-- The calls whose task runs. -/
def inTask : List ℕ := l.called ++ l.awaited

/-- The free slots. -/
def free : ℤ := max - l.running

end Limiter

/-- `createFifoLimiter`. -/
def createFifoLimiter : Limiter α ε := {}

/-! ## What a limiter has to be -/

/-- **A sound limiter.** -/
structure Sound (max : ℕ) (l : Limiter α ε) : Prop where
  atMost : l.inTask.length ≤ max
  /-- The slots are those of the tasks that run, those that are free and those that are being handed over. -/
  slots : (l.inTask.length : ℤ) + l.free max + l.resuming.length = max
  free : 0 ≤ l.free max
  /-- While a call waits every slot is used. -/
  full : l.waiting ≠ [] → l.inTask.length + l.resuming.length = max
  /-- Every call is in one place. -/
  places : (l.answers.map Prod.fst ++ l.inTask ++ l.resuming ++ l.waiting).Perm (List.range l.asked)
  /-- Slots are handed over in the order the calls asked. -/
  fifo : (l.resuming ++ l.waiting).Pairwise (· < ·)

/-- The tasks started in the order they asked. -/
def InOrder (l : Limiter α ε) : Prop := l.started = List.range l.started.length

/-- No call asks at a free slot while a waiter that was handed one has not resumed. -/
def OnTime (max : ℕ) (l : Limiter α ε) : LimiterEvent α ε → Prop
  | .asks => l.running < max → l.resuming = []
  | _ => True

/-- Every turn of a run is on time. -/
def AllOnTime (max : ℕ) : Limiter α ε → List (LimiterEvent α ε) → Prop
  | _, [] => True
  | l, e :: es => OnTime max l e ∧ ∀ l', l.step max e = some l' → AllOnTime max l' es

/-! ## What a turn keeps -/

/-- What every turn keeps. -/
structure Kept (max : ℕ) (l : Limiter α ε) : Prop where
  counted : l.running = l.inTask.length + l.resuming.length
  bounded : l.running ≤ max
  full : l.waiting ≠ [] → l.running = max
  places : (l.answers.map Prod.fst ++ l.inTask ++ l.resuming ++ l.waiting).Perm (List.range l.asked)
  starts : (l.started ++ (l.resuming ++ l.waiting)).Perm (List.range l.asked)
  fifo : (l.resuming ++ l.waiting).Pairwise (· < ·)

section

variable {max : ℕ} {l l' : Limiter α ε} {call : ℕ}

theorem Kept.sound (h : Kept max l) : Sound max l where
  atMost := by
    have hcounted := h.counted
    have hbounded := h.bounded
    omega
  slots := by
    rw [Limiter.free, h.counted]
    omega
  free := by
    have hbounded := h.bounded
    rw [Limiter.free]
    omega
  full := by
    intro hwaiting
    have hfull := h.full hwaiting
    have hcounted := h.counted
    omega
  places := h.places
  fifo := h.fifo

theorem kept_createFifoLimiter (max : ℕ) : Kept max (createFifoLimiter : Limiter α ε) where
  counted := rfl
  bounded := Int.natCast_nonneg max
  full := fun h => absurd rfl h
  places := List.Perm.refl _
  starts := List.Perm.refl _
  fifo := List.Pairwise.nil

theorem Kept.lt_asked (h : Kept max l) (hcall : call ∈ l.resuming ++ l.waiting) : call < l.asked := by
  have hmem : call ∈ l.started ++ (l.resuming ++ l.waiting) := List.mem_append_right _ hcall
  exact List.mem_range.mp (h.starts.mem_iff.mp hmem)

theorem Kept.ask (h : Kept max l) : Kept max (l.ask max) := by
  unfold Limiter.ask
  have hcounted := h.counted
  have hbounded := h.bounded
  by_cases hfree : l.running < max
  · rw [if_pos hfree]
    have hnone : l.waiting = [] := by
      by_contra hwaiting
      have hfull := h.full hwaiting
      omega
    refine ⟨?_, ?_, ?_, ?_, ?_, h.fifo⟩
    · simp only [Limiter.start, Limiter.inTask, List.length_append, List.length_singleton] at hcounted ⊢
      omega
    · show l.running + 1 ≤ max
      omega
    · exact fun hwaiting => absurd hnone hwaiting
    · refine List.perm_iff_count.mpr fun c => ?_
      have hcount := List.perm_iff_count.mp h.places c
      simp only [Limiter.start, Limiter.inTask, List.range_succ, List.count_append] at hcount ⊢
      omega
    · refine List.perm_iff_count.mpr fun c => ?_
      have hcount := List.perm_iff_count.mp h.starts c
      simp only [Limiter.start, List.range_succ, List.count_append] at hcount ⊢
      omega
  · rw [if_neg hfree]
    refine ⟨hcounted, hbounded, fun _ => le_antisymm hbounded (not_lt.mp hfree), ?_, ?_, ?_⟩
    · rw [List.range_succ, ← List.append_assoc]
      exact h.places.append_right _
    · rw [List.range_succ, ← List.append_assoc, ← List.append_assoc, List.append_assoc l.started]
      exact h.starts.append_right _
    · rw [← List.append_assoc, List.pairwise_append]
      refine ⟨h.fifo, List.pairwise_singleton _ _, fun first hfirst last hlast => ?_⟩
      rw [List.mem_singleton.mp hlast]
      exact h.lt_asked hfirst

theorem finish_of_none {outcome : Except ε α} (h : l.waiting = []) :
    l.finish call outcome = { l with running := l.running - 1, answers := l.answers ++ [(call, outcome)] } := by
  unfold Limiter.finish
  rw [h]

theorem finish_of_next {outcome : Except ε α} {next : ℕ} {rest : List ℕ} (h : l.waiting = next :: rest) :
    l.finish call outcome = { l with
      waiting := rest, resuming := l.resuming ++ [next], answers := l.answers ++ [(call, outcome)] } := by
  unfold Limiter.finish
  rw [h]

/-- What a finished call leaves, when it is taken from among those that run. -/
theorem Kept.finish (h : Kept max l) (called awaited : List ℕ) (outcome : Except ε α)
    (hrest : l.inTask.Perm (call :: (called ++ awaited))) :
    Kept max (({ l with called := called, awaited := awaited } : Limiter α ε).finish call outcome) := by
  have hcounted := h.counted
  have hbounded := h.bounded
  have hlength := hrest.length_eq
  rw [List.length_cons] at hlength
  by_cases hwaiting : l.waiting = []
  · have hnone : ({ l with called := called, awaited := awaited } : Limiter α ε).waiting = [] := hwaiting
    rw [finish_of_none hnone]
    refine ⟨?_, ?_, ?_, ?_, h.starts, h.fifo⟩
    · show l.running - 1 = ((called ++ awaited).length : ℤ) + l.resuming.length
      omega
    · show l.running - 1 ≤ max
      omega
    · exact fun hne => absurd hwaiting hne
    · refine List.perm_iff_count.mpr fun c => ?_
      have hcount := List.perm_iff_count.mp h.places c
      have hcall := List.perm_iff_count.mp hrest c
      simp only [Limiter.inTask, List.map_append, List.map_cons, List.map_nil, List.count_append, List.count_cons,
        List.count_nil] at hcount hcall ⊢
      omega
  · have hfull := h.full hwaiting
    obtain ⟨next, rest, hnext⟩ := List.exists_cons_of_ne_nil hwaiting
    have hsome : ({ l with called := called, awaited := awaited } : Limiter α ε).waiting = next :: rest := hnext
    rw [finish_of_next hsome]
    have hqueue : l.resuming ++ [next] ++ rest = l.resuming ++ l.waiting := by
      rw [hnext, List.append_assoc]
      rfl
    refine ⟨?_, hbounded, fun _ => hfull, ?_, ?_, ?_⟩
    · show l.running = ((called ++ awaited).length : ℤ) + ((l.resuming ++ [next]).length : ℕ)
      have hlonger : (l.resuming ++ [next]).length = l.resuming.length + 1 := List.length_append
      omega
    · refine List.perm_iff_count.mpr fun c => ?_
      have hcount := List.perm_iff_count.mp h.places c
      have hcall := List.perm_iff_count.mp hrest c
      simp only [Limiter.inTask, hnext, List.map_append, List.map_cons, List.map_nil, List.count_append,
        List.count_cons, List.count_nil] at hcount hcall ⊢
      omega
    · show (l.started ++ (l.resuming ++ [next] ++ rest)).Perm _
      rw [hqueue]
      exact h.starts
    · show (l.resuming ++ [next] ++ rest).Pairwise _
      rw [hqueue]
      exact h.fifo

/-- **Every turn keeps it.** -/
theorem Kept.step (h : Kept max l) {e : LimiterEvent α ε} (hstep : l.step max e = some l') : Kept max l' := by
  cases e with
  | asks =>
    obtain rfl := Option.some.inj hstep
    exact h.ask
  | resumes =>
    unfold Limiter.step at hstep
    cases hresuming : l.resuming with
    | nil =>
      rw [hresuming] at hstep
      cases hstep
    | cons call rest =>
      rw [hresuming] at hstep
      obtain rfl := Option.some.inj hstep
      have hcounted := h.counted
      have hfifo := h.fifo
      rw [hresuming] at hcounted hfifo
      refine ⟨?_, h.bounded, h.full, ?_, ?_, (List.pairwise_cons.mp hfifo).2⟩
      · simp only [Limiter.start, Limiter.inTask, List.length_append, List.length_cons, List.length_nil] at hcounted ⊢
        omega
      · refine List.perm_iff_count.mpr fun c => ?_
        have hcount := List.perm_iff_count.mp h.places c
        simp only [Limiter.start, Limiter.inTask, hresuming, List.count_append, List.count_cons,
          List.count_nil] at hcount ⊢
        omega
      · refine List.perm_iff_count.mpr fun c => ?_
        have hcount := List.perm_iff_count.mp h.starts c
        simp only [Limiter.start, hresuming, List.count_append, List.count_cons, List.count_nil] at hcount ⊢
        omega
  | returns call =>
    obtain ⟨hcall, hl'⟩ := Option.ite_none_right_eq_some.mp hstep
    obtain rfl := Option.some.inj hl'
    have hmoved : (l.called.erase call ++ (l.awaited ++ [call])).Perm l.inTask := by
      refine List.perm_iff_count.mpr fun c => ?_
      have hcount := List.perm_iff_count.mp (List.perm_cons_erase hcall) c
      simp only [Limiter.inTask, List.count_append, List.count_cons, List.count_nil] at hcount ⊢
      omega
    refine ⟨?_, h.bounded, h.full, ?_, h.starts, h.fifo⟩
    · have hcounted := h.counted
      rw [← hmoved.length_eq] at hcounted
      exact hcounted
    · exact ((hmoved.append_left _).append_right _ |>.append_right _).trans h.places
  | throws call error =>
    obtain ⟨hcall, hl'⟩ := Option.ite_none_right_eq_some.mp hstep
    obtain rfl := Option.some.inj hl'
    refine h.finish (l.called.erase call) l.awaited (.error error) ?_
    exact (List.perm_cons_erase hcall).append_right _
  | settles call outcome =>
    obtain ⟨hcall, hl'⟩ := Option.ite_none_right_eq_some.mp hstep
    obtain rfl := Option.some.inj hl'
    refine h.finish l.called (l.awaited.erase call) outcome ?_
    exact ((List.perm_cons_erase hcall).append_left _).trans List.perm_middle

/-! ## The order in which tasks start -/

/-- Until a task has overtaken another, those that started stand before those that are queued. -/
theorem Kept.queue_of_inOrder (h : Kept max l) (horder : InOrder l) :
    l.started ++ (l.resuming ++ l.waiting) = List.range l.asked := by
  have hnodup : (l.started ++ (l.resuming ++ l.waiting)).Nodup := h.starts.nodup_iff.mpr List.nodup_range
  have hsorted : (l.started ++ (l.resuming ++ l.waiting)).Pairwise (· < ·) := by
    refine List.pairwise_append.mpr ⟨?_, h.fifo, fun first hfirst last hlast => ?_⟩
    · rw [horder]
      exact List.pairwise_lt_range
    · have hapart := (List.nodup_append.mp hnodup).2.2
      have hlow : first < l.started.length := by
        rw [horder] at hfirst
        exact List.mem_range.mp hfirst
      refine hlow.trans_le (not_lt.mp fun hlast' => ?_)
      have hmem : last ∈ l.started := by
        rw [horder]
        exact List.mem_range.mpr hlast'
      exact hapart last hmem last hlast rfl
  exact h.starts.eq_of_pairwise (fun _ _ _ _ hab hba => absurd hab (lt_asymm hba)) hsorted List.pairwise_lt_range

theorem inOrder_append {started : List ℕ} : started ++ [call] = List.range (started ++ [call]).length ↔
    started = List.range started.length ∧ call = started.length := by
  rw [List.length_append, List.length_singleton, List.range_succ]
  constructor
  · intro h
    obtain ⟨hstarted, hcall⟩ := List.append_inj' h rfl
    exact ⟨hstarted, (List.cons.inj hcall).1⟩
  · rintro ⟨hstarted, rfl⟩
    rw [← hstarted]

/-- **A turn keeps the order exactly when it is on time.** -/
theorem Kept.inOrder_step (h : Kept max l) {e : LimiterEvent α ε} (hstep : l.step max e = some l') :
    InOrder l' ↔ InOrder l ∧ OnTime max l e := by
  have hfinish : ∀ (call : ℕ) (called awaited : List ℕ) (outcome : Except ε α),
      (({ l with called := called, awaited := awaited } : Limiter α ε).finish call outcome).started = l.started := by
    intro call called awaited outcome
    unfold Limiter.finish
    split <;> rfl
  cases e with
  | asks =>
    obtain rfl := Option.some.inj hstep
    unfold Limiter.ask OnTime
    by_cases hfree : l.running < max
    · rw [if_pos hfree]
      have hnone : l.waiting = [] := by
        by_contra hwaiting
        have hfull := h.full hwaiting
        omega
      have hlength := h.starts.length_eq
      simp only [hnone, List.append_nil, List.length_append, List.length_range] at hlength
      refine inOrder_append.trans (and_congr_right fun _ => ?_)
      show l.asked = l.started.length ↔ (l.running < max → l.resuming = [])
      rw [← List.length_eq_zero_iff]
      omega
    · rw [if_neg hfree]
      exact (and_iff_left fun hlt => absurd hlt hfree).symm
  | resumes =>
    unfold Limiter.step at hstep
    cases hresuming : l.resuming with
    | nil =>
      rw [hresuming] at hstep
      cases hstep
    | cons call rest =>
      rw [hresuming] at hstep
      obtain rfl := Option.some.inj hstep
      refine inOrder_append.trans (and_congr_right fun horder => ?_)
      refine iff_of_true ?_ trivial
      -- the next call is the oldest that is queued
      have hqueue := h.queue_of_inOrder horder
      rw [hresuming] at hqueue
      have hnext := congrArg (fun calls => calls[l.started.length]?) hqueue
      simp only [List.cons_append, List.getElem?_append_right (Nat.le_refl _), Nat.sub_self,
        List.getElem?_cons_zero] at hnext
      obtain ⟨hlt, hcall⟩ := List.getElem?_eq_some_iff.mp hnext.symm
      rw [List.getElem_range] at hcall
      exact hcall.symm
  | returns call =>
    obtain ⟨hcall, hl'⟩ := Option.ite_none_right_eq_some.mp hstep
    obtain rfl := Option.some.inj hl'
    exact (and_iff_left trivial).symm
  | throws call error =>
    obtain ⟨hcall, hl'⟩ := Option.ite_none_right_eq_some.mp hstep
    obtain rfl := Option.some.inj hl'
    refine Iff.trans ?_ (and_iff_left trivial).symm
    unfold InOrder
    rw [hfinish call (l.called.erase call) l.awaited]
  | settles call outcome =>
    obtain ⟨hcall, hl'⟩ := Option.ite_none_right_eq_some.mp hstep
    obtain rfl := Option.some.inj hl'
    refine Iff.trans ?_ (and_iff_left trivial).symm
    unfold InOrder
    rw [hfinish call l.called (l.awaited.erase call)]

theorem Kept.follow {es : List (LimiterEvent α ε)} (h : Kept max l)
    (hrun : System.follow (Limiter.step max) l es = some l') :
    Kept max l' ∧ (InOrder l' ↔ InOrder l ∧ AllOnTime max l es) := by
  induction es generalizing l with
  | nil =>
    obtain rfl := Option.some.inj hrun
    exact ⟨h, (and_iff_left trivial).symm⟩
  | cons e es ih =>
    obtain ⟨next, hstep, hrest⟩ := Option.bind_eq_some_iff.mp hrun
    obtain ⟨hkept, horder⟩ := ih (h.step hstep) hrest
    refine ⟨hkept, horder.trans ?_⟩
    rw [h.inOrder_step hstep, and_assoc, AllOnTime]
    refine and_congr_right fun _ => and_congr_right fun _ => ⟨fun hall l₁ h₁ => ?_, fun hall => hall next hstep⟩
    obtain rfl := Option.some.inj (hstep.symm.trans h₁)
    exact hall

/-- **Every run of a limiter is sound, and its tasks start in the order they asked exactly when it is on time.** -/
theorem limiter_sound (max : ℕ) (es : List (LimiterEvent α ε)) (l : Limiter α ε)
    (hrun : System.follow (Limiter.step max) createFifoLimiter es = some l) :
    Sound max l ∧ (InOrder l ↔ AllOnTime max createFifoLimiter es) := by
  obtain ⟨hkept, horder⟩ := (kept_createFifoLimiter max).follow hrun
  exact ⟨hkept.sound, horder.trans (and_iff_right rfl)⟩

/-! ## A call that overtakes another -/

/-- Two tasks run and a third call waits; both tasks end, and a fourth call asks before the third has resumed. -/
def overtaking : List (LimiterEvent Unit Unit) :=
  [.asks, .returns 0, .asks, .returns 1, .asks, .settles 0 (.ok ()), .settles 1 (.ok ()), .asks]

/-- The limiter then: the third call has its slot, and the fourth has started. -/
def overtaken : Limiter Unit Unit where
  running := 2
  resuming := [2]
  called := [3]
  asked := 4
  started := [0, 1, 3]
  answers := [(0, .ok ()), (1, .ok ())]

theorem limiter_sound_overtaking : Sound 2 overtaken ∧ (InOrder overtaken ↔ AllOnTime 2 createFifoLimiter overtaking) :=
  limiter_sound 2 overtaking overtaken rfl

theorem overtaken_notInOrder :
    ¬ ∀ (max : ℕ) (es : List (LimiterEvent Unit Unit)) (l : Limiter Unit Unit), 1 ≤ max →
      System.follow (Limiter.step max) createFifoLimiter es = some l → Sound max l ∧ InOrder l := by
  intro h
  have horder := (h 2 overtaking overtaken (by decide) rfl).2
  exact absurd horder (by unfold InOrder; decide)

end

end SlugBase.Identity
