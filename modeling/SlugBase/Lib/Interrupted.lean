import Mathlib.Logic.Basic

/-!
# Programs cut off at a command

A program is a sequence of commands to a store that others use as well. A command may be answered; it may take effect
without its answer arriving; it may be refused; and it may break part-way through, with whatever that leaves behind. In
every case but the first the program stops there, and the store stays as it is.

* `Fate`, `Ending`, `Program`: what becomes of a command and how a program ends;
* `Program.Triple`: from a state of the precondition the program returns in its postcondition or stops in a state of the
  crash condition, with one rule for each way to build a program;
* `Reached`: the states that runs of programs, one after the other, leave behind;
* **`Reached.invariant`**: what every program keeps, cut off or not, holds of every such state.
-/

namespace Interrupted

variable {σ ε ι α β : Type}

/-! ## Programs -/

/-- What becomes of a command, and what the others have done to the store before it. -/
inductive Fate (ε : Type) where
  | answered (others : ε)
  | unanswered (others : ε)
  | refused (others : ε)
  | broken (others : ε)

/-- How a program ends: with its result and the fates of the commands to come, or stopped. -/
inductive Ending (σ ε α : Type) where
  | returned (result : α) (state : σ) (rest : List (Fate ε))
  | stopped (state : σ)

/-- The store as the program leaves it. -/
def Ending.state : Ending σ ε α → σ
  | .returned _ s _ => s
  | .stopped s => s

/-- What the rest of a program makes of an ending. -/
def Ending.andThen (next : α → σ → List (Fate ε) → Ending σ ε β) : Ending σ ε α → Ending σ ε β
  | .returned a s rest => next a s rest
  | .stopped s => .stopped s

/-- A program, by the store it starts from and the fates of its commands. Without a fate for its next command it is
cut off there. -/
def Program (σ ε α : Type) : Type := σ → List (Fate ε) → Ending σ ε α

namespace Program

instance : Monad (Program σ ε) where
  pure a := fun s fates => .returned a s fates
  bind p next := fun s fates => (p s fates).andThen next

/-- The program gives up. -/
def stop : Program σ ε α := fun s _ => .stopped s

/-- The value, or the program gives up. -/
def required : Option α → Program σ ε α
  | some a => pure a
  | none => stop

/-- The program goes on only under the condition. -/
def check (c : Bool) : Program σ ε Unit := if c then pure () else stop

/-- The program, only under the condition. -/
def onlyIf (c : Bool) (p : Program σ ε Unit) : Program σ ε Unit := if c then p else pure ()

/-- One command: `act` answers and changes the store, or is an error; `broken` is what the command leaves when it does
not come to its end. -/
def command (others : ε → σ → σ) (act : σ → Option (α × σ)) (broken : σ → σ) : Program σ ε α := fun s fates =>
  match fates with
  | [] => .stopped s
  | .answered e :: rest =>
    match act (others e s) with
    | some (a, s') => .returned a s' rest
    | none => .stopped (others e s)
  | .unanswered e :: _ =>
    match act (others e s) with
    | some (_, s') => .stopped s'
    | none => .stopped (others e s)
  | .refused e :: _ => .stopped (others e s)
  | .broken e :: _ => .stopped (broken (others e s))

/-! ## Triples -/

/-- The program returned in `Q`, or it stopped in `I`. -/
def Meets (Q : α → σ → Prop) (I : σ → Prop) : Ending σ ε α → Prop
  | .returned a s _ => Q a s
  | .stopped s => I s

/-- From `P` the program returns in `Q`, and wherever it is cut off `I` holds. -/
def Triple (P : σ → Prop) (p : Program σ ε α) (Q : α → σ → Prop) (I : σ → Prop) : Prop :=
  ∀ s fates, P s → Meets Q I (p s fates)

variable {P P' : σ → Prop} {Q Q' : α → σ → Prop} {R : β → σ → Prop} {I : σ → Prop} {p : Program σ ε α}

theorem Triple.returned (h : Triple P p Q I) {s s' : σ} {fates rest : List (Fate ε)} {a : α} (hs : P s)
    (hp : p s fates = .returned a s' rest) : Q a s' := by
  have hends := h s fates hs
  rw [hp] at hends
  exact hends

theorem Triple.state (h : Triple P p Q I) (hQ : ∀ a s, Q a s → I s) {s : σ} (hs : P s) (fates : List (Fate ε)) :
    I (p s fates).state := by
  have hends := h s fates hs
  cases hp : p s fates with
  | returned a s' rest =>
    rw [hp] at hends
    exact hQ a s' hends
  | stopped s' =>
    rw [hp] at hends
    exact hends

theorem Triple.weaken (h : Triple P p Q I) (hP : ∀ s, P' s → P s) (hQ : ∀ a s, Q a s → Q' a s) :
    Triple P' p Q' I := by
  intro s fates hs
  have hends := h s fates (hP s hs)
  cases hp : p s fates with
  | returned a s' rest =>
    rw [hp] at hends
    exact hQ a s' hends
  | stopped s' =>
    rw [hp] at hends
    exact hends

theorem Triple.pre (h : Triple P p Q I) (hP : ∀ s, P' s → P s) : Triple P' p Q I := h.weaken hP fun _ _ hQ => hQ

theorem Triple.pure {a : α} (h : ∀ s, P s → Q a s) : Triple P (pure a : Program σ ε α) Q I := fun s _ hs => h s hs

theorem Triple.stop (h : ∀ s, P s → I s) : Triple P (stop : Program σ ε α) Q I := fun s _ hs => h s hs

theorem Triple.bind {next : α → Program σ ε β} (h : Triple P p Q I) (hnext : ∀ a, Triple (Q a) (next a) R I) :
    Triple P (p >>= next) R I := by
  intro s fates hs
  have hends := h s fates hs
  change Meets R I ((p s fates).andThen next)
  cases hp : p s fates with
  | returned a s' rest =>
    rw [hp] at hends
    exact hnext a s' rest hends
  | stopped s' =>
    rw [hp] at hends
    exact hends

theorem Triple.given {c : Prop} (h : c → Triple P p Q I) : Triple (fun s => c ∧ P s) p Q I :=
  fun s fates hs => h hs.1 s fates hs.2

theorem Triple.required {o : Option α} (hI : ∀ s, P s → I s) :
    Triple P (required o : Program σ ε α) (fun a s => o = some a ∧ P s) I := by
  cases o with
  | some a => exact Triple.pure fun s hs => ⟨rfl, hs⟩
  | none => exact Triple.stop hI

theorem Triple.check {c : Bool} (hI : ∀ s, P s → I s) :
    Triple P (check c : Program σ ε Unit) (fun _ s => c = true ∧ P s) I := by
  cases c with
  | true => exact Triple.pure fun s hs => ⟨rfl, hs⟩
  | false => exact Triple.stop hI

theorem Triple.onlyIf {c : Bool} {p : Program σ ε Unit} {Q : Unit → σ → Prop} (h : c = true → Triple P p Q I)
    (hno : c = false → ∀ s, P s → Q () s) : Triple P (onlyIf c p) Q I := by
  cases c with
  | true => exact h rfl
  | false => exact Triple.pure (hno rfl)

/-- A command whose precondition the others keep. -/
theorem Triple.command {others : ε → σ → σ} {act : σ → Option (α × σ)} {broken : σ → σ}
    (hothers : ∀ e s, P s → P (others e s)) (hI : ∀ s, P s → I s) (hbroken : ∀ s, P s → I (broken s))
    (hact : ∀ s a s', P s → act s = some (a, s') → Q a s') (hQ : ∀ a s, Q a s → I s) :
    Triple P (command others act broken) Q I := by
  intro s fates hs
  cases fates with
  | nil => exact hI s hs
  | cons fate rest =>
    cases fate with
    | answered e =>
      rw [Program.command]
      cases hrun : act (others e s) with
      | none => exact hI _ (hothers e s hs)
      | some done => exact hact _ done.1 done.2 (hothers e s hs) hrun
    | unanswered e =>
      rw [Program.command]
      cases hrun : act (others e s) with
      | none => exact hI _ (hothers e s hs)
      | some done => exact hQ _ _ (hact _ done.1 done.2 (hothers e s hs) hrun)
    | refused e => exact hI _ (hothers e s hs)
    | broken e => exact hbroken _ (hothers e s hs)

end Program

/-! ## Runs one after the other -/

/-- The states left behind by runs one after the other, each cut off anywhere or not at all. -/
inductive Reached (run : ι → Program σ ε α) (start : σ → Prop) : σ → Prop where
  | start {s : σ} : start s → Reached run start s
  | run {s : σ} (i : ι) (fates : List (Fate ε)) : Reached run start s → Reached run start (run i s fates).state

/-- **What every program keeps, cut off or not, holds of every state that is reached.** -/
theorem Reached.invariant {run : ι → Program σ ε α} {start I : σ → Prop} (hstart : ∀ s, start s → I s)
    (hrun : ∀ i, Program.Triple I (run i) (fun _ => I) I) {s : σ} (hs : Reached run start s) : I s := by
  induction hs with
  | start h => exact hstart _ h
  | run i fates _ ih => exact (hrun i).state (fun _ _ h => h) ih fates

end Interrupted
