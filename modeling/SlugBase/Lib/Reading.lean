import Mathlib.Algebra.Group.Nat.Defs

/-!
# Programs that read by place

A program that reads an array keeps a record of the places it read.

* `Reading`: a fallible program with its record; `Within`: the record grew by places in bounds;
* **`foldlM_eq_ok`**: an invariant of the steps of a loop holds at its end, with the reads in bounds.
-/

namespace Places

variable {ε α β σ ι : Type}

/-! ## Reads -/

/-- A program that may refuse, over the record of the places it has read. -/
def Reading (ε α : Type) : Type := List ℕ → Except ε (α × List ℕ)

instance : Monad (Reading ε) where
  pure a := fun record => .ok (a, record)
  bind program next := fun record => match program record with
    | .error e => .error e
    | .ok (a, record') => next a record'

/-- The program that refuses. -/
def refuse (e : ε) : Reading ε α := fun _ => .error e

/-- A read of a place, where what is missing is a default. -/
def readAt (bytes : List UInt8) (place : ℕ) : Reading ε ℕ := fun record => .ok ((bytes.getD place 0).toNat, record ++ [place])

theorem pure_eq_ok {a b : α} {record record' : List ℕ} :
    (pure a : Reading ε α) record = .ok (b, record') ↔ a = b ∧ record = record' := by
  change Except.ok (a, record) = _ ↔ _
  simp

theorem bind_eq_ok {program : Reading ε α} {next : α → Reading ε β} {record record' : List ℕ} {b : β} :
    (program >>= next) record = .ok (b, record') ↔
      ∃ a between, program record = .ok (a, between) ∧ next a between = .ok (b, record') := by
  cases h : program record with
  | error e =>
    have hbind : (program >>= next) record = .error e := by
      simp only [bind, h]
    simp [hbind]
  | ok result =>
    have hbind : (program >>= next) record = next result.1 result.2 := by
      simp only [bind, h]
    rw [hbind]
    constructor
    · exact fun hnext => ⟨result.1, result.2, rfl, hnext⟩
    · rintro ⟨a, between, hsame, hnext⟩
      obtain rfl := Except.ok.inj hsame
      exact hnext

/-- The places that a step reads are in an array: it adds only such places to the record. -/
def Within (bound : ℕ) (record record' : List ℕ) : Prop := ∃ places, record' = record ++ places ∧ ∀ place ∈ places, place < bound

theorem Within.refl (bound : ℕ) (record : List ℕ) : Within bound record record := ⟨[], by simp, by simp⟩

theorem Within.trans {bound : ℕ} {first second third : List ℕ} (h : Within bound first second)
    (h' : Within bound second third) : Within bound first third := by
  obtain ⟨places, rfl, hplaces⟩ := h
  obtain ⟨more, rfl, hmore⟩ := h'
  refine ⟨places ++ more, by simp, fun place hplace => ?_⟩
  rcases List.mem_append.mp hplace with hplace | hplace
  · exact hplaces place hplace
  · exact hmore place hplace

theorem readAt_eq_ok {bytes : List UInt8} {place value : ℕ} {record record' : List ℕ} (hplace : place < bytes.length)
    (h : (readAt bytes place : Reading ε ℕ) record = .ok (value, record')) :
    value = (bytes.getD place 0).toNat ∧ Within bytes.length record record' := by
  obtain ⟨rfl, rfl⟩ := Prod.mk.inj (Except.ok.inj h)
  exact ⟨rfl, [place], rfl, by simpa using hplace⟩

/-- **A loop of steps**: an invariant that each step keeps, with its reads in bounds, holds at the end. -/
theorem foldlM_eq_ok {step : σ → ι → Reading ε σ} {bound : ℕ} (I : List ι → σ → Prop) (valid : ι → Prop)
    (hstep : ∀ (done : List ι) (i : ι) (s s' : σ) (record record' : List ℕ), valid i → I done s →
      step s i record = .ok (s', record') → I (done ++ [i]) s' ∧ Within bound record record') :
    ∀ (items done : List ι) {s s' : σ} {record record' : List ℕ}, (∀ i ∈ items, valid i) → I done s →
      items.foldlM step s record = .ok (s', record') → I (done ++ items) s' ∧ Within bound record record'
  | [], done, s, s', record, record', _, hs, h => by
    rw [List.foldlM_nil] at h
    obtain ⟨rfl, rfl⟩ := pure_eq_ok.mp h
    exact ⟨by rwa [List.append_nil], Within.refl bound record⟩
  | i :: items, done, s, s', record, record', hvalid, hs, h => by
    rw [List.foldlM_cons] at h
    obtain ⟨between, middle, hfirst, hrest⟩ := bind_eq_ok.mp h
    obtain ⟨hbetween, hwithin⟩ := hstep done i s between record middle (hvalid i List.mem_cons_self) hs hfirst
    obtain ⟨hend, hwithin'⟩ := foldlM_eq_ok I valid hstep items (done ++ [i])
      (fun j hj => hvalid j (List.mem_cons_of_mem _ hj)) hbetween hrest
    rw [List.append_assoc, List.singleton_append] at hend
    exact ⟨hend, hwithin.trans hwithin'⟩

end Places
