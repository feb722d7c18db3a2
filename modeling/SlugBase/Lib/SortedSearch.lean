import Mathlib.Data.List.Range
import Mathlib.Data.List.Nodup
import Mathlib.Order.Lattice
import Mathlib.Order.Monotone.Basic
import Mathlib.Tactic.SplitIfs

/-!
# Searching a sorted sequence

A binary search for the first place of a key and the walk over the places that have it.

* `lowerBound`, `matching`: the search and the walk, for any key of a place and any middle of an interval;
* **`matching_lowerBound`**: from the first place on the walk finds the places of the key, all and in order.
-/

namespace SortedSearch

variable {κ : Type} [LinearOrder κ] {key : ℕ → κ} {wanted : κ}

/-- A middle of an interval that holds more than nothing. -/
structure Middle (count : ℕ) where
  of : ℕ → ℕ → ℕ
  lower : ∀ {low high}, low < high → high ≤ count → low ≤ of low high
  upper : ∀ {low high}, low < high → high ≤ count → of low high < high

/-- The first place in `[low, high)` whose key is not below the wanted one, by halving the interval. -/
def lowerBound {count : ℕ} (middle : Middle count) (key : ℕ → κ) (wanted : κ) (low high : ℕ) (h : high ≤ count) : ℕ :=
  if hlt : low < high then
    if key (middle.of low high) < wanted then lowerBound middle key wanted (middle.of low high + 1) high h
    else lowerBound middle key wanted low (middle.of low high) ((middle.upper hlt h).le.trans h)
  else low
termination_by high - low
decreasing_by
  · have := middle.lower hlt h
    omega
  · have := middle.upper hlt h
    omega

/-- The places from `index` on that have the wanted key, up to the first that has another. -/
def matching (count : ℕ) (key : ℕ → κ) (wanted : κ) (index : ℕ) : List ℕ :=
  if index < count then
    if key index = wanted then index :: matching count key wanted (index + 1) else []
  else []
termination_by count - index

/-- The search ends between the keys below the wanted one and the others. -/
theorem lowerBound_spec {count : ℕ} (middle : Middle count) (hmono : ∀ i j, i ≤ j → j < count → key i ≤ key j) (low high : ℕ)
    (h : high ≤ count) (hle : low ≤ high) (hbelow : ∀ i < low, key i < wanted)
    (habove : ∀ i, high ≤ i → i < count → wanted ≤ key i) :
    lowerBound middle key wanted low high h ≤ count ∧
      (∀ i < lowerBound middle key wanted low high h, key i < wanted) ∧
      ∀ i, lowerBound middle key wanted low high h ≤ i → i < count → wanted ≤ key i := by
  fun_induction lowerBound middle key wanted low high h with
  | case1 low high h hlt hkey ih =>
    have hupper := middle.upper hlt h
    refine ih hupper (fun i hi => ?_) habove
    exact lt_of_le_of_lt (hmono i _ (Nat.lt_succ_iff.mp hi) (hupper.trans_le h)) hkey
  | case2 low high h hlt hkey ih =>
    refine ih (middle.lower hlt h) hbelow fun i hi hcount => ?_
    exact (not_lt.mp hkey).trans (hmono _ i hi hcount)
  | case3 low high h hlt =>
    have heq : low = high := le_antisymm hle (not_lt.mp hlt)
    exact ⟨heq ▸ h, hbelow, fun i hi => habove i (heq ▸ hi)⟩

/-- A walk that starts at no key below the wanted one finds what is left of the key. -/
theorem matching_eq {count index : ℕ} (hmono : ∀ i j, i ≤ j → j < count → key i ≤ key j)
    (habove : ∀ i, index ≤ i → i < count → wanted ≤ key i) :
    matching count key wanted index = (List.range' index (count - index)).filter fun i => decide (key i = wanted) := by
  fun_induction matching count key wanted index with
  | case1 index hlt hkey ih =>
    have hrest := ih fun i hi => habove i (Nat.le_of_succ_le hi)
    rw [hrest, show count - index = count - (index + 1) + 1 by omega, List.range'_succ,
      List.filter_cons_of_pos (by simpa using hkey)]
  | case2 index hlt hkey =>
    rw [eq_comm, List.filter_eq_nil_iff]
    intro i hi
    rw [List.mem_range'_1] at hi
    have hfirst : wanted < key index := lt_of_le_of_ne (habove index le_rfl hlt) fun heq => hkey heq.symm
    have hlater := hmono index i hi.1 (by omega)
    exact fun heq => absurd (of_decide_eq_true heq) (hfirst.trans_le hlater).ne'
  | case3 index hlt =>
    rw [show count - index = 0 by omega]
    rfl

/-- **The walk from the first place of the key finds the places of the key**, all and in order. -/
theorem matching_lowerBound {count : ℕ} (middle : Middle count) (hmono : ∀ i j, i ≤ j → j < count → key i ≤ key j) :
    matching count key wanted (lowerBound middle key wanted 0 count le_rfl) =
      (List.range count).filter fun i => decide (key i = wanted) := by
  have hnone : ∀ i < 0, key i < wanted := fun i hi => absurd hi (Nat.not_lt_zero i)
  obtain ⟨hle, hbelow, habove⟩ := lowerBound_spec middle hmono 0 count le_rfl (Nat.zero_le _) hnone
    fun i hi hlt => absurd hlt (not_lt.mpr hi)
  obtain ⟨first, hfirst⟩ : ∃ n, n = lowerBound middle key wanted 0 count le_rfl := ⟨_, rfl⟩
  rw [← hfirst] at hle hbelow habove ⊢
  rw [matching_eq hmono habove, List.range_eq_range']
  have hsplit : List.range' 0 count = List.range' 0 first ++ List.range' first (count - first) := by
    have happend := @List.range'_append_1 0 first (count - first)
    rw [Nat.zero_add, Nat.add_sub_cancel' hle] at happend
    exact happend.symm
  rw [hsplit, List.filter_append, eq_comm]
  have hnone : (List.range' 0 first).filter (fun i => decide (key i = wanted)) = [] := by
    rw [List.filter_eq_nil_iff]
    intro i hi heq
    rw [List.mem_range'_1, Nat.zero_add] at hi
    exact absurd (of_decide_eq_true heq) (hbelow i hi.2).ne
  rw [hnone, List.nil_append]

end SortedSearch
