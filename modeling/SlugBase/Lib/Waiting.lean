import Mathlib.Logic.Relation
import Mathlib.Data.Nat.Notation
import Mathlib.Tactic.Push

/-!
# Parties that wait for one another

A party waits for another, as a transaction does at a lock; a party in a circle of these waits for itself.

* `Deadlocked`: the parties of a circle;
* **`not_deadlocked`**: there is none when a rank rises along every wait in the middle of a chain;
* **`exists_free`**: and then every party waits, in the end, for one that waits for nobody.
-/

namespace Waiting

open Relation

variable {ι : Type*} {waits : ι → ι → Prop} {rank : ι → ℕ}

/-- The party waits, through others, for itself. -/
def Deadlocked (waits : ι → ι → Prop) (i : ι) : Prop := TransGen waits i i

theorem rank_lt_of_transGen (hrise : ∀ h i j k, waits h i → waits i j → waits j k → rank i < rank j) {h i j k : ι}
    (hin : waits h i) (hpath : TransGen waits i j) (hout : waits j k) : rank i < rank j := by
  induction hpath generalizing k with
  | single hstep => exact hrise h i _ k hin hstep hout
  | @tail b c hpath hstep ih =>
    have hb := ih hstep
    obtain ⟨a, -, ha⟩ := TransGen.tail'_iff.mp hpath
    exact Nat.lt_trans hb (hrise a b c k ha hstep hout)

/-- **No circle of waits** when the rank rises along the waits in the middle of every chain. -/
theorem not_deadlocked (hrise : ∀ h i j k, waits h i → waits i j → waits j k → rank i < rank j) (i : ι) :
    ¬Deadlocked waits i := by
  intro hcircle
  obtain ⟨h, -, hin⟩ := TransGen.tail'_iff.mp hcircle
  obtain ⟨k, hout, -⟩ := TransGen.head'_iff.mp hcircle
  exact Nat.lt_irrefl _ (rank_lt_of_transGen hrise hin hcircle hout)

/-- **Every party waits, in the end, for one that waits for nobody**, when the ranks are bounded. -/
theorem exists_free {bound : ℕ} (hrise : ∀ h i j k, waits h i → waits i j → waits j k → rank i < rank j)
    (hbound : ∀ h i j, waits h i → waits i j → rank i < bound) (i : ι) :
    ∃ j, ReflTransGen waits i j ∧ ∀ k, ¬waits j k := by
  -- the induction is on the distance of the rank of a party that is waited for from the bound
  have hwaited : ∀ n j, bound - rank j ≤ n → (∃ h, waits h j) → ∃ k, ReflTransGen waits j k ∧ ∀ l, ¬waits k l := by
    intro n
    induction n with
    | zero =>
      rintro j hn ⟨h, hh⟩
      refine ⟨j, .refl, fun k hk => ?_⟩
      have hlt := hbound h j k hh hk
      omega
    | succ n ih =>
      rintro j hn ⟨h, hh⟩
      by_cases hfree : ∀ k, ¬waits j k
      · exact ⟨j, .refl, hfree⟩
      push Not at hfree
      obtain ⟨k, hk⟩ := hfree
      by_cases hlast : ∀ l, ¬waits k l
      · exact ⟨k, .single hk, hlast⟩
      push Not at hlast
      obtain ⟨l, hl⟩ := hlast
      have hlt := hrise h j k l hh hk hl
      have hk' := hbound j k l hk hl
      obtain ⟨m, hm, hfree⟩ := ih k (by omega) ⟨j, hk⟩
      exact ⟨m, .head hk hm, hfree⟩
  by_cases hfree : ∀ j, ¬waits i j
  · exact ⟨i, .refl, hfree⟩
  push Not at hfree
  obtain ⟨j, hj⟩ := hfree
  obtain ⟨k, hk, hlast⟩ := hwaited _ j (Nat.le_refl _) ⟨i, hj⟩
  exact ⟨k, .head hj hk, hlast⟩

end Waiting
