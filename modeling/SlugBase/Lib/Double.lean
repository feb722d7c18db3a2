import Mathlib.Data.Int.Log
import Mathlib.Data.Rat.Floor
import Mathlib.Algebra.Order.Ring.Rat
import Mathlib.Algebra.Order.Floor.Ring
import Mathlib.Algebra.Order.Field.Power
import Mathlib.Tactic.Linarith
import Mathlib.Tactic.FieldSimp
import Mathlib.Tactic.Ring
import Mathlib.Tactic.Positivity

/-!
# Doubles

The rounding of IEEE 754 binary64, to the nearest and of two the even one, on rational numbers.

* `halfEven`: the nearest whole number; `unitAt`: the distance of the doubles about a number;
* `nearest`: the nearest double, were there no greatest one; `maxDouble`: the bound that overflows;
* **`nearest_mono`**: rounding keeps the order of numbers that are not negative;
* **`nearest_natCast`**: the whole numbers below `2 ^ 53` are doubles.
-/

namespace JavaScript.Double

/-! ## Whole numbers -/

/-- The nearest whole number, of two the even one. -/
def halfEven (x : ℚ) : ℤ :=
  if Int.fract x < 1 / 2 ∨ Int.fract x = 1 / 2 ∧ ⌊x⌋ % 2 = 0 then ⌊x⌋ else ⌊x⌋ + 1

theorem floor_le_halfEven (x : ℚ) : ⌊x⌋ ≤ halfEven x := by
  unfold halfEven
  split_ifs <;> omega

theorem halfEven_le_floor_add_one (x : ℚ) : halfEven x ≤ ⌊x⌋ + 1 := by
  unfold halfEven
  split_ifs <;> omega

theorem halfEven_intCast (n : ℤ) : halfEven n = n := by
  rw [halfEven, Int.fract_intCast, Int.floor_intCast]
  exact if_pos (.inl (by norm_num))

theorem halfEven_mono {x y : ℚ} (h : x ≤ y) : halfEven x ≤ halfEven y := by
  rcases (Int.floor_mono h).lt_or_eq with hlt | heq
  · calc halfEven x ≤ ⌊x⌋ + 1 := halfEven_le_floor_add_one x
      _ ≤ ⌊y⌋ := hlt
      _ ≤ halfEven y := floor_le_halfEven y
  · have hfract : Int.fract x ≤ Int.fract y := by
      rw [Int.fract, Int.fract, heq]
      exact sub_le_sub_right h _
    unfold halfEven
    rw [← heq]
    split_ifs with hx hy
    · rfl
    · exact Int.le_add_one le_rfl
    · rename_i hy
      refine absurd ?_ hx
      rcases hy with hlow | ⟨hhalf, heven⟩
      · exact .inl (hfract.trans_lt hlow)
      · rcases hfract.lt_or_eq with hlow | hsame
        · exact .inl (hhalf ▸ hlow)
        · exact .inr ⟨hsame.trans hhalf, heven⟩
    · rfl

/-! ## The nearest double -/

/-- The exponent of the unit in the last place of the doubles about a number. -/
def unitAt (x : ℚ) : ℤ := max (Int.log 2 |x| - 52) (-1074)

/-- The nearest double, of two the even one, were there no greatest one. -/
def nearest (x : ℚ) : ℚ := halfEven (x / 2 ^ unitAt x) * 2 ^ unitAt x

/-- A result of this size or above is no finite double. -/
def maxDouble : ℚ := 2 ^ 1024

section

variable {x y z : ℚ}

theorem unit_pos (e : ℤ) : (0 : ℚ) < 2 ^ e := zpow_pos (by norm_num) e

theorem nearest_le (h : x ≤ z) (n : ℤ) (hz : z = n * 2 ^ unitAt x) : nearest x ≤ z := by
  have hdiv : x / 2 ^ unitAt x ≤ n := (div_le_iff₀ (unit_pos _)).mpr (hz ▸ h)
  have hround := (halfEven_mono hdiv).trans_eq (halfEven_intCast n)
  rw [hz]
  exact mul_le_mul_of_nonneg_right (by exact_mod_cast hround) (unit_pos _).le

theorem le_nearest (h : z ≤ x) (n : ℤ) (hz : z = n * 2 ^ unitAt x) : z ≤ nearest x := by
  have hdiv : (n : ℚ) ≤ x / 2 ^ unitAt x := (le_div_iff₀ (unit_pos _)).mpr (hz ▸ h)
  have hround := (halfEven_intCast n).symm.trans_le (halfEven_mono hdiv)
  rw [hz]
  exact mul_le_mul_of_nonneg_right (by exact_mod_cast hround) (unit_pos _).le

theorem nearest_of_dvd (n : ℤ) (hx : x = n * 2 ^ unitAt x) : nearest x = x :=
  le_antisymm (nearest_le le_rfl n hx) (le_nearest le_rfl n hx)

theorem nearest_zero : nearest 0 = 0 := nearest_of_dvd 0 (by norm_num)

theorem exists_multiple {e u : ℤ} (h : u ≤ e) : ∃ n : ℤ, (2 : ℚ) ^ e = n * 2 ^ u := by
  obtain ⟨k, rfl⟩ := Int.le.dest h
  refine ⟨2 ^ k, ?_⟩
  rw [zpow_add₀ (by norm_num), zpow_natCast, mul_comm]
  push_cast
  rfl

/-- **Rounding keeps the order** of numbers that are not negative. -/
theorem nearest_mono (hx : 0 ≤ x) (h : x ≤ y) : nearest x ≤ nearest y := by
  rcases hx.lt_or_eq with hpos | rfl
  · have hlog : Int.log 2 |x| ≤ Int.log 2 |y| := by
      rw [abs_of_pos hpos, abs_of_pos (hpos.trans_le h)]
      exact Int.log_mono_right hpos h
    have hunit : unitAt x ≤ unitAt y := max_le_max (sub_le_sub_right hlog 52) le_rfl
    rcases hunit.lt_or_eq with hlt | heq
    · -- the units differ, so a power of two lies between the numbers and is a multiple of both
      have hexp : Int.log 2 |x| + 1 ≤ Int.log 2 |y| ∧ unitAt y ≤ Int.log 2 |y| := by
        unfold unitAt at hlt ⊢
        omega
      have hbelow : x ≤ 2 ^ Int.log 2 |y| := by
        calc x ≤ 2 ^ (Int.log 2 |x| + 1) := by
              rw [abs_of_pos hpos]
              exact_mod_cast (Int.lt_zpow_succ_log_self (b := 2) (by norm_num) x).le
          _ ≤ 2 ^ Int.log 2 |y| := zpow_le_zpow_right₀ (by norm_num) hexp.1
      have habove : 2 ^ Int.log 2 |y| ≤ y := by
        rw [abs_of_pos (hpos.trans_le h)]
        exact_mod_cast Int.zpow_log_le_self (b := 2) (by norm_num) (hpos.trans_le h)
      obtain ⟨n, hn⟩ := exists_multiple (hlt.le.trans hexp.2)
      obtain ⟨m, hm⟩ := exists_multiple hexp.2
      exact (nearest_le hbelow n hn).trans (le_nearest habove m hm)
    · unfold nearest
      rw [heq]
      have hdiv : x / 2 ^ unitAt y ≤ y / 2 ^ unitAt y := div_le_div_of_nonneg_right h (unit_pos _).le
      exact mul_le_mul_of_nonneg_right (by exact_mod_cast halfEven_mono hdiv) (unit_pos _).le
  · rw [nearest_zero]
    exact le_nearest h 0 (by norm_num)

/-- **The whole numbers below `2 ^ 53` are doubles.** -/
theorem nearest_natCast {n : ℕ} (h : n < 2 ^ 53) : nearest n = n := by
  rcases Nat.eq_zero_or_pos n with rfl | hpos
  · exact_mod_cast nearest_zero
  · have hlog : Int.log 2 |(n : ℚ)| = Nat.log 2 n := by
      rw [Nat.abs_cast, Int.log_natCast]
    have hbits : Nat.log 2 n < 53 := Nat.log_lt_of_lt_pow hpos.ne' h
    have hunit : unitAt n ≤ 0 := by
      unfold unitAt
      omega
    obtain ⟨k, hk⟩ := exists_multiple hunit
    refine nearest_of_dvd (n * k) ?_
    rw [Int.cast_mul, mul_assoc, ← hk, zpow_zero, mul_one, Int.cast_natCast]

end

end JavaScript.Double
