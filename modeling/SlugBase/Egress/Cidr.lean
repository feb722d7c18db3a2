import SlugBase.Egress.Address
import Mathlib.Tactic.Ring

/-!
# Ranges of addresses

A range of addresses is an interval of numbers, however the code compares with it.

* `valueOf`: the number that bytes spell;
* `inCidr4`: the comparison with shifts and masks of 32 bits; `startsWith`: the comparison bit by bit;
* **`inCidr4_iff`**, **`startsWith_iff`**: both are membership of `InRange`, for every length of the mask.
-/

namespace SlugBase.Egress

/-! ## Numbers -/

/-- The number that the first bytes spell, with zeros for those that are missing. -/
def valueOf (bytes : AddressBytes) : ℕ → ℕ
  | 0 => 0
  | n + 1 => valueOf bytes n * 256 + bytes.getD n 0

/-- Every element is a byte. -/
def AreBytes (bytes : AddressBytes) : Prop := ∀ b ∈ bytes, b < 256

instance (bytes : AddressBytes) : Decidable (AreBytes bytes) := inferInstanceAs (Decidable (∀ b ∈ bytes, b < 256))

/-- The numbers that share the first bits with a base. -/
def InRange (width bits base value : ℕ) : Prop :=
  base / 2 ^ (width - bits) * 2 ^ (width - bits) ≤ value ∧
    value < base / 2 ^ (width - bits) * 2 ^ (width - bits) + 2 ^ (width - bits)

section

variable {bytes : AddressBytes} {x y width bits index : ℕ}

theorem AreBytes.getD_lt (h : AreBytes bytes) (i : ℕ) : bytes.getD i 0 < 256 := by
  rw [List.getD_eq_getElem?_getD]
  cases hget : bytes[i]? with
  | none => exact Nat.zero_lt_of_lt (by omega : 0 < 256)
  | some b => exact h b (List.mem_of_getElem? hget)

theorem valueOf_lt (h : AreBytes bytes) (n : ℕ) : valueOf bytes n < 2 ^ (8 * n) := by
  induction n with
  | zero => simp [valueOf]
  | succ n ih =>
    have hbyte := h.getD_lt n
    have hpow : 2 ^ (8 * (n + 1)) = 2 ^ (8 * n) * 256 := by
      rw [Nat.mul_add, Nat.pow_add]
    rw [valueOf, hpow]
    omega

/-- **The bits of the bytes are the bits of the number**, the highest first. -/
theorem testBit_valueOf (h : AreBytes bytes) (n : ℕ) (hindex : index < 8 * n) :
    (valueOf bytes n).testBit (8 * n - 1 - index) = bitOf bytes index := by
  induction n with
  | zero => omega
  | succ n ih =>
    have hvalue : valueOf bytes (n + 1) = 2 ^ 8 * valueOf bytes n + bytes.getD n 0 := by
      rw [valueOf]
      omega
    rw [hvalue, Nat.testBit_two_pow_mul_add _ (h.getD_lt n)]
    by_cases hlast : 8 * n ≤ index
    · rw [if_pos (by omega), bitOf, (by omega : index / 8 = n), (by omega : 8 * (n + 1) - 1 - index = 7 - index % 8)]
    · rw [if_neg (by omega), (by omega : 8 * (n + 1) - 1 - index - 8 = 8 * n - 1 - index)]
      exact ih (by omega)

/-- **Numbers share their first bits when the quotients agree.** -/
theorem testBit_eq_iff (hx : x < 2 ^ width) (hy : y < 2 ^ width) (hbits : bits ≤ width) :
    (∀ index < bits, x.testBit (width - 1 - index) = y.testBit (width - 1 - index)) ↔
      x / 2 ^ (width - bits) = y / 2 ^ (width - bits) := by
  constructor
  · intro h
    apply Nat.eq_of_testBit_eq
    intro i
    rw [Nat.testBit_div_two_pow, Nat.testBit_div_two_pow]
    by_cases hi : i + (width - bits) < width
    · have hbit := h (width - 1 - (i + (width - bits))) (by omega)
      rwa [(by omega : width - 1 - (width - 1 - (i + (width - bits))) = i + (width - bits))] at hbit
    · have hle : 2 ^ width ≤ 2 ^ (i + (width - bits)) := Nat.pow_le_pow_right (by omega) (by omega)
      rw [Nat.testBit_lt_two_pow (by omega), Nat.testBit_lt_two_pow (by omega)]
  · intro h index hindex
    have hbit := congrArg (fun n => n.testBit (bits - 1 - index)) h
    simp only [Nat.testBit_div_two_pow] at hbit
    rwa [(by omega : bits - 1 - index + (width - bits) = width - 1 - index)] at hbit

theorem inRange_iff : InRange width bits y x ↔ x / 2 ^ (width - bits) = y / 2 ^ (width - bits) := by
  have hpos : 0 < 2 ^ (width - bits) := Nat.two_pow_pos _
  unfold InRange
  rw [Nat.div_eq_iff hpos]
  generalize y / 2 ^ (width - bits) * 2 ^ (width - bits) = low
  generalize 2 ^ (width - bits) = size at hpos
  omega

/-- **The comparison bit by bit is membership of the interval.** -/
theorem startsWith_iff {range : Range} {n : ℕ} (hbytes : AreBytes bytes) (hrange : AreBytes range.bytes)
    (hbits : range.bits ≤ 8 * n) : startsWith bytes range = true ↔
      InRange (8 * n) range.bits (valueOf range.bytes n) (valueOf bytes n) := by
  rw [inRange_iff, ← testBit_eq_iff (valueOf_lt hbytes n) (valueOf_lt hrange n) hbits, startsWith, List.all_eq_true]
  constructor
  · intro h index hindex
    rw [testBit_valueOf hbytes n (by omega), testBit_valueOf hrange n (by omega)]
    exact beq_iff_eq.mp (h index (List.mem_range.mpr hindex))
  · intro h index hindex
    have hlt := List.mem_range.mp hindex
    rw [beq_iff_eq, ← testBit_valueOf hbytes n (by omega), ← testBit_valueOf hrange n (by omega)]
    exact h index hlt

end

/-! ## Shifts and masks -/

/-- Four bytes in a 32-bit integer. -/
def word32 (bytes : AddressBytes) : BitVec 32 :=
  BitVec.ofNat 32 (bytes.getD 0 0) <<< 24 ||| BitVec.ofNat 32 (bytes.getD 1 0) <<< 16 |||
    BitVec.ofNat 32 (bytes.getD 2 0) <<< 8 ||| BitVec.ofNat 32 (bytes.getD 3 0)

/-- The mask of a length; the language takes the distance of a shift modulo 32. -/
def mask32 (bits : ℕ) : BitVec 32 := if bits = 0 then 0 else BitVec.allOnes 32 <<< ((32 - bits) % 32)

/-- `inCidr4`. -/
def inCidr4 (bytes : AddressBytes) (range : Range) : Bool :=
  word32 bytes &&& mask32 range.bits == word32 range.bytes &&& mask32 range.bits

section

variable {bytes : AddressBytes} {range : Range} {bits index : ℕ}

theorem shifted_byte {b k : ℕ} (hb : b < 256) (hk : k ≤ 24) : b % 2 ^ 32 * 2 ^ k % 2 ^ 32 = 2 ^ k * b := by
  have hpow : 2 ^ k ≤ 2 ^ 24 := Nat.pow_le_pow_right (by omega) hk
  have hmul : b * 2 ^ k ≤ 255 * 2 ^ 24 := Nat.mul_le_mul (by omega) hpow
  rw [Nat.mod_eq_of_lt (by omega : b < 2 ^ 32), Nat.mod_eq_of_lt (by omega), Nat.mul_comm]

theorem word32_toNat (h : AreBytes bytes) : (word32 bytes).toNat = valueOf bytes 4 := by
  have h0 := h.getD_lt 0
  have h1 := h.getD_lt 1
  have h2 := h.getD_lt 2
  have h3 := h.getD_lt 3
  simp only [word32, valueOf, BitVec.toNat_or, BitVec.toNat_shiftLeft, BitVec.toNat_ofNat, Nat.shiftLeft_eq]
  generalize bytes.getD 0 0 = a at *
  generalize bytes.getD 1 0 = b at *
  generalize bytes.getD 2 0 = c at *
  generalize bytes.getD 3 0 = d at *
  rw [shifted_byte h0 (by omega), shifted_byte h1 (by omega), shifted_byte h2 (by omega),
    Nat.mod_eq_of_lt (by omega : d < 2 ^ 32)]
  have hab := Nat.two_pow_add_eq_or_of_lt (i := 24) (b := 2 ^ 16 * b) (by omega) a
  have habc := Nat.two_pow_add_eq_or_of_lt (i := 16) (b := 2 ^ 8 * c) (by omega) (2 ^ 8 * a + b)
  have habcd := Nat.two_pow_add_eq_or_of_lt (i := 8) (b := d) (by omega) (2 ^ 16 * a + 2 ^ 8 * b + c)
  rw [← hab, (by omega : 2 ^ 24 * a + 2 ^ 16 * b = 2 ^ 16 * (2 ^ 8 * a + b)), ← habc,
    (by omega : 2 ^ 16 * (2 ^ 8 * a + b) + 2 ^ 8 * c = 2 ^ 8 * (2 ^ 16 * a + 2 ^ 8 * b + c)), ← habcd]
  omega

theorem getLsbD_mask32 (hbits : bits ≤ 32) (hindex : index < 32) :
    (mask32 bits).getLsbD (31 - index) = decide (index < bits) := by
  unfold mask32
  by_cases hzero : bits = 0
  · simp [hzero]
  · rw [if_neg hzero, (by omega : (32 - bits) % 32 = 32 - bits), BitVec.getLsbD_shiftLeft, BitVec.getLsbD_allOnes]
    by_cases hlt : index < bits
    · simp only [hlt, decide_true, Bool.and_eq_true, decide_eq_true_eq, Bool.not_eq_true', decide_eq_false_iff_not]
      omega
    · simp only [hlt, decide_false, Bool.and_eq_false_iff, decide_eq_false_iff_not, Bool.not_eq_false', decide_eq_true_eq]
      omega

/-- **The comparison with shifts and masks is the comparison bit by bit.** -/
theorem inCidr4_eq_startsWith (hbytes : AreBytes bytes) (hrange : AreBytes range.bytes) (hbits : range.bits ≤ 32) :
    inCidr4 bytes range = startsWith bytes range := by
  have hbit {these : AddressBytes} {index : ℕ} (h : AreBytes these) (hindex : index < 32) :
      (word32 these).getLsbD (31 - index) = bitOf these index := by
    rw [← BitVec.testBit_toNat, word32_toNat h]
    exact testBit_valueOf h 4 hindex
  rw [Bool.eq_iff_iff, inCidr4, beq_iff_eq, BitVec.eq_of_getLsbD_eq_iff, startsWith, List.all_eq_true]
  simp only [BitVec.getLsbD_and]
  constructor
  · intro h index hmem
    have hlt := List.mem_range.mp hmem
    have hindex := h (31 - index) (by omega)
    rw [getLsbD_mask32 hbits (by omega), hbit hbytes (by omega), hbit hrange (by omega)] at hindex
    simpa [hlt] using hindex
  · intro h i hi
    have hmask := getLsbD_mask32 hbits (by omega : 31 - i < 32)
    rw [(by omega : 31 - (31 - i) = i)] at hmask
    rw [hmask]
    by_cases hlt : 31 - i < range.bits
    · have hindex := beq_iff_eq.mp (h (31 - i) (List.mem_range.mpr hlt))
      rw [← hbit hbytes (by omega), ← hbit hrange (by omega), (by omega : 31 - (31 - i) = i)] at hindex
      rw [hindex]
    · simp [hlt]

/-- **The comparison with shifts and masks is membership of the interval.** -/
theorem inCidr4_iff (hbytes : AreBytes bytes) (hrange : AreBytes range.bytes) (hbits : range.bits ≤ 32) :
    inCidr4 bytes range = true ↔ InRange 32 range.bits (valueOf range.bytes 4) (valueOf bytes 4) := by
  rw [inCidr4_eq_startsWith hbytes hrange hbits]
  exact startsWith_iff (n := 4) hbytes hrange hbits

end

end SlugBase.Egress
