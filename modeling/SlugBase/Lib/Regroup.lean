import Mathlib.Data.List.Induction
import Mathlib.Data.Nat.Digits.Defs

/-!
# Digits regrouped

A number is read digit by digit to the base `2 ^ a`, first digit first, and written digit by digit to the base `2 ^ b`:
the bits of a digit are taken in, and what makes a digit of the other base is written.

* `Regrouping.take`: one digit taken in; `regroup`: the run over a list of digits; `padded`: with the last digit filled
  up;
* `Spells`: two lists of digits spell one number, up to zero bits at its end;
* **`regroup_spells`**: what was written and the bits that are left are the number that was read;
* **`Spells.right_unique`**: the digits that were written can be told from what they spell.
-/

namespace Digits

/-- The number that digits to the base `2 ^ a` spell, first digit first. -/
def number (a : ℕ) (xs : List ℕ) : ℕ := Nat.ofDigits (2 ^ a) xs.reverse

/-- The bits that were taken in and not written, how many they are, and what was written. -/
structure Regrouping (β : Type) where
  value : ℕ := 0
  bits : ℕ := 0
  out : List β := []
  deriving DecidableEq, Repr

section

variable {β : Type}

/-- The digits that are complete, written as long as there is one; no more turns than bits. -/
def write (b : ℕ) (symbol : ℕ → β) (value : ℕ) : ℕ → ℕ → List β → ℕ × List β
  | 0, bits, out => (bits, out)
  | turns + 1, bits, out =>
    if b ≤ bits then
      write b symbol value turns (bits - b) (out ++ [symbol ((value >>> (bits - b)) &&& (2 ^ b - 1))])
    else (bits, out)

/-- One digit taken in. -/
def Regrouping.take (a b : ℕ) (symbol : ℕ → β) (s : Regrouping β) (x : ℕ) : Regrouping β :=
  let value := (s.value <<< a) ||| x
  let written := write b symbol value (s.bits + a) (s.bits + a) s.out
  ⟨value &&& (1 <<< written.1 - 1), written.1, written.2⟩

/-- Digits to the base `2 ^ a`, as digits to the base `2 ^ b`. -/
def regroup (a b : ℕ) (symbol : ℕ → β) (xs : List ℕ) : Regrouping β := xs.foldl (Regrouping.take a b symbol) {}

/-- What was written, and the bits that are left with zeros behind them. -/
def Regrouping.padded (b : ℕ) (symbol : ℕ → β) (s : Regrouping β) : List β :=
  if 0 < s.bits then s.out ++ [symbol ((s.value <<< (b - s.bits)) &&& (2 ^ b - 1))] else s.out

end

/-! ## Numbers -/

section

variable {a b : ℕ} {xs ys : List ℕ}

@[simp] theorem number_nil (a : ℕ) : number a [] = 0 := rfl

theorem number_append_singleton (a : ℕ) (xs : List ℕ) (x : ℕ) : number a (xs ++ [x]) = number a xs * 2 ^ a + x := by
  rw [number, List.reverse_append, List.reverse_singleton, List.singleton_append, Nat.ofDigits_cons, number,
    Nat.mul_comm, Nat.add_comm]

theorem number_injective (ha : 0 < a) (hxs : ∀ x ∈ xs, x < 2 ^ a) (hys : ∀ y ∈ ys, y < 2 ^ a)
    (hlength : xs.length = ys.length) (h : number a xs = number a ys) : xs = ys := by
  refine List.reverse_inj.mp (Nat.ofDigits_inj_of_len_eq (Nat.one_lt_two_pow ha.ne') ?_ ?_ ?_ h)
  · rw [List.length_reverse, List.length_reverse, hlength]
  · exact fun x hx => hxs x (List.mem_reverse.mp hx)
  · exact fun y hy => hys y (List.mem_reverse.mp hy)

/-- The digits `ds` to the base `2 ^ b` spell the digits `xs` to the base `2 ^ a` with `k` zero bits behind. -/
structure Spells (a b : ℕ) (xs ds : List ℕ) (k : ℕ) : Prop where
  length : a * xs.length + k = b * ds.length
  number : number a xs * 2 ^ k = number b ds

variable {ds es : List ℕ} {j k : ℕ}

/-- **The digits can be told from what they spell**, when fewer zero bits are behind than one of them has. -/
theorem Spells.right_unique (h : Spells a b xs ds j) (h' : Spells a b xs es k) (hj : j < b) (hk : k < b)
    (hds : ∀ d ∈ ds, d < 2 ^ b) (hes : ∀ e ∈ es, e < 2 ^ b) : ds = es := by
  have hb : 0 < b := by omega
  have hlength : b * ds.length + k = b * es.length + j := by
    have h1 := h.length
    have h2 := h'.length
    omega
  have hde : ds.length = es.length := by
    have hleft : (b * ds.length + k) / b = ds.length := by
      rw [Nat.mul_add_div hb, Nat.div_eq_of_lt hk, Nat.add_zero]
    have hright : (b * es.length + j) / b = es.length := by
      rw [Nat.mul_add_div hb, Nat.div_eq_of_lt hj, Nat.add_zero]
    rw [← hleft, hlength, hright]
  have hjk : j = k := by rw [hde] at hlength; exact (Nat.add_left_cancel hlength).symm
  subst hjk
  exact number_injective hb hds hes hde (h.number.symm.trans h'.number)

end

/-! ## The run -/

section

variable {β : Type} {a b : ℕ} {symbol : ℕ → β} {xs : List ℕ}

/-- What is known after the digits `xs` were read: the digits `ds` were written, and with the bits that are left they are
the number that was read. -/
structure Regrouping.Holds (a b : ℕ) (symbol : ℕ → β) (xs ds : List ℕ) (s : Regrouping β) : Prop where
  out : s.out = ds.map symbol
  digits : ∀ d ∈ ds, d < 2 ^ b
  length : a * xs.length = b * ds.length + s.bits
  bits_lt : s.bits < b
  value_lt : s.value < 2 ^ s.bits
  number : number a xs = number b ds * 2 ^ s.bits + s.value

theorem split_bits {bits : ℕ} (v : ℕ) (h : b ≤ bits) :
    v % 2 ^ bits = (v >>> (bits - b)) % 2 ^ b * 2 ^ (bits - b) + v % 2 ^ (bits - b) := by
  have hpow : 2 ^ bits = 2 ^ (bits - b) * 2 ^ b := by rw [← pow_add, Nat.sub_add_cancel h]
  rw [hpow, Nat.mod_mul, Nat.shiftRight_eq_div_pow, Nat.add_comm, Nat.mul_comm]

/-- What the loop writes: with the bits it leaves, the bits it was given. -/
theorem write_spec (hb : 0 < b) (symbol : ℕ → β) (v : ℕ) {turns bits : ℕ} (hturns : bits ≤ turns) (ds : List ℕ)
    (hds : ∀ d ∈ ds, d < 2 ^ b) : ∃ es, (write b symbol v turns bits (ds.map symbol)).2 = es.map symbol ∧ (∀ e ∈ es, e < 2 ^ b) ∧
      b * es.length + (write b symbol v turns bits (ds.map symbol)).1 = b * ds.length + bits ∧
      (write b symbol v turns bits (ds.map symbol)).1 < b ∧
      number b es * 2 ^ (write b symbol v turns bits (ds.map symbol)).1 +
        v % 2 ^ (write b symbol v turns bits (ds.map symbol)).1 = number b ds * 2 ^ bits + v % 2 ^ bits := by
  induction turns generalizing bits ds with
  | zero => exact ⟨ds, rfl, hds, rfl, by simp only [write]; omega, rfl⟩
  | succ turns ih =>
    by_cases hbits : b ≤ bits
    · have hdigit : (v >>> (bits - b)) &&& (2 ^ b - 1) = (v >>> (bits - b)) % 2 ^ b := Nat.and_two_pow_sub_one_eq_mod _ _
      have hlt : (v >>> (bits - b)) % 2 ^ b < 2 ^ b := Nat.mod_lt _ (Nat.two_pow_pos b)
      have hmore : ∀ d ∈ ds ++ [(v >>> (bits - b)) % 2 ^ b], d < 2 ^ b := by
        intro d hd
        rcases List.mem_append.mp hd with hd | hd
        · exact hds d hd
        · rw [List.mem_singleton.mp hd]
          exact hlt
      obtain ⟨es, hout, hes, hlength, hleft, hnumber⟩ := ih (by omega : bits - b ≤ turns) _ hmore
      have hstep : write b symbol v (turns + 1) bits (ds.map symbol) =
          write b symbol v turns (bits - b) ((ds ++ [(v >>> (bits - b)) % 2 ^ b]).map symbol) := by
        rw [write, if_pos hbits, hdigit, List.map_append, List.map_singleton]
      rw [hstep]
      refine ⟨es, hout, hes, ?_, hleft, ?_⟩
      · rw [hlength, List.length_append, List.length_singleton, Nat.mul_add, Nat.mul_one]
        omega
      · have hpow : 2 ^ bits = 2 ^ b * 2 ^ (bits - b) := by rw [← pow_add, Nat.add_sub_cancel' hbits]
        rw [hnumber, number_append_singleton, split_bits v hbits, Nat.add_mul, hpow, Nat.mul_assoc, Nat.add_assoc]
    · rw [write, if_neg hbits]
      exact ⟨ds, rfl, hds, rfl, by omega, rfl⟩

/-- **One digit taken in.** -/
theorem Regrouping.Holds.take {s : Regrouping β} {ds : List ℕ} {x : ℕ} (hb : 0 < b) (h : s.Holds a b symbol xs ds)
    (hx : x < 2 ^ a) : ∃ es, (s.take a b symbol x).Holds a b symbol (xs ++ [x]) es := by
  have hvalue : (s.value <<< a) ||| x = s.value * 2 ^ a + x := by
    rw [← Nat.shiftLeft_add_eq_or_of_lt hx, Nat.shiftLeft_eq]
  have hsmall : s.value * 2 ^ a + x < 2 ^ (s.bits + a) := by
    have hle : (s.value + 1) * 2 ^ a ≤ 2 ^ s.bits * 2 ^ a := Nat.mul_le_mul_right _ h.value_lt
    rw [pow_add]
    rw [Nat.add_mul, Nat.one_mul] at hle
    omega
  obtain ⟨es, hout, hes, hlength, hleft, hnumber⟩ :=
    write_spec hb symbol (s.value * 2 ^ a + x) (le_refl (s.bits + a)) ds h.digits
  refine ⟨es, ?_⟩
  have hmask : ∀ v n : ℕ, v &&& (1 <<< n - 1) = v % 2 ^ n := by
    intro v n
    rw [Nat.one_shiftLeft, Nat.and_two_pow_sub_one_eq_mod]
  simp only [Regrouping.take, hvalue, h.out, hmask]
  refine ⟨hout, hes, ?_, hleft, Nat.mod_lt _ (Nat.two_pow_pos _), ?_⟩
  · dsimp only
    have hread := h.length
    rw [List.length_append, List.length_singleton, Nat.mul_add, Nat.mul_one]
    omega
  · show Digits.number a (xs ++ [x]) = _
    rw [hnumber, Nat.mod_eq_of_lt hsmall, number_append_singleton, h.number, Nat.add_mul, pow_add, Nat.mul_assoc,
      Nat.add_assoc]

/-- **What was written and the bits that are left are the number that was read.** -/
theorem regroup_holds (hb : 0 < b) (symbol : ℕ → β) (hxs : ∀ x ∈ xs, x < 2 ^ a) :
    ∃ ds, (regroup a b symbol xs).Holds a b symbol xs ds := by
  induction xs using List.reverseRecOn with
  | nil => exact ⟨[], rfl, fun d hd => absurd hd List.not_mem_nil, rfl, hb, Nat.one_pos, rfl⟩
  | append_singleton xs x ih =>
    obtain ⟨ds, h⟩ := ih fun y hy => hxs y (List.mem_append_left _ hy)
    have hrun : regroup a b symbol (xs ++ [x]) = (regroup a b symbol xs).take a b symbol x := by
      rw [regroup, List.foldl_append]
      rfl
    rw [hrun]
    exact h.take hb (hxs x (List.mem_append_right _ (List.mem_singleton.mpr rfl)))

/-- **Filled up, what was written spells what was read.** -/
theorem padded_spells (hb : 0 < b) (symbol : ℕ → β) (hxs : ∀ x ∈ xs, x < 2 ^ a) :
    ∃ ds k, (regroup a b symbol xs).padded b symbol = ds.map symbol ∧ (∀ d ∈ ds, d < 2 ^ b) ∧ k < b ∧
      Spells a b xs ds k := by
  obtain ⟨ds, h⟩ := regroup_holds hb symbol hxs
  generalize regroup a b symbol xs = s at h
  by_cases hbits : 0 < s.bits
  · have hlt := h.bits_lt
    have hdigit : (s.value <<< (b - s.bits)) &&& (2 ^ b - 1) = s.value * 2 ^ (b - s.bits) := by
      have hsmall : s.value * 2 ^ (b - s.bits) < 2 ^ b := by
        have hpow : 2 ^ b = 2 ^ s.bits * 2 ^ (b - s.bits) := by rw [← pow_add, Nat.add_sub_cancel' hlt.le]
        rw [hpow]
        exact Nat.mul_lt_mul_of_pos_right h.value_lt (Nat.two_pow_pos _)
      rw [Nat.and_two_pow_sub_one_eq_mod, Nat.shiftLeft_eq, Nat.mod_eq_of_lt hsmall]
    refine ⟨ds ++ [s.value * 2 ^ (b - s.bits)], b - s.bits, ?_, ?_, by omega, ?_, ?_⟩
    · rw [Regrouping.padded, if_pos hbits, hdigit, h.out, List.map_append, List.map_singleton]
    · intro d hd
      rcases List.mem_append.mp hd with hd | hd
      · exact h.digits d hd
      · rw [List.mem_singleton.mp hd, ← hdigit, Nat.and_two_pow_sub_one_eq_mod]
        exact Nat.mod_lt _ (Nat.two_pow_pos b)
    · rw [h.length, List.length_append, List.length_singleton, Nat.mul_add, Nat.mul_one]
      omega
    · have hpow : 2 ^ b = 2 ^ s.bits * 2 ^ (b - s.bits) := by rw [← pow_add, Nat.add_sub_cancel' hlt.le]
      rw [h.number, number_append_singleton, Nat.add_mul, hpow, Nat.mul_assoc]
  · have hnone : s.bits = 0 := Nat.eq_zero_of_not_pos hbits
    have hvalue : s.value = 0 := by
      have hlt := h.value_lt
      rw [hnone] at hlt
      omega
    refine ⟨ds, 0, by rw [Regrouping.padded, if_neg hbits, h.out], h.digits, hb, ?_, ?_⟩
    · rw [h.length, hnone, Nat.add_zero]
    · rw [h.number, hnone, hvalue, Nat.add_zero, Nat.pow_zero, Nat.mul_one, Nat.mul_one]

/-- **When only zero bits are left, what was read spells what was written.** -/
theorem regroup_spells (hb : 0 < b) (hxs : ∀ x ∈ xs, x < 2 ^ a) (hzero : (regroup a b id xs).value = 0) :
    Spells b a (regroup a b id xs).out xs (regroup a b id xs).bits ∧ ∀ d ∈ (regroup a b id xs).out, d < 2 ^ b := by
  obtain ⟨ds, h⟩ := regroup_holds hb id hxs
  generalize regroup a b id xs = s at h hzero
  have hout : s.out = ds := by rw [h.out, List.map_id]
  refine ⟨⟨?_, ?_⟩, ?_⟩
  · rw [hout, h.length]
  · rw [hout, h.number, hzero, Nat.add_zero]
  · rw [hout]
    exact h.digits

/-- **Digits with zero bits behind are regrouped into what they spell**, and the zero bits are left. -/
theorem regroup_of_spells {ds : List ℕ} {k : ℕ} (h : Spells a b xs ds k) (hk : k < a) (hxs : ∀ x ∈ xs, x < 2 ^ a)
    (hds : ∀ d ∈ ds, d < 2 ^ b) : regroup b a id ds = ⟨0, k, xs⟩ := by
  have ha : 0 < a := by omega
  obtain ⟨es, hes⟩ := regroup_holds ha id hds
  generalize regroup b a id ds = s at hes
  have hlength : a * xs.length + k = a * es.length + s.bits := h.length.trans hes.length
  have hsame : xs.length = es.length := by
    have hleft : (a * xs.length + k) / a = xs.length := by
      rw [Nat.mul_add_div ha, Nat.div_eq_of_lt hk, Nat.add_zero]
    have hright : (a * es.length + s.bits) / a = es.length := by
      rw [Nat.mul_add_div ha, Nat.div_eq_of_lt hes.bits_lt, Nat.add_zero]
    rw [← hleft, hlength, hright]
  have hbits : s.bits = k := by rw [hsame] at hlength; exact (Nat.add_left_cancel hlength).symm
  have hnumber : number a xs * 2 ^ k = number a es * 2 ^ k + s.value := by rw [h.number, hes.number, hbits]
  have hvalue : s.value < 2 ^ k := hbits ▸ hes.value_lt
  have hquotient : number a xs = number a es := by
    have hleft : number a xs * 2 ^ k / 2 ^ k = number a xs := Nat.mul_div_cancel _ (Nat.two_pow_pos k)
    have hright : (number a es * 2 ^ k + s.value) / 2 ^ k = number a es := by
      rw [Nat.mul_comm, Nat.mul_add_div (Nat.two_pow_pos k), Nat.div_eq_of_lt hvalue, Nat.add_zero]
    rw [← hleft, hnumber, hright]
  have hout : s.out = xs := by
    rw [hes.out, List.map_id]
    exact (number_injective ha hxs hes.digits hsame hquotient).symm
  have hzero : s.value = 0 := by rw [hquotient] at hnumber; omega
  obtain ⟨value, bits, out⟩ := s
  cases hbits
  cases hout
  cases hzero
  rfl

end

end Digits
