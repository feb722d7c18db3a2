import SlugBase.Egress.Ipv4
import SlugBase.Egress.Cidr

/-!
# The text of an address

The text that a socket takes denotes the address it was written for.

* `parseInt_toDigits`: the digits of a number denote it;
* **`parseAddress_formatAddress`**: an address of four or sixteen bytes is read back from its text.
-/

namespace SlugBase.Egress

/-! ## Digits -/

section

variable {base n : ℕ}

theorem digitValue_digitChar : ∀ d < 16, digitValue d.digitChar = d := by decide

theorem isHexDigit_digitChar : ∀ d < 16, isHexDigit d.digitChar = true := by decide

theorem isDigit_digitChar : ∀ d < 10, isDigit d.digitChar = true := by decide

/-- **The digits of a number denote it.** -/
theorem parseInt_toDigits (hlow : 1 < base) (hhigh : base ≤ 16) (n : ℕ) : parseInt base (Nat.toDigits base n) = n := by
  induction n using Nat.strong_induction_on with
  | h n ih =>
    by_cases hlt : n < base
    · rw [Nat.toDigits_of_lt_base hlt]
      simp [parseInt, digitValue_digitChar n (by omega)]
    · have hmod : n % base < base := Nat.mod_lt n (by omega)
      rw [Nat.toDigits_of_base_le hlow (by omega), parseInt_append, ih (n / base) (Nat.div_lt_self (by omega) hlow),
        digitValue_digitChar _ (by omega), Nat.div_add_mod]

theorem mem_toDigits (hlow : 1 < base) {c : Char} (hc : c ∈ Nat.toDigits base n) : ∃ d < base, c = d.digitChar := by
  induction n using Nat.strong_induction_on with
  | h n ih =>
    by_cases hlt : n < base
    · rw [Nat.toDigits_of_lt_base hlt, List.mem_singleton] at hc
      exact ⟨n, hlt, hc⟩
    · rw [Nat.toDigits_of_base_le hlow (by omega), List.mem_append, List.mem_singleton] at hc
      rcases hc with hc | rfl
      · exact ih (n / base) (Nat.div_lt_self (by omega) hlow) hc
      · exact ⟨n % base, Nat.mod_lt n (by omega), rfl⟩

theorem toDigits_ne_nil (hlow : 1 < base) : Nat.toDigits base n ≠ [] := by
  rw [Nat.toDigits_eq_if hlow]
  split_ifs <;> simp

/-- Only zero is written with a zero first. -/
theorem toDigits_head (hlow : 1 < base) (hhigh : base ≤ 16) (h : (Nat.toDigits base n).head? = some '0') :
    Nat.toDigits base n = ['0'] := by
  induction n using Nat.strong_induction_on with
  | h n ih =>
    by_cases hlt : n < base
    · rw [Nat.toDigits_of_lt_base hlt] at h ⊢
      rw [Option.some.inj h]
    · rw [Nat.toDigits_of_base_le hlow (by omega), List.head?_append, List.head?_eq_some_head (toDigits_ne_nil hlow),
        Option.some_or, ← List.head?_eq_some_head] at h
      have hzero := ih (n / base) (Nat.div_lt_self (by omega) hlow) h
      have hvalue := parseInt_toDigits hlow hhigh (n / base)
      rw [hzero] at hvalue
      have hpos : 0 < n / base := Nat.div_pos (by omega) (by omega)
      have hread : parseInt base ['0'] = 0 := by simp [parseInt, digitValue, isDigit]
      omega

theorem partValue_toDigits (n : ℕ) : PartValue (Nat.toDigits 10 n) n := by
  have hdigits : ∀ c ∈ Nat.toDigits 10 n, isDigit c = true := by
    intro c hc
    obtain ⟨d, hd, rfl⟩ := mem_toDigits (by omega) hc
    exact isDigit_digitChar d hd
  have hvalue : parseInt 10 (Nat.toDigits 10 n) = n := parseInt_toDigits (by omega) (by omega) n
  rw [parseInt_eq_denoted] at hvalue
  have h := PartValue.decimal (toDigits_ne_nil (by omega)) hdigits (toDigits_head (by omega) (by omega))
  rwa [hvalue] at h

theorem isGroup_toDigits (hn : n < 65536) : IsGroup (Nat.toDigits 16 n) n := by
  have hvalue : parseInt 16 (Nat.toDigits 16 n) = n := parseInt_toDigits (by omega) (by omega) n
  rw [parseInt_eq_denoted] at hvalue
  refine ⟨?_, ?_, ?_, hvalue.symm⟩
  · exact List.length_pos_iff.mpr (toDigits_ne_nil (by omega))
  · exact (Nat.length_toDigits_le_iff (by omega) (by omega)).mpr hn
  · intro c hc
    obtain ⟨d, hd, rfl⟩ := mem_toDigits (by omega) hc
    exact isHexDigit_digitChar d hd

end

/-! ## Texts -/

section

variable {bytes : AddressBytes}

theorem groups_intercalate : ∀ words : List ℕ, words ≠ [] → (∀ word ∈ words, word < 65536) →
    Groups ([':'].intercalate (words.map (Nat.toDigits 16))) words
  | [], hne, _ => absurd rfl hne
  | [word], _, hwords => by
    rw [List.map_singleton, List.intercalate_singleton]
    exact .one (isGroup_toDigits (hwords word (by simp)))
  | word :: next :: words, _, hwords => by
    rw [List.map_cons, List.map_cons, List.intercalate_cons_cons, List.append_assoc]
    exact .cons (isGroup_toDigits (hwords word (by simp)))
      (groups_intercalate (next :: words) (by simp) fun w hw => hwords w (List.mem_cons_of_mem _ hw))

/-- The bytes of the words of an address are the address. -/
theorem bytesOfWords_wordsOf : ∀ {bytes : AddressBytes} (k : ℕ), bytes.length = 2 * k → AreBytes bytes →
    bytesOfWords (wordsOf bytes) = bytes ∧ (wordsOf bytes).length = k ∧ ∀ word ∈ wordsOf bytes, word < 65536
  | [], k, hlength, _ => by
    have hk : k = 0 := by
      simp only [List.length_nil] at hlength
      omega
    exact ⟨rfl, hk.symm, by simp [wordsOf]⟩
  | [_], k, hlength, _ => by
    simp only [List.length_singleton] at hlength
    omega
  | high :: low :: rest, k, hlength, hbytes => by
    simp only [List.length_cons] at hlength
    have hhigh := hbytes high (by simp)
    have hlow := hbytes low (by simp)
    obtain ⟨hround, hwords, hall⟩ := bytesOfWords_wordsOf (k - 1) (by omega) fun b hb =>
      hbytes b (List.mem_cons_of_mem _ (List.mem_cons_of_mem _ hb))
    refine ⟨?_, by rw [wordsOf, List.length_cons]; omega, ?_⟩
    · rw [bytesOfWords] at hround
      rw [wordsOf, bytesOfWords, List.flatMap_cons, hround, (by omega : (high * 256 + low) / 256 = high),
        (by omega : (high * 256 + low) % 256 = low)]
      rfl
    · intro word hword
      rw [wordsOf, List.mem_cons] at hword
      rcases hword with rfl | hword
      · omega
      · exact hall word hword

/-- An address of either family has bytes, as many as the family says. -/
def ParsedAddress.WellFormed (a : ParsedAddress) : Prop :=
  AreBytes a.bytes ∧ a.bytes.length = match a.family with
    | .v4 => 4
    | .v6 => 16

theorem parse_format_v4 (hbytes : AreBytes bytes) (hlength : bytes.length = 4) :
    parseAddress (formatAddress ⟨.v4, bytes⟩) = some ⟨.v4, bytes⟩ := by
  match bytes, hlength with
  | [x, y, z, w], _ =>
    have hx := hbytes x (by simp)
    have hy := hbytes y (by simp)
    have hz := hbytes z (by simp)
    have hw := hbytes w (by simp)
    have htext : (formatAddress ⟨.v4, [x, y, z, w]⟩).toList = Nat.toDigits 10 x ++ '.' :: (Nat.toDigits 10 y ++ '.' ::
        (Nat.toDigits 10 z ++ '.' :: Nat.toDigits 10 w)) := by
      simp [formatAddress]
    have hspells := Spells.four (partValue_toDigits x) (partValue_toDigits y) (partValue_toDigits z) (partValue_toDigits w)
      hx hy hz hw
    have hcolon {n : ℕ} : ':' ∉ Nat.toDigits 10 n := by
      intro hc
      obtain ⟨d, hd, heq⟩ := mem_toDigits (by omega) hc
      exact absurd (heq ▸ isDigit_digitChar d hd) (by decide)
    have hnone : ¬(formatAddress ⟨.v4, [x, y, z, w]⟩).toList.contains ':' = true := by
      rw [List.contains_iff_mem, htext]
      simp [hcolon]
    have hall : bytesOf (x * 256 ^ 3 + y * 256 ^ 2 + z * 256 + w) 4 = [x, y, z, w] := by
      have hlast := bytesOf_cons 1 hz (by omega : w < 256 ^ 1)
      rw [Nat.pow_one] at hlast
      rw [Nat.add_assoc, Nat.add_assoc, bytesOf_cons _ hx (by omega), bytesOf_cons _ hy (by omega), hlast]
      simp [bytesOf, Nat.mod_eq_of_lt hw]
    rw [parseAddress, if_neg hnone, htext, hspells.parseIPv4, hall]
    rfl

theorem parse_format_v6 (hbytes : AreBytes bytes) (hlength : bytes.length = 16) :
    parseAddress (formatAddress ⟨.v6, bytes⟩) = some ⟨.v6, bytes⟩ := by
  obtain ⟨hround, hwords, hall⟩ := bytesOfWords_wordsOf 8 hlength hbytes
  have hne : wordsOf bytes ≠ [] := by
    intro hnil
    rw [hnil] at hwords
    cases hwords
  have htext : (formatAddress ⟨.v6, bytes⟩).toList = [':'].intercalate ((wordsOf bytes).map (Nat.toDigits 16)) := by
    simp only [formatAddress, String.toList_intercalate, List.map_map, Function.comp_def, String.toList_ofList]
    rfl
  have hgroups := groups_intercalate (wordsOf bytes) hne hall
  have hcolon : (formatAddress ⟨.v6, bytes⟩).toList.contains ':' = true := by
    rw [List.contains_iff_mem, htext]
    match wordsOf bytes, hwords with
    | first :: second :: rest, _ => simp
  have hparse := parseIPv6_iff.mpr ⟨wordsOf bytes, .inl (.full (.inl hgroups) hwords), hround.symm⟩
  rw [parseAddress, if_pos hcolon, htext, hparse]
  rfl

/-- **An address is read back from its text.** -/
theorem parseAddress_formatAddress {a : ParsedAddress} (h : a.WellFormed) : parseAddress (formatAddress a) = some a := by
  obtain ⟨family, bytes⟩ := a
  cases family with
  | v4 => exact parse_format_v4 h.1 h.2
  | v6 => exact parse_format_v6 h.1 h.2

end

end SlugBase.Egress
