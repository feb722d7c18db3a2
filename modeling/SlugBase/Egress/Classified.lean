import SlugBase.Egress.Format

/-!
# The verdict on an address

An address is classified by what it denotes, whatever notation it came in.

* `isPublicV4_eq`: the verdict is one of comparisons with shifts and masks;
* **`isPublic_mapped`**, **`isPublic_sixToFour`**: an address that holds one of the older family is what that one is;
* **`classification`**: texts, embedded addresses, allowances, ranges and notations together.
-/

namespace SlugBase.Egress

/-- `isPublicAddressText`: a text that is not an address is not public. -/
def isPublicAddressText (text : String) : Bool := (parseAddress text).any isPublicAddress

section

variable {bytes v4 rest : AddressBytes} {text : List Char} {n : ℕ}

/-! ## Ranges of the older family -/

/-- A range that `inCidr4` can be asked about. -/
def Range.WellFormed (range : Range) : Prop := AreBytes range.bytes ∧ range.bytes.length = 4 ∧ range.bits ≤ 32

instance (range : Range) : Decidable range.WellFormed :=
  inferInstanceAs (Decidable (AreBytes range.bytes ∧ range.bytes.length = 4 ∧ range.bits ≤ 32))

theorem nonPublic_wellFormed : ∀ range ∈ NON_PUBLIC_V4, range.WellFormed := by
  simp only [NON_PUBLIC_V4, List.forall_mem_cons]
  decide

theorem operatorPrivate_wellFormed : ∀ range ∈ OPERATOR_PRIVATE_V4, range.WellFormed := by
  simp only [OPERATOR_PRIVATE_V4, List.forall_mem_cons]
  decide

theorem any_startsWith {ranges : List Range} (h : AreBytes bytes) (hranges : ∀ range ∈ ranges, range.WellFormed) :
    (ranges.any fun range => startsWith bytes range) = ranges.any fun range => inCidr4 bytes range := by
  rw [Bool.eq_iff_iff, List.any_eq_true, List.any_eq_true]
  refine exists_congr fun range => and_congr_right fun hrange => ?_
  obtain ⟨hbytes, -, hbits⟩ := hranges range hrange
  rw [inCidr4_eq_startsWith h hbytes hbits]

/-- **The verdict on an address of the older family is one of comparisons with shifts and masks.** -/
theorem isPublicV4_eq (h : AreBytes bytes) :
    isPublicV4 bytes = !NON_PUBLIC_V4.any fun range => inCidr4 bytes range := by
  rw [isPublicV4, any_startsWith h nonPublic_wellFormed]

theorem isOperatorPrivateV4_eq (h : AreBytes bytes) :
    isOperatorPrivateAddress ⟨.v4, bytes⟩ = OPERATOR_PRIVATE_V4.any fun range => inCidr4 bytes range :=
  any_startsWith h operatorPrivate_wellFormed

/-! ## Addresses that hold one of the older family -/

theorem bitOf_append (first rest : AddressBytes) {index : ℕ} (hindex : index < 8 * first.length) :
    bitOf (first ++ rest) index = bitOf first index := by
  have hget : (first ++ rest)[index / 8]? = first[index / 8]? := List.getElem?_append_left (by omega)
  rw [bitOf, bitOf, List.getD_eq_getElem?_getD, hget, ← List.getD_eq_getElem?_getD]

theorem startsWith_append (first rest : AddressBytes) {bits : ℕ} (hbits : bits ≤ 8 * first.length) :
    startsWith (first ++ rest) ⟨first, bits⟩ = true := by
  rw [startsWith, List.all_eq_true]
  intro index hindex
  have hlt : index < bits := List.mem_range.mp hindex
  rw [beq_iff_eq]
  exact bitOf_append first rest (by omega)

/-- **A mapped address is what the address it holds is.** -/
theorem isPublic_mapped (v4 : AddressBytes) :
    isPublicAddress ⟨.v6, MAPPED.bytes ++ v4⟩ = isPublicAddress ⟨.v4, v4⟩ := by
  have hmapped : startsWith (MAPPED.bytes ++ v4) MAPPED = true := startsWith_append MAPPED.bytes v4 (by decide)
  change isPublicV6 (MAPPED.bytes ++ v4) = isPublicV4 v4
  rw [isPublicV6, if_pos hmapped]
  rfl

theorem isOperatorPrivate_mapped (v4 : AddressBytes) :
    isOperatorPrivateAddress ⟨.v6, MAPPED.bytes ++ v4⟩ = isOperatorPrivateAddress ⟨.v4, v4⟩ := by
  have hmapped : startsWith (MAPPED.bytes ++ v4) MAPPED = true := startsWith_append MAPPED.bytes v4 (by decide)
  simp only [isOperatorPrivateAddress]
  rw [if_pos hmapped]
  rfl

/-- The block of addresses that carry one of the older family behind its first bytes. -/
def SIX_TO_FOUR : AddressBytes := [0x20, 0x02]

/-- **A 6to4 address is what the address it holds is.** -/
theorem isPublic_sixToFour (hlength : v4.length = 4) (rest : AddressBytes) :
    isPublicAddress ⟨.v6, SIX_TO_FOUR ++ (v4 ++ rest)⟩ = isPublicAddress ⟨.v4, v4⟩ := by
  have hmapped : startsWith (SIX_TO_FOUR ++ (v4 ++ rest)) MAPPED = false := by
    rw [Bool.eq_false_iff]
    intro h
    have hbit := bit_of_startsWith h (by decide : 2 < 96)
    rw [bitOf_append _ _ (by decide)] at hbit
    exact absurd hbit (by decide)
  have hglobal : startsWith (SIX_TO_FOUR ++ (v4 ++ rest)) ⟨[0x20], 3⟩ = true :=
    startsWith_append [0x20] (0x02 :: (v4 ++ rest)) (by decide)
  have hblock : startsWith (SIX_TO_FOUR ++ (v4 ++ rest)) ⟨[0x20, 0x02], 16⟩ = true :=
    startsWith_append SIX_TO_FOUR (v4 ++ rest) (by decide)
  have hheld : ((SIX_TO_FOUR ++ (v4 ++ rest)).drop 2).take 4 = v4 := List.take_left' hlength
  change isPublicV6 (SIX_TO_FOUR ++ (v4 ++ rest)) = isPublicV4 v4
  simp only [isPublicV6, hmapped, hglobal, hblock, hheld, Bool.not_true, Bool.false_eq_true, if_false, if_true]

/-! ## Notations -/

theorem PartValue.colon (h : PartValue text n) : ':' ∉ text := by
  cases h with
  | hex hx hdigits =>
    rw [List.mem_cons, List.mem_cons, not_or, not_or]
    refine ⟨by decide, ?_, fun hmem => (isHexDigit_ne (hdigits _ hmem)).1 rfl⟩
    rcases hx with rfl | rfl <;> decide
  | octal _ hdigits =>
    rw [List.mem_cons, not_or]
    exact ⟨by decide, fun hmem => (isDigit_ne (isOctalDigit_isDigit (hdigits _ hmem))).1 rfl⟩
  | decimal _ hdigits _ => exact fun hmem => (isDigit_ne (hdigits _ hmem)).1 rfl

theorem Spells.colon (h : Spells text n) : ':' ∉ text := by
  cases h with
  | one ha => exact ha.colon
  | two ha hb => simp [ha.colon, hb.colon]
  | three ha hb hc => simp [ha.colon, hb.colon, hc.colon]
  | four ha hb hc hd => simp [ha.colon, hb.colon, hc.colon, hd.colon]

/-- **A text that spells a number is the address of it.** -/
theorem Spells.parseAddress {text : String} (h : Spells text.toList n) :
    Egress.parseAddress text = some ⟨.v4, bytesOf n 4⟩ := by
  have hcolon : ¬text.toList.contains ':' = true := by
    rw [List.contains_iff_mem]
    exact h.colon
  rw [Egress.parseAddress, if_neg hcolon, h.parseIPv4]
  rfl

end

/-! ## All together -/

/-- **Address classification.** An address is read back from its text; an address that holds one of the older family
has the verdict of that one; what the operator's list calls private is not public; the comparison with a range is
membership of an interval of numbers; and the notations of one number are read as one address, with one verdict. -/
theorem classification :
    (∀ a : ParsedAddress, a.WellFormed → parseAddress (formatAddress a) = some a) ∧
    (∀ v4 : AddressBytes, v4.length = 4 →
      isPublicAddress ⟨.v6, MAPPED.bytes ++ v4⟩ = isPublicAddress ⟨.v4, v4⟩ ∧
      isOperatorPrivateAddress ⟨.v6, MAPPED.bytes ++ v4⟩ = isOperatorPrivateAddress ⟨.v4, v4⟩) ∧
    (∀ v4 rest : AddressBytes, v4.length = 4 →
      isPublicAddress ⟨.v6, SIX_TO_FOUR ++ (v4 ++ rest)⟩ = isPublicAddress ⟨.v4, v4⟩) ∧
    (∀ a : ParsedAddress, isOperatorPrivateAddress a = true → isPublicAddress a = false) ∧
    (∀ (bytes : AddressBytes) (range : Range), AreBytes bytes → range.WellFormed →
      (inCidr4 bytes range = true ↔ InRange 32 range.bits (valueOf range.bytes 4) (valueOf bytes 4))) ∧
    (∀ bytes : AddressBytes, AreBytes bytes →
      isPublicAddress ⟨.v4, bytes⟩ = (!NON_PUBLIC_V4.any fun range => inCidr4 bytes range) ∧
      isOperatorPrivateAddress ⟨.v4, bytes⟩ = OPERATOR_PRIVATE_V4.any fun range => inCidr4 bytes range) ∧
    (∀ (bytes : AddressBytes) (range : Range), AreBytes bytes → AreBytes range.bytes → range.bits ≤ 128 →
      (startsWith bytes range = true ↔ InRange 128 range.bits (valueOf range.bytes 16) (valueOf bytes 16))) ∧
    (∀ (text : List Char) (bytes : AddressBytes),
      parseIPv4 text = some bytes ↔ ∃ n, Spells text n ∧ bytes = bytesOf n 4) ∧
    (∀ (text other : String) (n : ℕ), Spells text.toList n → Spells other.toList n →
      parseAddress text = some ⟨.v4, bytesOf n 4⟩ ∧ parseAddress other = parseAddress text ∧
        isPublicAddressText other = isPublicAddressText text) := by
  refine ⟨fun a h => parseAddress_formatAddress h, fun v4 _ => ⟨isPublic_mapped v4, isOperatorPrivate_mapped v4⟩,
    fun v4 rest hlength => isPublic_sixToFour hlength rest, fun a h => operatorPrivate_not_public h,
    fun bytes range hbytes hrange => inCidr4_iff hbytes hrange.1 hrange.2.2,
    fun bytes h => ⟨isPublicV4_eq h, isOperatorPrivateV4_eq h⟩,
    fun bytes range hbytes hrange hbits => startsWith_iff (n := 16) hbytes hrange hbits,
    fun text bytes => parseIPv4_iff, ?_⟩
  intro text other n htext hother
  have hsame : parseAddress other = parseAddress text := hother.parseAddress.trans htext.parseAddress.symm
  exact ⟨htext.parseAddress, hsame, by rw [isPublicAddressText, hsame, isPublicAddressText]⟩

theorem classification_metadata :
    parseAddress (formatAddress ⟨.v4, [169, 254, 169, 254]⟩) = some ⟨.v4, [169, 254, 169, 254]⟩ ∧
      isPublicAddress ⟨.v6, MAPPED.bytes ++ [169, 254, 169, 254]⟩ = false := by
  refine ⟨classification.1 _ ⟨by decide, rfl⟩, ?_⟩
  rw [(classification.2.1 [169, 254, 169, 254] rfl).1]
  decide +kernel

end SlugBase.Egress
