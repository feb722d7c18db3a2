import SlugBase.Client.Groups
import SlugBase.Lib.JsString

/-!
# The key of a client

The key that a client is counted under, and the address it is taken from behind trusted proxies.

* `canonical_octet`: a decimal number has one text;
* `key_ipv4`, `key_ipv6`: the key of an address, from what it denotes;
* **`rateLimitKeyOf_iff`**: two addresses have one key exactly when they are one client;
* `clientIpOf`: the entry of `X-Forwarded-For` that the first trusted proxy wrote; `forwardedFor`: what a proxy makes of the
  header;
* **`clientIpOf_forwarded`**: behind trusted proxies the address is the one that the first of them saw, whatever the client
  wrote;
* `networkPrefixOf`: the coarse network of an address; **`networkPrefixOf_iff`**: two addresses have one prefix exactly when
  they are in one network, as the addresses of one client are.
-/

namespace SlugBase.Client

open Egress

section

variable {text other : List Char} {words words' : List ℕ}

/-! ## Dotted quads -/

theorem digitChar_digitValue {c : Char} (h : isDigit c = true) : (digitValue c).digitChar = c := by
  obtain ⟨hlow, hhigh⟩ := Bool.and_eq_true_iff.mp h
  have hlow : 48 ≤ c.toNat := of_decide_eq_true hlow
  have hhigh : c.toNat ≤ 57 := of_decide_eq_true hhigh
  have hchar : Char.ofNat c.toNat = c := Char.ofNat_toNat c
  have hall : ∀ n ≤ 57, 48 ≤ n → (n - 48).digitChar = Char.ofNat n := by decide
  rw [digitValue, if_pos h, hall _ hhigh hlow, hchar]

/-- **A decimal number has one text** without a zero in front. -/
theorem toDigits_denoted (hne : text ≠ []) (hdigits : ∀ c ∈ text, isDigit c = true)
    (hzero : text.head? = some '0' → text = ['0']) : Nat.toDigits 10 (denoted 10 text) = text := by
  induction text using List.reverseRecOn with
  | nil => exact absurd rfl hne
  | append_singleton init c ih =>
    have hc : isDigit c = true := hdigits c (by simp)
    have hvalue := digitValue_le hc
    rw [← parseInt_eq_denoted, parseInt_append]
    cases init with
    | nil =>
      rw [parseInt, List.foldl_nil, Nat.mul_zero, Nat.zero_add, Nat.toDigits_of_lt_base (by omega), digitChar_digitValue hc]
      rfl
    | cons d rest =>
      have hd : d ≠ '0' := by
        rintro rfl
        have hone := hzero rfl
        simp at hone
      have hpos : 1 ≤ parseInt 10 (d :: rest) := by
        have hfirst := digitValue_pos (hdigits d (by simp)) hd
        have hpow : 1 ≤ 10 ^ rest.length := Nat.one_le_two_pow.trans (Nat.pow_le_pow_left (by omega) _)
        rw [parseInt_eq_denoted, denoted_cons]
        have hmul := Nat.mul_le_mul hpow hfirst
        omega
      have hrest := ih (by simp) (fun e he => hdigits e (List.mem_append_left _ he)) fun h => absurd (Option.some.inj h) hd
      rw [← parseInt_eq_denoted] at hrest
      rw [Nat.toDigits_of_base_le (by omega) (by omega), (by omega : (10 * parseInt 10 (d :: rest) + digitValue c) / 10 =
        parseInt 10 (d :: rest)), (by omega : (10 * parseInt 10 (d :: rest) + digitValue c) % 10 = digitValue c), hrest,
        digitChar_digitValue hc]

theorem canonical_octet {n : ℕ} (h : IsOctet text n) : text = Nat.toDigits 10 n := by
  rw [h.2.2.2.1, toDigits_denoted h.1 h.2.1 h.2.2.1]

theorem quad_eq_dotted (h : IsQuad text words) : text = dotted (bytesOfWords words) := by
  obtain ⟨a, b, c, d, x, y, z, w, ha, hb, hc, hd, rfl, rfl⟩ := h
  have hy := hb.2.2.2.2
  have hw := hd.2.2.2.2
  have hbytes : bytesOfWords [x * 256 + y, z * 256 + w] = [x, y, z, w] := by
    simp only [bytesOfWords, List.flatMap_cons, List.flatMap_nil, List.cons_append, List.nil_append, List.append_nil]
    rw [(by omega : (x * 256 + y) / 256 = x), (by omega : (x * 256 + y) % 256 = y), (by omega : (z * 256 + w) / 256 = z),
      (by omega : (z * 256 + w) % 256 = w)]
  rw [hbytes, dotted, canonical_octet ha, canonical_octet hb, canonical_octet hc, canonical_octet hd]
  simp

theorem quad_words_lt (h : IsQuad text words) : words.length = 2 ∧ ∀ word ∈ words, word < 65536 := by
  obtain ⟨high, low, rfl, hhigh, hlow⟩ := IsQuad.words_lt h
  exact ⟨rfl, by simp [hhigh, hlow]⟩

/-! ## Words of an address -/

theorem digitValue_lt {c : Char} (h : isHexDigit c = true) : digitValue c < 16 := by
  have hall : ∀ n < 128, isHexDigit (Char.ofNat n) = true → digitValue (Char.ofNat n) < 16 := by decide
  have hsmall : c.toNat < 128 := by
    simp only [isHexDigit, isDigit, Bool.or_eq_true, Bool.and_eq_true, decide_eq_true_eq] at h
    rcases h with (⟨-, h⟩ | ⟨-, h⟩) | ⟨-, h⟩
    · have hle : c.toNat ≤ 57 := h
      omega
    · have hle : c.toNat ≤ 102 := h
      omega
    · have hle : c.toNat ≤ 70 := h
      omega
  have hchar : Char.ofNat c.toNat = c := Char.ofNat_toNat c
  have hlt := hall c.toNat hsmall
  rw [hchar] at hlt
  exact hlt h

theorem isGroup_lt {n : ℕ} (h : IsGroup text n) : n < 65536 := by
  obtain ⟨-, hlength, hdigits, rfl⟩ := h
  have hlt : Nat.ofDigits 16 (text.reverse.map digitValue) < 16 ^ (text.reverse.map digitValue).length := by
    refine Nat.ofDigits_lt_base_pow_length (by omega) fun v hv => ?_
    obtain ⟨c, hc, rfl⟩ := List.mem_map.mp hv
    exact digitValue_lt (hdigits c (List.mem_reverse.mp hc))
  rw [List.length_map, List.length_reverse] at hlt
  exact lt_of_lt_of_le hlt (Nat.pow_le_pow_right (by omega) hlength)

theorem groups_lt (h : Groups text words) : ∀ word ∈ words, word < 65536 := by
  induction h with
  | one hgroup => simpa using isGroup_lt hgroup
  | cons hgroup _ ih => simpa using ⟨isGroup_lt hgroup, ih⟩

theorem quadGroups_lt (h : QuadGroups text words) : ∀ word ∈ words, word < 65536 := by
  induction h with
  | quad hquad => exact (quad_words_lt hquad).2
  | cons hgroup _ ih => simpa using ⟨isGroup_lt hgroup, ih⟩

theorem beforeGap_lt (h : BeforeGap text words) : ∀ word ∈ words, word < 65536 := by
  rcases h with ⟨-, rfl⟩ | hgroups
  · simp
  · exact groups_lt hgroups

theorem afterGap_lt (h : AfterGap text words) : ∀ word ∈ words, word < 65536 :=
  (afterGap_iff.mp h).elim beforeGap_lt quadGroups_lt

theorem ipv6Text_words (h : Ipv6Text text words) : words.length = 8 ∧ ∀ word ∈ words, word < 65536 := by
  cases h with
  | full htail hlength => exact ⟨hlength, htail.elim groups_lt quadGroups_lt⟩
  | gap hhead htail hlength =>
    refine ⟨length_filled hlength, fun word hword => ?_⟩
    rw [filled, List.mem_append, List.mem_append] at hword
    rcases hword with (hword | hword) | hword
    · exact beforeGap_lt hhead word hword
    · rw [(List.mem_replicate.mp hword).2]
      decide
    · exact afterGap_lt htail word hword

theorem colon_mem (h : Ipv6Text text words) : ':' ∈ text := by
  cases h with
  | full htail hlength =>
    rcases htail with hgroups | hquads
    · cases hgroups with
      | one _ => simp at hlength
      | cons _ _ => simp
    · cases hquads with
      | quad hquad => rw [(quad_words_lt hquad).1] at hlength; simp at hlength
      | cons _ _ => simp
  | gap _ _ _ => simp

theorem denotes_ipv6 (h : Denotes text (.ipv6 words)) :
    Ipv6Text (withoutZone text) words ∧ ':' ∈ text ∧ isIP text = 6 := by
  have hcolon : Ipv6Text (withoutZone text) words ∧ ':' ∈ text := by
    cases h with
    | ipv6 hform =>
      rw [(withoutZone_of_not_mem (plain_of_ipv6Text hform).no_zone).1]
      exact ⟨hform, colon_mem hform⟩
    | zoned hform _ _ =>
      rw [(withoutZone_append (plain_of_ipv6Text hform).no_zone _).1]
      exact ⟨hform, List.mem_append_left _ (colon_mem hform)⟩
  refine ⟨hcolon.1, hcolon.2, ?_⟩
  have hquad : ¬(dottedQuad text).isSome = true := by
    intro hsome
    obtain ⟨words', hwords⟩ := dottedQuad_isSome_iff.mp hsome
    exact hwords.part.2.1 hcolon.2
  rw [isIP, if_neg hquad, if_pos (isIPv6_iff.mpr ⟨words, h⟩)]

/-! ## Keys -/

/-- The key of an address, from what it denotes. -/
def Address.key (a : Address) : List Char :=
  match a.asIpv4 with
  | some words => dotted (bytesOfWords words)
  | none => [':'].intercalate (a.subnet.map (Nat.toDigits 16)) ++ "::/64".toList

theorem isMapped_iff (hlength : words.length = 8) : isMapped words = true ↔ words.take 6 = [0, 0, 0, 0, 0, 0xffff] := by
  match words, hlength with
  | [a, b, c, d, e, f, g, h], _ => simp [isMapped, IPV4_MAPPED_GROUP, and_assoc]

theorem dotted_words (hlength : words.length = 8) :
    dotted [words.getD 6 0 >>> 8, words.getD 6 0 &&& 0xff, words.getD 7 0 >>> 8, words.getD 7 0 &&& 0xff] =
      dotted (bytesOfWords (words.drop 6)) := by
  have hlow : ∀ n : ℕ, n &&& 0xff = n % 256 := fun n => Nat.and_two_pow_sub_one_eq_mod n 8
  match words, hlength with
  | [a, b, c, d, e, f, g, h], _ => simp [bytesOfWords, hlow, Nat.shiftRight_eq_div_pow]

/-- **The key of a text is the key of the address that it denotes.** -/
theorem rateLimitKeyOf_eq {a : Address} (h : Denotes text a) : rateLimitKeyOf text = a.key := by
  cases a with
  | ipv4 words =>
    cases h with
    | ipv4 hquad =>
      rw [rateLimitKeyOf, if_pos, quad_eq_dotted hquad]
      · rfl
      · rw [isIP, if_pos (dottedQuad_isSome_iff.mpr ⟨words, hquad⟩)]
        decide
  | ipv6 words =>
    obtain ⟨hform, -, hsix⟩ := denotes_ipv6 h
    have hlength := (ipv6Text_words hform).1
    rw [rateLimitKeyOf, if_neg (not_not.mpr hsix), ipv6GroupsOf_eq hform]
    dsimp only
    by_cases hmapped : isMapped words = true
    · rw [if_pos hmapped, dotted_words hlength, Address.key, Address.asIpv4, if_pos ((isMapped_iff hlength).mp hmapped)]
    · rw [if_neg hmapped, Address.key, Address.asIpv4, if_neg (mt (isMapped_iff hlength).mpr hmapped)]
      rfl

/-- The words of an address of either family are of sixteen bits, as many as the family has. -/
theorem denotes_words {a : Address} (h : Denotes text a) :
    (∀ words, a.asIpv4 = some words → words.length = 2 ∧ ∀ word ∈ words, word < 65536) ∧
      (a.asIpv4 = none → a.subnet.length = 4 ∧ ∀ word ∈ a.subnet, word < 65536) := by
  cases a with
  | ipv4 words =>
    cases h with
    | ipv4 hquad =>
      refine ⟨fun words' hwords => ?_, fun hnone => (by cases hnone)⟩
      obtain rfl := Option.some.inj hwords
      exact quad_words_lt hquad
  | ipv6 words =>
    obtain ⟨hlength, hlt⟩ := ipv6Text_words (denotes_ipv6 h).1
    constructor
    · intro words' hwords
      rw [Address.asIpv4, Option.ite_none_right_eq_some] at hwords
      obtain rfl := Option.some.inj hwords.2
      exact ⟨by rw [List.length_drop, hlength], fun word hword => hlt word (List.mem_of_mem_drop hword)⟩
    · intro _
      exact ⟨by rw [Address.subnet, List.length_take, hlength]; rfl, fun word hword => hlt word (List.mem_of_mem_take hword)⟩

theorem wordsOf_bytesOfWords (words : List ℕ) : wordsOf (bytesOfWords words) = words := by
  induction words with
  | nil => rfl
  | cons word words ih =>
    have hcons : bytesOfWords (word :: words) = word / 256 :: word % 256 :: bytesOfWords words := rfl
    rw [hcons, wordsOf, ih, Nat.div_add_mod']

theorem bytesOfWords_wellFormed (hlength : words.length = 2) (hlt : ∀ word ∈ words, word < 65536) :
    (⟨.v4, bytesOfWords words⟩ : ParsedAddress).WellFormed := by
  match words, hlength with
  | [high, low], _ =>
    have hhigh := hlt high (by simp)
    have hlow := hlt low (by simp)
    refine ⟨fun b hb => ?_, rfl⟩
    simp only [bytesOfWords, List.flatMap_cons, List.flatMap_nil, List.append_nil, List.cons_append, List.nil_append,
      List.mem_cons, List.not_mem_nil, or_false] at hb
    omega

theorem parse_dotted (hlength : words.length = 2) (hlt : ∀ word ∈ words, word < 65536) :
    parseAddress (String.ofList (dotted (bytesOfWords words))) = some ⟨.v4, bytesOfWords words⟩ := by
  have htext : String.ofList (dotted (bytesOfWords words)) = formatAddress ⟨.v4, bytesOfWords words⟩ := by
    rw [← String.toList_inj, String.toList_ofList]
    simp [formatAddress, dotted, Function.comp_def]
  rw [htext]
  exact parseAddress_formatAddress (bytesOfWords_wellFormed hlength hlt)

theorem dotted_ne (hlength : words.length = 2) (hlt : ∀ word ∈ words, word < 65536) (first : List Char) :
    dotted (bytesOfWords words) ≠ first ++ "::/64".toList := by
  intro heq
  have hparse := parse_dotted hlength hlt
  have hcolon : (String.ofList (dotted (bytesOfWords words))).toList.contains ':' = true := by
    rw [heq, String.toList_ofList, List.contains_iff_mem, List.mem_append]
    exact .inr (by decide)
  rw [parseAddress, if_pos hcolon] at hparse
  obtain ⟨bytes, -, hfamily⟩ := Option.map_eq_some_iff.mp hparse
  cases hfamily

/-- **The keys of two addresses are one exactly when they are one client.** -/
theorem key_eq_iff {a b : Address} (ha : Denotes text a) (hb : Denotes other b) : a.key = b.key ↔ SameClient a b := by
  obtain ⟨ha4, ha6⟩ := denotes_words ha
  obtain ⟨hb4, hb6⟩ := denotes_words hb
  unfold Address.key SameClient
  cases hav : a.asIpv4 with
  | some av =>
    obtain ⟨halength, halt⟩ := ha4 av hav
    cases hbv : b.asIpv4 with
    | some bv =>
      obtain ⟨hblength, hblt⟩ := hb4 bv hbv
      constructor
      · intro heq
        have hdotted : dotted (bytesOfWords av) = dotted (bytesOfWords bv) := heq
        have haparse := parse_dotted halength halt
        rw [hdotted, parse_dotted hblength hblt] at haparse
        have hbytes : bytesOfWords bv = bytesOfWords av := congrArg ParsedAddress.bytes (Option.some.inj haparse)
        have hwords := congrArg wordsOf hbytes
        rw [wordsOf_bytesOfWords, wordsOf_bytesOfWords] at hwords
        exact .inl ⟨av, rfl, by rw [hwords]⟩
      · rintro (⟨words, hsome, hsome'⟩ | ⟨hnone, -⟩)
        · rw [Option.some.inj hsome, Option.some.inj hsome']
        · cases hnone
    | none =>
      refine ⟨fun heq => absurd heq (dotted_ne halength halt _), ?_⟩
      rintro (⟨words, -, hnone⟩ | ⟨hnone, -⟩) <;> cases hnone
  | none =>
    obtain ⟨halength, halt⟩ := ha6 hav
    cases hbv : b.asIpv4 with
    | some bv =>
      obtain ⟨hblength, hblt⟩ := hb4 bv hbv
      refine ⟨fun heq => absurd heq.symm (dotted_ne hblength hblt _), ?_⟩
      rintro (⟨words, hnone, -⟩ | ⟨-, hnone, -⟩) <;> cases hnone
    | none =>
      obtain ⟨hblength, hblt⟩ := hb6 hbv
      constructor
      · intro heq
        have hsame := List.append_cancel_right heq
        have hasome := mapM_groupValue (groups_intercalate a.subnet (List.ne_nil_of_length_eq_add_one halength) halt)
        have hbsome := mapM_groupValue (groups_intercalate b.subnet (List.ne_nil_of_length_eq_add_one hblength) hblt)
        rw [hsame, hbsome] at hasome
        exact .inr ⟨rfl, rfl, (Option.some.inj hasome).symm⟩
      · rintro (⟨words, hnone, -⟩ | ⟨-, -, hsubnet⟩)
        · cases hnone
        · rw [hsubnet]

end

/-- **The key of a client address.** What `isIP` takes denotes an address; two such texts have one key exactly when they
are one client; and the groups of a text are the words that it denotes, which the egress parser reads as well once the
zone is taken off. -/
theorem rateLimitKeyOf_iff :
    (∀ text, isIP text ≠ 0 ↔ ∃ a, Denotes text a) ∧
    (∀ text other a b, Denotes text a → Denotes other b →
      (rateLimitKeyOf text = rateLimitKeyOf other ↔ SameClient a b)) ∧
    (∀ text words, Denotes text (.ipv6 words) →
      ipv6GroupsOf text = some words ∧ parseIPv6 (withoutZone text) = some (bytesOfWords words)) := by
  refine ⟨fun text => isIP_ne_zero_iff, fun text other a b ha hb => ?_, fun text words h => ?_⟩
  · rw [rateLimitKeyOf_eq ha, rateLimitKeyOf_eq hb]
    exact key_eq_iff ha hb
  · obtain ⟨hform, -, -⟩ := denotes_ipv6 h
    exact ⟨ipv6GroupsOf_eq hform, parseIPv6_iff.mpr ⟨words, .inl hform, rfl⟩⟩

/-- **The egress parser refuses a zone**, which an address may have. -/
theorem parseIPv6_zone :
    ¬∀ text, isIP text = 6 → ∃ groups, ipv6GroupsOf text = some groups ∧ parseIPv6 text = some (bytesOfWords groups) := by
  intro h
  obtain ⟨groups, -, hparse⟩ := h "fe80::1%1".toList (by decide)
  have hnone : parseIPv6 "fe80::1%1".toList = none := by decide
  rw [hnone] at hparse
  cases hparse

open JavaScript

/-! ## The header -/

/-- What `trim` removes. -/
def isSpaceCharacter (c : Char) : Bool := decide (c.toNat < 0x10000) && isSpace (UInt16.ofNat c.toNat)

/-- `trim`. -/
def trimmed (text : List Char) : List Char := (text.dropWhile isSpaceCharacter).rdropWhile isSpaceCharacter

/-- The entry that `trustedHops` proxies from the right wrote. -/
def forwardedEntry (trustedHops : ℕ) (header : List Char) : Option (List Char) :=
  let entries := splitAt ',' header
  if entries.length < trustedHops then none else entries[entries.length - trustedHops]?.map trimmed

/-- `clientIpOf`. -/
def clientIpOf (socketAddress forwardedFor : Option (List Char)) (trustedHops : ℕ) : Option (List Char) :=
  match (if 0 < trustedHops then forwardedFor.bind (forwardedEntry trustedHops) else none) with
  | none => socketAddress
  | some entry => if isIP entry ≠ 0 then some entry else socketAddress

/-- A proxy adds the address it received the request from at the right end of the header. -/
def forwardedBy (header : Option (List Char)) (peer : List Char) : Option (List Char) :=
  match header with
  | none => some peer
  | some text => some (text ++ ',' :: ' ' :: peer)

theorem splitAt_append_splitAt (separator : Char) (text rest : List Char) :
    splitAt separator (text ++ separator :: rest) = splitAt separator text ++ splitAt separator rest := by
  induction text with
  | nil => simp [splitAt]
  | cons c text ih =>
    rw [List.cons_append, splitAt]
    by_cases hc : c = separator
    · rw [if_pos hc, ih, splitAt, if_pos hc, List.cons_append]
    · rw [if_neg hc, ih, splitAt, if_neg hc]
      cases hsplit : splitAt separator text with
      | nil => exact absurd hsplit (splitAt_ne_nil separator text)
      | cons part parts => rfl

/-- The characters of addresses. -/
def isAddressCharacter (c : Char) : Bool := isZoneCharacter c || c == '%'

theorem isAddressCharacter_visible {c : Char} (h : isAddressCharacter c = true) : c ≠ ',' ∧ isSpaceCharacter c = false := by
  have hrange : 33 ≤ c.toNat ∧ c.toNat < 127 ∧ c.toNat ≠ 44 := by
    simp only [isAddressCharacter, isZoneCharacter, isDigit, Bool.or_eq_true, Bool.and_eq_true, decide_eq_true_eq,
      beq_iff_eq, Char.le_def, UInt32.le_iff_toNat_le] at h
    rcases h with (((((h | h) | h) | rfl) | rfl) | rfl) | rfl
    · exact ⟨le_trans (by decide) h.1, lt_of_le_of_lt h.2 (by decide), (lt_of_lt_of_le (by decide) h.1).ne'⟩
    · exact ⟨le_trans (by decide) h.1, lt_of_le_of_lt h.2 (by decide), (lt_of_lt_of_le (by decide) h.1).ne'⟩
    · exact ⟨le_trans (by decide) h.1, lt_of_le_of_lt h.2 (by decide), (lt_of_lt_of_le (by decide) h.1).ne'⟩
    all_goals decide
  have hspace : ∀ n < 127, 33 ≤ n → isSpace (UInt16.ofNat n) = false := by decide
  refine ⟨fun heq => hrange.2.2 (heq ▸ rfl), ?_⟩
  rw [isSpaceCharacter, hspace _ hrange.2.1 hrange.1, Bool.and_false]

/-- An address has only these characters. -/
theorem isAddressCharacter_of_denotes {text : List Char} {a : Address} (h : Denotes text a) :
    ∀ c ∈ text, isAddressCharacter c = true := by
  have hplain {text : List Char} (hplain : Plain text) : ∀ c ∈ text, isAddressCharacter c = true := by
    intro c hc
    have hzone : isHexDigit c = true → isZoneCharacter c = true := by
      simp only [isHexDigit, isZoneCharacter, Bool.or_eq_true, Bool.and_eq_true, decide_eq_true_eq]
      rintro ((hdigit | hlower) | hupper)
      · simp [hdigit]
      · simp [hlower.1, Char.le_trans hlower.2 (by decide : 'f' ≤ 'z')]
      · simp [hupper.1, Char.le_trans hupper.2 (by decide : 'F' ≤ 'Z')]
    rcases hplain c hc with hdigit | rfl | rfl
    · rw [isAddressCharacter, hzone hdigit, Bool.true_or]
    · rfl
    · rfl
  cases h with
  | ipv4 hquad => exact hplain (plain_of_quad hquad)
  | ipv6 hform => exact hplain (plain_of_ipv6Text hform)
  | zoned hform hne hzone =>
    intro c hc
    rcases List.mem_append.mp hc with hc | hc
    · exact hplain (plain_of_ipv6Text hform) c hc
    · rcases List.mem_cons.mp hc with rfl | hc
      · rfl
      · rw [isAddressCharacter, hzone c hc, Bool.true_or]

theorem trimmed_of_not_space {text : List Char} (h : ∀ c ∈ text, isSpaceCharacter c = false) : trimmed text = text := by
  have hfirst : text.dropWhile isSpaceCharacter = text := by
    cases text with
    | nil => rfl
    | cons c rest => rw [List.dropWhile_cons_of_neg (by rw [h c List.mem_cons_self]; decide)]
  rw [trimmed, hfirst, List.rdropWhile_eq_self_iff]
  exact fun hne => by rw [h _ (List.getLast_mem hne)]; decide

theorem trimmed_space (text : List Char) : trimmed (' ' :: text) = trimmed text := by
  rw [trimmed, List.dropWhile_cons_of_pos (by decide), trimmed]

/-! ## Trusted proxies -/

theorem entries_forwarded (text : List Char) {peers : List (List Char)} (h : ∀ peer ∈ peers, ',' ∉ peer) :
    ∃ header, peers.foldl forwardedBy (some text) = some header ∧
      splitAt ',' header = splitAt ',' text ++ peers.map (' ' :: ·) := by
  induction peers generalizing text with
  | nil => exact ⟨text, rfl, (List.append_nil _).symm⟩
  | cons peer peers ih =>
    obtain ⟨header, hheader, hentries⟩ := ih (text ++ ',' :: ' ' :: peer) fun p hp => h p (List.mem_cons_of_mem _ hp)
    refine ⟨header, hheader, ?_⟩
    have hpart : ',' ∉ ' ' :: peer := by
      rw [List.mem_cons, not_or]
      exact ⟨by decide, h peer List.mem_cons_self⟩
    rw [hentries, splitAt_append_splitAt, splitAt_of_not_mem hpart, List.append_assoc]
    rfl

/-- **The address of a client behind trusted proxies**: that which the first of them saw, or without one that of the
connection, whatever the client wrote into the header. -/
theorem clientIpOf_forwarded (written socketAddress : Option (List Char)) {peers : List (List Char)}
    (h : ∀ peer ∈ peers, isIP peer ≠ 0) :
    clientIpOf socketAddress (peers.foldl forwardedBy written) peers.length = peers.head?.or socketAddress := by
  have hcharacters : ∀ peer ∈ peers, ∀ c ∈ peer, c ≠ ',' ∧ isSpaceCharacter c = false := by
    intro peer hpeer c hc
    obtain ⟨a, ha⟩ := isIP_ne_zero_iff.mp (h peer hpeer)
    exact isAddressCharacter_visible (isAddressCharacter_of_denotes ha c hc)
  cases peers with
  | nil => rfl
  | cons first peers =>
    have hcomma : ∀ peer ∈ first :: peers, ',' ∉ peer := fun peer hpeer hmem => (hcharacters peer hpeer ',' hmem).1 rfl
    have htrimmed : trimmed first = first :=
      trimmed_of_not_space fun c hc => (hcharacters first List.mem_cons_self c hc).2
    -- the entry of the first trusted proxy has all others that proxies wrote to its right
    have hentry : ∃ header, (first :: peers).foldl forwardedBy written = some header ∧
        forwardedEntry (peers.length + 1) header = some first := by
      cases written with
      | none =>
        obtain ⟨header, hheader, hentries⟩ := entries_forwarded first fun p hp => hcomma p (List.mem_cons_of_mem _ hp)
        refine ⟨header, hheader, ?_⟩
        rw [forwardedEntry, hentries, splitAt_of_not_mem (hcomma first List.mem_cons_self)]
        simp [htrimmed]
      | some text =>
        obtain ⟨header, hheader, hentries⟩ := entries_forwarded text hcomma
        have hlength : (splitAt ',' text ++ (first :: peers).map fun peer => ' ' :: peer).length =
            (splitAt ',' text).length + (peers.length + 1) := by
          rw [List.length_append, List.length_map, List.length_cons]
        have hat : (splitAt ',' text ++ (first :: peers).map fun peer => ' ' :: peer)[(splitAt ',' text).length]? =
            some (' ' :: first) := by
          rw [List.getElem?_append_right (Nat.le_refl _), Nat.sub_self]
          rfl
        refine ⟨header, hheader, ?_⟩
        rw [forwardedEntry, hentries]
        rw [hlength, if_neg (by omega), Nat.add_sub_cancel, hat, Option.map_some, trimmed_space, htrimmed]
    obtain ⟨header, hheader, hfirst⟩ := hentry
    rw [clientIpOf, if_pos (by simp), hheader, Option.bind_some, List.length_cons, hfirst]
    dsimp only
    rw [if_pos (h first List.mem_cons_self)]
    rfl

/-! ## Networks -/

/-- The first two octets of an address of the older family, as a network of 16 bits. -/
def ipv4Prefix (address : List Char) : List Char :=
  ['.'].intercalate ((splitAt '.' address).take 2) ++ ".0.0/16".toList

/-- `networkPrefixOf`. -/
def networkPrefixOf (address : Option (List Char)) : Option (List Char) :=
  address.bind fun address =>
    if isIP address = 4 then some (ipv4Prefix address)
    else if isIP address ≠ 6 then none
    else
      let mapped := rateLimitKeyOf address
      if isIP mapped = 4 then some (ipv4Prefix mapped)
      else (ipv6GroupsOf address).map fun groups =>
        [':'].intercalate ((groups.take 3).map (Nat.toDigits 16)) ++ "::/48".toList

/-- The prefix of an address, from what it denotes. -/
def Address.networkPrefix (a : Address) : List Char :=
  match a.asIpv4 with
  | some words => ['.'].intercalate (((bytesOfWords words).take 2).map (Nat.toDigits 10)) ++ ".0.0/16".toList
  | none => [':'].intercalate ((a.subnet.take 3).map (Nat.toDigits 16)) ++ "::/48".toList

/-- **Two addresses are in one network**: of the older family with the same first 16 bits, or of the newer one with the same
first 48. -/
def SameNetwork (a b : Address) : Prop :=
  (∃ words words', a.asIpv4 = some words ∧ b.asIpv4 = some words' ∧ words.take 1 = words'.take 1) ∨
    (a.asIpv4 = none ∧ b.asIpv4 = none ∧ a.subnet.take 3 = b.subnet.take 3)

section

variable {text other : List Char} {words : List ℕ}

theorem isOctet_toDigits {n : ℕ} (h : n ≤ 255) : IsOctet (Nat.toDigits 10 n) n := by
  have hdigit : ∀ d < 10, isDigit d.digitChar = true := by decide
  refine ⟨toDigits_ne_nil (by omega), fun c hc => ?_, toDigits_head (by omega) (by omega), ?_, h⟩
  · obtain ⟨d, hd, rfl⟩ := mem_toDigits (by omega) hc
    exact hdigit d hd
  · rw [← parseInt_eq_denoted, parseInt_toDigits (by omega) (by omega)]

theorem isQuad_dotted (hlength : words.length = 2) (hlt : ∀ word ∈ words, word < 65536) :
    IsQuad (dotted (bytesOfWords words)) words := by
  match words, hlength with
  | [high, low], _ =>
    have hhigh := hlt high (by simp)
    have hlow := hlt low (by simp)
    refine ⟨_, _, _, _, high / 256, high % 256, low / 256, low % 256, isOctet_toDigits (by omega),
      isOctet_toDigits (by omega), isOctet_toDigits (by omega), isOctet_toDigits (by omega), ?_, ?_⟩
    · simp [dotted, bytesOfWords]
    · rw [Nat.div_add_mod', Nat.div_add_mod']

theorem isIP_quad (h : IsQuad text words) : isIP text = 4 := by
  rw [isIP, if_pos (dottedQuad_isSome_iff.mpr ⟨words, h⟩)]

theorem ipv4Prefix_quad (h : IsQuad text words) :
    ipv4Prefix text = ['.'].intercalate (((bytesOfWords words).take 2).map (Nat.toDigits 10)) ++ ".0.0/16".toList := by
  obtain ⟨a, b, c, d, x, y, z, w, ha, hb, hc, hd, rfl, rfl⟩ := h
  have hy := hb.2.2.2.2
  have hsplit : splitAt '.' (a ++ '.' :: (b ++ '.' :: (c ++ '.' :: d))) = [a, b, c, d] := by
    rw [splitAt_append ha.part.2.2, splitAt_append hb.part.2.2, splitAt_append hc.part.2.2,
      splitAt_of_not_mem hd.part.2.2]
  have hbytes : (bytesOfWords [x * 256 + y, z * 256 + w]).take 2 = [x, y] := by
    simp only [bytesOfWords, List.flatMap_cons, List.cons_append, List.nil_append, List.take_succ_cons, List.take_zero]
    rw [(by omega : (x * 256 + y) / 256 = x), (by omega : (x * 256 + y) % 256 = y)]
  rw [ipv4Prefix, hsplit, hbytes, canonical_octet ha, canonical_octet hb]
  rfl

/-- **The prefix of a text is that of the address that it denotes.** -/
theorem networkPrefixOf_eq {a : Address} (h : Denotes text a) : networkPrefixOf (some text) = some a.networkPrefix := by
  rw [networkPrefixOf, Option.bind_some]
  cases a with
  | ipv4 words =>
    cases h with
    | ipv4 hquad => rw [if_pos (isIP_quad hquad), ipv4Prefix_quad hquad, Address.networkPrefix, Address.asIpv4]
  | ipv6 words =>
    obtain ⟨hform, -, hsix⟩ := denotes_ipv6 h
    obtain ⟨hfour, hrest⟩ := denotes_words h
    rw [if_neg (by rw [hsix]; decide), if_neg (not_not.mpr hsix)]
    dsimp only
    rw [rateLimitKeyOf_eq h, Address.key, Address.networkPrefix]
    cases hmapped : (Address.ipv6 words).asIpv4 with
    | some quad =>
      obtain ⟨hlength, hlt⟩ := hfour quad hmapped
      have hquad := isQuad_dotted hlength hlt
      dsimp only
      rw [if_pos (isIP_quad hquad), ipv4Prefix_quad hquad]
    | none =>
      dsimp only
      rw [if_neg, ipv6GroupsOf_eq hform, Option.map_some, Address.subnet, List.take_take]
      · rfl
      · -- the key of a subnet is no dotted quad
        intro hfour
        rw [isIP] at hfour
        split_ifs at hfour with hquad hother
        · obtain ⟨quad, hquad⟩ := dottedQuad_isSome_iff.mp hquad
          obtain ⟨hlength, hlt⟩ := quad_words_lt hquad
          exact dotted_ne hlength hlt _ (quad_eq_dotted hquad).symm
        · exact absurd hfour (by decide)

theorem splitAt_front {x y : ℕ} : (splitAt '.' (['.'].intercalate ([x, y].map (Nat.toDigits 10)))).map (parseInt 10) = [x, y] := by
  have hnone : ∀ d < 10, '.' ≠ d.digitChar := by decide
  have hdot (n : ℕ) : '.' ∉ Nat.toDigits 10 n := by
    intro hmem
    obtain ⟨d, hd, hc⟩ := mem_toDigits (by omega) hmem
    exact hnone d hd hc
  have htext : ['.'].intercalate ([x, y].map (Nat.toDigits 10)) = Nat.toDigits 10 x ++ '.' :: Nat.toDigits 10 y := by simp
  rw [htext, splitAt_append (hdot x), splitAt_of_not_mem (hdot y)]
  simp [parseInt_toDigits]

/-- **Two addresses have one prefix exactly when they are in one network.** -/
theorem networkPrefix_eq_iff {a b : Address} (ha : Denotes text a) (hb : Denotes other b) :
    a.networkPrefix = b.networkPrefix ↔ SameNetwork a b := by
  obtain ⟨ha4, ha6⟩ := denotes_words ha
  obtain ⟨hb4, hb6⟩ := denotes_words hb
  have hlast {l l' : List Char} : l ++ ".0.0/16".toList ≠ l' ++ "::/48".toList := by
    intro heq
    have hchar := congrArg List.getLast? heq
    rw [List.getLast?_append_of_ne_nil _ (by decide), List.getLast?_append_of_ne_nil _ (by decide)] at hchar
    exact absurd hchar (by decide)
  unfold Address.networkPrefix SameNetwork
  cases hav : a.asIpv4 with
  | some av =>
    obtain ⟨halength, -⟩ := ha4 av hav
    cases hbv : b.asIpv4 with
    | some bv =>
      obtain ⟨hblength, -⟩ := hb4 bv hbv
      match av, halength, bv, hblength with
      | [ahigh, alow], _, [bhigh, blow], _ =>
        have htwo (high low : ℕ) : (bytesOfWords [high, low]).take 2 = [high / 256, high % 256] := rfl
        simp only [htwo]
        constructor
        · intro heq
          have hparts := congrArg (fun text => (splitAt '.' text).map (parseInt 10)) (List.append_cancel_right heq)
          simp only [splitAt_front, List.cons.injEq, and_true] at hparts
          refine .inl ⟨_, _, rfl, rfl, ?_⟩
          rw [List.take_succ_cons, List.take_succ_cons, ← Nat.div_add_mod' ahigh 256, hparts.1, hparts.2, Nat.div_add_mod']
          rfl
        · rintro (⟨words, words', hsome, hsome', htake⟩ | ⟨hnone, -⟩)
          · obtain rfl := Option.some.inj hsome
            obtain rfl := Option.some.inj hsome'
            obtain rfl := (List.cons.inj htake).1
            rfl
          · cases hnone
    | none =>
      refine ⟨fun heq => absurd heq hlast, ?_⟩
      rintro (⟨words, words', -, hnone, -⟩ | ⟨hnone, -⟩) <;> cases hnone
  | none =>
    obtain ⟨halength, halt⟩ := ha6 hav
    cases hbv : b.asIpv4 with
    | some bv =>
      refine ⟨fun heq => absurd heq.symm hlast, ?_⟩
      rintro (⟨words, words', hnone, -⟩ | ⟨-, hnone, -⟩) <;> cases hnone
    | none =>
      obtain ⟨hblength, hblt⟩ := hb6 hbv
      have hgroups {l : List ℕ} (hlength : l.length = 4) (hlt : ∀ word ∈ l, word < 65536) :
          (splitAt ':' ([':'].intercalate ((l.take 3).map (Nat.toDigits 16)))).mapM groupValue = some (l.take 3) := by
        refine mapM_groupValue (groups_intercalate _ (List.ne_nil_of_length_pos ?_) fun word hword => ?_)
        · rw [List.length_take, hlength]
          decide
        · exact hlt word (List.mem_of_mem_take hword)
      constructor
      · intro heq
        have hasome := hgroups halength halt
        rw [List.append_cancel_right heq, hgroups hblength hblt] at hasome
        exact .inr ⟨rfl, rfl, (Option.some.inj hasome).symm⟩
      · rintro (⟨words, words', hnone, -⟩ | ⟨-, -, hsubnet⟩)
        · cases hnone
        · rw [hsubnet]

end

/-- **The coarse network of an address.** What is no address has none; two addresses have one prefix exactly when they are
in one network, and the addresses that are counted under one key are. -/
theorem networkPrefixOf_iff :
    (∀ text, isIP text = 0 → networkPrefixOf (some text) = none) ∧
    (∀ text other a b, Denotes text a → Denotes other b →
      (networkPrefixOf (some text) = networkPrefixOf (some other) ↔ SameNetwork a b) ∧
      (rateLimitKeyOf text = rateLimitKeyOf other → SameNetwork a b)) := by
  refine ⟨fun text h => ?_, fun text other a b ha hb => ⟨?_, fun hkey => ?_⟩⟩
  · rw [networkPrefixOf, Option.bind_some, if_neg (by rw [h]; decide), if_pos (by rw [h]; decide)]
  · rw [networkPrefixOf_eq ha, networkPrefixOf_eq hb, Option.some_inj]
    exact networkPrefix_eq_iff ha hb
  · rw [rateLimitKeyOf_eq ha, rateLimitKeyOf_eq hb, key_eq_iff ha hb] at hkey
    rcases hkey with ⟨words, hwords, hwords'⟩ | ⟨hnone, hnone', hsubnet⟩
    · exact .inl ⟨words, words, hwords, hwords', rfl⟩
    · exact .inr ⟨hnone, hnone', congrArg (List.take 3) hsubnet⟩

theorem clientIpOf_forwarded_two :
    clientIpOf (some "10.0.0.2".toList)
      (["198.51.100.7".toList, "10.0.0.1".toList].foldl forwardedBy (some "203.0.113.9, 203.0.113.9".toList)) 2 =
      some "198.51.100.7".toList :=
  @clientIpOf_forwarded (some "203.0.113.9, 203.0.113.9".toList) _ ["198.51.100.7".toList, "10.0.0.1".toList]
    (by decide)

end SlugBase.Client
