import Mathlib.Algebra.Group.Nat.Defs

/-!
# Addresses of the egress adapter

An address is parsed into its bytes and classified by them.

* `parseIPv4`, `parseIPv6`, `parseAddress`, `formatAddress`;
* `isPublicAddress`, `isOperatorPrivateAddress`: the ranges that may be connected to;
* **`operatorPrivate_not_public`**: what the operator's allowance lifts is not public.
-/

namespace SlugBase.Egress

/-! ## Texts -/

/-- The parts of a text between the occurrences of a character. -/
def splitAt (separator : Char) : List Char → List (List Char)
  | [] => [[]]
  | c :: rest =>
    if c = separator then [] :: splitAt separator rest
    else match splitAt separator rest with
      | [] => [[c]]
      | part :: parts => (c :: part) :: parts

/-- The parts of a text between the occurrences of two colons. -/
def splitDoubleColon : List Char → List (List Char)
  | ':' :: ':' :: rest => [] :: splitDoubleColon rest
  | [] => [[]]
  | c :: rest =>
    match splitDoubleColon rest with
    | [] => [[c]]
    | part :: parts => (c :: part) :: parts

def isDigit (c : Char) : Bool := decide ('0' ≤ c) && decide (c ≤ '9')

def isOctalDigit (c : Char) : Bool := decide ('0' ≤ c) && decide (c ≤ '7')

def isHexDigit (c : Char) : Bool :=
  isDigit c || decide ('a' ≤ c) && decide (c ≤ 'f') || decide ('A' ≤ c) && decide (c ≤ 'F')

/-- The value of a digit in any of the bases. -/
def digitValue (c : Char) : ℕ :=
  if isDigit c then c.toNat - 48 else if c.toNat < 97 then c.toNat - 55 else c.toNat - 87

/-- `Number.parseInt` of digits of a base. -/
def parseInt (base : ℕ) (digits : List Char) : ℕ := digits.foldl (fun n c => base * n + digitValue c) 0

/-! ## Parsing -/

abbrev AddressBytes := List ℕ

/-- The families of addresses. -/
inductive Family
  | v4
  | v6
deriving DecidableEq

structure ParsedAddress where
  family : Family
  bytes : AddressBytes
deriving DecidableEq

/-- The greatest safe integer. -/
def maxSafeInteger : ℕ := 9007199254740991

/-- `ipv4Part`: decimal, octal with a leading zero, or hexadecimal. -/
def ipv4Part (part : List Char) : Option ℕ :=
  let value : Option ℕ :=
    match part with
    | '0' :: 'x' :: digits => if digits.all isHexDigit then some (parseInt 16 digits) else none
    | '0' :: 'X' :: digits => if digits.all isHexDigit then some (parseInt 16 digits) else none
    | '0' :: d :: digits => if (d :: digits).all isOctalDigit then some (parseInt 8 (d :: digits)) else none
    | [] => none
    | digits => if digits.all isDigit then some (parseInt 10 digits) else none
  value.filter fun v => decide (v ≤ maxSafeInteger)

/-- The bytes of a number, the highest first. -/
def bytesOf (value : ℕ) : ℕ → AddressBytes
  | 0 => []
  | n + 1 => value / 256 ^ n % 256 :: bytesOf value n

/-- `parseIPv4`: one to four parts, the last of which fills the remaining bytes. -/
def parseIPv4 (text : List Char) : Option AddressBytes := do
  let parts := splitAt '.' text
  if parts.length < 1 ∨ 4 < parts.length then none
  else
    let values ← parts.mapM ipv4Part
    let last := values.getLast?.getD 0
    let bytes := values.dropLast
    let remaining := 4 - bytes.length
    if bytes.any (fun v => decide (255 < v)) then none
    else if 256 ^ remaining ≤ last then none
    else some (bytes ++ bytesOf last remaining)

/-- A part of a dotted quad: up to three digits without a leading zero. -/
def quadPart (part : List Char) : Option ℕ :=
  match part with
  | ['0'] => some 0
  | '0' :: _ => none
  | [] => none
  | digits => if digits.all isDigit ∧ digits.length ≤ 3 then some (parseInt 10 digits) else none

def dottedQuad (text : List Char) : Option AddressBytes := do
  let parts := splitAt '.' text
  if parts.length ≠ 4 then none
  else
    let bytes ← parts.mapM quadPart
    if bytes.all (fun b => decide (b ≤ 255)) then some bytes else none

/-- A group of up to four hexadecimal digits. -/
def hexGroup (part : List Char) : Option ℕ :=
  if 1 ≤ part.length ∧ part.length ≤ 4 ∧ part.all isHexDigit = true then some (parseInt 16 part) else none

/-- The groups of these parts; the last may be a dotted quad. -/
def groupsOf : List (List Char) → Option (List ℕ)
  | [] => some []
  | [part] =>
    if part.contains '.' then
      (dottedQuad part).map fun quad => [quad.getD 0 0 * 256 + quad.getD 1 0, quad.getD 2 0 * 256 + quad.getD 3 0]
    else (hexGroup part).map ([·])
  | part :: parts => do
    let group ← hexGroup part
    let rest ← groupsOf parts
    return group :: rest

def groups (text : List Char) : Option (List ℕ) :=
  if text = [] then some [] else groupsOf (splitAt ':' text)

def parseIPv6 (text : List Char) : Option AddressBytes := do
  let words ← match splitDoubleColon text with
    | [whole] => groups whole
    | [first, second] => do
      let head ← groups first
      let tail ← groups second
      if head.length + tail.length < 8 then some (head ++ List.replicate (8 - head.length - tail.length) 0 ++ tail) else none
    | _ => none
  if words.length ≠ 8 then none else some (words.flatMap fun word => [word / 256, word % 256])

/-- `parseAddress`. -/
def parseAddress (text : String) : Option ParsedAddress :=
  if text.toList.contains ':' then (parseIPv6 text.toList).map fun bytes => ⟨.v6, bytes⟩
  else (parseIPv4 text.toList).map fun bytes => ⟨.v4, bytes⟩

/-- The words of an address of the newer family. -/
def wordsOf : AddressBytes → List ℕ
  | high :: low :: rest => (high * 256 + low) :: wordsOf rest
  | _ => []

/-- `formatAddress`: the text that a socket takes. -/
def formatAddress (a : ParsedAddress) : String :=
  match a.family with
  | .v4 => ".".intercalate (a.bytes.map fun b => String.ofList (Nat.toDigits 10 b))
  | .v6 => ":".intercalate ((wordsOf a.bytes).map fun word => String.ofList (Nat.toDigits 16 word))

/-! ## Ranges -/

/-- A range: its first bytes and the bits of them that count. -/
structure Range where
  bytes : AddressBytes
  bits : ℕ

/-- A bit of a text of bytes. -/
def bitOf (bytes : AddressBytes) (index : ℕ) : Bool := (bytes.getD (index / 8) 0).testBit (7 - index % 8)

/-- Whether an address starts with the bits of a range. -/
def startsWith (bytes : AddressBytes) (range : Range) : Bool :=
  (List.range range.bits).all fun index => bitOf bytes index == bitOf range.bytes index

/-- The ranges of the older family that are not public. -/
def NON_PUBLIC_V4 : List Range :=
  [⟨[0, 0, 0, 0], 8⟩, ⟨[10, 0, 0, 0], 8⟩, ⟨[100, 64, 0, 0], 10⟩, ⟨[127, 0, 0, 0], 8⟩, ⟨[169, 254, 0, 0], 16⟩,
    ⟨[172, 16, 0, 0], 12⟩, ⟨[192, 0, 0, 0], 24⟩, ⟨[192, 0, 2, 0], 24⟩, ⟨[192, 88, 99, 0], 24⟩, ⟨[192, 168, 0, 0], 16⟩,
    ⟨[198, 18, 0, 0], 15⟩, ⟨[198, 51, 100, 0], 24⟩, ⟨[203, 0, 113, 0], 24⟩, ⟨[224, 0, 0, 0], 4⟩, ⟨[240, 0, 0, 0], 4⟩]

def isPublicV4 (bytes : AddressBytes) : Bool := !NON_PUBLIC_V4.any fun range => startsWith bytes range

/-- The block of addresses that hold one of the older family. -/
def MAPPED : Range := ⟨[0, 0, 0, 0, 0, 0, 0, 0, 0, 0, 0xff, 0xff], 96⟩

/-- The ranges inside the global unicast block that are still not public. -/
def NON_PUBLIC_V6 : List Range :=
  [⟨[0x20, 0x01, 0x00, 0x00], 32⟩, ⟨[0x20, 0x01, 0x00, 0x02, 0x00, 0x00], 48⟩, ⟨[0x20, 0x01, 0x0d, 0xb8], 32⟩,
    ⟨[0x20, 0x01, 0x00, 0x10], 28⟩, ⟨[0x3f, 0xff], 20⟩]

/-- Only the global unicast block is public; an address that holds one of the older family is what that one is. -/
def isPublicV6 (bytes : AddressBytes) : Bool :=
  if startsWith bytes MAPPED then isPublicV4 (bytes.drop 12)
  else if !startsWith bytes ⟨[0x20], 3⟩ then false
  else if startsWith bytes ⟨[0x20, 0x02], 16⟩ then isPublicV4 ((bytes.drop 2).take 4)
  else !NON_PUBLIC_V6.any fun range => startsWith bytes range

/-- Whether the server may connect to an address. -/
def isPublicAddress (a : ParsedAddress) : Bool :=
  match a.family with
  | .v4 => isPublicV4 a.bytes
  | .v6 => isPublicV6 a.bytes

/-- The ranges of the older family that an operator can allow. -/
def OPERATOR_PRIVATE_V4 : List Range :=
  [⟨[10, 0, 0, 0], 8⟩, ⟨[100, 64, 0, 0], 10⟩, ⟨[127, 0, 0, 0], 8⟩, ⟨[172, 16, 0, 0], 12⟩, ⟨[192, 168, 0, 0], 16⟩]

/-- Loopback, private, shared and unique-local addresses. -/
def isOperatorPrivateAddress (a : ParsedAddress) : Bool :=
  match a.family with
  | .v4 => OPERATOR_PRIVATE_V4.any fun range => startsWith a.bytes range
  | .v6 =>
    if startsWith a.bytes MAPPED then OPERATOR_PRIVATE_V4.any fun range => startsWith (a.bytes.drop 12) range
    else startsWith a.bytes ⟨[0, 0, 0, 0, 0, 0, 0, 0, 0, 0, 0, 0, 0, 0, 0, 1], 128⟩ || startsWith a.bytes ⟨[0xfc], 7⟩

example : (parseAddress "0x7f.1").map isPublicAddress = some false := by decide

example : (parseAddress "::ffff:169.254.169.254").map isOperatorPrivateAddress = some false := by decide

/-! ## What the allowance lifts -/

theorem not_public_of_operatorPrivate_v4 {bytes : AddressBytes}
    (h : (OPERATOR_PRIVATE_V4.any fun range => startsWith bytes range) = true) : isPublicV4 bytes = false := by
  obtain ⟨range, hrange, hstarts⟩ := List.any_eq_true.mp h
  have hsub : range ∈ NON_PUBLIC_V4 := by
    simp only [OPERATOR_PRIVATE_V4, List.mem_cons, List.not_mem_nil, or_false] at hrange
    rcases hrange with rfl | rfl | rfl | rfl | rfl <;> simp [NON_PUBLIC_V4]
  rw [isPublicV4, Bool.not_eq_false']
  exact List.any_eq_true.mpr ⟨range, hsub, hstarts⟩

theorem bit_of_startsWith {bytes : AddressBytes} {range : Range} (h : startsWith bytes range = true) {index : ℕ}
    (hindex : index < range.bits) : bitOf bytes index = bitOf range.bytes index :=
  beq_iff_eq.mp (List.all_eq_true.mp h index (List.mem_range.mpr hindex))

/-- **An address that the operator's allowance lifts is not public.** -/
theorem operatorPrivate_not_public {a : ParsedAddress} (h : isOperatorPrivateAddress a = true) :
    isPublicAddress a = false := by
  unfold isOperatorPrivateAddress at h
  unfold isPublicAddress
  cases hfamily : a.family with
  | v4 =>
    rw [hfamily] at h
    exact not_public_of_operatorPrivate_v4 h
  | v6 =>
    rw [hfamily] at h
    simp only at h ⊢
    unfold isPublicV6
    split at h
    · rename_i hmapped
      rw [if_pos hmapped]
      exact not_public_of_operatorPrivate_v4 h
    · rename_i hmapped
      rw [if_neg hmapped, if_pos]
      rw [Bool.not_eq_true', Bool.eq_false_iff]
      intro hglobal
      -- the third bit of the global unicast block is set in it and clear in the first private range; the first bits differ
      rcases Bool.or_eq_true_iff.mp h with hloop | hlocal
      · have h1 := bit_of_startsWith hglobal (by decide : 2 < 3)
        rw [bit_of_startsWith hloop (by decide : 2 < 128)] at h1
        exact absurd h1 (by decide)
      · have h1 := bit_of_startsWith hglobal (by decide : 0 < 3)
        rw [bit_of_startsWith hlocal (by decide : 0 < 7)] at h1
        exact absurd h1 (by decide)

end SlugBase.Egress
