import SlugBase.Lib.JsString

/-!
# Percent decoding

`decodeURIComponent`, which throws on an escape that is not two hexadecimal digits and on octets that
are not UTF-8.

* `octetsOf`: the escapes of a text read, one octet each;
* `decodeOctets`: UTF-8 read back, the shortest form only and no surrogate;
* `decodeURIComponent`; **`decodeURIComponent_of_unescaped`**: a text without an escape is its own.
-/

namespace JavaScript

/-- A hexadecimal digit. -/
def hexDigit (u : UInt16) : Option ℕ :=
  if 0x30 ≤ u && u ≤ 0x39 then some (u.toNat - 0x30)
  else if 0x41 ≤ u && u ≤ 0x46 then some (u.toNat - 0x41 + 10)
  else if 0x61 ≤ u && u ≤ 0x66 then some (u.toNat - 0x61 + 10)
  else none

/-- A piece of an escaped text: a unit as it is, or the octet of an escape. -/
inductive UriPiece
  | unit (u : UInt16)
  | octet (b : ℕ)
  deriving DecidableEq, Repr

/-- The pieces of a text; none when a percent sign does not begin an escape. -/
def octetsOf : JsString → Option (List UriPiece)
  | [] => some []
  | 0x25 :: a :: b :: s =>
    match hexDigit a, hexDigit b, octetsOf s with
    | some x, some y, some ps => some (.octet (x * 16 + y) :: ps)
    | _, _, _ => none
  | u :: s => if u = 0x25 then none else (octetsOf s).map (.unit u :: ·)

/-- Whether an octet is between two bounds. -/
def isBetween (bounds : ℕ × ℕ) (b : ℕ) : Bool := bounds.1 ≤ b && b ≤ bounds.2

/-- `UTF8-tail`. -/
def isTail (b : ℕ) : Bool := isBetween (0x80, 0xBF) b

/-- The bounds of the second octet after the first octet of three or four. -/
def secondOctet (a : ℕ) : ℕ × ℕ :=
  if a = 0xE0 then (0xA0, 0xBF) else if a = 0xED then (0x80, 0x9F)
  else if a = 0xF0 then (0x90, 0xBF) else if a = 0xF4 then (0x80, 0x8F) else (0x80, 0xBF)

/-- The pieces read as UTF-8; none when the octets are not. -/
def decodeOctets : List UriPiece → Option JsString
  | [] => some []
  | .unit u :: ps => (decodeOctets ps).map (u :: ·)
  | .octet a :: ps =>
    if a < 0x80 then (decodeOctets ps).map (UInt16.ofNat a :: ·)
    else match ps with
      | .octet b :: ps₁ =>
        if 0xC2 ≤ a && a ≤ 0xDF && isTail b then
          (decodeOctets ps₁).map (encode (Char.ofNat ((a - 0xC0) * 0x40 + (b - 0x80))) ++ ·)
        else match ps₁ with
          | .octet c :: ps₂ =>
            if 0xE0 ≤ a && a ≤ 0xEF && isBetween (secondOctet a) b && isTail c then
              (decodeOctets ps₂).map
                (encode (Char.ofNat ((a - 0xE0) * 0x1000 + (b - 0x80) * 0x40 + (c - 0x80))) ++ ·)
            else match ps₂ with
              | .octet d :: ps₃ =>
                if 0xF0 ≤ a && a ≤ 0xF4 && isBetween (secondOctet a) b && isTail c && isTail d
                then (decodeOctets ps₃).map (encode (Char.ofNat
                  ((a - 0xF0) * 0x40000 + (b - 0x80) * 0x1000 + (c - 0x80) * 0x40 + (d - 0x80))) ++ ·)
                else none
              | _ => none
          | _ => none
      | _ => none

/-- `decodeURIComponent`; none where it throws. -/
def decodeURIComponent (s : JsString) : Option JsString := (octetsOf s).bind decodeOctets

theorem decodeURIComponent_of_unescaped {s : JsString} (h : 0x25 ∉ s) : decodeURIComponent s = some s := by
  have hpieces : octetsOf s = some (s.map .unit) := by
    induction s using octetsOf.induct with
    | case1 => rfl
    | case2 a b s => exact absurd List.mem_cons_self h
    | case3 a b s => exact absurd List.mem_cons_self h
    | case4 s hs => exact absurd List.mem_cons_self h
    | case5 u s hs hu ih =>
      rw [octetsOf]
      · simp [hu, ih fun hmem => h (List.mem_cons_of_mem _ hmem)]
      · exact hs
  rw [decodeURIComponent, hpieces, Option.bind_some]
  clear hpieces h
  induction s with
  | nil => rfl
  | cons u s ih => simp [decodeOctets, ih]

end JavaScript
