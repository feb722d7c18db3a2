import SlugBase.Lib.JsUri
import SlugBase.Lib.Stringify
import SlugBase.Lib.Utf8

/-!
# Percent-encoding

The percent-encoding of the URL Standard, on strings of UTF-16 units.

* `percentEncode`: the code points of a set, and what is not visible ASCII, as the codes of their UTF-8 bytes;
* **`percentEncode_idempotent`**: what is encoded is left as it is;
* **`length_percentEncode`**: how long it becomes;
* **`decodeOctets_utf8`**, **`decodeURIComponent_percentEncode`**: a well-formed string is read back;
* `encodeURIComponent`, `queryText`, `readQuery`: components and queries; **`readQuery_queryText`**: a query is read
  back.
-/

namespace UrlStandard

open JavaScript

/-- A digit of an upper-case hexadecimal number. -/
def upperHex (n : ℕ) : UInt16 := if n < 10 then UInt16.ofNat (0x30 + n) else UInt16.ofNat (0x37 + n)

/-- A byte, percent-encoded. -/
def percentEncoded (b : UInt8) : JsString := [0x25, upperHex (b.toNat / 16), upperHex (b.toNat % 16)]

/-- The fragment percent-encode set, beyond the controls and what is not ASCII. -/
def inFragmentSet (u : UInt16) : Bool := u == 0x20 || u == 0x22 || u == 0x3C || u == 0x3E || u == 0x60

/-- The special-query percent-encode set. -/
def inQuerySet (u : UInt16) : Bool := u == 0x20 || u == 0x22 || u == 0x23 || u == 0x3C || u == 0x3E || u == 0x27

/-- The path percent-encode set. -/
def inPathSet (u : UInt16) : Bool :=
  u == 0x20 || u == 0x22 || u == 0x23 || u == 0x3C || u == 0x3E || u == 0x3F || u == 0x5E || u == 0x60 ||
    u == 0x7B || u == 0x7D

/-- A unit that is written as it is. -/
def isPlain (inSet : UInt16 → Bool) (u : UInt16) : Bool := 0x20 ≤ u && u ≤ 0x7E && !inSet u

/-- Whether a code point is written as it is. -/
def isPlainPiece (inSet : UInt16 → Bool) : JsString → Bool
  | [u] => isPlain inSet u
  | _ => false

/-- A code point, percent-encoded where it has to be; a lone surrogate is replaced. -/
def encodePiece (inSet : UInt16 → Bool) (p : JsString) : JsString :=
  if isPlainPiece inSet p then p else (String.utf8EncodeChar (charOf p)).flatMap percentEncoded

/-- UTF-8 percent-encoding of a string with a set. -/
def percentEncode (inSet : UInt16 → Bool) (s : JsString) : JsString :=
  (codePoints s).flatMap (encodePiece inSet)

/-- The number of units a part takes: one for what is written as it is, three for each byte of the rest. -/
def encodedSize (inSet : UInt16 → Bool) (s : JsString) : ℕ :=
  ((codePoints s).map fun p => if isPlainPiece inSet p then 1 else 3 * (String.utf8EncodeChar (charOf p)).length).foldr (· + ·) 0

section

variable {inSet : UInt16 → Bool} {s t : JsString} {u : UInt16} {p : JsString}

/-! ## What is left as it is -/

/-- The units of a percent-encoded byte. -/
def codeUnits : JsString := js "%0123456789ABCDEF"

/-- A set that leaves the units of codes, the slashes and the dot as they are. -/
def Leaves (inSet : UInt16 → Bool) : Prop := (codeUnits ++ js "/\\.").all (isPlain inSet) = true

theorem leaves_path : Leaves inPathSet := by unfold Leaves; decide

theorem leaves_query : Leaves inQuerySet := by unfold Leaves; decide

theorem leaves_fragment : Leaves inFragmentSet := by unfold Leaves; decide

theorem Leaves.plain (h : Leaves inSet) (hu : u ∈ codeUnits ++ js "/\\.") : isPlain inSet u = true :=
  List.all_eq_true.mp h u hu

theorem isPlain_bounds (h : isPlain inSet u = true) : 0x20 ≤ u.toNat ∧ u.toNat ≤ 0x7E ∧ inSet u = false := by
  simp only [isPlain, Bool.and_eq_true, decide_eq_true_eq, Bool.not_eq_true', UInt16.le_iff_toNat_le] at h
  exact ⟨h.1.1, h.1.2, h.2⟩

theorem not_surrogate_of_lt (h : u.toNat < 0xD800) : isHighSurrogate u = false ∧ isLowSurrogate u = false := by
  constructor
  · rw [← Bool.not_eq_true]
    intro hhigh
    have hbounds := high_bounds hhigh
    omega
  · rw [← Bool.not_eq_true]
    intro hlow
    have hbounds := low_bounds hlow
    omega

theorem codePoints_of_units (h : ∀ u ∈ s, isHighSurrogate u = false) : codePoints s = s.map fun u => [u] := by
  induction s with
  | nil => rfl
  | cons u rest ih =>
    rw [codePoints_unit (h u List.mem_cons_self), ih fun v hv => h v (List.mem_cons_of_mem _ hv)]
    rfl

theorem percentEncode_plain (h : ∀ u ∈ s, isPlain inSet u = true) : percentEncode inSet s = s := by
  have hunits : ∀ u ∈ s, isHighSurrogate u = false := by
    intro u hu
    have hbounds := isPlain_bounds (h u hu)
    exact (not_surrogate_of_lt (by omega)).1
  rw [percentEncode, codePoints_of_units hunits, List.flatMap_map]
  have hpieces : ∀ u ∈ s, encodePiece inSet [u] = [u] := fun u hu => if_pos (h u hu)
  clear h hunits
  induction s with
  | nil => rfl
  | cons u rest ih =>
    rw [List.flatMap_cons, hpieces u List.mem_cons_self, ih fun v hv => hpieces v (List.mem_cons_of_mem _ hv)]
    rfl

theorem upperHex_mem {n : ℕ} (h : n < 16) : upperHex n ∈ codeUnits := by
  have hall : ∀ n < 16, codeUnits.contains (upperHex n) = true := by decide
  exact List.contains_iff_mem.mp (hall n h)

theorem mem_percentEncoded {b : UInt8} (h : u ∈ percentEncoded b) : u ∈ codeUnits := by
  have hb := b.toNat_lt
  simp only [percentEncoded, List.mem_cons, List.not_mem_nil, or_false] at h
  rcases h with rfl | rfl | rfl
  · exact List.contains_iff_mem.mp (by decide)
  · exact upperHex_mem (by omega)
  · exact upperHex_mem (by omega)

theorem mem_percentEncode (h : u ∈ percentEncode inSet s) : u ∈ codeUnits ∨ u ∈ s ∧ isPlain inSet u = true := by
  obtain ⟨p, hp, hu⟩ := List.mem_flatMap.mp h
  unfold encodePiece at hu
  by_cases hplain : isPlainPiece inSet p = true
  · rw [if_pos hplain] at hu
    have hs : u ∈ s := by
      rw [← codePoints_flatten s]
      exact List.mem_flatten.mpr ⟨p, hp, hu⟩
    unfold isPlainPiece at hplain
    split at hplain
    · obtain rfl := List.mem_singleton.mp hu
      exact .inr ⟨hs, hplain⟩
    · cases hplain
  · rw [if_neg hplain] at hu
    obtain ⟨b, -, hb⟩ := List.mem_flatMap.mp hu
    exact .inl (mem_percentEncoded hb)

theorem plain_of_mem_percentEncode (hset : Leaves inSet) (h : u ∈ percentEncode inSet s) :
    isPlain inSet u = true := by
  rcases mem_percentEncode h with hcode | ⟨-, hplain⟩
  · exact hset.plain (List.mem_append_left _ hcode)
  · exact hplain

theorem percentEncode_idempotent (hset : Leaves inSet) :
    percentEncode inSet (percentEncode inSet s) = percentEncode inSet s :=
  percentEncode_plain fun _ hu => plain_of_mem_percentEncode hset hu

/-! ## Codes -/

theorem utf8EncodeChar_high {c : Char} (h : 0x80 ≤ c.toNat) {b : UInt8} (hb : b ∈ String.utf8EncodeChar c) :
    0x80 ≤ b.toNat := by
  have hvalue : c.val.toNat = c.toNat := rfl
  unfold String.utf8EncodeChar at hb
  simp only [hvalue] at hb
  rw [if_neg (by omega)] at hb
  split_ifs at hb
  · simp only [List.mem_cons, List.not_mem_nil, or_false] at hb
    rcases hb with rfl | rfl <;> simp only [UInt8.toNat_ofNat'] <;> omega
  · simp only [List.mem_cons, List.not_mem_nil, or_false] at hb
    rcases hb with rfl | rfl | rfl <;> simp only [UInt8.toNat_ofNat'] <;> omega
  · simp only [List.mem_cons, List.not_mem_nil, or_false] at hb
    rcases hb with rfl | rfl | rfl | rfl <;> simp only [UInt8.toNat_ofNat'] <;> omega

/-- No byte of a code point that is encoded is a unit that is written as it is. -/
theorem byte_of_encoded (hp : IsPiece p) (hplain : isPlainPiece inSet p = false) {b : UInt8}
    (hb : b ∈ String.utf8EncodeChar (charOf p)) (hu : isPlain inSet u = true) : b.toNat ≠ u.toNat := by
  have hbounds := isPlain_bounds hu
  rcases hp with ⟨v, rfl⟩ | ⟨v, w, rfl, hhigh, hlow⟩
  · by_cases hascii : v.toNat < 0x80
    · obtain ⟨hhigh, hlow⟩ := not_surrogate_of_lt (u := v) (by omega)
      have hvalue : (Char.ofNat v.toNat).toNat = v.toNat := toNat_ofNat_char (by omega)
      have hval : (Char.ofNat v.toNat).val.toNat = v.toNat := hvalue
      simp only [charOf, hhigh, hlow, Bool.or_self, Bool.false_eq_true, if_false, String.utf8EncodeChar,
        hval] at hb
      rw [if_pos (by omega)] at hb
      obtain rfl := List.mem_singleton.mp hb
      intro heq
      rw [UInt8.toNat_ofNat_of_lt' (by have : UInt8.size = 256 := rfl; omega)] at heq
      obtain rfl := UInt16.toNat_inj.mp heq
      rw [isPlainPiece, hu] at hplain
      cases hplain
    · have hc : 0x80 ≤ (charOf [v]).toNat := by
        unfold charOf
        dsimp only
        by_cases hsurrogate : (isHighSurrogate v || isLowSurrogate v) = true
        · rw [if_pos hsurrogate]
          decide
        · rw [if_neg hsurrogate]
          rw [Bool.not_eq_true, Bool.or_eq_false_iff] at hsurrogate
          have hv := v.toNat_lt
          have hplainBounds := plain_bounds hsurrogate.1 hsurrogate.2
          rw [toNat_ofNat_char (by omega)]
          omega
      have hhigh := utf8EncodeChar_high hc hb
      omega
  · have hu' := high_bounds hhigh
    have hv' := low_bounds hlow
    have hc : 0x80 ≤ (charOf [v, w]).toNat := by
      have hvalue : (charOf [v, w]).toNat = 0x10000 + (v.toNat - 0xD800) * 0x400 + (w.toNat - 0xDC00) :=
        toNat_ofNat_char (by omega)
      omega
    have hbig := utf8EncodeChar_high hc hb
    omega

theorem utf8EncodeChar_ne_nil (c : Char) : String.utf8EncodeChar c ≠ [] := by
  unfold String.utf8EncodeChar
  simp only
  split_ifs <;> exact List.cons_ne_nil _ _

theorem code_facts {n : ℕ} (h : n < 256) : upperHex (n / 16) ≠ 0x25 ∧ upperHex (n % 16) ≠ 0x25 ∧
    (upperHex (n / 16) = 0x32 → upperHex (n % 16) = 0x45 → n = 0x2E) := by
  have hall : ∀ n < 256, decide (upperHex (n / 16) ≠ 0x25 ∧ upperHex (n % 16) ≠ 0x25 ∧
      (upperHex (n / 16) = 0x32 → upperHex (n % 16) = 0x45 → n = 0x2E)) = true := by decide +kernel
  exact of_decide_eq_true (hall n h)

theorem plain_piece (h : isPlainPiece inSet p = true) : ∃ u, p = [u] := by
  unfold isPlainPiece at h
  split at h
  · exact ⟨_, rfl⟩
  · cases h

theorem encodePiece_head (h : isPlainPiece inSet p = false) : ∃ rest, encodePiece inSet p = 0x25 :: rest := by
  rw [encodePiece, if_neg (by rw [h]; decide)]
  cases hbytes : String.utf8EncodeChar (charOf p) with
  | nil => exact absurd hbytes (utf8EncodeChar_ne_nil _)
  | cons b rest => exact ⟨_, rfl⟩

theorem percentEncode_nil : percentEncode inSet [] = [] := rfl

theorem percentEncode_eq_nil : percentEncode inSet s = [] ↔ s = [] := by
  constructor
  · intro h
    have hnone : codePoints s = [] := by
      cases hs : codePoints s with
      | nil => rfl
      | cons p rest =>
        rw [percentEncode, hs, List.flatMap_cons, List.append_eq_nil_iff] at h
        cases hplain : isPlainPiece inSet p with
        | false =>
          obtain ⟨t, ht⟩ := encodePiece_head hplain
          rw [ht] at h
          cases h.1
        | true =>
          obtain ⟨u, rfl⟩ := plain_piece hplain
          rw [encodePiece, if_pos hplain] at h
          cases h.1
    rw [← codePoints_flatten s, hnone]
    rfl
  · rintro rfl
    rfl

theorem length_percentEncode (inSet : UInt16 → Bool) (s : JsString) :
    (percentEncode inSet s).length = encodedSize inSet s := by
  have hbytes : ∀ bytes : List UInt8, (bytes.flatMap percentEncoded).length = 3 * bytes.length := by
    intro bytes
    induction bytes with
    | nil => rfl
    | cons b rest ih =>
      rw [List.flatMap_cons, List.length_append, ih, List.length_cons]
      show 3 + _ = _
      omega
  unfold percentEncode encodedSize
  induction codePoints s with
  | nil => rfl
  | cons p rest ih =>
    rw [List.flatMap_cons, List.length_append, ih, List.map_cons, List.foldr_cons]
    congr 1
    cases hplain : isPlainPiece inSet p with
    | true =>
      obtain ⟨u, rfl⟩ := plain_piece hplain
      rw [encodePiece, if_pos hplain, if_pos rfl]
      rfl
    | false => rw [encodePiece, if_neg (by rw [hplain]; decide), if_neg (by decide), hbytes]

/-! ## Reading back -/

theorem hexDigit_upperHex {n : ℕ} (h : n < 16) : hexDigit (upperHex n) = some n := by
  have hall : ∀ n < 16, hexDigit (upperHex n) = some n := by decide
  exact hall n h

theorem octetsOf_unit (hu : u ≠ 0x25) (s : JsString) : octetsOf (u :: s) = (octetsOf s).map (.unit u :: ·) := by
  rw [octetsOf.eq_def]
  split
  · contradiction
  · rename_i heq
    exact absurd (List.cons.inj heq).1 hu
  · rename_i heq
    obtain ⟨rfl, rfl⟩ := List.cons.inj heq
    rw [if_neg hu]

theorem octetsOf_percentEncoded (b : UInt8) (s : JsString) :
    octetsOf (percentEncoded b ++ s) = (octetsOf s).map (.octet b.toNat :: ·) := by
  have hb := b.toNat_lt
  have hhigh := hexDigit_upperHex (n := b.toNat / 16) (by omega)
  have hlow := hexDigit_upperHex (n := b.toNat % 16) (by omega)
  have hvalue : b.toNat / 16 * 16 + b.toNat % 16 = b.toNat := by omega
  show octetsOf (0x25 :: upperHex (b.toNat / 16) :: upperHex (b.toNat % 16) :: s) = _
  rw [octetsOf, hhigh, hlow]
  cases octetsOf s with
  | none => rfl
  | some ps => simp only [hvalue, Option.map_some]

theorem octetsOf_bytes (bytes : List UInt8) (s : JsString) : octetsOf (bytes.flatMap percentEncoded ++ s) =
    (octetsOf s).map (bytes.map (fun b => .octet b.toNat) ++ ·) := by
  induction bytes with
  | nil =>
    rw [List.flatMap_nil, List.nil_append, List.map_nil]
    exact (Option.map_id' (x := octetsOf s)).symm
  | cons b rest ih =>
    rw [List.flatMap_cons, List.append_assoc, octetsOf_percentEncoded, ih, Option.map_map]
    rfl

theorem decodeOctets_ascii {n : ℕ} (h : n < 0x80) (ps : List UriPiece) :
    decodeOctets (.octet n :: ps) = (decodeOctets ps).map (UInt16.ofNat n :: ·) := by
  rw [decodeOctets.eq_def]
  exact if_pos h

section

variable {a b c d : ℕ}

theorem decodeOctets_two (ps : List UriPiece) (ha : 0x80 ≤ a) (h : (0xC2 ≤ a && a ≤ 0xDF && isTail b) = true) :
    decodeOctets (.octet a :: .octet b :: ps) =
      (decodeOctets ps).map (encode (Char.ofNat ((a - 0xC0) * 0x40 + (b - 0x80))) ++ ·) := by
  rw [decodeOctets.eq_def]
  dsimp only
  rw [if_neg (by omega), if_pos h]

theorem decodeOctets_three (ps : List UriPiece) (ha : 0xE0 ≤ a)
    (h : (0xE0 ≤ a && a ≤ 0xEF && isBetween (secondOctet a) b && isTail c) = true) :
    decodeOctets (.octet a :: .octet b :: .octet c :: ps) = (decodeOctets ps).map
      (encode (Char.ofNat ((a - 0xE0) * 0x1000 + (b - 0x80) * 0x40 + (c - 0x80))) ++ ·) := by
  have htwo : ¬ (0xC2 ≤ a && a ≤ 0xDF && isTail b) = true := by
    simp only [Bool.and_eq_true, decide_eq_true_eq]
    omega
  rw [decodeOctets.eq_def]
  dsimp only
  rw [if_neg (by omega), if_neg htwo, if_pos h]

theorem decodeOctets_four (ps : List UriPiece) (ha : 0xF0 ≤ a)
    (h : (0xF0 ≤ a && a ≤ 0xF4 && isBetween (secondOctet a) b && isTail c && isTail d) = true) :
    decodeOctets (.octet a :: .octet b :: .octet c :: .octet d :: ps) = (decodeOctets ps).map (encode (Char.ofNat
      ((a - 0xF0) * 0x40000 + (b - 0x80) * 0x1000 + (c - 0x80) * 0x40 + (d - 0x80))) ++ ·) := by
  have htwo : ¬ (0xC2 ≤ a && a ≤ 0xDF && isTail b) = true := by
    simp only [Bool.and_eq_true, decide_eq_true_eq]
    omega
  have hthree : ¬ (0xE0 ≤ a && a ≤ 0xEF && isBetween (secondOctet a) b && isTail c) = true := by
    simp only [Bool.and_eq_true, decide_eq_true_eq]
    omega
  rw [decodeOctets.eq_def]
  dsimp only
  rw [if_neg (by omega), if_neg htwo, if_neg hthree, if_pos h]

end

/-- **The bytes of a code point are decoded to it.** -/
theorem decodeOctets_utf8 (c : Char) (ps : List UriPiece) :
    decodeOctets ((String.utf8EncodeChar c).map (fun b => UriPiece.octet b.toNat) ++ ps) =
      (decodeOctets ps).map (encode c ++ ·) := by
  have hvalid : c.toNat < 0xD800 ∨ 0xDFFF < c.toNat ∧ c.toNat < 0x110000 := c.valid
  have hvalue : c.val.toNat = c.toNat := rfl
  have hbyte : ∀ n < 256, (UInt8.ofNat n).toNat = n := fun n hn => UInt8.toNat_ofNat_of_lt' hn
  have hchar : Char.ofNat c.toNat = c := Char.ofNat_toNat c
  simp only [String.utf8EncodeChar, hvalue]
  by_cases h1 : c.toNat ≤ 0x7F
  · rw [if_pos h1, List.map_singleton, hbyte _ (by omega), List.singleton_append, decodeOctets_ascii (by omega)]
    rw [encode, if_pos (by omega)]
    rfl
  rw [if_neg h1]
  by_cases h2 : c.toNat ≤ 0x7FF
  · rw [if_pos h2]
    simp only [List.map_cons, List.map_nil, List.cons_append, List.nil_append]
    rw [hbyte _ (by omega), hbyte _ (by omega)]
    have hcond : (decide (0xC2 ≤ c.toNat / 64 % 0x20 + 0xC0) && decide (c.toNat / 64 % 0x20 + 0xC0 ≤ 0xDF) &&
        isTail (c.toNat % 0x40 + 0x80)) = true := by
      simp only [isTail, isBetween, Bool.and_eq_true, decide_eq_true_eq]
      omega
    have hback : (c.toNat / 64 % 0x20 + 0xC0 - 0xC0) * 0x40 + (c.toNat % 0x40 + 0x80 - 0x80) = c.toNat := by omega
    rw [decodeOctets_two ps (by omega) hcond, hback, hchar]
  rw [if_neg h2]
  by_cases h3 : c.toNat ≤ 0xFFFF
  · rw [if_pos h3]
    simp only [List.map_cons, List.map_nil, List.cons_append, List.nil_append]
    rw [hbyte _ (by omega), hbyte _ (by omega), hbyte _ (by omega)]
    have hcond : (decide (0xE0 ≤ c.toNat / 4096 % 0x10 + 0xE0) && decide (c.toNat / 4096 % 0x10 + 0xE0 ≤ 0xEF) &&
        isBetween (secondOctet (c.toNat / 4096 % 0x10 + 0xE0)) (c.toNat / 64 % 0x40 + 0x80) &&
        isTail (c.toNat % 0x40 + 0x80)) = true := by
      simp only [isTail, isBetween, secondOctet, Bool.and_eq_true, decide_eq_true_eq]
      split_ifs <;> simp only [decide_eq_true_eq] <;> omega
    have hback : (c.toNat / 4096 % 0x10 + 0xE0 - 0xE0) * 0x1000 + (c.toNat / 64 % 0x40 + 0x80 - 0x80) * 0x40 +
        (c.toNat % 0x40 + 0x80 - 0x80) = c.toNat := by omega
    rw [decodeOctets_three ps (by omega) hcond, hback, hchar]
  · rw [if_neg h3]
    simp only [List.map_cons, List.map_nil, List.cons_append, List.nil_append]
    rw [hbyte _ (by omega), hbyte _ (by omega), hbyte _ (by omega), hbyte _ (by omega)]
    have hcond : (decide (0xF0 ≤ c.toNat / 262144 % 0x08 + 0xF0) && decide (c.toNat / 262144 % 0x08 + 0xF0 ≤ 0xF4) &&
        isBetween (secondOctet (c.toNat / 262144 % 0x08 + 0xF0)) (c.toNat / 4096 % 0x40 + 0x80) &&
        isTail (c.toNat / 64 % 0x40 + 0x80) && isTail (c.toNat % 0x40 + 0x80)) = true := by
      simp only [isTail, isBetween, secondOctet, Bool.and_eq_true, decide_eq_true_eq]
      split_ifs <;> simp only [decide_eq_true_eq] <;> omega
    have hback : (c.toNat / 262144 % 0x08 + 0xF0 - 0xF0) * 0x40000 + (c.toNat / 4096 % 0x40 + 0x80 - 0x80) * 0x1000 +
        (c.toNat / 64 % 0x40 + 0x80 - 0x80) * 0x40 + (c.toNat % 0x40 + 0x80 - 0x80) = c.toNat := by omega
    rw [decodeOctets_four ps (by omega) hcond, hback, hchar]

/-- **A well-formed text is read back from its codes**, when the percent sign is a unit of the set. -/
theorem decodeURIComponent_percentEncode (hset : inSet 0x25 = true) (hs : WellFormed s) :
    decodeURIComponent (percentEncode inSet s) = some s := by
  have hpieces : ∃ ps, octetsOf (percentEncode inSet s) = some ps ∧ decodeOctets ps = some s := by
    -- one code point in front, `p`, of which the bytes or the unit itself are read
    have hpiece : ∀ {p t rest : JsString} {ps : List UriPiece}, encode (charOf p) = p →
        codePoints (p ++ t) = p :: codePoints t → octetsOf (percentEncode inSet t) = some ps → decodeOctets ps = some rest →
        ∃ ps', octetsOf (percentEncode inSet (p ++ t)) = some ps' ∧ decodeOctets ps' = some (p ++ rest) := by
      intro p t rest ps hp hpoints hread hdecoded
      rw [percentEncode, hpoints, List.flatMap_cons]
      cases hplain : isPlainPiece inSet p with
      | true =>
        obtain ⟨u, rfl⟩ := plain_piece hplain
        have hu : u ≠ 0x25 := by
          rintro rfl
          have hout := (isPlain_bounds hplain).2.2
          rw [hset] at hout
          cases hout
        refine ⟨.unit u :: ps, ?_, ?_⟩
        · rw [encodePiece, if_pos hplain, List.singleton_append, octetsOf_unit hu]
          show (octetsOf (percentEncode inSet t)).map _ = _
          rw [hread, Option.map_some]
        · rw [decodeOctets, hdecoded]
          rfl
      | false =>
        refine ⟨(String.utf8EncodeChar (charOf p)).map (fun b => .octet b.toNat) ++ ps, ?_, ?_⟩
        · rw [encodePiece, if_neg (by rw [hplain]; decide), octetsOf_bytes]
          show (octetsOf (percentEncode inSet t)).map _ = _
          rw [hread, Option.map_some]
        · rw [decodeOctets_utf8, hdecoded, Option.map_some, hp]
    induction hs with
    | nil => exact ⟨[], rfl, rfl⟩
    | @unit u s hhigh hlow _ ih =>
      obtain ⟨ps, hread, hdecoded⟩ := ih
      exact hpiece (encode_charOf_unit hhigh hlow) (codePoints_unit hhigh s) hread hdecoded
    | @pair u v s hhigh hlow _ ih =>
      obtain ⟨ps, hread, hdecoded⟩ := ih
      refine hpiece (p := [u, v]) (encode_charOf_pair hhigh hlow) ?_ hread hdecoded
      show codePoints (u :: v :: s) = _
      rw [codePoints, if_pos (by rw [hhigh, hlow]; rfl)]
  obtain ⟨ps, hread, hdecoded⟩ := hpieces
  rw [decodeURIComponent, hread, Option.bind_some, hdecoded]

theorem not_mem_percentEncode (hset : inSet u = true) (hcode : codeUnits.contains u = false) :
    u ∉ percentEncode inSet s := by
  intro h
  rcases mem_percentEncode h with hmem | ⟨-, hplain⟩
  · rw [List.contains_iff_mem.mpr hmem] at hcode
    cases hcode
  · rw [(isPlain_bounds hplain).2.2] at hset
    cases hset

/-- The bytes of an ASCII text are its units. -/
theorem utf8_of_ascii (h : ∀ u ∈ s, u.toNat < 0x80) : utf8 s = s.map fun u => UInt8.ofNat u.toNat := by
  have hunits : ∀ u ∈ s, isHighSurrogate u = false ∧ isLowSurrogate u = false := fun u hu =>
    not_surrogate_of_lt (by have := h u hu; omega)
  have hbytes : ∀ u ∈ s, String.utf8EncodeChar (charOf [u]) = [UInt8.ofNat u.toNat] := by
    intro u hu
    obtain ⟨hhigh, hlow⟩ := hunits u hu
    have hlt := h u hu
    have hvalue : (Char.ofNat u.toNat).val.toNat = u.toNat := toNat_ofNat_char (by omega)
    rw [charOf, hhigh, hlow, if_neg (by decide), String.utf8EncodeChar, hvalue, if_pos (by omega)]
  rw [utf8, codePoints_of_units fun u hu => (hunits u hu).1, List.map_map]
  show (List.utf8Encode _).data.toList = _
  rw [List.utf8Encode, List.toList_data_toByteArray, List.flatMap_map]
  clear h hunits
  induction s with
  | nil => rfl
  | cons u rest ih =>
    rw [List.flatMap_cons, ih fun v hv => hbytes v (List.mem_cons_of_mem _ hv)]
    exact congrArg (· ++ _) (hbytes u List.mem_cons_self)

/-! ## Components and queries -/

/-- A letter or a digit. -/
def isAlphanumeric (u : UInt16) : Bool := (0x30 ≤ u && u ≤ 0x39) || (0x41 ≤ u && u ≤ 0x5A) || (0x61 ≤ u && u ≤ 0x7A)

/-- What `encodeURIComponent` encodes: all but letters, digits and the unreserved marks. -/
def inComponentSet (u : UInt16) : Bool :=
  !(isAlphanumeric u || u == 0x2D || u == 0x5F || u == 0x2E || u == 0x21 || u == 0x7E || u == 0x2A || u == 0x27 ||
    u == 0x28 || u == 0x29)

/-- The `application/x-www-form-urlencoded` percent-encode set. -/
def inFormSet (u : UInt16) : Bool := !(isAlphanumeric u || u == 0x2A || u == 0x2D || u == 0x2E || u == 0x5F)

/-- Whether a string has no lone surrogate. -/
def isWellFormed (s : JsString) : Bool := (codePoints s).all fun p => match p with
  | [u] => !(isHighSurrogate u || isLowSurrogate u)
  | _ => true

/-- `encodeURIComponent`; none where it throws. -/
def encodeURIComponent (s : JsString) : Option JsString :=
  if isWellFormed s then some (percentEncode inComponentSet s) else none

/-- A name or a value of a query: percent-encoded, a space as a plus sign. -/
def formEncode (s : JsString) : JsString :=
  (codePoints s).flatMap fun p => if p = [0x20] then [0x2B] else encodePiece inFormSet p

/-- A list of pairs as a query, of which `code` writes the names and the values. -/
def queryText (code : JsString → JsString) : List (JsString × JsString) → JsString
  | [] => []
  | [p] => code p.1 ++ 0x3D :: code p.2
  | p :: q :: rest => code p.1 ++ 0x3D :: code p.2 ++ 0x26 :: queryText code (q :: rest)

/-- `replace(/\+/g, "%20")`. -/
def spacesAsCodes (s : JsString) : JsString := s.flatMap fun u => if u = 0x2B then [0x25, 0x32, 0x30] else [u]

/-- A text before and behind the first mark. -/
def cutAt (mark : UInt16) : JsString → Option (JsString × JsString)
  | [] => none
  | u :: s => if u = mark then some ([], s) else (cutAt mark s).map fun p => (u :: p.1, p.2)

/-- A pair of a query, decoded. -/
def readPair (s : JsString) : Option (JsString × JsString) :=
  (cutAt 0x3D s).bind fun p => (decodeURIComponent p.1).bind fun name =>
    (decodeURIComponent p.2).map fun value => (name, value)

/-- The pairs of a query. -/
def readQuery (s : JsString) : Option (List (JsString × JsString)) := (s.splitOn 0x26).mapM readPair

theorem isWellFormed_iff : isWellFormed s = true ↔ WellFormed s := by
  constructor
  · intro h
    unfold isWellFormed at h
    induction s using codePoints.induct with
    | case1 => exact .nil
    | case2 u =>
      rw [codePoints, List.all_cons, Bool.and_eq_true, Bool.not_eq_true', Bool.or_eq_false_iff] at h
      exact .unit h.1.1 h.1.2 .nil
    | case3 u v s hpair ih =>
      rw [codePoints, if_pos hpair, List.all_cons, Bool.and_eq_true] at h
      obtain ⟨hhigh, hlow⟩ := Bool.and_eq_true_iff.mp hpair
      exact .pair hhigh hlow (ih h.2)
    | case4 u v s hpair ih =>
      rw [codePoints, if_neg hpair, List.all_cons, Bool.and_eq_true, Bool.not_eq_true', Bool.or_eq_false_iff] at h
      exact .unit h.1.1 h.1.2 (ih h.2)
  · intro h
    unfold isWellFormed
    induction h with
    | nil => rfl
    | @unit u s hhigh hlow _ ih =>
      rw [codePoints_unit hhigh, List.all_cons, ih]
      show (!(isHighSurrogate u || isLowSurrogate u) && true) = true
      rw [hhigh, hlow]
      rfl
    | @pair u v s hhigh hlow _ ih =>
      rw [codePoints, if_pos (by rw [hhigh, hlow]; rfl), List.all_cons, ih]
      rfl

theorem encodeURIComponent_eq_some {t : JsString} :
    encodeURIComponent s = some t ↔ WellFormed s ∧ percentEncode inComponentSet s = t := by
  rw [encodeURIComponent]
  by_cases h : isWellFormed s = true
  · rw [if_pos h]
    exact ⟨fun heq => ⟨isWellFormed_iff.mp h, Option.some.inj heq⟩, fun heq => congrArg some heq.2⟩
  · rw [if_neg h]
    exact ⟨fun heq => absurd heq (Option.some_ne_none t).symm, fun heq => absurd (isWellFormed_iff.mpr heq.1) h⟩

theorem cutAt_append {mark : UInt16} (h : mark ∉ s) (t : JsString) : cutAt mark (s ++ mark :: t) = some (s, t) := by
  induction s with
  | nil => exact if_pos rfl
  | cons u rest ih =>
    have hu : u ≠ mark := fun heq => h (heq ▸ List.mem_cons_self)
    rw [List.cons_append, cutAt, if_neg hu, ih fun hmem => h (List.mem_cons_of_mem _ hmem)]
    rfl

theorem spacesAsCodes_append (s t : JsString) : spacesAsCodes (s ++ t) = spacesAsCodes s ++ spacesAsCodes t :=
  List.flatMap_append

theorem spacesAsCodes_cons (hu : u ≠ 0x2B) (s : JsString) : spacesAsCodes (u :: s) = u :: spacesAsCodes s := by
  rw [spacesAsCodes, List.flatMap_cons, if_neg hu]
  rfl

theorem spacesAsCodes_of_not_mem (h : 0x2B ∉ s) : spacesAsCodes s = s := by
  induction s with
  | nil => rfl
  | cons u rest ih =>
    rw [spacesAsCodes_cons (fun heq => h (heq ▸ List.mem_cons_self)), ih fun hmem => h (List.mem_cons_of_mem _ hmem)]

/-- With its spaces as codes, a name or a value is percent-encoded. -/
theorem spacesAsCodes_formEncode (s : JsString) : spacesAsCodes (formEncode s) = percentEncode inFormSet s := by
  have hpiece : ∀ p : JsString, spacesAsCodes (if p = [0x20] then [0x2B] else encodePiece inFormSet p) =
      encodePiece inFormSet p := by
    intro p
    by_cases hspace : p = [0x20]
    · rw [if_pos hspace, hspace]
      decide
    · rw [if_neg hspace]
      refine spacesAsCodes_of_not_mem fun hmem => ?_
      unfold encodePiece at hmem
      by_cases hplain : isPlainPiece inFormSet p = true
      · rw [if_pos hplain] at hmem
        obtain ⟨u, rfl⟩ := plain_piece hplain
        obtain rfl := List.mem_singleton.mp hmem
        revert hplain
        decide
      · rw [if_neg hplain] at hmem
        obtain ⟨b, -, hb⟩ := List.mem_flatMap.mp hmem
        have hcode := mem_percentEncoded hb
        revert hcode
        decide
  unfold formEncode percentEncode
  induction codePoints s with
  | nil => rfl
  | cons p rest ih => rw [List.flatMap_cons, spacesAsCodes_append, hpiece, ih, List.flatMap_cons]

theorem spacesAsCodes_queryText (pairs : List (JsString × JsString)) :
    spacesAsCodes (queryText formEncode pairs) = queryText (percentEncode inFormSet) pairs := by
  induction pairs using queryText.induct with
  | case1 => rfl
  | case2 p =>
    rw [queryText, queryText, spacesAsCodes_append, spacesAsCodes_cons (by decide), spacesAsCodes_formEncode,
      spacesAsCodes_formEncode]
  | case3 p q rest ih =>
    rw [queryText, queryText, spacesAsCodes_append, spacesAsCodes_append, spacesAsCodes_cons (by decide),
      spacesAsCodes_cons (by decide), spacesAsCodes_formEncode, spacesAsCodes_formEncode, ih]

/-- **A query of well-formed names and values is read back.** -/
theorem readQuery_queryText {pairs : List (JsString × JsString)} (hne : pairs ≠ [])
    (h : ∀ p ∈ pairs, WellFormed p.1 ∧ WellFormed p.2) :
    readQuery (queryText (percentEncode inFormSet) pairs) = some pairs := by
  have hpair : ∀ p ∈ pairs, readPair (percentEncode inFormSet p.1 ++ 0x3D :: percentEncode inFormSet p.2) = some p := by
    intro p hp
    rw [readPair, cutAt_append (not_mem_percentEncode (by decide) (by decide)), Option.bind_some,
      decodeURIComponent_percentEncode (by decide) (h p hp).1, Option.bind_some,
      decodeURIComponent_percentEncode (by decide) (h p hp).2]
    rfl
  have hmark : ∀ p : JsString × JsString, 0x26 ∉ percentEncode inFormSet p.1 ++ 0x3D :: percentEncode inFormSet p.2 := by
    intro p hmem
    rcases List.mem_append.mp hmem with hmem | hmem
    · exact not_mem_percentEncode (by decide) (by decide) hmem
    · rcases List.mem_cons.mp hmem with heq | hmem
      · revert heq
        decide
      · exact not_mem_percentEncode (by decide) (by decide) hmem
  clear h
  induction pairs using queryText.induct with
  | case1 => exact absurd rfl hne
  | case2 p =>
    rw [readQuery, queryText, List.splitOn_eq_singleton (hmark p), List.mapM_cons, hpair p List.mem_cons_self]
    rfl
  | case3 p q rest ih =>
    have htail := ih (List.cons_ne_nil _ _) fun r hr => hpair r (List.mem_cons_of_mem _ hr)
    rw [readQuery] at htail
    rw [readQuery, queryText, List.splitOn_append_cons_self_of_not_mem (hmark p), List.mapM_cons,
      hpair p List.mem_cons_self, htail]
    rfl

end

end UrlStandard
