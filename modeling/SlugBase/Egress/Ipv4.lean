import SlugBase.Egress.Ipv6

/-!
# IPv4 texts

The notations of an IPv4 address that the C library takes, and which texts `parseIPv4` takes.

* `PartValue`: a part in decimal, octal or hexadecimal; `Spells`: one to four parts and the number they spell;
* **`parseIPv4_iff`**: `parseIPv4` takes exactly these, and answers the bytes of the number.
-/

namespace SlugBase.Egress

/-! ## The notations -/

/-- What a part denotes: hexadecimal after `0x`, octal after a zero, else decimal. -/
inductive PartValue : List Char → ℕ → Prop
  | hex {x : Char} {digits : List Char} : x = 'x' ∨ x = 'X' → (∀ c ∈ digits, isHexDigit c = true) →
      PartValue ('0' :: x :: digits) (denoted 16 digits)
  | octal {digits : List Char} : digits ≠ [] → (∀ c ∈ digits, isOctalDigit c = true) →
      PartValue ('0' :: digits) (denoted 8 digits)
  | decimal {digits : List Char} : digits ≠ [] → (∀ c ∈ digits, isDigit c = true) →
      (digits.head? = some '0' → digits = ['0']) → PartValue digits (denoted 10 digits)

/-- **The notations of an address**: one to four parts, the last of which stands for all bytes that remain. -/
inductive Spells : List Char → ℕ → Prop
  | one {a : List Char} {x : ℕ} : PartValue a x → x < 256 ^ 4 → Spells a x
  | two {a b : List Char} {x y : ℕ} : PartValue a x → PartValue b y → x < 256 → y < 256 ^ 3 →
      Spells (a ++ '.' :: b) (x * 256 ^ 3 + y)
  | three {a b c : List Char} {x y z : ℕ} : PartValue a x → PartValue b y → PartValue c z → x < 256 → y < 256 →
      z < 256 ^ 2 → Spells (a ++ '.' :: (b ++ '.' :: c)) (x * 256 ^ 3 + y * 256 ^ 2 + z)
  | four {a b c d : List Char} {x y z w : ℕ} : PartValue a x → PartValue b y → PartValue c z → PartValue d w →
      x < 256 → y < 256 → z < 256 → w < 256 →
      Spells (a ++ '.' :: (b ++ '.' :: (c ++ '.' :: d))) (x * 256 ^ 3 + y * 256 ^ 2 + z * 256 + w)

/-! ## Parts -/

section

variable {text : List Char} {n : ℕ}

theorem isOctalDigit_isDigit {c : Char} (h : isOctalDigit c = true) : isDigit c = true := by
  obtain ⟨hlow, hhigh⟩ := Bool.and_eq_true_iff.mp h
  have hseven : c ≤ '7' := of_decide_eq_true hhigh
  have hle : c ≤ '9' := Char.le_trans hseven (by decide : '7' ≤ '9')
  rw [isDigit, hlow, decide_eq_true hle]
  rfl

theorem PartValue.part (h : PartValue text n) : '.' ∉ text := by
  cases h with
  | hex hx hdigits =>
    rw [List.mem_cons, List.mem_cons, not_or, not_or]
    refine ⟨by decide, ?_, fun hmem => (isHexDigit_ne (hdigits _ hmem)).2 rfl⟩
    rcases hx with rfl | rfl <;> decide
  | octal _ hdigits =>
    rw [List.mem_cons, not_or]
    exact ⟨by decide, fun hmem => (isDigit_ne (isOctalDigit_isDigit (hdigits _ hmem))).2 rfl⟩
  | decimal _ hdigits _ => exact fun hmem => (isDigit_ne (hdigits _ hmem)).2 rfl

/-- What a part stands for, before it is held against the greatest safe integer. -/
def partValueOf (part : List Char) : Option ℕ :=
  match part with
  | '0' :: 'x' :: digits => if digits.all isHexDigit then some (parseInt 16 digits) else none
  | '0' :: 'X' :: digits => if digits.all isHexDigit then some (parseInt 16 digits) else none
  | '0' :: d :: digits => if (d :: digits).all isOctalDigit then some (parseInt 8 (d :: digits)) else none
  | [] => none
  | digits => if digits.all isDigit then some (parseInt 10 digits) else none

theorem ipv4Part_eq (part : List Char) :
    ipv4Part part = (partValueOf part).filter fun v => decide (v ≤ maxSafeInteger) := rfl

theorem partValueOf_octal {d : Char} (hx : d ≠ 'x') (hX : d ≠ 'X') (digits : List Char) :
    partValueOf ('0' :: d :: digits) =
      if (d :: digits).all isOctalDigit then some (parseInt 8 (d :: digits)) else none := by
  unfold partValueOf
  split
  · rename_i h
    exact absurd (List.cons.inj (List.cons.inj h).2).1 hx
  · rename_i h
    exact absurd (List.cons.inj (List.cons.inj h).2).1 hX
  · rename_i h
    obtain ⟨rfl, rfl⟩ := List.cons.inj (List.cons.inj h).2
    rfl
  · rename_i h
    cases h
  · rename_i h _
    exact absurd rfl (h d digits)

theorem partValueOf_decimal {c : Char} (hc : c ≠ '0') (digits : List Char) :
    partValueOf (c :: digits) = if (c :: digits).all isDigit then some (parseInt 10 (c :: digits)) else none := by
  unfold partValueOf
  split
  · rename_i h
    exact absurd (List.cons.inj h).1 hc
  · rename_i h
    exact absurd (List.cons.inj h).1 hc
  · rename_i h
    exact absurd (List.cons.inj h).1 hc
  · rename_i h
    cases h
  · rfl

theorem readDigits_iff {base : ℕ} {isOf : Char → Bool} {digits : List Char} :
    (if digits.all isOf then some (parseInt base digits) else none) = some n ↔
      (∀ c ∈ digits, isOf c = true) ∧ n = denoted base digits := by
  rw [Option.ite_none_right_eq_some, parseInt_eq_denoted, List.all_eq_true, Option.some.injEq, @eq_comm _ n]

/-- **A part is read in the base its first characters name.** -/
theorem partValueOf_iff : partValueOf text = some n ↔ PartValue text n := by
  constructor
  · intro h
    cases text with
    | nil => cases h
    | cons c rest =>
      by_cases hc : c = '0'
      · subst hc
        cases rest with
        | nil =>
          obtain rfl : 0 = n := Option.some.inj h
          exact PartValue.decimal (by simp) (by simp; decide) (fun _ => rfl)
        | cons d digits =>
          by_cases hx : d = 'x' ∨ d = 'X'
          · have hread : (if digits.all isHexDigit then some (parseInt 16 digits) else none) = some n := by
              rcases hx with rfl | rfl <;> exact h
            obtain ⟨hdigits, rfl⟩ := readDigits_iff.mp hread
            exact PartValue.hex hx hdigits
          · rw [not_or] at hx
            rw [partValueOf_octal hx.1 hx.2] at h
            obtain ⟨hdigits, rfl⟩ := readDigits_iff.mp h
            exact PartValue.octal (by simp) hdigits
      · rw [partValueOf_decimal hc] at h
        obtain ⟨hdigits, rfl⟩ := readDigits_iff.mp h
        exact PartValue.decimal (by simp) hdigits (fun h0 => absurd (Option.some.inj h0) hc)
  · intro h
    cases h with
    | hex hx hdigits => rcases hx with rfl | rfl <;> exact readDigits_iff.mpr ⟨hdigits, rfl⟩
    | octal hne hdigits =>
      rename_i digits
      cases digits with
      | nil => exact absurd rfl hne
      | cons d rest =>
        have hoctal := hdigits d List.mem_cons_self
        have hx : d ≠ 'x' := by
          rintro rfl
          exact absurd hoctal (by decide)
        have hX : d ≠ 'X' := by
          rintro rfl
          exact absurd hoctal (by decide)
        rw [partValueOf_octal hx hX]
        exact readDigits_iff.mpr ⟨hdigits, rfl⟩
    | decimal hne hdigits hzero =>
      cases text with
      | nil => exact absurd rfl hne
      | cons c rest =>
        by_cases hc : c = '0'
        · rw [hzero (by rw [hc]; rfl)]
          rfl
        · rw [partValueOf_decimal hc]
          exact readDigits_iff.mpr ⟨hdigits, rfl⟩

theorem ipv4Part_iff : ipv4Part text = some n ↔ PartValue text n ∧ n ≤ maxSafeInteger := by
  rw [ipv4Part_eq, Option.filter_eq_some_iff, partValueOf_iff, decide_eq_true_iff]

end

/-! ## Addresses -/

/-- What `parseIPv4` makes of the values of the parts. -/
def bytesOfValues (values : List ℕ) : Option AddressBytes :=
  if values.dropLast.any (fun v => decide (255 < v)) then none
  else if 256 ^ (4 - values.dropLast.length) ≤ values.getLast?.getD 0 then none
  else some (values.dropLast ++ bytesOf (values.getLast?.getD 0) (4 - values.dropLast.length))

theorem parseIPv4_eq (text : List Char) :
    parseIPv4 text = if (splitAt '.' text).length < 1 ∨ 4 < (splitAt '.' text).length then none
      else ((splitAt '.' text).mapM ipv4Part).bind bytesOfValues := rfl

section

variable {text : List Char} {n x y z w : ℕ} {bytes : AddressBytes}

/-- The lower bytes do not depend on what is higher. -/
theorem bytesOf_mul_add (high low : ℕ) {width : ℕ} : ∀ count ≤ width,
    bytesOf (high * 256 ^ width + low) count = bytesOf low count := by
  intro count
  induction count with
  | zero => exact fun _ => rfl
  | succ count ih =>
    intro hle
    have hpow : 256 ^ width = 256 ^ count * (256 * 256 ^ (width - count - 1)) := by
      rw [← Nat.pow_succ', ← Nat.pow_add]
      congr 1
      omega
    have hdiv : (high * 256 ^ width + low) / 256 ^ count =
        low / 256 ^ count + 256 * (high * 256 ^ (width - count - 1)) := by
      rw [hpow, (by ring : high * (256 ^ count * (256 * 256 ^ (width - count - 1))) + low =
        low + 256 ^ count * (256 * (high * 256 ^ (width - count - 1)))), Nat.add_mul_div_left _ _ (by positivity)]
    rw [bytesOf, bytesOf, hdiv, Nat.add_mul_mod_self_left, ih (by omega)]

theorem bytesOf_cons {high low : ℕ} (count : ℕ) (hhigh : high < 256) (hlow : low < 256 ^ count) :
    bytesOf (high * 256 ^ count + low) (count + 1) = high :: bytesOf low count := by
  have hpos : 0 < 256 ^ count := by positivity
  rw [bytesOf, bytesOf_mul_add high low count (le_refl _), Nat.add_comm, Nat.add_mul_div_right _ _ hpos,
    Nat.div_eq_of_lt hlow, Nat.zero_add, Nat.mod_eq_of_lt hhigh]

theorem bytesOfValues_iff (first : List ℕ) (last : ℕ) : bytesOfValues (first ++ [last]) = some bytes ↔
    (∀ v ∈ first, v < 256) ∧ last < 256 ^ (4 - first.length) ∧ bytes = first ++ bytesOf last (4 - first.length) := by
  unfold bytesOfValues
  rw [List.dropLast_concat, List.getLast?_concat, Option.getD_some, Option.ite_none_left_eq_some,
    Option.ite_none_left_eq_some, Option.some.injEq, not_le, @eq_comm _ _ bytes]
  simp only [Bool.not_eq_true, List.any_eq_false, decide_eq_true_eq]
  constructor
  · rintro ⟨hfirst, hrest⟩
    exact ⟨fun v hv => by have := hfirst v hv; omega, hrest⟩
  · rintro ⟨hfirst, hrest⟩
    exact ⟨fun v hv => by have := hfirst v hv; omega, hrest⟩

theorem parseIPv4_values (first : List (List Char)) {last : List Char} {values : List ℕ} {value : ℕ}
    (hsplit : splitAt '.' text = first ++ [last]) (hfirst : first.mapM ipv4Part = some values)
    (hlast : ipv4Part last = some value) (hlength : first.length < 4) :
    parseIPv4 text = bytesOfValues (values ++ [value]) := by
  have hboth : (first ++ [last]).mapM ipv4Part = some (values ++ [value]) := by
    rw [List.mapM_append, hfirst]
    simp [hlast]
  rw [parseIPv4_eq, hsplit, if_neg, hboth, Option.bind_some]
  rw [List.length_append, List.length_singleton]
  omega

theorem PartValue.read (h : PartValue text n) (hn : n < 256 ^ 4) : ipv4Part text = some n :=
  ipv4Part_iff.mpr ⟨h, by rw [maxSafeInteger]; omega⟩

/-- **The bytes of every spelling are those of the number it spells.** -/
theorem Spells.parseIPv4 (h : Spells text n) : Egress.parseIPv4 text = some (bytesOf n 4) := by
  cases h with
  | one ha hx =>
    rw [parseIPv4_values [] (splitAt_of_not_mem ha.part) rfl (ha.read hx) (by decide), bytesOfValues_iff]
    exact ⟨by simp, hx, rfl⟩
  | two ha hb hx hy =>
    rename_i a b x y
    have hsplit : splitAt '.' (a ++ '.' :: b) = [a] ++ [b] := by
      rw [splitAt_append ha.part, splitAt_of_not_mem hb.part]
      rfl
    have hfirst : [a].mapM ipv4Part = some [x] := by
      simp [ha.read (by omega)]
    rw [parseIPv4_values _ hsplit hfirst (hb.read (by omega)) (by simp), bytesOfValues_iff, bytesOf_cons _ hx hy]
    exact ⟨by simpa using hx, hy, rfl⟩
  | three ha hb hc hx hy hz =>
    rename_i a b c x y z
    have hsplit : splitAt '.' (a ++ '.' :: (b ++ '.' :: c)) = [a, b] ++ [c] := by
      rw [splitAt_append ha.part, splitAt_append hb.part, splitAt_of_not_mem hc.part]
      rfl
    have hfirst : [a, b].mapM ipv4Part = some [x, y] := by
      simp [ha.read (by omega), hb.read (by omega)]
    rw [parseIPv4_values _ hsplit hfirst (hc.read (by omega)) (by simp), bytesOfValues_iff, Nat.add_assoc,
      bytesOf_cons _ hx (by omega), bytesOf_cons _ hy hz]
    exact ⟨by simp [hx, hy], hz, rfl⟩
  | four ha hb hc hd hx hy hz hw =>
    rename_i a b c d x y z w
    have hsplit : splitAt '.' (a ++ '.' :: (b ++ '.' :: (c ++ '.' :: d))) = [a, b, c] ++ [d] := by
      rw [splitAt_append ha.part, splitAt_append hb.part, splitAt_append hc.part, splitAt_of_not_mem hd.part]
      rfl
    have hfirst : [a, b, c].mapM ipv4Part = some [x, y, z] := by
      simp [ha.read (by omega), hb.read (by omega), hc.read (by omega)]
    have hlast := bytesOf_cons 1 hz (by omega : w < 256 ^ 1)
    rw [Nat.pow_one] at hlast
    rw [parseIPv4_values _ hsplit hfirst (hd.read (by omega)) (by simp), bytesOfValues_iff, Nat.add_assoc, Nat.add_assoc,
      bytesOf_cons _ hx (by omega), bytesOf_cons _ hy (by omega), hlast]
    exact ⟨by simp [hx, hy, hz], hw, rfl⟩

/-- Parts whose values `parseIPv4` takes are a spelling. -/
theorem spells_of_parts {parts : List (List Char)} {values : List ℕ} (hlength : ¬(parts.length < 1 ∨ 4 < parts.length))
    (hvalues : parts.mapM ipv4Part = some values) (hbytes : bytesOfValues values = some bytes) :
    ∃ n, Spells (join ['.'] parts) n := by
  match parts, hlength with
  | [], hlength => exact absurd (Or.inl (by simp)) hlength
  | [a], _ =>
    simp only [List.mapM_cons, List.mapM_nil, Option.bind_eq_bind, Option.bind_eq_some_iff, Option.pure_def,
      Option.some.injEq] at hvalues
    obtain ⟨x, hx, _, rfl, rfl⟩ := hvalues
    obtain ⟨-, hlast, -⟩ := (bytesOfValues_iff [] x).mp hbytes
    exact ⟨x, Spells.one (ipv4Part_iff.mp hx).1 hlast⟩
  | [a, b], _ =>
    simp only [List.mapM_cons, List.mapM_nil, Option.bind_eq_bind, Option.bind_eq_some_iff, Option.pure_def,
      Option.some.injEq] at hvalues
    obtain ⟨x, hx, _, ⟨y, hy, _, rfl, rfl⟩, rfl⟩ := hvalues
    obtain ⟨hfirst, hlast, -⟩ := (bytesOfValues_iff [x] y).mp hbytes
    have hspells := Spells.two (ipv4Part_iff.mp hx).1 (ipv4Part_iff.mp hy).1 (hfirst x (by simp)) hlast
    exact ⟨_, by simpa [join] using hspells⟩
  | [a, b, c], _ =>
    simp only [List.mapM_cons, List.mapM_nil, Option.bind_eq_bind, Option.bind_eq_some_iff, Option.pure_def,
      Option.some.injEq] at hvalues
    obtain ⟨x, hx, _, ⟨y, hy, _, ⟨z, hz, _, rfl, rfl⟩, rfl⟩, rfl⟩ := hvalues
    obtain ⟨hfirst, hlast, -⟩ := (bytesOfValues_iff [x, y] z).mp hbytes
    have hspells := Spells.three (ipv4Part_iff.mp hx).1 (ipv4Part_iff.mp hy).1 (ipv4Part_iff.mp hz).1 (hfirst x (by simp))
      (hfirst y (by simp)) hlast
    exact ⟨_, by simpa [join] using hspells⟩
  | [a, b, c, d], _ =>
    simp only [List.mapM_cons, List.mapM_nil, Option.bind_eq_bind, Option.bind_eq_some_iff, Option.pure_def,
      Option.some.injEq] at hvalues
    obtain ⟨x, hx, _, ⟨y, hy, _, ⟨z, hz, _, ⟨w, hw, _, rfl, rfl⟩, rfl⟩, rfl⟩, rfl⟩ := hvalues
    obtain ⟨hfirst, hlast, -⟩ := (bytesOfValues_iff [x, y, z] w).mp hbytes
    have hspells := Spells.four (ipv4Part_iff.mp hx).1 (ipv4Part_iff.mp hy).1 (ipv4Part_iff.mp hz).1 (ipv4Part_iff.mp hw).1
      (hfirst x (by simp)) (hfirst y (by simp)) (hfirst z (by simp)) hlast
    exact ⟨_, by simpa [join] using hspells⟩
  | _ :: _ :: _ :: _ :: _ :: _, hlength => exact absurd (Or.inr (by simp)) hlength

/-- **`parseIPv4` takes the notations of the C library**, and answers the bytes of the number. -/
theorem parseIPv4_iff : Egress.parseIPv4 text = some bytes ↔ ∃ n, Spells text n ∧ bytes = bytesOf n 4 := by
  constructor
  · intro hread
    have h := hread
    rw [parseIPv4_eq, Option.ite_none_left_eq_some] at h
    obtain ⟨hlength, h⟩ := h
    obtain ⟨values, hvalues, hbytes⟩ := Option.bind_eq_some_iff.mp h
    obtain ⟨n, hspells⟩ := spells_of_parts hlength hvalues hbytes
    rw [join_splitAt] at hspells
    exact ⟨n, hspells, Option.some.inj (hread.symm.trans hspells.parseIPv4)⟩
  · rintro ⟨n, hspells, rfl⟩
    exact hspells.parseIPv4

end

end SlugBase.Egress
