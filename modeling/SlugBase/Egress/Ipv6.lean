import SlugBase.Egress.Split
import Mathlib.Data.Nat.Digits.Defs
import Mathlib.Data.List.Induction
import Mathlib.Tactic.Tauto

/-!
# IPv6 texts

The text forms of an IPv6 address, and which texts `parseIPv6` takes.

* `IsGroup`, `IsQuad`, `Groups`, `Tail`, `Ipv6Text`: the forms of RFC 4291, with the words they denote;
* **`parseIPv6_iff`**: `parseIPv6` takes these, and those with a dotted quad before the gap;
* **`parseIPv6_exact`**: it takes exactly the forms on a text without a dotted quad before the gap.
-/

namespace SlugBase.Egress

/-! ## The forms -/

/-- The number that digits of a base denote. -/
def denoted (base : ℕ) (digits : List Char) : ℕ := Nat.ofDigits base (digits.reverse.map digitValue)

/-- One to four hexadecimal digits. -/
def IsGroup (text : List Char) (word : ℕ) : Prop :=
  1 ≤ text.length ∧ text.length ≤ 4 ∧ (∀ c ∈ text, isHexDigit c = true) ∧ word = denoted 16 text

/-- A decimal number up to 255, without a leading zero. -/
def IsOctet (text : List Char) (byte : ℕ) : Prop :=
  text ≠ [] ∧ (∀ c ∈ text, isDigit c = true) ∧ (text.head? = some '0' → text = ['0']) ∧ byte = denoted 10 text ∧
    byte ≤ 255

/-- Four decimal numbers with dots between them, as two words. -/
def IsQuad (text : List Char) (words : List ℕ) : Prop :=
  ∃ a b c d x y z w, IsOctet a x ∧ IsOctet b y ∧ IsOctet c z ∧ IsOctet d w ∧
    text = a ++ '.' :: (b ++ '.' :: (c ++ '.' :: d)) ∧ words = [x * 256 + y, z * 256 + w]

/-- Groups with colons between them. -/
inductive Groups : List Char → List ℕ → Prop
  | one {text : List Char} {word : ℕ} : IsGroup text word → Groups text [word]
  | cons {text rest : List Char} {word : ℕ} {words : List ℕ} : IsGroup text word → Groups rest words →
      Groups (text ++ ':' :: rest) (word :: words)

/-- Groups with colons between them, the last two of which a dotted quad denotes. -/
inductive QuadGroups : List Char → List ℕ → Prop
  | quad {text : List Char} {words : List ℕ} : IsQuad text words → QuadGroups text words
  | cons {text rest : List Char} {word : ℕ} {words : List ℕ} : IsGroup text word → QuadGroups rest words →
      QuadGroups (text ++ ':' :: rest) (word :: words)

/-- What stands at the end of an address. -/
def Tail (text : List Char) (words : List ℕ) : Prop := Groups text words ∨ QuadGroups text words

/-- What stands before a gap: groups, or nothing. -/
def BeforeGap (text : List Char) (words : List ℕ) : Prop := text = [] ∧ words = [] ∨ Groups text words

/-- What stands after a gap. -/
def AfterGap (text : List Char) (words : List ℕ) : Prop := text = [] ∧ words = [] ∨ Tail text words

/-- The words with a gap of zeros. -/
def filled (head tail : List ℕ) : List ℕ := head ++ List.replicate (8 - head.length - tail.length) 0 ++ tail

/-- **The text forms of an address**, with the eight words they denote: all groups, or a gap for one or more of them
that are zero; the last 32 bits may be a dotted quad. -/
inductive Ipv6Text : List Char → List ℕ → Prop
  | full {text : List Char} {words : List ℕ} : Tail text words → words.length = 8 → Ipv6Text text words
  | gap {head tail : List Char} {before after : List ℕ} : BeforeGap head before → AfterGap tail after →
      before.length + after.length < 8 → Ipv6Text (head ++ ':' :: ':' :: tail) (filled before after)

/-- A text that would be one of the forms, but for a dotted quad before the gap. -/
inductive QuadBeforeGap : List Char → List ℕ → Prop
  | mk {head tail : List Char} {before after : List ℕ} : QuadGroups head before → AfterGap tail after →
      before.length + after.length < 8 → QuadBeforeGap (head ++ ':' :: ':' :: tail) (filled before after)

/-- The bytes of words. -/
def bytesOfWords (words : List ℕ) : AddressBytes := words.flatMap fun word => [word / 256, word % 256]

/-! ## Digits -/

section

variable {text : List Char} {n : ℕ} {c : Char}

theorem parseInt_append (base : ℕ) (digits : List Char) (c : Char) :
    parseInt base (digits ++ [c]) = base * parseInt base digits + digitValue c := by
  simp [parseInt]

/-- **`parseInt` reads the number that the digits denote.** -/
theorem parseInt_eq_denoted (base : ℕ) (digits : List Char) : parseInt base digits = denoted base digits := by
  induction digits using List.reverseRecOn with
  | nil => simp [parseInt, denoted]
  | append_singleton digits c ih =>
    rw [parseInt_append, ih]
    simp only [denoted, List.reverse_append, List.reverse_cons, List.reverse_nil, List.nil_append, List.singleton_append,
      List.map_cons, Nat.ofDigits_cons]
    omega

theorem isHexDigit_ne (h : isHexDigit c = true) : c ≠ ':' ∧ c ≠ '.' := by
  constructor <;> rintro rfl <;> exact absurd h (by decide)

theorem isDigit_ne (h : isDigit c = true) : c ≠ ':' ∧ c ≠ '.' := by
  constructor <;> rintro rfl <;> exact absurd h (by decide)

theorem hexGroup_iff : hexGroup text = some n ↔ IsGroup text n := by
  unfold hexGroup IsGroup
  rw [Option.ite_none_right_eq_some, parseInt_eq_denoted, List.all_eq_true]
  simp only [Option.some.injEq, @eq_comm _ n]
  tauto

theorem IsGroup.part (h : IsGroup text n) : text ≠ [] ∧ ':' ∉ text ∧ '.' ∉ text := by
  obtain ⟨hlength, -, hdigits, -⟩ := h
  refine ⟨?_, fun hmem => (isHexDigit_ne (hdigits _ hmem)).1 rfl, fun hmem => (isHexDigit_ne (hdigits _ hmem)).2 rfl⟩
  rintro rfl
  simp at hlength

theorem IsOctet.part (h : IsOctet text n) : text ≠ [] ∧ ':' ∉ text ∧ '.' ∉ text :=
  ⟨h.1, fun hmem => (isDigit_ne (h.2.1 _ hmem)).1 rfl, fun hmem => (isDigit_ne (h.2.1 _ hmem)).2 rfl⟩

theorem digitValue_le (h : isDigit c = true) : digitValue c ≤ 9 := by
  have hle : c ≤ '9' := of_decide_eq_true (Bool.and_eq_true _ _ ▸ h).2
  have hnat : c.toNat ≤ 57 := hle
  rw [digitValue, if_pos h]
  omega

theorem digitValue_pos (h : isDigit c = true) (hc : c ≠ '0') : 1 ≤ digitValue c := by
  have hle : '0' ≤ c := of_decide_eq_true (Bool.and_eq_true _ _ ▸ h).1
  have hnat : 48 ≤ c.toNat := hle
  have hne : c.toNat ≠ 48 := fun heq => hc (Char.ext (UInt32.toNat_inj.mp heq))
  rw [digitValue, if_pos h]
  omega

theorem denoted_cons (base : ℕ) (c : Char) (rest : List Char) :
    denoted base (c :: rest) = denoted base rest + base ^ rest.length * digitValue c := by
  simp only [denoted, List.reverse_cons, List.map_append, List.map_cons, List.map_nil, Nat.ofDigits_append,
    List.length_map, List.length_reverse, Nat.ofDigits_singleton]

/-- Four digits or more denote more than a byte, unless the first is a zero. -/
theorem length_le_of_octet (h : IsOctet text n) : text.length ≤ 3 := by
  obtain ⟨hne, hdigits, hzero, rfl, hbyte⟩ := h
  cases text with
  | nil => exact absurd rfl hne
  | cons c rest =>
    by_cases hc : c = '0'
    · rw [hzero (by rw [hc]; rfl)]
      simp
    · by_contra hlong
      have hlength : 3 ≤ rest.length := by
        simp only [List.length_cons] at hlong
        omega
      have hpow : 10 ^ 3 ≤ 10 ^ rest.length := Nat.pow_le_pow_right (by omega) hlength
      have hpos := digitValue_pos (hdigits c List.mem_cons_self) hc
      have hmul : 10 ^ rest.length * 1 ≤ 10 ^ rest.length * digitValue c := Nat.mul_le_mul_left _ hpos
      rw [denoted_cons] at hbyte
      omega

theorem quadPart_cons (hc : c ≠ '0') (rest : List Char) :
    quadPart (c :: rest) =
      if (c :: rest).all isDigit ∧ (c :: rest).length ≤ 3 then some (parseInt 10 (c :: rest)) else none := by
  unfold quadPart
  split
  · rename_i h
    exact absurd (List.cons.inj h).1 hc
  · rename_i h
    exact absurd (List.cons.inj h).1 hc
  · rename_i h
    cases h
  · rfl

/-- **`quadPart` reads a decimal number**, which is then held against 255. -/
theorem quadPart_iff : (quadPart text = some n ∧ n ≤ 255) ↔ IsOctet text n := by
  cases text with
  | nil => simp [quadPart, IsOctet]
  | cons c rest =>
    by_cases hc : c = '0'
    · subst hc
      cases rest with
      | nil =>
        simp only [quadPart, IsOctet, Option.some.injEq]
        constructor
        · rintro ⟨rfl, -⟩
          exact ⟨by simp, by simp; decide, fun _ => trivial, by decide, by omega⟩
        · rintro ⟨-, -, -, rfl, -⟩
          exact ⟨by decide, by decide⟩
      | cons d rest =>
        constructor
        · rintro ⟨h, -⟩
          cases h
        · intro h
          exact absurd (h.2.2.1 rfl) (by simp)
    · rw [quadPart_cons hc, Option.ite_none_right_eq_some, parseInt_eq_denoted, List.all_eq_true]
      constructor
      · rintro ⟨⟨⟨hdigits, -⟩, heq⟩, hbyte⟩
        exact ⟨by simp, hdigits, fun h => absurd (Option.some.inj h) hc, (Option.some.inj heq).symm, hbyte⟩
      · intro h
        exact ⟨⟨⟨h.2.1, length_le_of_octet h⟩, by rw [h.2.2.2.1]⟩, h.2.2.2.2⟩

end

/-! ## Dotted quads -/

/-- **`dottedQuad` takes four decimal numbers with dots between them.** -/
theorem dottedQuad_iff {text : List Char} {bytes : AddressBytes} :
    dottedQuad text = some bytes ↔ ∃ a b c d x y z w, IsOctet a x ∧ IsOctet b y ∧ IsOctet c z ∧ IsOctet d w ∧
      text = a ++ '.' :: (b ++ '.' :: (c ++ '.' :: d)) ∧ bytes = [x, y, z, w] := by
  constructor
  · intro h
    unfold dottedQuad at h
    dsimp only at h
    split_ifs at h with hlength
    obtain ⟨values, hvalues, hall⟩ := Option.bind_eq_some_iff.mp h
    split_ifs at hall with hbytes
    obtain rfl := Option.some.inj hall
    rw [not_not] at hlength
    have hjoin := join_splitAt '.' text
    generalize splitAt '.' text = parts at hlength hvalues hjoin
    match parts, hlength with
    | [a, b, c, d], _ =>
      simp only [List.mapM_cons, List.mapM_nil, Option.bind_eq_bind, Option.bind_eq_some_iff, Option.pure_def,
        Option.some.injEq] at hvalues
      obtain ⟨x, hx, _, ⟨y, hy, _, ⟨z, hz, _, ⟨w, hw, _, rfl, rfl⟩, rfl⟩, rfl⟩, rfl⟩ := hvalues
      simp only [List.all_cons, List.all_nil, Bool.and_true, Bool.and_eq_true, decide_eq_true_eq] at hbytes
      obtain ⟨hbx, hby, hbz, hbw⟩ := hbytes
      refine ⟨a, b, c, d, x, y, z, w, quadPart_iff.mp ⟨hx, hbx⟩, quadPart_iff.mp ⟨hy, hby⟩, quadPart_iff.mp ⟨hz, hbz⟩,
        quadPart_iff.mp ⟨hw, hbw⟩, ?_, rfl⟩
      rw [← hjoin]
      simp [join]
  · rintro ⟨a, b, c, d, x, y, z, w, ha, hb, hc, hd, rfl, rfl⟩
    obtain ⟨hx, hbx⟩ := quadPart_iff.mpr ha
    obtain ⟨hy, hby⟩ := quadPart_iff.mpr hb
    obtain ⟨hz, hbz⟩ := quadPart_iff.mpr hc
    obtain ⟨hw, hbw⟩ := quadPart_iff.mpr hd
    have hsplit : splitAt '.' (a ++ '.' :: (b ++ '.' :: (c ++ '.' :: d))) = [a, b, c, d] := by
      rw [splitAt_append ha.part.2.2, splitAt_append hb.part.2.2, splitAt_append hc.part.2.2,
        splitAt_of_not_mem hd.part.2.2]
    unfold dottedQuad
    rw [hsplit]
    simp [hx, hy, hz, hw, hbx, hby, hbz, hbw]

theorem IsQuad.part {text : List Char} {words : List ℕ} (h : IsQuad text words) : text ≠ [] ∧ ':' ∉ text ∧ '.' ∈ text := by
  obtain ⟨a, b, c, d, x, y, z, w, ha, hb, hc, hd, rfl, -⟩ := h
  have ha' := ha.part
  have hb' := hb.part
  have hc' := hc.part
  have hd' := hd.part
  refine ⟨by simp, ?_, by simp⟩
  simp [ha'.2.1, hb'.2.1, hc'.2.1, hd'.2.1]

/-! ## Groups -/

section

variable {text head tail : List Char} {words before after : List ℕ}

theorem Groups.spaced (h : Groups text words) : Spaced text ∧ '.' ∉ text := by
  induction h with
  | one hgroup => exact ⟨.part hgroup.part.1 hgroup.part.2.1, hgroup.part.2.2⟩
  | cons hgroup _ ih =>
    refine ⟨.cons hgroup.part.1 hgroup.part.2.1 ih.1, ?_⟩
    simp [hgroup.part.2.2, ih.2]

theorem QuadGroups.spaced (h : QuadGroups text words) : Spaced text ∧ '.' ∈ text := by
  induction h with
  | quad hquad => exact ⟨.part hquad.part.1 hquad.part.2.1, hquad.part.2.2⟩
  | cons hgroup _ ih =>
    refine ⟨.cons hgroup.part.1 hgroup.part.2.1 ih.1, ?_⟩
    simp [ih.2]

theorem Tail.spaced (h : Tail text words) : Spaced text := h.elim (·.spaced.1) (·.spaced.1)

/-- The words of the last part. -/
theorem groupsOf_last {part : List Char} : groupsOf [part] = some words ↔
    (∃ word, IsGroup part word ∧ words = [word]) ∨ IsQuad part words := by
  rw [groupsOf]
  by_cases hdot : '.' ∈ part
  · rw [if_pos (List.contains_iff_mem.mpr hdot)]
    constructor
    · intro h
      obtain ⟨bytes, hbytes, rfl⟩ := Option.map_eq_some_iff.mp h
      obtain ⟨a, b, c, d, x, y, z, w, ha, hb, hc, hd, htext, rfl⟩ := dottedQuad_iff.mp hbytes
      exact .inr ⟨a, b, c, d, x, y, z, w, ha, hb, hc, hd, htext, rfl⟩
    · rintro (⟨word, hgroup, -⟩ | ⟨a, b, c, d, x, y, z, w, ha, hb, hc, hd, htext, rfl⟩)
      · exact absurd hdot hgroup.part.2.2
      · rw [dottedQuad_iff.mpr ⟨a, b, c, d, x, y, z, w, ha, hb, hc, hd, htext, rfl⟩]
        rfl
  · rw [if_neg (by rwa [List.contains_iff_mem])]
    constructor
    · intro h
      obtain ⟨word, hword, rfl⟩ := Option.map_eq_some_iff.mp h
      exact .inl ⟨word, hexGroup_iff.mp hword, rfl⟩
    · rintro (⟨word, hgroup, rfl⟩ | hquad)
      · rw [hexGroup_iff.mpr hgroup]
        rfl
      · exact absurd hquad.part.2.2 hdot

theorem groupsOf_cons_cons (part next : List Char) (parts : List (List Char)) :
    groupsOf (part :: next :: parts) = (hexGroup part).bind fun group =>
      (groupsOf (next :: parts)).map (group :: ·) := by
  rw [groupsOf]
  · cases hexGroup part <;> cases groupsOf (next :: parts) <;> rfl
  · exact fun h => (by cases h)

/-- **The parts between colons are read as the groups of the end of an address.** -/
theorem groupsOf_splitAt : groupsOf (splitAt ':' text) = some words ↔ Tail text words := by
  constructor
  · have hparts : ∀ part ∈ splitAt ':' text, ':' ∉ part := fun _ => not_mem_of_splitAt
    have hne := splitAt_ne_nil ':' text
    have hjoin := join_splitAt ':' text
    generalize splitAt ':' text = parts at hparts hne hjoin
    induction parts generalizing text words with
    | nil => exact absurd rfl hne
    | cons part parts ih =>
      intro h
      cases parts with
      | nil =>
        have htext : part = text := hjoin
        rw [← htext]
        rcases groupsOf_last.mp h with ⟨word, hgroup, rfl⟩ | hquad
        · exact .inl (.one hgroup)
        · exact .inr (.quad hquad)
      | cons next parts =>
        rw [groupsOf_cons_cons] at h
        obtain ⟨word, hword, hmapped⟩ := Option.bind_eq_some_iff.mp h
        obtain ⟨rest, hrest, rfl⟩ := Option.map_eq_some_iff.mp hmapped
        have hgroup := hexGroup_iff.mp hword
        have htail := ih (fun other hother => hparts other (List.mem_cons_of_mem _ hother)) (by simp) rfl hrest
        rw [← hjoin, join_cons_cons, List.append_assoc]
        rcases htail with hgroups | hquad
        · exact .inl (.cons hgroup hgroups)
        · exact .inr (.cons hgroup hquad)
  · have hcons {part rest : List Char} {word : ℕ} {words : List ℕ} (hgroup : IsGroup part word)
        (hrest : groupsOf (splitAt ':' rest) = some words) :
        groupsOf (splitAt ':' (part ++ ':' :: rest)) = some (word :: words) := by
      rw [splitAt_append hgroup.part.2.1]
      cases hsplit : splitAt ':' rest with
      | nil => exact absurd hsplit (splitAt_ne_nil ':' rest)
      | cons next parts =>
        rw [hsplit] at hrest
        rw [groupsOf_cons_cons, hexGroup_iff.mpr hgroup, hrest]
        rfl
    rintro (h | h)
    · induction h with
      | one hgroup =>
        rw [splitAt_of_not_mem hgroup.part.2.1, groupsOf_last]
        exact .inl ⟨_, hgroup, rfl⟩
      | cons hgroup _ ih => exact hcons hgroup ih
    · induction h with
      | quad hquad =>
        rw [splitAt_of_not_mem hquad.part.2.1, groupsOf_last]
        exact .inr hquad
      | cons hgroup _ ih => exact hcons hgroup ih

theorem groups_iff : groups text = some words ↔ AfterGap text words := by
  unfold groups AfterGap
  split_ifs with h
  · subst h
    constructor
    · rintro h
      exact .inl ⟨rfl, (Option.some.inj h).symm⟩
    · rintro (⟨-, rfl⟩ | htail)
      · rfl
      · obtain ⟨c, rest, hnil, -⟩ := htail.spaced.head
        cases hnil
  · rw [groupsOf_splitAt]
    simp [h]

theorem afterGap_iff : AfterGap text words ↔ BeforeGap text words ∨ QuadGroups text words := by
  unfold AfterGap BeforeGap Tail
  tauto

/-! ## Addresses -/

theorem AfterGap.splitDoubleColon (h : AfterGap text words) : Egress.splitDoubleColon text = [text] := by
  rcases h with ⟨rfl, -⟩ | h
  · rfl
  · exact h.spaced.splitDoubleColon

theorem AfterGap.splitDoubleColon_gap (h : AfterGap head before) (tail : List Char) :
    Egress.splitDoubleColon (head ++ ':' :: ':' :: tail) = head :: Egress.splitDoubleColon tail := by
  rcases h with ⟨rfl, -⟩ | h
  · rw [List.nil_append, Egress.splitDoubleColon]
  · exact h.spaced.splitDoubleColon_gap tail

/-- The words of the parts between the gaps. -/
def wordsOfParts : List (List Char) → Option (List ℕ)
  | [whole] => groups whole
  | [first, second] => (groups first).bind fun head => (groups second).bind fun tail =>
      if head.length + tail.length < 8 then some (filled head tail) else none
  | _ => none

theorem parseIPv6_eq (text : List Char) : parseIPv6 text = (wordsOfParts (splitDoubleColon text)).bind fun words =>
    if words.length ≠ 8 then none else some (bytesOfWords words) := by
  unfold parseIPv6
  generalize splitDoubleColon text = parts
  match parts with
  | [] => rfl
  | [_] => rfl
  | [first, second] =>
    dsimp only [wordsOfParts]
    cases groups first with
    | none => rfl
    | some head =>
      cases groups second with
      | none => rfl
      | some tail =>
        by_cases hshort : head.length + tail.length < 8
        · simp [hshort, filled, bytesOfWords]
        · simp [hshort]
  | _ :: _ :: _ :: _ => rfl

theorem length_filled (h : before.length + after.length < 8) : (filled before after).length = 8 := by
  simp only [filled, List.length_append, List.length_replicate]
  omega

theorem wordsOfParts_gap (hhead : AfterGap head before) (htail : AfterGap tail after)
    (hlength : before.length + after.length < 8) :
    wordsOfParts (splitDoubleColon (head ++ ':' :: ':' :: tail)) = some (filled before after) := by
  rw [hhead.splitDoubleColon_gap, htail.splitDoubleColon]
  rw [wordsOfParts, groups_iff.mpr hhead, groups_iff.mpr htail]
  simp [hlength]

/-- **`parseIPv6` takes the forms, and those with a dotted quad before the gap.** -/
theorem parseIPv6_iff {bytes : AddressBytes} : parseIPv6 text = some bytes ↔
    ∃ words, (Ipv6Text text words ∨ QuadBeforeGap text words) ∧ bytes = bytesOfWords words := by
  rw [parseIPv6_eq, Option.bind_eq_some_iff]
  constructor
  · rintro ⟨words, hwords, hbytes⟩
    split_ifs at hbytes with hlength
    rw [not_not] at hlength
    refine ⟨words, ?_, (Option.some.inj hbytes).symm⟩
    have hjoin := join_splitDoubleColon text
    generalize splitDoubleColon text = parts at hwords hjoin
    match parts with
    | [] => cases hwords
    | [whole] =>
      have htext : whole = text := hjoin
      rw [htext] at hwords
      rcases groups_iff.mp hwords with ⟨-, rfl⟩ | htail
      · cases hlength
      · exact .inl (.full htail hlength)
    | [first, second] =>
      obtain ⟨head, hhead, hrest⟩ := Option.bind_eq_some_iff.mp hwords
      obtain ⟨tail, htail, hfilled⟩ := Option.bind_eq_some_iff.mp hrest
      split_ifs at hfilled with hshort
      obtain rfl := Option.some.inj hfilled
      have htext : first ++ ':' :: ':' :: second = text := by simpa [join] using hjoin
      rw [← htext]
      rcases afterGap_iff.mp (groups_iff.mp hhead) with hbefore | hquad
      · exact .inl (.gap hbefore (groups_iff.mp htail) hshort)
      · exact .inr (.mk hquad (groups_iff.mp htail) hshort)
    | _ :: _ :: _ :: _ => cases hwords
  · rintro ⟨words, hform | hquad, rfl⟩
    · refine ⟨words, ?_, ?_⟩
      · cases hform with
        | full htail _ =>
          rw [htail.spaced.splitDoubleColon]
          exact groups_iff.mpr (.inr htail)
        | gap hhead htail hlength => exact wordsOfParts_gap (afterGap_iff.mpr (.inl hhead)) htail hlength
      · cases hform with
        | full _ hlength => rw [if_neg (not_not.mpr hlength)]
        | gap _ _ hlength => rw [if_neg (not_not.mpr (length_filled hlength))]
    · cases hquad with
      | mk hhead htail hlength =>
        exact ⟨_, wordsOfParts_gap (afterGap_iff.mpr (.inr hhead)) htail hlength,
          if_neg (not_not.mpr (length_filled hlength))⟩

/-- A text is not both one of the forms and one with a dotted quad before the gap. -/
theorem not_quadBeforeGap {words' : List ℕ} (h : Ipv6Text text words) : ¬QuadBeforeGap text words' := by
  intro hquad
  generalize htext : text = text' at hquad
  cases hquad with
  | @mk head' tail' before' after' hhead' htail' _ =>
    have hparts : splitDoubleColon text = [head', tail'] := by
      rw [htext, (afterGap_iff.mpr (.inr hhead')).splitDoubleColon_gap, htail'.splitDoubleColon]
    cases h with
    | full htail _ =>
      rw [htail.spaced.splitDoubleColon] at hparts
      cases hparts
    | gap hhead htail _ =>
      rw [(afterGap_iff.mpr (.inl hhead)).splitDoubleColon_gap, htail.splitDoubleColon] at hparts
      obtain rfl := (List.cons.inj hparts).1
      rcases hhead with ⟨rfl, -⟩ | hgroups
      · exact List.not_mem_nil hhead'.spaced.2
      · exact hgroups.spaced.2 hhead'.spaced.2

/-- **`parseIPv6` takes the forms of an address, and answers the bytes they denote, exactly on the texts without a
dotted quad before the gap.** -/
theorem parseIPv6_exact (text : List Char) :
    (∀ bytes, parseIPv6 text = some bytes ↔ ∃ words, Ipv6Text text words ∧ bytes = bytesOfWords words) ↔
      ¬∃ words, QuadBeforeGap text words := by
  constructor
  · rintro h ⟨words, hquad⟩
    obtain ⟨words', hform, -⟩ := (h (bytesOfWords words)).mp (parseIPv6_iff.mpr ⟨words, .inr hquad, rfl⟩)
    exact not_quadBeforeGap hform hquad
  · intro h bytes
    rw [parseIPv6_iff]
    constructor
    · rintro ⟨words, hform | hquad, rfl⟩
      · exact ⟨words, hform, rfl⟩
      · exact absurd ⟨words, hquad⟩ h
    · rintro ⟨words, hform, rfl⟩
      exact ⟨words, .inl hform, rfl⟩

/-- **A dotted quad before the gap is taken**, for 1.2.3.4 in the first 32 bits, though no form has it there. -/
theorem parseIPv6_quad_head :
    parseIPv6 "1.2.3.4::".toList = some [1, 2, 3, 4, 0, 0, 0, 0, 0, 0, 0, 0, 0, 0, 0, 0] ∧
      ∀ words, ¬Ipv6Text "1.2.3.4::".toList words := by
  have hparse : parseIPv6 "1.2.3.4::".toList = some [1, 2, 3, 4, 0, 0, 0, 0, 0, 0, 0, 0, 0, 0, 0, 0] := by decide +kernel
  refine ⟨hparse, fun words hform => ?_⟩
  have hoctet {c : Char} {n : ℕ} (hdigit : isDigit c = true) (hn : n = denoted 10 [c]) (hle : n ≤ 255) : IsOctet [c] n :=
    ⟨by simp, by simpa using hdigit, by simp, hn, hle⟩
  have hquad : QuadBeforeGap (['1', '.', '2', '.', '3', '.', '4'] ++ ':' :: ':' :: []) (filled [1 * 256 + 2, 3 * 256 + 4] []) :=
    QuadBeforeGap.mk (.quad ⟨['1'], ['2'], ['3'], ['4'], 1, 2, 3, 4,
      hoctet (by decide) (by decide) (by decide), hoctet (by decide) (by decide) (by decide),
      hoctet (by decide) (by decide) (by decide), hoctet (by decide) (by decide) (by decide), rfl, rfl⟩)
      (.inl ⟨rfl, rfl⟩) (by decide)
  exact not_quadBeforeGap hform hquad

end

end SlugBase.Egress
