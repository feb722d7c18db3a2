import SlugBase.Client.Address
import Mathlib.Data.List.TakeWhile

/-!
# The groups of an address

The reader of the rate limits, on every text of an address.

* **`isIP_ne_zero_iff`**: a text is an address exactly when it denotes one;
* `withoutQuad_tail`: a dotted tail becomes two groups;
* **`ipv6GroupsOf_eq`**: the groups are the words that the text denotes.
-/

namespace SlugBase.Client

open Egress

section

variable {text address zone head tail : List Char} {words before after : List ℕ}

/-! ## Characters -/

/-- The characters of an address. -/
def Plain (text : List Char) : Prop := ∀ c ∈ text, isHexDigit c = true ∨ c = ':' ∨ c = '.'

theorem Plain.append {more : List Char} (h : Plain text) (hmore : Plain more) (c : Char) (hc : c = ':' ∨ c = '.') :
    Plain (text ++ c :: more) := by
  intro d hd
  rw [List.mem_append, List.mem_cons] at hd
  rcases hd with hd | rfl | hd
  · exact h d hd
  · exact .inr hc
  · exact hmore d hd

theorem plain_of_octet {n : ℕ} (h : IsOctet text n) : Plain text := fun c hc => .inl (by simp [isHexDigit, h.2.1 c hc])

theorem plain_of_quad (h : IsQuad text words) : Plain text := by
  obtain ⟨a, b, c, d, x, y, z, w, ha, hb, hc, hd, rfl, -⟩ := h
  exact (plain_of_octet ha).append ((plain_of_octet hb).append ((plain_of_octet hc).append (plain_of_octet hd) '.' (.inr rfl))
    '.' (.inr rfl)) '.' (.inr rfl)

theorem plain_of_groups (h : Groups text words) : Plain text := by
  induction h with
  | one hgroup => exact fun c hc => .inl (hgroup.2.2.1 c hc)
  | cons hgroup _ ih =>
    have hfirst : Plain _ := fun c hc => .inl (hgroup.2.2.1 c hc)
    exact hfirst.append ih ':' (.inl rfl)

theorem plain_of_quadGroups (h : QuadGroups text words) : Plain text := by
  induction h with
  | quad hquad => exact plain_of_quad hquad
  | cons hgroup _ ih =>
    have hfirst : Plain _ := fun c hc => .inl (hgroup.2.2.1 c hc)
    exact hfirst.append ih ':' (.inl rfl)

theorem plain_of_tail (h : Tail text words) : Plain text := h.elim plain_of_groups plain_of_quadGroups

theorem plain_of_beforeGap (h : BeforeGap text words) : Plain text := by
  rcases h with ⟨rfl, -⟩ | hgroups
  · exact fun c hc => absurd hc List.not_mem_nil
  · exact plain_of_groups hgroups

theorem plain_of_afterGap (h : AfterGap text words) : Plain text := by
  rcases h with ⟨rfl, -⟩ | htail
  · exact fun c hc => absurd hc List.not_mem_nil
  · exact plain_of_tail htail

theorem plain_of_ipv6Text (h : Ipv6Text text words) : Plain text := by
  cases h with
  | full htail _ => exact plain_of_tail htail
  | gap hhead htail _ =>
    have hnothing : Plain [] := fun c hc => absurd hc List.not_mem_nil
    exact (plain_of_beforeGap hhead).append (hnothing.append (plain_of_afterGap htail) ':' (.inl rfl)) ':' (.inl rfl)

theorem Plain.no_zone (h : Plain text) : '%' ∉ text := by
  intro hc
  rcases h _ hc with hhex | hcolon | hdot
  · exact absurd hhex (by decide)
  · exact absurd hcolon (by decide)
  · exact absurd hdot (by decide)

theorem withoutZone_of_not_mem (h : '%' ∉ text) : withoutZone text = text ∧ text.dropWhile (· ≠ '%') = [] := by
  have hall : ∀ c ∈ text, (decide (c ≠ '%')) = true := by
    intro c hc
    rw [decide_eq_true_iff]
    rintro rfl
    exact h hc
  exact ⟨List.takeWhile_eq_self_iff.mpr hall, List.dropWhile_eq_nil_iff.mpr hall⟩

theorem withoutZone_append (h : '%' ∉ text) (zone : List Char) :
    withoutZone (text ++ '%' :: zone) = text ∧ (text ++ '%' :: zone).dropWhile (· ≠ '%') = '%' :: zone := by
  have hall : ∀ c ∈ text, (decide (c ≠ '%')) = true := by
    intro c hc
    rw [decide_eq_true_iff]
    rintro rfl
    exact h hc
  constructor
  · rw [withoutZone, List.takeWhile_append_of_pos hall]
    simp
  · rw [List.dropWhile_append_of_pos hall]
    simp

/-! ## What is an address -/

/-- **The texts that `net.isIPv6` takes without a zone are the forms of an address.** -/
theorem isForm_iff : isForm address = true ↔ ∃ words, Ipv6Text address words := by
  unfold isForm
  rw [Bool.and_eq_true, Option.isSome_iff_exists, Bool.not_eq_true', Bool.and_eq_false_iff]
  constructor
  · rintro ⟨⟨bytes, hbytes⟩, hhead⟩
    obtain ⟨words, hform | hquad, -⟩ := parseIPv6_iff.mp hbytes
    · exact ⟨words, hform⟩
    · cases hquad with
      | mk hfirst htail _ =>
        rw [(afterGap_iff.mpr (.inr hfirst)).splitDoubleColon_gap, htail.splitDoubleColon] at hhead
        have hdot := List.contains_iff_mem.mpr hfirst.spaced.2
        rcases hhead with hlength | hnone
        · exact absurd hlength (by simp)
        · rw [List.headD_cons, hdot] at hnone
          cases hnone
  · rintro ⟨words, hform⟩
    refine ⟨⟨bytesOfWords words, parseIPv6_iff.mpr ⟨words, .inl hform, rfl⟩⟩, ?_⟩
    cases hform with
    | full htail _ =>
      rw [htail.spaced.splitDoubleColon]
      exact .inl (by simp)
    | gap hfirst htail _ =>
      rw [(afterGap_iff.mpr (.inl hfirst)).splitDoubleColon_gap, List.headD_cons]
      refine .inr (Bool.eq_false_iff.mpr fun hdot => ?_)
      rcases hfirst with ⟨rfl, -⟩ | hgroups
      · cases hdot
      · exact hgroups.spaced.2 (List.contains_iff_mem.mp hdot)

/-- The texts that `net.isIPv6` takes: a form of an address, and maybe a zone. -/
theorem isIPv6_iff : isIPv6 text = true ↔ ∃ words, Denotes text (.ipv6 words) := by
  have htext : withoutZone text ++ text.dropWhile (· ≠ '%') = text := List.takeWhile_append_dropWhile
  unfold isIPv6
  rw [Bool.and_eq_true, isForm_iff]
  constructor
  · rintro ⟨⟨words, hform⟩, hzone⟩
    refine ⟨words, ?_⟩
    cases hrest : text.dropWhile (· ≠ '%') with
    | nil =>
      rw [hrest, List.append_nil] at htext
      exact htext ▸ .ipv6 hform
    | cons c zone =>
      rw [hrest] at hzone htext
      have hc : c = '%' := by
        have hhead := List.head?_dropWhile_not (fun c => decide (c ≠ '%')) text
        rw [hrest] at hhead
        simpa using hhead
      rw [Bool.and_eq_true, Bool.not_eq_true', List.isEmpty_eq_false_iff, List.all_eq_true] at hzone
      rw [hc] at htext
      exact htext ▸ .zoned hform hzone.1 hzone.2
  · rintro ⟨words, hdenotes⟩
    cases hdenotes with
    | ipv6 hform =>
      obtain ⟨haddress, hzone⟩ := withoutZone_of_not_mem (plain_of_ipv6Text hform).no_zone
      rw [haddress, hzone]
      exact ⟨⟨words, hform⟩, rfl⟩
    | zoned hform hne hall =>
      rename_i address zone
      obtain ⟨haddress, hzone⟩ := withoutZone_append (plain_of_ipv6Text hform).no_zone zone
      rw [haddress, hzone]
      refine ⟨⟨words, hform⟩, ?_⟩
      rw [Bool.and_eq_true, Bool.not_eq_true', List.isEmpty_eq_false_iff, List.all_eq_true]
      exact ⟨hne, hall⟩

theorem dottedQuad_isSome_iff : (dottedQuad text).isSome = true ↔ ∃ words, IsQuad text words := by
  rw [Option.isSome_iff_exists]
  constructor
  · rintro ⟨bytes, hbytes⟩
    obtain ⟨a, b, c, d, x, y, z, w, ha, hb, hc, hd, htext, -⟩ := dottedQuad_iff.mp hbytes
    exact ⟨_, a, b, c, d, x, y, z, w, ha, hb, hc, hd, htext, rfl⟩
  · rintro ⟨words, a, b, c, d, x, y, z, w, ha, hb, hc, hd, htext, -⟩
    exact ⟨_, dottedQuad_iff.mpr ⟨a, b, c, d, x, y, z, w, ha, hb, hc, hd, htext, rfl⟩⟩

/-- **A text is an address exactly when it denotes one.** -/
theorem isIP_ne_zero_iff : isIP text ≠ 0 ↔ ∃ a, Denotes text a := by
  unfold isIP
  by_cases hquad : (dottedQuad text).isSome = true
  · rw [if_pos hquad]
    obtain ⟨words, hwords⟩ := dottedQuad_isSome_iff.mp hquad
    exact ⟨fun _ => ⟨_, .ipv4 hwords⟩, fun _ => by decide⟩
  · rw [if_neg hquad]
    by_cases hsix : isIPv6 text = true
    · rw [if_pos hsix]
      obtain ⟨words, hwords⟩ := isIPv6_iff.mp hsix
      exact ⟨fun _ => ⟨_, hwords⟩, fun _ => by decide⟩
    · rw [if_neg hsix]
      refine ⟨fun h => absurd rfl h, ?_⟩
      rintro ⟨a, ha⟩
      cases a with
      | ipv4 words =>
        cases ha with
        | ipv4 h => exact absurd (dottedQuad_isSome_iff.mpr ⟨words, h⟩) hquad
      | ipv6 words => exact absurd (isIPv6_iff.mpr ⟨words, ha⟩) hsix

/-! ## Dotted tails -/

/-- Two words as groups. -/
def hexPair (high low : ℕ) : List Char := Nat.toDigits 16 high ++ ':' :: Nat.toDigits 16 low

theorem IsQuad.words_lt {quad : List Char} (h : IsQuad quad words) :
    ∃ high low, words = [high, low] ∧ high < 65536 ∧ low < 65536 := by
  obtain ⟨a, b, c, d, x, y, z, w, ⟨-, -, -, -, hx⟩, ⟨-, -, -, -, hy⟩, ⟨-, -, -, -, hz⟩, ⟨-, -, -, -, hw⟩, -, rfl⟩ := h
  exact ⟨_, _, rfl, by omega, by omega⟩

/-- A text ends at a colon, or is empty. -/
def EndsAtColon (first : List Char) : Prop := first = [] ∨ ∃ before, first = before ++ [':']

theorem EndsAtColon.append {first : List Char} (h : EndsAtColon first) (more : List Char) :
    EndsAtColon (more ++ ':' :: first) := by
  rcases h with rfl | ⟨before, rfl⟩
  · exact .inr ⟨more, rfl⟩
  · exact .inr ⟨more ++ ':' :: before, by simp⟩

/-- **Groups that end in a dotted quad** are groups when it is written as two. -/
theorem quadGroups_split (h : QuadGroups text words) : ∃ first quad high low, text = first ++ quad ∧ EndsAtColon first ∧
    IsQuad quad [high, low] ∧ Groups (first ++ hexPair high low) words := by
  induction h with
  | @quad text words hquad =>
    obtain ⟨high, low, rfl, hhigh, hlow⟩ := IsQuad.words_lt hquad
    exact ⟨[], text, high, low, rfl, .inl rfl, hquad, .cons (isGroup_toDigits hhigh) (.one (isGroup_toDigits hlow))⟩
  | @cons text rest word words hgroup _ ih =>
    obtain ⟨first, quad, high, low, rfl, hcolon, hquad, hgroups⟩ := ih
    refine ⟨text ++ ':' :: first, quad, high, low, by simp, hcolon.append text, hquad, ?_⟩
    rw [List.append_assoc, List.cons_append]
    exact .cons hgroup hgroups

theorem afterLastColon_append {first quad : List Char} (hfirst : EndsAtColon first) (hquad : ':' ∉ quad) :
    afterLastColon (first ++ quad) = quad := by
  have hall : ∀ c ∈ quad.reverse, (decide (c ≠ ':')) = true := by
    intro c hc
    rw [decide_eq_true_iff]
    rintro rfl
    exact hquad (List.mem_reverse.mp hc)
  rw [afterLastColon, List.reverse_append, List.takeWhile_append_of_pos hall]
  rcases hfirst with rfl | ⟨before, rfl⟩ <;> simp

theorem octet_of_isOctet {part : List Char} {parts : List (List Char)} {n index : ℕ} (hpart : parts[index]? = some part)
    (h : IsOctet part n) : octet parts index = n := by
  rw [octet, hpart]
  dsimp only
  rw [if_pos (List.all_eq_true.mpr h.2.1), parseInt_eq_denoted, h.2.2.2.1]

theorem shiftLeft_or {high low : ℕ} (hlow : low ≤ 255) : high <<< 8 ||| low = high * 256 + low := by
  rw [← Nat.shiftLeft_add_eq_or_of_lt (by omega : low < 2 ^ 8), Nat.shiftLeft_eq]

/-- **A dotted tail becomes two groups.** -/
theorem withoutQuad_tail {first quad : List Char} {high low : ℕ} (hfirst : EndsAtColon first) (h : IsQuad quad [high, low]) :
    withoutQuad (first ++ quad) = first ++ hexPair high low := by
  have hdot : (first ++ quad).contains '.' = true := by
    rw [List.contains_iff_mem, List.mem_append]
    exact .inr h.part.2.2
  have hlast := afterLastColon_append hfirst h.part.2.1
  obtain ⟨a, b, c, d, x, y, z, w, ha, hb, hc, hd, rfl, hwords⟩ := h
  obtain ⟨rfl, hrest⟩ := List.cons.inj hwords
  obtain ⟨rfl, -⟩ := List.cons.inj hrest
  have hsplit : splitAt '.' (a ++ '.' :: (b ++ '.' :: (c ++ '.' :: d))) = [a, b, c, d] := by
    rw [splitAt_append ha.part.2.2, splitAt_append hb.part.2.2, splitAt_append hc.part.2.2,
      splitAt_of_not_mem hd.part.2.2]
  rw [withoutQuad, if_pos hdot, hlast]
  dsimp only
  rw [hsplit, octet_of_isOctet rfl ha, octet_of_isOctet rfl hb, octet_of_isOctet rfl hc, octet_of_isOctet rfl hd,
    shiftLeft_or hb.2.2.2.2, shiftLeft_or hd.2.2.2.2, List.length_append, Nat.add_sub_cancel, List.take_left, hexPair,
    List.append_assoc]

theorem withoutQuad_of_not_mem (h : '.' ∉ text) : withoutQuad text = text := by
  rw [withoutQuad, if_neg]
  rwa [List.contains_iff_mem]

/-- An address without a dotted quad. -/
inductive GroupsText : List Char → List ℕ → Prop
  | full {text : List Char} {words : List ℕ} : Groups text words → words.length = 8 → GroupsText text words
  | gap {head tail : List Char} {before after : List ℕ} : BeforeGap head before → BeforeGap tail after →
      before.length + after.length < 8 → GroupsText (head ++ ':' :: ':' :: tail) (filled before after)

theorem BeforeGap.no_dot (h : BeforeGap text words) : '.' ∉ text := by
  rcases h with ⟨rfl, -⟩ | hgroups
  · exact List.not_mem_nil
  · exact hgroups.spaced.2

/-- **An address stays the same address when its dotted tail becomes two groups.** -/
theorem withoutQuad_ipv6Text (h : Ipv6Text text words) : GroupsText (withoutQuad text) words := by
  cases h with
  | full htail hlength =>
    rcases htail with hgroups | hquads
    · rw [withoutQuad_of_not_mem hgroups.spaced.2]
      exact .full hgroups hlength
    · obtain ⟨first, quad, high, low, rfl, hcolon, hquad, hgroups⟩ := quadGroups_split hquads
      rw [withoutQuad_tail hcolon hquad]
      exact .full hgroups hlength
  | @gap head tail before after hhead htail hlength =>
    rcases afterGap_iff.mp htail with hplain | hquads
    · have hdot : '.' ∉ head ++ ':' :: ':' :: tail := by
        simp [BeforeGap.no_dot hhead, BeforeGap.no_dot hplain]
      rw [withoutQuad_of_not_mem hdot]
      exact .gap hhead hplain hlength
    · obtain ⟨first, quad, high, low, rfl, hcolon, hquad, hgroups⟩ := quadGroups_split hquads
      have hends : EndsAtColon (head ++ ':' :: ':' :: first) := by
        have hfirst := (hcolon.append []).append head
        simpa using hfirst
      have htext : head ++ ':' :: ':' :: (first ++ quad) = (head ++ ':' :: ':' :: first) ++ quad := by simp
      rw [htext, withoutQuad_tail hends hquad, List.append_assoc]
      exact .gap hhead (.inr hgroups) hlength

/-! ## Groups -/

theorem groupValue_of_isGroup {n : ℕ} (h : IsGroup text n) : groupValue text = some n := by
  have hall : text.takeWhile isHexDigit = text := List.takeWhile_eq_self_iff.mpr h.2.2.1
  have hne : text.isEmpty = false := List.isEmpty_eq_false_iff.mpr h.part.1
  rw [groupValue, hall, hne, parseInt_eq_denoted, ← h.2.2.2]
  rfl

theorem mapM_groupValue (h : Groups text words) : (splitAt ':' text).mapM groupValue = some words := by
  induction h with
  | one hgroup =>
    rw [splitAt_of_not_mem hgroup.part.2.1]
    simp [groupValue_of_isGroup hgroup]
  | cons hgroup _ ih =>
    rw [splitAt_append hgroup.part.2.1, List.mapM_cons, groupValue_of_isGroup hgroup, ih]
    rfl

theorem halfParts_eq (h : BeforeGap text words) : (halfParts text).mapM groupValue = some words := by
  rcases h with ⟨rfl, rfl⟩ | hgroups
  · rfl
  · have hne : text.isEmpty = false := by
      obtain ⟨c, rest, rfl, -⟩ := hgroups.spaced.1.head
      rfl
    rw [halfParts, hne]
    exact mapM_groupValue hgroups

theorem length_of_mapM {α β : Type} {f : α → Option β} : ∀ {l : List α} {r : List β}, l.mapM f = some r → r.length = l.length
  | [], r, h => by
    obtain rfl := Option.some.inj h
    rfl
  | x :: l, r, h => by
    rw [List.mapM_cons] at h
    obtain ⟨y, -, h⟩ := Option.bind_eq_some_iff.mp h
    obtain ⟨ys, hys, h⟩ := Option.bind_eq_some_iff.mp h
    obtain rfl := Option.some.inj h
    rw [List.length_cons, List.length_cons, length_of_mapM hys]

theorem mapM_zeros (n : ℕ) : (List.replicate n ['0']).mapM groupValue = some (List.replicate n 0) := by
  induction n with
  | zero => rfl
  | succ n ih =>
    rw [List.replicate_succ, List.mapM_cons, ih]
    rfl

/-- **The groups of a text of an address are the words that it denotes.** -/
theorem ipv6GroupsOf_eq (h : Ipv6Text (withoutZone text) words) : ipv6GroupsOf text = some words := by
  have hform := withoutQuad_ipv6Text h
  unfold ipv6GroupsOf
  generalize withoutQuad (withoutZone text) = written at hform
  dsimp only
  cases hform with
  | full hgroups hlength =>
    have hparts := halfParts_eq (.inr hgroups)
    have hsize : (halfParts written).length = 8 := by rw [← length_of_mapM hparts, hlength]
    rw [hgroups.spaced.1.splitDoubleColon, List.headD_cons, List.length_singleton]
    simp [IPV6_GROUPS, hsize, hparts]
  | @gap head tail before after hhead htail hlength =>
    have hfirst := halfParts_eq hhead
    have hlast := halfParts_eq htail
    have hfirstSize := length_of_mapM hfirst
    have hlastSize := length_of_mapM hlast
    have hhalves : splitDoubleColon (head ++ ':' :: ':' :: tail) = [head, tail] := by
      rw [(afterGap_iff.mpr (.inl hhead)).splitDoubleColon_gap, (afterGap_iff.mpr (.inl htail)).splitDoubleColon]
    rw [hhalves]
    simp only [List.headD_cons, List.length_cons, List.length_nil, Nat.reduceAdd, Nat.lt_irrefl, Nat.reduceEqDiff, if_false,
      false_or, IPV6_GROUPS, List.getD_cons_succ, List.getD_cons_zero, if_true, List.length_append,
      List.length_replicate, List.mapM_append, hfirst, hlast, mapM_zeros, ← hfirstSize, ← hlastSize,
      List.append_assoc]
    simp [filled]
    omega

end

end SlugBase.Client
