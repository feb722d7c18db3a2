import SlugBase.Breached.Lookup
import Mathlib.Data.List.Chain

/-!
# The lookup is exact

* **`createBreachedPasswords_ok_iff`**: the arrays that are accepted are those of datasets;
* **`range_eq`**: a range is the suffixes of the records that start with its prefix;
* **`has_eq`**: a password is found when its digest is a record;
* **`breachedPasswords_exact`**: all of it, for every array.
-/

namespace SlugBase.Breached

open SortedSearch

/-! ## What is accepted -/

variable {records : List (List UInt8)} {bytes : List UInt8}

theorem count_flatten (hwhole : ∀ r ∈ records, r.length = DIGEST_BYTES) : count records.flatten = records.length := by
  rw [count, flatten_length hwhole, Nat.mul_div_cancel_left _ (by decide)]

theorem recordAt_flatten (hwhole : ∀ r ∈ records, r.length = DIGEST_BYTES) {index : ℕ} (h : index < records.length) :
    recordAt records.flatten index = records[index] := by
  have hrecords := recordsOf_flatten hwhole
  have hget : (recordsOf records.flatten)[index]? = some (recordAt records.flatten index) := by
    rw [recordsOf, List.getElem?_map, List.getElem?_range (by rw [count_flatten hwhole]; exact h), Option.map_some]
  rw [hrecords, List.getElem?_eq_getElem h] at hget
  exact (Option.some.inj hget).symm

/-- The check of the order is that of the records. -/
theorem unsorted_flatten (hwhole : ∀ r ∈ records, r.length = DIGEST_BYTES) :
    unsorted records.flatten = false ↔ records.Pairwise (· < ·) := by
  rw [← List.isChain_iff_pairwise, List.isChain_iff_getElem, unsorted, List.any_eq_false, count_flatten hwhole]
  have hstep : ∀ index (h : index + 1 < records.length),
      compareRecords records.flatten index (index + 1) < 0 ↔ records[index] < records[index + 1] := by
    intro index h
    have hbefore : index < records.length := Nat.lt_of_succ_lt h
    have hleft := recordAt_flatten hwhole hbefore
    have hright := recordAt_flatten hwhole h
    have hl := hwhole _ (List.getElem_mem (l := records) (n := index) (by omega))
    have hr := hwhole _ (List.getElem_mem h)
    rw [compareRecords_eq (by rw [hleft, hl]) (by rw [hright, hr]), hleft, hright, firstDifference_neg (by rw [hl, hr])]
  constructor
  · intro h index hindex
    have hno := h (index + 1) (by rw [List.mem_range'_1]; omega)
    rw [Nat.add_sub_cancel, decide_eq_true_eq, not_le] at hno
    exact (hstep index hindex).mp hno
  · intro h index hindex
    rw [List.mem_range'_1] at hindex
    obtain ⟨before, rfl⟩ : ∃ n, index = n + 1 := ⟨index - 1, by omega⟩
    rw [Nat.add_sub_cancel, decide_eq_true_eq, not_le]
    exact (hstep before (by omega)).mpr (h before (by omega))

/-- **The arrays that are accepted are those of datasets.** -/
theorem createBreachedPasswords_ok_iff (array : Uint8Array) :
    (∃ b, createBreachedPasswords array = .ok b) ↔ ∃ d : Dataset, d.records.flatten = array.bytes := by
  constructor
  · rintro ⟨b, hb⟩
    unfold createBreachedPasswords at hb
    split_ifs at hb with hempty hwhole hsorted
    rw [not_not] at hwhole
    have hparts : array.bytes.length = DIGEST_BYTES * (array.bytes.length / DIGEST_BYTES) :=
      (Nat.mul_div_cancel' (Nat.dvd_of_mod_eq_zero hwhole)).symm
    obtain ⟨records, hlength, hrecords, hflat⟩ := exists_records (array.bytes.length / DIGEST_BYTES) hparts
    rw [← hflat, Bool.not_eq_true, unsorted_flatten hrecords] at hsorted
    refine ⟨⟨records, ?_, hrecords, hsorted⟩, hflat⟩
    rintro rfl
    rw [← hflat] at hempty
    exact hempty rfl
  · rintro ⟨d, hd⟩
    have hlength := flatten_length d.whole
    have hsome := List.length_pos_iff.mpr d.hasRecord
    have hsorted := (unsorted_flatten d.whole).mpr d.ascending
    rw [hd] at hlength hsorted
    have hempty : array.bytes.length ≠ 0 := by
      rw [hlength]
      unfold DIGEST_BYTES
      omega
    have hwhole : ¬ array.bytes.length % DIGEST_BYTES ≠ 0 := by
      rw [hlength, Nat.mul_mod_right, not_not]
    have hunsorted : ¬ unsorted array.bytes = true := by
      rw [hsorted]
      exact Bool.false_ne_true
    unfold createBreachedPasswords
    rw [dif_neg hempty, dif_neg hwhole, dif_neg hunsorted]
    exact ⟨_, rfl⟩

theorem createBreachedPasswords_bytes {array : Uint8Array} {b : BreachedPasswords}
    (h : createBreachedPasswords array = .ok b) : b.bytes = array.bytes := by
  unfold createBreachedPasswords at h
  split_ifs at h
  cases h
  rfl

/-! ## What is found -/

variable {b : BreachedPasswords} {d : Dataset}

theorem prefixAt_mono (hd : d.records.flatten = b.bytes) (i j : ℕ) (hij : i ≤ j) (hj : j < count b.bytes) :
    prefixAt b.bytes i ≤ prefixAt b.bytes j := by
  rw [← hd, count_flatten d.whole] at hj
  rw [prefixAt_eq, prefixAt_eq, ← hd, recordAt_flatten d.whole (hij.trans_lt hj), recordAt_flatten d.whole hj]
  rcases hij.eq_or_lt with rfl | hlt
  · exact le_rfl
  · have hi := d.whole _ (List.getElem_mem (hij.trans_lt hj))
    have hj' := d.whole _ (List.getElem_mem hj)
    exact rangeOf_le (by rw [hi, hj']) (by rw [hi]; decide) (List.pairwise_iff_getElem.mp d.ascending i j _ hj hlt)

/-- **A range is the suffixes of the records that start with its prefix**, in their order. -/
theorem range_eq (hd : d.records.flatten = b.bytes) {text : List Char} (htext : isRangePrefix text = true) :
    b.range text = .ok ((d.records.filter fun r => decide ((upperHex r).take PREFIX_LENGTH = text.map Char.toUpper)).map
      fun r => (upperHex r).drop PREFIX_LENGTH) := by
  rw [BreachedPasswords.range, if_neg (by rw [htext]; exact Bool.false_ne_true)]
  dsimp only
  rw [matching_lowerBound b.middle (prefixAt_mono hd)]
  have hrecords : d.records = (List.range (count b.bytes)).map (recordAt b.bytes) := by
    rw [← recordsOf, ← hd, recordsOf_flatten d.whole]
  have hsame : ((List.range (count b.bytes)).filter fun i => decide (prefixAt b.bytes i = parseHex text)) =
      (List.range (count b.bytes)).filter ((fun r => decide ((upperHex r).take PREFIX_LENGTH = text.map Char.toUpper)) ∘
        recordAt b.bytes) := by
    refine List.filter_congr fun i hi => ?_
    have hmem : recordAt b.bytes i ∈ d.records := by
      rw [hrecords]
      exact List.mem_map_of_mem hi
    rw [Function.comp_apply, decide_eq_decide, prefixAt_eq, take_upperHex_iff htext (by rw [d.whole _ hmem]; decide)]
  rw [hsame, hrecords, List.filter_map, List.map_map]
  rfl

theorem isRangePrefix_take {r : List UInt8} (hr : 3 ≤ r.length) : isRangePrefix ((upperHex r).take PREFIX_LENGTH) = true := by
  match r, hr with
  | x0 :: x1 :: x2 :: r, _ =>
    have hx0 := UInt8.toNat_lt x0
    have hx1 := UInt8.toNat_lt x1
    have hx2 := UInt8.toNat_lt x2
    simp only [upperHex_cons, PREFIX_LENGTH, List.take_succ_cons, List.take_zero, isRangePrefix, List.length_cons, List.length_nil,
      List.all_cons, List.all_nil, (digit_upper (by omega : x0.toNat / 16 < 16)).1, (digit_upper (by omega : x0.toNat % 16 < 16)).1,
      (digit_upper (by omega : x1.toNat / 16 < 16)).1, (digit_upper (by omega : x1.toNat % 16 < 16)).1,
      (digit_upper (by omega : x2.toNat / 16 < 16)).1, Bool.and_true]
    decide

theorem map_toUpper_upperHex : ∀ r : List UInt8, (upperHex r).map Char.toUpper = upperHex r
  | [] => rfl
  | x :: r => by
    have hdigit : ∀ {e : ℕ}, e < 16 → (Nat.digitChar e).toUpper.toUpper = (Nat.digitChar e).toUpper := by decide
    have hx := UInt8.toNat_lt x
    rw [upperHex_cons, List.map_cons, List.map_cons, hdigit (by omega), hdigit (by omega), map_toUpper_upperHex r]

/-- **A password is found when its digest is a record.** -/
theorem has_eq (hd : d.records.flatten = b.bytes) (sha1 : String → BreachedPasswords.Digest) (password : String) :
    b.has sha1 password = .ok (decide ((sha1 password).val ∈ d.records)) := by
  obtain ⟨digest, hlength⟩ : ∃ digest, digest = sha1 password := ⟨_, rfl⟩
  rw [BreachedPasswords.has, ← hlength]
  have hsize := digest.property
  have hsuffix : ((upperHex digest.val).drop PREFIX_LENGTH).length = SUFFIX_LENGTH := by
    rw [List.length_drop, length_upperHex, hsize]
    rfl
  rw [if_pos hsuffix, range_eq hd (isRangePrefix_take (by rw [hsize]; decide))]
  show Except.ok _ = Except.ok _
  congr 1
  rw [Bool.eq_iff_iff, List.contains_iff_mem, List.mem_map, decide_eq_true_eq]
  constructor
  · rintro ⟨r, hr, hdrop⟩
    rw [List.mem_filter, decide_eq_true_eq, List.map_take, map_toUpper_upperHex] at hr
    have hhex : upperHex r = upperHex digest.val := by
      rw [← List.take_append_drop PREFIX_LENGTH (upperHex r), hr.2, hdrop, List.take_append_drop]
    exact upperHex_injective hhex ▸ hr.1
  · intro hmem
    refine ⟨digest.val, ?_, rfl⟩
    rw [List.mem_filter, decide_eq_true_eq, List.map_take, map_toUpper_upperHex]
    exact ⟨hmem, rfl⟩

/-- **The lookup is exact**: the arrays that are accepted are the datasets, a range is the suffixes of the records with its
prefix, and a password is found exactly when its digest is a record. -/
theorem breachedPasswords_exact (array : Uint8Array) :
    ((∃ b, createBreachedPasswords array = .ok b) ↔ ∃ d : Dataset, d.records.flatten = array.bytes) ∧
    ∀ (b : BreachedPasswords) (d : Dataset), createBreachedPasswords array = .ok b → d.records.flatten = array.bytes →
      (∀ text, isRangePrefix text = true → b.range text = .ok
        ((d.records.filter fun r => decide ((upperHex r).take PREFIX_LENGTH = text.map Char.toUpper)).map
          fun r => (upperHex r).drop PREFIX_LENGTH)) ∧
      ∀ sha1 password, b.has sha1 password = .ok (decide ((sha1 password).val ∈ d.records)) := by
  refine ⟨createBreachedPasswords_ok_iff array, fun b d hb hd => ?_⟩
  have hbytes : d.records.flatten = b.bytes := by
    rw [hd, createBreachedPasswords_bytes hb]
  exact ⟨fun text htext => range_eq hbytes htext, fun sha1 password => has_eq hbytes sha1 password⟩

/-- Two records. -/
def twoRecords : Dataset where
  records := [List.replicate 20 1, List.replicate 20 2]
  hasRecord := by decide
  whole := by decide
  ascending := by decide

theorem breachedPasswords_exact_two : ∃ b, createBreachedPasswords ⟨twoRecords.records.flatten, by decide⟩ = .ok b ∧
    b.has (fun _ => ⟨List.replicate 20 2, rfl⟩) "password" = .ok true := by
  obtain ⟨b, hb⟩ := (breachedPasswords_exact ⟨twoRecords.records.flatten, by decide⟩).1.mpr ⟨twoRecords, rfl⟩
  have hhas := ((breachedPasswords_exact _).2 b twoRecords hb rfl).2 (fun _ => ⟨List.replicate 20 2, rfl⟩) "password"
  exact ⟨b, hb, hhas.trans (by decide)⟩

end SlugBase.Breached
