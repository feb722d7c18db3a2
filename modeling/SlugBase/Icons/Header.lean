import SlugBase.Icons.Codec
import Mathlib.Tactic.SplitIfs
import Mathlib.Order.Basic

/-!
# The entry and the header

What the directory's best entry and an accepted header promise.

* **`bestIcoEntry_best`**: the entry that is taken is in the file, and no entry in the file is larger or as large and
  deeper;
* **`fits_of_readHeader`**: palette, rows and mask of an accepted header lie inside the file.
-/

namespace SlugBase.Icons

open Places

section

variable {bytes : Bytes} {α β : Type}

theorem except_bind_eq_ok {ε : Type} {x : Except ε α} {f : α → Except ε β} {b : β} :
    (x >>= f) = .ok b ↔ ∃ a, x = .ok a ∧ f a = .ok b := by
  cases x with
  | error e =>
    have hbind : (Except.error e >>= f) = .error e := rfl
    simp [hbind]
  | ok a =>
    have hbind : (Except.ok a >>= f) = f a := rfl
    simp [hbind]

/-! ## The directory -/

/-- An entry is not taken instead of another: it is smaller, or as large and not deeper. -/
def IcoEntry.NotBetter (entry best : IcoEntry) : Prop :=
  entry.area < best.area ∨ (entry.area = best.area ∧ entry.bitCount ≤ best.bitCount)

theorem IcoEntry.NotBetter.trans {a b c : IcoEntry} (h : a.NotBetter b) (h' : b.NotBetter c) : a.NotBetter c := by
  unfold IcoEntry.NotBetter at *
  omega

theorem isBetter_some {best entry : IcoEntry} :
    (isBetter (some best) entry = true → best.NotBetter entry) ∧ (isBetter (some best) entry = false → entry.NotBetter best) := by
  simp only [isBetter, Bool.or_eq_true, Bool.and_eq_true, Bool.or_eq_false_iff, Bool.and_eq_false_iff, decide_eq_true_eq,
    decide_eq_false_iff_not, beq_iff_eq, beq_eq_false_iff_ne, IcoEntry.NotBetter]
  omega

/-- What the loop over the directory has found: the best of the entries so far that lie inside the file. -/
def BestOf (bytes : Bytes) (done : List ℕ) (best : Option IcoEntry) : Prop :=
  (∀ entry, best = some entry → entry.isInside bytes = true ∧ ∃ index ∈ done, icoEntry bytes index = .ok entry) ∧
    ∀ index ∈ done, ∀ entry, icoEntry bytes index = .ok entry → entry.isInside bytes = true →
      ∃ found, best = some found ∧ entry.NotBetter found

theorem bestOf_considerEntry {done : List ℕ} {index : ℕ} {best best' : Option IcoEntry} (h : BestOf bytes done best)
    (hstep : considerEntry bytes best index = .ok best') : BestOf bytes (done ++ [index]) best' := by
  obtain ⟨entry, hentry, hnext⟩ := except_bind_eq_ok.mp hstep
  have hbest : (if !entry.isInside bytes then best else if isBetter best entry then some entry else best) = best' :=
    Except.ok.inj hnext
  obtain ⟨hfound, hall⟩ := h
  have hkeep : (∃ found, best = some found ∧ entry.NotBetter found) ∨ entry.isInside bytes = false →
      BestOf bytes (done ++ [index]) best := by
    intro hcase
    refine ⟨fun found heq => ?_, fun other hmem same hsame hinside => ?_⟩
    · obtain ⟨hin, before, hbefore, hread⟩ := hfound found heq
      exact ⟨hin, before, List.mem_append_left _ hbefore, hread⟩
    · rcases List.mem_append.mp hmem with hmem | hmem
      · exact hall other hmem same hsame hinside
      · obtain rfl := List.mem_singleton.mp hmem
        obtain rfl := Except.ok.inj (hentry.symm.trans hsame)
        rcases hcase with hcase | hcase
        · exact hcase
        · rw [hinside] at hcase
          cases hcase
  have htake : (∀ found, best = some found → found.NotBetter entry) → entry.isInside bytes = true →
      BestOf bytes (done ++ [index]) (some entry) := by
    intro hbetter hin
    refine ⟨fun found heq => ?_, fun other hmem same hsame hinside => ?_⟩
    · obtain rfl := Option.some.inj heq
      exact ⟨hin, index, by simp, hentry⟩
    · rcases List.mem_append.mp hmem with hmem | hmem
      · obtain ⟨found, hsome, hnot⟩ := hall other hmem same hsame hinside
        exact ⟨entry, rfl, hnot.trans (hbetter found hsome)⟩
      · obtain rfl := List.mem_singleton.mp hmem
        obtain rfl := Except.ok.inj (hentry.symm.trans hsame)
        exact ⟨entry, rfl, .inr ⟨rfl, Nat.le_refl _⟩⟩
  cases hin : entry.isInside bytes with
  | false =>
    rw [hin, Bool.not_false, if_pos rfl] at hbest
    exact hbest ▸ hkeep (.inr hin)
  | true =>
    rw [hin, Bool.not_true, if_neg Bool.false_ne_true] at hbest
    cases best with
    | none =>
      rw [isBetter, if_pos rfl] at hbest
      exact hbest ▸ htake (fun found hnone => (by cases hnone)) hin
    | some found =>
      cases hbetter : isBetter (some found) entry with
      | true =>
        rw [hbetter, if_pos rfl] at hbest
        exact hbest ▸ htake (fun same heq => Option.some.inj heq ▸ isBetter_some.1 hbetter) hin
      | false =>
        rw [hbetter, if_neg Bool.false_ne_true] at hbest
        exact hbest ▸ hkeep (.inl ⟨found, rfl, isBetter_some.2 hbetter⟩)

theorem bestOf_foldlM : ∀ (indices done : List ℕ) {best best' : Option IcoEntry}, BestOf bytes done best →
    indices.foldlM (considerEntry bytes) best = .ok best' → BestOf bytes (done ++ indices) best'
  | [], done, best, best', h, hrun => by
    rw [List.foldlM_nil] at hrun
    obtain rfl : best = best' := Except.ok.inj hrun
    rwa [List.append_nil]
  | index :: indices, done, best, best', h, hrun => by
    rw [List.foldlM_cons] at hrun
    obtain ⟨between, hfirst, hrest⟩ := except_bind_eq_ok.mp hrun
    have hend := bestOf_foldlM indices (done ++ [index]) (bestOf_considerEntry h hfirst) hrest
    rwa [List.append_assoc, List.singleton_append] at hend

/-- **The entry that is taken** is one of the directory, its data lie inside the file, and no entry whose data lie
inside the file is larger, or as large and deeper. -/
theorem bestIcoEntry_best {best : IcoEntry} (h : bestIcoEntry bytes = .ok best) :
    ∃ count, getUint16 bytes 4 = .ok count ∧ (∃ index < count, icoEntry bytes index = .ok best) ∧
      0 < best.size ∧ best.offset + best.size ≤ bytes.length ∧
      ∀ index < count, ∀ entry, icoEntry bytes index = .ok entry → 0 < entry.size →
        entry.offset + entry.size ≤ bytes.length → entry.NotBetter best := by
  have hinside {entry : IcoEntry} : entry.isInside bytes = true ↔ 0 < entry.size ∧ entry.offset + entry.size ≤ bytes.length := by
    rw [IcoEntry.isInside, Bool.not_eq_true', Bool.or_eq_false_iff, beq_eq_false_iff_ne, decide_eq_false_iff_not]
    omega
  obtain ⟨count, hcount, hrest⟩ := except_bind_eq_ok.mp h
  refine ⟨count, hcount, ?_⟩
  split_ifs at hrest with hbad
  obtain ⟨found, hrun, hfound⟩ := except_bind_eq_ok.mp hrest
  have hstart : BestOf bytes [] none := ⟨fun _ hnone => (by cases hnone), fun _ hmem => (by cases hmem)⟩
  obtain ⟨hbest, hall⟩ := bestOf_foldlM _ _ hstart hrun
  rw [List.nil_append] at hbest hall
  cases found with
  | none => cases hfound
  | some entry =>
    obtain rfl : entry = best := Except.ok.inj hfound
    obtain ⟨hin, index, hindex, hentry⟩ := hbest entry rfl
    obtain ⟨hsize, hend⟩ := hinside.mp hin
    refine ⟨⟨index, List.mem_range.mp hindex, hentry⟩, hsize, hend, fun other hother same hsame hpos hfit => ?_⟩
    obtain ⟨found, heq, hnot⟩ := hall other (List.mem_range.mpr hother) same hsame (hinside.mpr ⟨hpos, hfit⟩)
    rwa [← Option.some.inj heq] at hnot

theorem icoEntry_answers {count index : ℕ} (hindex : index < count)
    (hfile : ICO_HEADER_BYTES + count * ICO_ENTRY_BYTES ≤ bytes.length) : ∃ entry, icoEntry bytes index = .ok entry := by
  have hread (width place : ℕ) (hend : place + width ≤ ICO_HEADER_BYTES + index * ICO_ENTRY_BYTES + ICO_ENTRY_BYTES) :
      ∃ value, getUint width bytes place = .ok value := by
    refine ⟨_, if_pos ?_⟩
    simp only [ICO_HEADER_BYTES, ICO_ENTRY_BYTES] at hfile hend
    omega
  obtain ⟨width, hwidth⟩ := hread 1 (ICO_HEADER_BYTES + index * ICO_ENTRY_BYTES) (by simp only [ICO_ENTRY_BYTES]; omega)
  obtain ⟨height, hheight⟩ := hread 1 (ICO_HEADER_BYTES + index * ICO_ENTRY_BYTES + 1) (by simp only [ICO_ENTRY_BYTES]; omega)
  obtain ⟨depth, hdepth⟩ := hread 2 (ICO_HEADER_BYTES + index * ICO_ENTRY_BYTES + 6) (by simp only [ICO_ENTRY_BYTES]; omega)
  obtain ⟨size, hsize⟩ := hread 4 (ICO_HEADER_BYTES + index * ICO_ENTRY_BYTES + 8) (by simp only [ICO_ENTRY_BYTES]; omega)
  obtain ⟨offset, hoffset⟩ := hread 4 (ICO_HEADER_BYTES + index * ICO_ENTRY_BYTES + 12) (by simp only [ICO_ENTRY_BYTES]; omega)
  simp only [icoEntry, getUint8, getUint16, getUint32, hwidth, hheight, hdepth, hsize, hoffset]
  exact ⟨_, rfl⟩

theorem considerEntries_answer : ∀ (indices : List ℕ), (∀ index ∈ indices, ∃ entry, icoEntry bytes index = .ok entry) →
    ∀ best, ∃ best', indices.foldlM (considerEntry bytes) best = .ok best'
  | [], _, best => ⟨best, rfl⟩
  | index :: indices, h, best => by
    obtain ⟨entry, hentry⟩ := h index List.mem_cons_self
    obtain ⟨best', hrest⟩ := considerEntries_answer indices (fun other hmem => h other (List.mem_cons_of_mem _ hmem))
      (if !entry.isInside bytes then best else if isBetter best entry then some entry else best)
    refine ⟨best', ?_⟩
    rw [List.foldlM_cons, considerEntry, hentry]
    exact hrest

/-- **A directory with an entry whose data lie inside the file is answered.** -/
theorem bestIcoEntry_answers {count index : ℕ} {entry : IcoEntry} (hcount : getUint16 bytes 4 = .ok count)
    (hmax : count ≤ ICO_MAX_ENTRIES) (hfile : ICO_HEADER_BYTES + count * ICO_ENTRY_BYTES ≤ bytes.length)
    (hindex : index < count) (hentry : icoEntry bytes index = .ok entry) (hsize : 0 < entry.size)
    (hend : entry.offset + entry.size ≤ bytes.length) : ∃ best, bestIcoEntry bytes = .ok best := by
  obtain ⟨found, hrun⟩ := considerEntries_answer (List.range count)
    (fun other hmem => icoEntry_answers (List.mem_range.mp hmem) hfile) none
  have hstart : BestOf bytes [] none := ⟨fun _ hnone => (by cases hnone), fun _ hmem => (by cases hmem)⟩
  have hinside : entry.isInside bytes = true := by
    rw [IcoEntry.isInside, Bool.not_eq_true', Bool.or_eq_false_iff, beq_eq_false_iff_ne, decide_eq_false_iff_not]
    omega
  obtain ⟨best, rfl, -⟩ := (bestOf_foldlM _ _ hstart hrun).2 index (by simpa using hindex) entry hentry hinside
  refine ⟨best, ?_⟩
  have hgood : ¬(count = 0 ∨ ICO_MAX_ENTRIES < count ∨ bytes.length < ICO_HEADER_BYTES + count * ICO_ENTRY_BYTES) := by omega
  simp only [bestIcoEntry, hcount]
  show (if _ then _ else _) = _
  rw [if_neg hgood, hrun]
  rfl

/-! ## The header of a bitmap -/

/-- **What an accepted header promises**: the sizes are small, and the palette, the rows and the mask follow one another
inside the file. -/
structure Layout.Fits (bytes : Bytes) (l : Layout) : Prop where
  width : 1 ≤ l.width ∧ l.width ≤ ICO_MAX_EDGE
  height : 1 ≤ l.height ∧ l.height ≤ ICO_MAX_EDGE
  depth : l.bitCount ∈ [1, 4, 8, 24, 32]
  palette : l.paletteAt + l.paletteEntries * 4 ≤ l.bitsAt
  row : l.rowBytes = paddedBytes (l.width * l.bitCount)
  maskRow : l.maskRowBytes = paddedBytes l.width
  rows : l.maskAt = l.bitsAt + l.rowBytes * l.height
  inside : l.maskAt ≤ bytes.length
  mask : l.hasMask = true ↔ l.maskAt + l.maskRowBytes * l.height ≤ bytes.length

theorem paddedBytes_spec (bits : ℕ) : bits ≤ 8 * paddedBytes bits ∧ 8 * paddedBytes bits < bits + 32 ∧ paddedBytes bits % 4 = 0 := by
  unfold paddedBytes
  omega

theorem fits_of_check {f : DibHeader} {l : Layout} (h : f.check bytes.length = .ok l) : l.Fits bytes := by
  unfold DibHeader.check at h
  split_ifs at h with hsize hedges hdepth hpalette hinside
  obtain rfl := Except.ok.inj h
  simp only [not_or, not_not] at hedges hdepth
  obtain ⟨hwidth, hwidthMax, -, hheight, hheightMax⟩ := hedges
  have hpositive : 1 ≤ f.width.toNat ∧ f.width.toNat ≤ ICO_MAX_EDGE := by omega
  refine ⟨hpositive, ⟨Nat.not_lt.mp hheight, Nat.not_lt.mp hheightMax⟩, hdepth.1, ?_, rfl, rfl, rfl,
    Nat.not_lt.mp hinside, ?_⟩
  · change f.headerSize + f.paletteEntries * 4 ≤ f.bitsAt
    unfold DibHeader.bitsAt
    omega
  · exact decide_eq_true_iff

theorem fits_of_readHeader {l : Layout} (h : readHeader bytes = .ok l) : l.Fits bytes := by
  unfold readHeader at h
  split_ifs at h
  obtain ⟨fields, -, hcheck⟩ := except_bind_eq_ok.mp h
  exact fits_of_check hcheck

end

end SlugBase.Icons
