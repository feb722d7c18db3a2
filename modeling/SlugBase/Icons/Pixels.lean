import SlugBase.Icons.Colours

/-!
# The pixels of a bitmap

What the loops of `readDib` leave, and what they read on the way.

* `colourOf`: a pixel of an image; `Layout.shown`: what an accepted bitmap shows there;
* **`readDib_eq_ok`**: the image has four bytes for each pixel, each pixel shows what the bitmap says of it, and every
  place that is read is in the file;
* **`decoder_in_bounds`**: this, and the entry that is taken.
-/

namespace SlugBase.Icons

open Places

/-! ## Images -/

/-- Where a pixel of an image begins. -/
def outOf (width row column : ℕ) : ℕ := (row * width + column) * 4

/-- A pixel of an image. -/
def colourOf (data : List ℕ) (place : ℕ) : Colour :=
  ⟨data.getD place 0, data.getD (place + 1) 0, data.getD (place + 2) 0, data.getD (place + 3) 0⟩

section

variable {data : List ℕ} {width height row column row' column' place value other k k' : ℕ} {c : Colour}

theorem getD_set (hplace : place < data.length) : (data.set place value).getD other 0 = if place = other then value else data.getD other 0 := by
  rw [List.getD_eq_getElem?_getD, List.getElem?_set, List.getD_eq_getElem?_getD]
  split_ifs with heq <;> simp_all

theorem outOf_lt (hrow : row < height) (hcolumn : column < width) : outOf width row column + 4 ≤ width * height * 4 := by
  have hmul : (row + 1) * width ≤ height * width := Nat.mul_le_mul_right _ hrow
  rw [Nat.add_mul, Nat.one_mul, Nat.mul_comm height] at hmul
  unfold outOf
  omega

theorem outOf_inj (hcolumn : column < width) (hcolumn' : column' < width)
    (h : outOf width row column + k = outOf width row' column' + k') (hk : k < 4) (hk' : k' < 4) :
    row = row' ∧ column = column' ∧ k = k' := by
  unfold outOf at h
  have hcell : row * width + column = row' * width + column' := by omega
  have hpos : 0 < width := by omega
  have hdiv := congrArg (· / width) hcell
  simp only [Nat.mul_comm _ width, Nat.mul_add_div hpos, Nat.div_eq_of_lt hcolumn, Nat.div_eq_of_lt hcolumn',
    Nat.add_zero] at hdiv
  subst hdiv
  exact ⟨rfl, by omega, by omega⟩

theorem mem_cells {cell : ℕ × ℕ} : cell ∈ cells width height ↔ cell.1 < height ∧ cell.2 < width := by
  simp only [cells, List.mem_flatMap, List.mem_map, List.mem_range]
  constructor
  · rintro ⟨row, hrow, column, hcolumn, rfl⟩
    exact ⟨hrow, hcolumn⟩
  · rintro ⟨hrow, hcolumn⟩
    exact ⟨cell.1, hrow, cell.2, hcolumn, rfl⟩

/-- Writing a place of a pixel leaves the others. -/
theorem colourOf_set_of_ne (hlength : data.length = width * height * 4) (hrow : row < height) (hcolumn : column < width)
    (hcolumn' : column' < width) (hk : k < 4) (hne : ¬(row = row' ∧ column = column')) :
    colourOf (data.set (outOf width row column + k) value) (outOf width row' column') = colourOf data (outOf width row' column') := by
  have hplace : outOf width row column + k < data.length := by
    have hlt := outOf_lt hrow hcolumn
    omega
  have hsame : ∀ k' < 4, (data.set (outOf width row column + k) value).getD (outOf width row' column' + k') 0 =
      data.getD (outOf width row' column' + k') 0 := by
    intro k' hk'
    rw [getD_set hplace, if_neg]
    intro heq
    obtain ⟨hrows, hcolumns, -⟩ := outOf_inj hcolumn hcolumn' heq hk hk'
    exact hne ⟨hrows, hcolumns⟩
  have hfirst := hsame 0 (by omega)
  rw [Nat.add_zero] at hfirst
  unfold colourOf
  rw [hfirst, hsame 1 (by omega), hsame 2 (by omega), hsame 3 (by omega)]

theorem colourOf_set_alpha (hplace : place + 4 ≤ data.length) :
    colourOf (data.set (place + 3) value) place = { colourOf data place with alpha := value } := by
  unfold colourOf
  rw [getD_set (by omega), getD_set (by omega), getD_set (by omega), getD_set (by omega), if_neg (by omega),
    if_neg (by omega), if_neg (by omega), if_pos rfl]

/-- An image with a pixel written. -/
def painted (data : List ℕ) (place : ℕ) (c : Colour) : List ℕ :=
  (((data.set place c.red).set (place + 1) c.green).set (place + 2) c.blue).set (place + 3) c.alpha

theorem length_painted : (painted data place c).length = data.length := by simp [painted]

theorem colourOf_painted (hplace : place + 4 ≤ data.length) : colourOf (painted data place c) place = c := by
  unfold painted
  rw [colourOf_set_alpha (by simpa using hplace)]
  unfold colourOf
  rw [getD_set (by simp; omega), getD_set (by simp; omega), getD_set (by omega), getD_set (by simp; omega),
    getD_set (by simp; omega), getD_set (by omega), getD_set (by simp; omega)]
  simp

theorem colourOf_painted_of_ne (hlength : data.length = width * height * 4) (hrow : row < height) (hcolumn : column < width)
    (hcolumn' : column' < width) (hne : ¬(row = row' ∧ column = column')) :
    colourOf (painted data (outOf width row column) c) (outOf width row' column') = colourOf data (outOf width row' column') := by
  have hred : colourOf (data.set (outOf width row column + 0) c.red) (outOf width row' column') =
      colourOf data (outOf width row' column') := colourOf_set_of_ne hlength hrow hcolumn hcolumn' (by omega) hne
  rw [Nat.add_zero] at hred
  unfold painted
  rw [colourOf_set_of_ne (by simpa using hlength) hrow hcolumn hcolumn' (by omega) hne,
    colourOf_set_of_ne (by simpa using hlength) hrow hcolumn hcolumn' (by omega) hne,
    colourOf_set_of_ne (by simpa using hlength) hrow hcolumn hcolumn' (by omega) hne, hred]

end

section

variable {bytes : Bytes} {l : Layout} {record record' : List ℕ}

/-! ## The loop over the pixels -/

/-- Whether a pixel has an alpha of its own. -/
def Layout.hasAlpha (l : Layout) (bytes : Bytes) (cell : ℕ × ℕ) : Bool :=
  l.bitCount == 32 && (l.denoted bytes cell.1 cell.2).alpha != 0

/-- What the loop over the pixels has done. -/
structure Painted (bytes : Bytes) (l : Layout) (done : List (ℕ × ℕ)) (s : Painting) : Prop where
  length : s.data.length = l.width * l.height * 4
  colours : ∀ cell ∈ done, cell.1 < l.height ∧ cell.2 < l.width ∧
    colourOf s.data (outOf l.width cell.1 cell.2) = l.denoted bytes cell.1 cell.2
  alpha : s.anyAlpha = done.any (l.hasAlpha bytes)

theorem painted_paintCell (hfits : l.Fits bytes) {done : List (ℕ × ℕ)} {cell : ℕ × ℕ} {s s' : Painting}
    (hcell : cell.1 < l.height ∧ cell.2 < l.width) (hs : Painted bytes l done s)
    (h : paintCell bytes l s cell record = .ok (s', record')) :
    Painted bytes l (done ++ [cell]) s' ∧ Within bytes.length record record' := by
  obtain ⟨c, between, hcolour, hnext⟩ := bind_eq_ok.mp h
  obtain ⟨rfl, hwithin⟩ := readColour_eq_ok hfits hcell.1 hcell.2 hcolour
  obtain ⟨rfl, rfl⟩ := pure_eq_ok.mp hnext
  have hplace : outOf l.width cell.1 cell.2 + 4 ≤ s.data.length := hs.length ▸ outOf_lt hcell.1 hcell.2
  refine ⟨⟨?_, fun other hother => ?_, ?_⟩, hwithin⟩
  · exact length_painted.trans hs.length
  · by_cases hsame : cell.1 = other.1 ∧ cell.2 = other.2
    · obtain rfl : cell = other := Prod.ext hsame.1 hsame.2
      exact ⟨hcell.1, hcell.2, colourOf_painted hplace⟩
    · rcases List.mem_append.mp hother with hother | hother
      · obtain ⟨hrow, hcolumn, hcolour⟩ := hs.colours other hother
        exact ⟨hrow, hcolumn, (colourOf_painted_of_ne hs.length hcell.1 hcell.2 hcolumn hsame).trans hcolour⟩
      · obtain rfl := List.mem_singleton.mp hother
        exact absurd ⟨rfl, rfl⟩ hsame
  · rw [List.any_append, List.any_cons, List.any_nil, Bool.or_false, ← hs.alpha]
    rfl

/-! ## The loop over the mask -/

/-- What the mask says of a pixel. -/
def Layout.maskAlpha (l : Layout) (bytes : Bytes) (row column : ℕ) : ℕ := if l.maskBit bytes row column = 1 then 0 else 255

/-- What the loop over the mask has done. -/
structure Masked (bytes : Bytes) (l : Layout) (before : List ℕ) (done : List (ℕ × ℕ)) (data : List ℕ) : Prop where
  length : data.length = l.width * l.height * 4
  colours : ∀ row column, row < l.height → column < l.width → colourOf data (outOf l.width row column) =
    if (row, column) ∈ done then { colourOf before (outOf l.width row column) with alpha := l.maskAlpha bytes row column }
    else colourOf before (outOf l.width row column)

theorem masked_maskCell (hfits : l.Fits bytes) (hmask : l.hasMask = true) {before data data' : List ℕ}
    {done : List (ℕ × ℕ)} {cell : ℕ × ℕ} (hcell : cell.1 < l.height ∧ cell.2 < l.width)
    (hs : Masked bytes l before done data) (h : maskCell bytes l data cell record = .ok (data', record')) :
    Masked bytes l before (done ++ [cell]) data' ∧ Within bytes.length record record' := by
  obtain ⟨byte, between, hbyte, hnext⟩ := bind_eq_ok.mp h
  obtain ⟨hbit, hwithin⟩ := readMask_eq_ok hfits hmask hcell.1 hcell.2 hbyte
  obtain ⟨rfl, rfl⟩ := pure_eq_ok.mp hnext
  have hplace : outOf l.width cell.1 cell.2 + 4 ≤ data.length := hs.length ▸ outOf_lt hcell.1 hcell.2
  have hvalue : (if (byte >>> (7 - cell.2 % 8)) &&& 1 == 1 then 0 else 255) = l.maskAlpha bytes cell.1 cell.2 := by
    rw [hbit, Layout.maskAlpha]
    simp only [beq_iff_eq]
  refine ⟨⟨?_, fun row column hrow hcolumn => ?_⟩, hwithin⟩
  · rw [List.length_set, hs.length]
  · change colourOf (data.set (outOf l.width cell.1 cell.2 + 3) _) _ = _
    rw [hvalue]
    by_cases hsame : cell.1 = row ∧ cell.2 = column
    · obtain ⟨rfl, rfl⟩ := hsame
      have hmem : (cell.1, cell.2) ∈ done ++ [cell] := List.mem_append_right _ (List.mem_singleton.mpr rfl)
      rw [colourOf_set_alpha hplace, hs.colours _ _ hrow hcolumn, if_pos hmem]
      split_ifs <;> rfl
    · have hmem : (row, column) ∈ done ++ [cell] ↔ (row, column) ∈ done := by
        rw [List.mem_append, List.mem_singleton]
        refine ⟨fun hor => hor.elim id fun heq => absurd ?_ hsame, Or.inl⟩
        rw [← heq]
        exact ⟨rfl, rfl⟩
      rw [colourOf_set_of_ne hs.length hcell.1 hcell.2 hcolumn (by omega) hsame, hs.colours _ _ hrow hcolumn]
      simp only [hmem]

/-! ## The opaque image -/

/-- The loop that makes every pixel opaque. -/
def opaqued (data : List ℕ) : List ℕ :=
  (List.range (data.length / 4)).foldl (fun data index => data.set (3 + index * 4) 255) data

theorem opaqued_eq (data : List ℕ) : ∀ count, ((List.range count).foldl (fun data index => data.set (3 + index * 4) 255) data).length =
      data.length ∧ ∀ place, ((List.range count).foldl (fun data index => data.set (3 + index * 4) 255) data)[place]? =
        if place % 4 = 3 ∧ place / 4 < count ∧ place < data.length then some 255 else data[place]?
  | 0 => ⟨rfl, fun place => by simp⟩
  | count + 1 => by
    obtain ⟨hlength, hget⟩ := opaqued_eq data count
    rw [List.range_succ, List.foldl_append, List.foldl_cons, List.foldl_nil]
    refine ⟨by rw [List.length_set, hlength], fun place => ?_⟩
    rw [List.getElem?_set, hlength, hget]
    by_cases hlast : 3 + count * 4 = place
    · subst hlast
      have hmod : (3 + count * 4) % 4 = 3 ∧ (3 + count * 4) / 4 = count := by omega
      by_cases hin : 3 + count * 4 < data.length
      · simp [hin, hmod]
      · rw [if_pos rfl, if_neg hin, if_neg (by omega), List.getElem?_eq_none (by omega)]
    · have hiff : (place % 4 = 3 ∧ place / 4 < count + 1 ∧ place < data.length) ↔
          place % 4 = 3 ∧ place / 4 < count ∧ place < data.length := by omega
      simp only [if_neg hlast, hiff]

theorem colourOf_opaqued {data : List ℕ} {row column : ℕ} (hlength : data.length = l.width * l.height * 4)
    (hrow : row < l.height) (hcolumn : column < l.width) : colourOf (opaqued data) (outOf l.width row column) =
      { colourOf data (outOf l.width row column) with alpha := 255 } := by
  have hlt := outOf_lt hrow hcolumn
  have hmod : outOf l.width row column % 4 = 0 := by
    unfold outOf
    omega
  have hget := (opaqued_eq data (data.length / 4)).2
  simp only [colourOf, List.getD_eq_getElem?_getD, opaqued, hget]
  rw [if_neg (by omega), if_neg (by omega), if_neg (by omega), if_pos (by omega)]
  rfl

/-! ## All together -/

/-- Whether any pixel has an alpha of its own. -/
def Layout.anyAlpha (l : Layout) (bytes : Bytes) : Bool := (cells l.width l.height).any (l.hasAlpha bytes)

/-- **What an accepted bitmap shows**: the colour of the pixel, with the alpha of the mask when there is one and no pixel
has an alpha of its own, and opaque when there is neither. -/
def Layout.shown (l : Layout) (bytes : Bytes) (row column : ℕ) : Colour :=
  if l.hasMask && (l.bitCount != 32 || !l.anyAlpha bytes) then
    { l.denoted bytes row column with alpha := l.maskAlpha bytes row column }
  else if l.bitCount == 32 && !l.anyAlpha bytes then { l.denoted bytes row column with alpha := 255 }
  else l.denoted bytes row column

/-- **The image of an accepted bitmap**: four bytes for each pixel, and each pixel shows what the bitmap says of it; and
every place that is read on the way is in the file. -/
theorem readDib_eq_ok {pixels : Pixels} (h : readDib bytes [] = .ok (pixels, record)) :
    ∃ l, readHeader bytes = .ok l ∧ l.Fits bytes ∧ (∀ place ∈ record, place < bytes.length) ∧
      pixels.width = l.width ∧ pixels.height = l.height ∧ pixels.data.length = l.width * l.height * 4 ∧
      ∀ row column, row < l.height → column < l.width →
        colourOf pixels.data (outOf l.width row column) = l.shown bytes row column := by
  unfold readDib at h
  cases hheader : readHeader bytes with
  | error e =>
    rw [hheader] at h
    cases h
  | ok l =>
    rw [hheader] at h
    have hfits := fits_of_readHeader hheader
    have hvalid : ∀ cell ∈ cells l.width l.height, cell.1 < l.height ∧ cell.2 < l.width := fun cell => mem_cells.mp
    obtain ⟨s, between, hloop, hrest⟩ := bind_eq_ok.mp h
    have hstart : Painted bytes l [] ⟨List.replicate (l.width * l.height * 4) 0, false⟩ :=
      ⟨List.length_replicate, fun cell hcell => absurd hcell List.not_mem_nil, rfl⟩
    obtain ⟨hpainted, hwithin⟩ := foldlM_eq_ok (Painted bytes l) _
      (fun done cell s s' _ _ hcell hs hstep => painted_paintCell hfits hcell hs hstep) _ _ hvalid hstart hloop
    rw [List.nil_append] at hpainted
    have halpha : s.anyAlpha = l.anyAlpha bytes := hpainted.alpha
    have hcolour : ∀ row column, row < l.height → column < l.width →
        colourOf s.data (outOf l.width row column) = l.denoted bytes row column := by
      intro row column hrow hcolumn
      have hmem : (row, column) ∈ cells l.width l.height := mem_cells.mpr ⟨hrow, hcolumn⟩
      exact (hpainted.colours _ hmem).2.2
    have hrecord : ∀ {final : List ℕ}, Within bytes.length between final → ∀ place ∈ final, place < bytes.length := by
      intro final hmore
      obtain ⟨places, hplaces, hin⟩ := hwithin.trans hmore
      rw [List.nil_append] at hplaces
      exact hplaces ▸ hin
    refine ⟨l, rfl, hfits, ?_⟩
    rw [halpha] at hrest
    by_cases hmasked : (l.hasMask && (l.bitCount != 32 || !l.anyAlpha bytes)) = true
    · rw [if_pos hmasked] at hrest
      obtain ⟨data, final, hmaskLoop, hpure⟩ := bind_eq_ok.mp hrest
      obtain ⟨rfl, rfl⟩ := pure_eq_ok.mp hpure
      have hmask : l.hasMask = true := (Bool.and_eq_true_iff.mp hmasked).1
      have hbegin : Masked bytes l s.data [] s.data := ⟨hpainted.length, fun row column _ _ => by simp⟩
      obtain ⟨hdone, hmore⟩ := foldlM_eq_ok (Masked bytes l s.data) _
        (fun done cell d d' _ _ hcell hs hstep => masked_maskCell hfits hmask hcell hs hstep) _ _ hvalid hbegin hmaskLoop
      rw [List.nil_append] at hdone
      refine ⟨hrecord hmore, rfl, rfl, hdone.length, fun row column hrow hcolumn => ?_⟩
      have hmem : (row, column) ∈ cells l.width l.height := mem_cells.mpr ⟨hrow, hcolumn⟩
      rw [hdone.colours row column hrow hcolumn, if_pos hmem, hcolour row column hrow hcolumn, Layout.shown, if_pos hmasked]
    · rw [if_neg hmasked] at hrest
      by_cases hopaque : (l.bitCount == 32 && !l.anyAlpha bytes) = true
      · rw [if_pos hopaque] at hrest
        obtain ⟨rfl, rfl⟩ := pure_eq_ok.mp hrest
        refine ⟨hrecord (Within.refl _ _), rfl, rfl, (opaqued_eq s.data _).1.trans hpainted.length,
          fun row column hrow hcolumn => ?_⟩
        have hshown := colourOf_opaqued hpainted.length hrow hcolumn
        rw [hcolour row column hrow hcolumn] at hshown
        rw [Layout.shown, if_neg hmasked, if_pos hopaque]
        exact hshown
      · rw [if_neg hopaque] at hrest
        obtain ⟨rfl, rfl⟩ := pure_eq_ok.mp hrest
        refine ⟨hrecord (Within.refl _ _), rfl, rfl, hpainted.length, fun row column hrow hcolumn => ?_⟩
        rw [Layout.shown, if_neg hmasked, if_neg hopaque]
        exact hcolour row column hrow hcolumn

end

/-- **The icon decoder stays in bounds.** When `readDib` accepts, every place that its loops read is in the array, and the
image has four bytes for each pixel, which are those of the pixel's place in the bitmap; and `bestIcoEntry` answers an
entry whose data lie inside the file, the greatest of them by area and then by depth, whenever a whole directory has one. -/
theorem decoder_in_bounds :
    (∀ (bytes : Bytes) (pixels : Pixels) (record : List ℕ), readDib bytes [] = .ok (pixels, record) →
      ∃ l, readHeader bytes = .ok l ∧ l.Fits bytes ∧ (∀ place ∈ record, place < bytes.length) ∧
        pixels.width = l.width ∧ pixels.height = l.height ∧ pixels.data.length = pixels.width * pixels.height * 4 ∧
        ∀ row column, row < l.height → column < l.width →
          colourOf pixels.data (outOf l.width row column) = l.shown bytes row column) ∧
    (∀ (bytes : Bytes) (best : IcoEntry), bestIcoEntry bytes = .ok best →
      ∃ count, getUint16 bytes 4 = .ok count ∧ (∃ index < count, icoEntry bytes index = .ok best) ∧
        0 < best.size ∧ best.offset + best.size ≤ bytes.length ∧
        ∀ index < count, ∀ entry, icoEntry bytes index = .ok entry → 0 < entry.size →
          entry.offset + entry.size ≤ bytes.length → entry.NotBetter best) ∧
    ∀ (bytes : Bytes) (count : ℕ), getUint16 bytes 4 = .ok count → count ≤ ICO_MAX_ENTRIES →
      ICO_HEADER_BYTES + count * ICO_ENTRY_BYTES ≤ bytes.length → ∀ index < count, ∀ entry,
        icoEntry bytes index = .ok entry → 0 < entry.size → entry.offset + entry.size ≤ bytes.length →
          ∃ best, bestIcoEntry bytes = .ok best := by
  refine ⟨fun bytes pixels record h => ?_, fun bytes best h => bestIcoEntry_best h,
    fun _ _ hcount hmax hfile _ hindex _ => bestIcoEntry_answers hcount hmax hfile hindex⟩
  obtain ⟨l, hheader, hfits, hrecord, hwidth, hheight, hlength, hcolours⟩ := readDib_eq_ok h
  exact ⟨l, hheader, hfits, hrecord, hwidth, hheight, by rw [hwidth, hheight, hlength], hcolours⟩

/-- A bitmap of one pixel in 24 bits, bottom-up, with its mask. -/
def onePixel : Bytes :=
  [40, 0, 0, 0, 1, 0, 0, 0, 2, 0, 0, 0, 1, 0, 24, 0] ++ List.replicate 24 0 ++ [7, 8, 9, 0] ++ [128, 0, 0, 0]

theorem decoder_onePixel : ∃ l, readHeader onePixel = .ok l ∧ (∀ place ∈ [40, 41, 42, 44], place < onePixel.length) ∧
    colourOf [9, 8, 7, 0] (outOf l.width 0 0) = l.shown onePixel 0 0 := by
  have hread : readDib onePixel [] = .ok (⟨[9, 8, 7, 0], 1, 1⟩, [40, 41, 42, 44]) := by decide +kernel
  obtain ⟨l, hheader, hfits, hrecord, -, -, -, hcolours⟩ := decoder_in_bounds.1 _ _ _ hread
  exact ⟨l, hheader, hrecord, hcolours 0 0 hfits.height.1 hfits.width.1⟩

end SlugBase.Icons
