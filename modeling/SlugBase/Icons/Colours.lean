import SlugBase.Icons.Header

/-!
# The colours of a bitmap

What a bitmap says of each pixel, and that the loops read it inside the file.

* `bitsFrom`: the number of consecutive bits of a file; `Layout.denoted`: the colour of a pixel;
* **`readColour_eq_ok`**, **`readMask_eq_ok`**: the places that one turn of the loops reads are in the file, and what it
  reads is what the bitmap says.
-/

namespace SlugBase.Icons

open Places

/-! ## What the bitmap says -/

/-- A byte of a file. -/
def byteAt (bytes : Bytes) (place : ℕ) : ℕ := (bytes.getD place 0).toNat

/-- A bit of a byte, the highest first. -/
def bitOfByte (byte index : ℕ) : ℕ := (byte.testBit (7 - index)).toNat

/-- The number of consecutive bits of a byte. -/
def byteBits (byte start : ℕ) : ℕ → ℕ
  | 0 => 0
  | count + 1 => 2 * byteBits byte start count + bitOfByte byte (start + count)

/-- The number of consecutive bits of a file. -/
def bitsFrom (bytes : Bytes) (start : ℕ) : ℕ → ℕ
  | 0 => 0
  | count + 1 => 2 * bitsFrom bytes start count + bitOfByte (byteAt bytes ((start + count) / 8)) ((start + count) % 8)

/-- The first bit of a pixel: the rows follow one another, padded, and the pixels of a row one another. -/
def Layout.pixelBit (l : Layout) (row column : ℕ) : ℕ :=
  8 * (l.bitsAt + l.source row * l.rowBytes) + column * l.bitCount

/-- **The colour of a pixel**: an entry of the palette, or the bytes of the pixel. -/
def Layout.denoted (l : Layout) (bytes : Bytes) (row column : ℕ) : Colour :=
  if l.bitCount ≤ 8 then
    let place := l.paletteAt + bitsFrom bytes (l.pixelBit row column) l.bitCount * 4
    ⟨byteAt bytes (place + 2), byteAt bytes (place + 1), byteAt bytes place, 255⟩
  else
    let place := l.pixelBit row column / 8
    ⟨byteAt bytes (place + 2), byteAt bytes (place + 1), byteAt bytes place,
      if l.bitCount = 32 then byteAt bytes (place + 3) else 255⟩

/-- The bit of the mask that is of a pixel. -/
def Layout.maskBit (l : Layout) (bytes : Bytes) (row column : ℕ) : ℕ :=
  bitsFrom bytes (8 * (l.maskAt + l.source row * l.maskRowBytes) + column) 1

section

variable {bytes : Bytes} {l : Layout} {row column : ℕ} {record record' : List ℕ}

/-! ## Bits -/

theorem bitsFrom_of_byte (bytes : Bytes) (place offset : ℕ) : ∀ count, offset + count ≤ 8 →
    bitsFrom bytes (8 * place + offset) count = byteBits (byteAt bytes place) offset count
  | 0, _ => rfl
  | count + 1, h => by
    rw [bitsFrom, byteBits, bitsFrom_of_byte bytes place offset count (by omega),
      (by omega : (8 * place + offset + count) / 8 = place), (by omega : (8 * place + offset + count) % 8 = offset + count)]

theorem shift_and_mask : ∀ byte < 256, ∀ offset < 8,
    (byte >>> (8 - 1 - offset)) &&& (2 ^ 1 - 1) = byteBits byte offset 1 ∧
      (offset ≤ 4 → (byte >>> (8 - 4 - offset)) &&& (2 ^ 4 - 1) = byteBits byte offset 4) ∧
      (offset = 0 → (byte >>> (8 - 8 - offset)) &&& (2 ^ 8 - 1) = byteBits byte offset 8) := by
  decide +kernel

theorem byteAt_lt (bytes : Bytes) (place : ℕ) : byteAt bytes place < 256 := UInt8.toNat_lt _

/-- The index of a pixel is the number of its bits. -/
theorem index_eq_bitsFrom (bytes : Bytes) (line column depth : ℕ) (hdepth : depth ∈ [1, 4, 8]) :
    (byteAt bytes (line + column * depth / 8) >>> (8 - depth - column * depth % 8)) &&& (oneShifted depth - 1) =
      bitsFrom bytes (8 * line + column * depth) depth := by
  have hbit : 8 * line + column * depth = 8 * (line + column * depth / 8) + column * depth % 8 := by omega
  have hbyte := byteAt_lt bytes (line + column * depth / 8)
  have hmod : column * depth % 8 < 8 := Nat.mod_lt _ (by omega)
  obtain ⟨hone, hfour, height⟩ := shift_and_mask _ hbyte _ hmod
  simp only [List.mem_cons, List.not_mem_nil, or_false] at hdepth
  rcases hdepth with rfl | rfl | rfl
  · rw [hbit, bitsFrom_of_byte _ _ _ _ (by omega)]
    exact hone
  · have hoffset : column * 4 % 8 ≤ 4 := by omega
    rw [hbit, bitsFrom_of_byte _ _ _ _ (by omega)]
    exact hfour hoffset
  · have hoffset : column * 8 % 8 = 0 := by omega
    rw [hbit, bitsFrom_of_byte _ _ _ _ (by omega)]
    exact height hoffset

/-! ## Places -/

theorem source_lt (hrow : row < l.height) : l.source row < l.height := by
  unfold Layout.source
  split_ifs <;> omega

theorem row_le (hfits : l.Fits bytes) (hrow : row < l.height) :
    l.bitsAt + l.source row * l.rowBytes + l.rowBytes ≤ bytes.length := by
  have hmul : (l.source row + 1) * l.rowBytes ≤ l.height * l.rowBytes := Nat.mul_le_mul_right _ (source_lt hrow)
  have hrows := hfits.rows
  have hinside := hfits.inside
  rw [Nat.mul_comm l.rowBytes] at hrows
  rw [Nat.add_mul, Nat.one_mul] at hmul
  omega

theorem maskRow_le (hfits : l.Fits bytes) (hmask : l.hasMask = true) (hrow : row < l.height) :
    l.maskAt + l.source row * l.maskRowBytes + l.maskRowBytes ≤ bytes.length := by
  have hmul : (l.source row + 1) * l.maskRowBytes ≤ l.height * l.maskRowBytes :=
    Nat.mul_le_mul_right _ (source_lt hrow)
  have hrows := hfits.mask.mp hmask
  rw [Nat.mul_comm l.maskRowBytes] at hrows
  rw [Nat.add_mul, Nat.one_mul] at hmul
  omega

theorem column_le (hfits : l.Fits bytes) (hcolumn : column < l.width) :
    column * l.bitCount + l.bitCount ≤ 8 * l.rowBytes := by
  have hmul : (column + 1) * l.bitCount ≤ l.width * l.bitCount := Nat.mul_le_mul_right _ hcolumn
  have hpadded := (paddedBytes_spec (l.width * l.bitCount)).1
  rw [← hfits.row] at hpadded
  rw [Nat.add_mul, Nat.one_mul] at hmul
  omega

/-! ## One turn of the loops -/

theorem readAt_byte {place value : ℕ} (hplace : place < bytes.length)
    (h : (readAt bytes place : Reading ImageRefused ℕ) record = .ok (value, record')) :
    value = byteAt bytes place ∧ Within bytes.length record record' := readAt_eq_ok hplace h

/-- A pixel of whole bytes. -/
theorem readColour_whole (hfits : l.Fits bytes) (hrow : row < l.height) (hcolumn : column < l.width)
    (hdepth : l.bitCount = 32 ∨ l.bitCount = 24) {c : Colour}
    (h : readColour bytes l row column record = .ok (c, record')) :
    c = l.denoted bytes row column ∧ Within bytes.length record record' := by
  have hend := row_le hfits hrow
  have hbits := column_le hfits hcolumn
  have hdeep : ¬l.bitCount ≤ 8 := by omega
  have hplace : l.pixelBit row column / 8 = l.bitsAt + l.source row * l.rowBytes + column * (l.bitCount / 8) := by
    unfold Layout.pixelBit
    rcases hdepth with hdepth | hdepth <;> rw [hdepth] <;> omega
  have hlast : l.pixelBit row column / 8 + l.bitCount / 8 ≤ bytes.length := by
    rw [hplace]
    rcases hdepth with hdepth | hdepth <;> rw [hdepth] at hbits ⊢ <;> omega
  unfold readColour at h
  dsimp only at h
  rw [if_pos hdepth, ← hplace] at h
  obtain ⟨blue, record1, hblue, h⟩ := bind_eq_ok.mp h
  obtain ⟨green, record2, hgreen, h⟩ := bind_eq_ok.mp h
  obtain ⟨red, record3, hred, h⟩ := bind_eq_ok.mp h
  obtain ⟨rfl, hwithin1⟩ := readAt_byte (by omega) hblue
  obtain ⟨rfl, hwithin2⟩ := readAt_byte (by omega) hgreen
  obtain ⟨rfl, hwithin3⟩ := readAt_byte (by omega) hred
  have hcolours := hwithin1.trans (hwithin2.trans hwithin3)
  rw [Layout.denoted, if_neg hdeep]
  dsimp only
  rcases hdepth with hdepth | hdepth
  · rw [if_pos hdepth] at h ⊢
    obtain ⟨alpha, record4, halpha, h⟩ := bind_eq_ok.mp h
    obtain ⟨rfl, hwithin4⟩ := readAt_byte (by omega) halpha
    obtain ⟨rfl, rfl⟩ := pure_eq_ok.mp h
    exact ⟨rfl, hcolours.trans hwithin4⟩
  · have hnot : l.bitCount ≠ 32 := by omega
    rw [if_neg hnot] at h ⊢
    obtain ⟨rfl, rfl⟩ := pure_eq_ok.mp h
    exact ⟨rfl, hcolours⟩

/-- A pixel that is an index of the palette. -/
theorem readColour_indexed (hfits : l.Fits bytes) (hrow : row < l.height) (hcolumn : column < l.width)
    (hdepth : l.bitCount ∈ [1, 4, 8]) {c : Colour} (h : readColour bytes l row column record = .ok (c, record')) :
    c = l.denoted bytes row column ∧ Within bytes.length record record' := by
  have hend := row_le hfits hrow
  have hbits := column_le hfits hcolumn
  have hpalette := hfits.palette
  have hsmall : l.bitCount ≤ 8 ∧ 1 ≤ l.bitCount := by
    simp only [List.mem_cons, List.not_mem_nil, or_false] at hdepth
    omega
  have hshallow : ¬(l.bitCount = 32 ∨ l.bitCount = 24) := by omega
  unfold readColour at h
  dsimp only at h
  rw [if_neg hshallow] at h
  obtain ⟨byte, record1, hbyte, h⟩ := bind_eq_ok.mp h
  obtain ⟨rfl, hwithin1⟩ := readAt_byte (by omega) hbyte
  rw [index_eq_bitsFrom bytes _ _ _ hdepth] at h
  have hbit : 8 * (l.bitsAt + l.source row * l.rowBytes) + column * l.bitCount = l.pixelBit row column := rfl
  rw [hbit] at h
  split_ifs at h with hindex
  · cases h
  · obtain ⟨blue, record2, hblue, h⟩ := bind_eq_ok.mp h
    obtain ⟨green, record3, hgreen, h⟩ := bind_eq_ok.mp h
    obtain ⟨red, record4, hred, h⟩ := bind_eq_ok.mp h
    obtain ⟨rfl, hwithin2⟩ := readAt_byte (by omega) hblue
    obtain ⟨rfl, hwithin3⟩ := readAt_byte (by omega) hgreen
    obtain ⟨rfl, hwithin4⟩ := readAt_byte (by omega) hred
    obtain ⟨rfl, rfl⟩ := pure_eq_ok.mp h
    rw [Layout.denoted, if_pos hsmall.1]
    exact ⟨rfl, hwithin1.trans (hwithin2.trans (hwithin3.trans hwithin4))⟩

/-- **The colour that is read is the one that the bitmap says**, and is read inside the file. -/
theorem readColour_eq_ok (hfits : l.Fits bytes) (hrow : row < l.height) (hcolumn : column < l.width) {c : Colour}
    (h : readColour bytes l row column record = .ok (c, record')) :
    c = l.denoted bytes row column ∧ Within bytes.length record record' := by
  by_cases hwhole : l.bitCount = 32 ∨ l.bitCount = 24
  · exact readColour_whole hfits hrow hcolumn hwhole h
  · refine readColour_indexed hfits hrow hcolumn ?_ h
    have hdepth := hfits.depth
    simp only [List.mem_cons, List.not_mem_nil, or_false] at hdepth ⊢
    omega

/-- **The bit of the mask that is read is the one of the pixel**, and is read inside the file. -/
theorem readMask_eq_ok (hfits : l.Fits bytes) (hmask : l.hasMask = true) (hrow : row < l.height)
    (hcolumn : column < l.width) {byte : ℕ}
    (h : (readAt bytes (l.maskAt + l.source row * l.maskRowBytes + column / 8) : Reading ImageRefused ℕ) record =
      .ok (byte, record')) :
    (byte >>> (7 - column % 8)) &&& 1 = l.maskBit bytes row column ∧ Within bytes.length record record' := by
  have hend := maskRow_le hfits hmask hrow
  have hpadded := (paddedBytes_spec l.width).1
  rw [← hfits.maskRow] at hpadded
  obtain ⟨rfl, hwithin⟩ := readAt_byte (by omega) h
  refine ⟨?_, hwithin⟩
  have hbit := index_eq_bitsFrom bytes (l.maskAt + l.source row * l.maskRowBytes) column 1 (by simp)
  rw [Nat.mul_one] at hbit
  exact hbit

end

end SlugBase.Icons
