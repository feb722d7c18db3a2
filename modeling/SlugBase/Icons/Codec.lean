import SlugBase.Lib.Reading
import Mathlib.Data.List.Flatten

/-!
# The icon codec

How an icon file is read: the entry that is taken, and the pixels of a bitmap.

* `bestIcoEntry`: the largest image of the directory;
* `readDib`: the pixels of a bitmap, with the record of the places that are read.
-/

namespace SlugBase.Icons

open Places

/-- Why an image is refused; `outOfRange` is the error of a view that is read behind its end. -/
inductive ImageRefused
  | undecodable
  | tooLarge
  | outOfRange
deriving DecidableEq

abbrev Bytes := List UInt8

def ICO_HEADER_BYTES : ℕ := 6
def ICO_ENTRY_BYTES : ℕ := 16
def ICO_MAX_ENTRIES : ℕ := 64
def ICO_MAX_EDGE : ℕ := 256
def DIB_HEADER_BYTES : ℕ := 40

/-! ## Views -/

/-- A number of little-endian bytes, as a view reads it. -/
def getUint (width : ℕ) (bytes : Bytes) (place : ℕ) : Except ImageRefused ℕ :=
  if place + width ≤ bytes.length then
    .ok (((bytes.drop place).take width).foldr (fun byte rest => byte.toNat + 256 * rest) 0)
  else .error .outOfRange

def getUint8 : Bytes → ℕ → Except ImageRefused ℕ := getUint 1
def getUint16 : Bytes → ℕ → Except ImageRefused ℕ := getUint 2
def getUint32 : Bytes → ℕ → Except ImageRefused ℕ := getUint 4

def getInt32 (bytes : Bytes) (place : ℕ) : Except ImageRefused ℤ :=
  (getUint32 bytes place).map fun value => if value < 2147483648 then (value : ℤ) else (value : ℤ) - 4294967296

/-! ## The directory -/

structure IcoEntry where
  width : ℕ
  height : ℕ
  bitCount : ℕ
  size : ℕ
  offset : ℕ
deriving DecidableEq

def IcoEntry.area (entry : IcoEntry) : ℕ := entry.width * entry.height

/-- An edge of zero is the greatest one. -/
def edgeOf (byte : ℕ) : ℕ := if byte = 0 then ICO_MAX_EDGE else byte

/-- The entry at an index of the directory. -/
def icoEntry (bytes : Bytes) (index : ℕ) : Except ImageRefused IcoEntry := do
  let place := ICO_HEADER_BYTES + index * ICO_ENTRY_BYTES
  let width ← getUint8 bytes place
  let height ← getUint8 bytes (place + 1)
  let bitCount ← getUint16 bytes (place + 6)
  let size ← getUint32 bytes (place + 8)
  let offset ← getUint32 bytes (place + 12)
  return ⟨edgeOf width, edgeOf height, bitCount, size, offset⟩

/-- An entry whose data lie inside the file. -/
def IcoEntry.isInside (bytes : Bytes) (entry : IcoEntry) : Bool :=
  !(entry.size == 0 || decide (bytes.length < entry.offset + entry.size))

/-- Whether an entry is taken instead of the best one so far. -/
def isBetter (best : Option IcoEntry) (entry : IcoEntry) : Bool :=
  match best with
  | none => true
  | some best => decide (best.area < entry.area) || (entry.area == best.area && decide (best.bitCount < entry.bitCount))

/-- One turn of the loop over the directory. -/
def considerEntry (bytes : Bytes) (best : Option IcoEntry) (index : ℕ) : Except ImageRefused (Option IcoEntry) := do
  let entry ← icoEntry bytes index
  return if !entry.isInside bytes then best else if isBetter best entry then some entry else best

/-- The entry that the loop has found. -/
def foundEntry : Option IcoEntry → Except ImageRefused IcoEntry
  | none => .error .undecodable
  | some best => .ok best

/-- `bestIcoEntry`. -/
def bestIcoEntry (bytes : Bytes) : Except ImageRefused IcoEntry := do
  let count ← getUint16 bytes 4
  if count = 0 ∨ ICO_MAX_ENTRIES < count ∨ bytes.length < ICO_HEADER_BYTES + count * ICO_ENTRY_BYTES then
    .error .undecodable
  else
    let best ← (List.range count).foldlM (considerEntry bytes) none
    foundEntry best

/-! ## The header of a bitmap -/

/-- What the header says, and where the parts of the bitmap are. -/
structure Layout where
  width : ℕ
  height : ℕ
  bitCount : ℕ
  paletteEntries : ℕ
  paletteAt : ℕ
  bitsAt : ℕ
  rowBytes : ℕ
  maskRowBytes : ℕ
  maskAt : ℕ
  hasMask : Bool
  topDown : Bool
deriving DecidableEq

/-- `1 << n` of 32-bit integers. -/
def oneShifted (n : ℕ) : ℕ := 2 ^ (n % 32)

/-- The bytes of a row of bits, padded to four. -/
def paddedBytes (bits : ℕ) : ℕ := (bits + 31) / 32 * 4

/-- The fields of the header that are read. -/
structure DibHeader where
  headerSize : ℕ
  width : ℤ
  doubled : ℤ
  bitCount : ℕ
  compression : ℕ
  colorsUsed : ℕ

def readFields (bytes : Bytes) : Except ImageRefused DibHeader := do
  let headerSize ← getUint32 bytes 0
  let width ← getInt32 bytes 4
  let doubled ← getInt32 bytes 8
  let bitCount ← getUint16 bytes 14
  let compression ← getUint32 bytes 16
  let colorsUsed ← getUint32 bytes 32
  return ⟨headerSize, width, doubled, bitCount, compression, colorsUsed⟩

def DibHeader.paletteEntries (h : DibHeader) : ℕ :=
  if h.bitCount ≤ 8 then (if h.colorsUsed = 0 then oneShifted h.bitCount else h.colorsUsed) else 0

/-- Half of the doubled height. -/
def DibHeader.height (h : DibHeader) : ℕ := h.doubled.natAbs / 2

/-- Where the rows of pixels begin. -/
def DibHeader.bitsAt (h : DibHeader) : ℕ :=
  h.headerSize + h.paletteEntries * 4 + (if h.compression = 3 ∧ h.headerSize = DIB_HEADER_BYTES then 12 else 0)

def DibHeader.rowBytes (h : DibHeader) : ℕ := paddedBytes (h.width.toNat * h.bitCount)

def DibHeader.maskRowBytes (h : DibHeader) : ℕ := paddedBytes h.width.toNat

/-- Where the rows of the mask begin. -/
def DibHeader.maskAt (h : DibHeader) : ℕ := h.bitsAt + h.rowBytes * h.height

def DibHeader.layout (h : DibHeader) (length : ℕ) : Layout where
  width := h.width.toNat
  height := h.height
  bitCount := h.bitCount
  paletteEntries := h.paletteEntries
  paletteAt := h.headerSize
  bitsAt := h.bitsAt
  rowBytes := h.rowBytes
  maskRowBytes := h.maskRowBytes
  maskAt := h.maskAt
  hasMask := decide (h.maskAt + h.maskRowBytes * h.height ≤ length)
  topDown := decide (h.doubled < 0)

/-- The checks of `readDib` on the fields. -/
def DibHeader.check (h : DibHeader) (length : ℕ) : Except ImageRefused Layout :=
  if h.headerSize < DIB_HEADER_BYTES then .error .undecodable
  else if h.width < 1 ∨ ICO_MAX_EDGE < h.width ∨ h.doubled.natAbs % 2 ≠ 0 ∨ h.height < 1 ∨ ICO_MAX_EDGE < h.height then
    .error .tooLarge
  else if h.bitCount ∉ [1, 4, 8, 24, 32] ∨ (h.compression ≠ 0 ∧ ¬(h.compression = 3 ∧ h.bitCount = 32)) then
    .error .undecodable
  else if oneShifted h.bitCount < h.paletteEntries then .error .undecodable
  else if length < h.maskAt then .error .undecodable
  else .ok (h.layout length)

/-- The part of `readDib` before its loops. -/
def readHeader (bytes : Bytes) : Except ImageRefused Layout :=
  if bytes.length < DIB_HEADER_BYTES then .error .undecodable
  else do
    let fields ← readFields bytes
    fields.check bytes.length

/-! ## Pixels -/

structure Colour where
  red : ℕ
  green : ℕ
  blue : ℕ
  alpha : ℕ
deriving DecidableEq

/-- The row of the file that a row of the image is. -/
def Layout.source (l : Layout) (row : ℕ) : ℕ := if l.topDown then row else l.height - 1 - row

/-- The colour that one turn of the loop over the pixels reads. -/
def readColour (bytes : Bytes) (l : Layout) (row column : ℕ) : Reading ImageRefused Colour :=
  let line := l.bitsAt + l.source row * l.rowBytes
  if l.bitCount = 32 ∨ l.bitCount = 24 then do
    let place := line + column * (l.bitCount / 8)
    let blue ← readAt bytes place
    let green ← readAt bytes (place + 1)
    let red ← readAt bytes (place + 2)
    if l.bitCount = 32 then
      let alpha ← readAt bytes (place + 3)
      return ⟨red, green, blue, alpha⟩
    else return ⟨red, green, blue, 255⟩
  else do
    let bit := column * l.bitCount
    let byte ← readAt bytes (line + bit / 8)
    let index := (byte >>> (8 - l.bitCount - bit % 8)) &&& (oneShifted l.bitCount - 1)
    if l.paletteEntries ≤ index then refuse .undecodable
    else
      let place := l.paletteAt + index * 4
      let blue ← readAt bytes place
      let green ← readAt bytes (place + 1)
      let red ← readAt bytes (place + 2)
      return ⟨red, green, blue, 255⟩

/-- The image so far, and whether a pixel had an alpha of its own. -/
structure Painting where
  data : List ℕ
  anyAlpha : Bool

/-- The positions of an image, row by row. -/
def cells (width height : ℕ) : List (ℕ × ℕ) :=
  (List.range height).flatMap fun row => (List.range width).map fun column => (row, column)

/-- One turn of the loop over the pixels. -/
def paintCell (bytes : Bytes) (l : Layout) (s : Painting) (cell : ℕ × ℕ) : Reading ImageRefused Painting := do
  let c ← readColour bytes l cell.1 cell.2
  let out := (cell.1 * l.width + cell.2) * 4
  return ⟨(((s.data.set out c.red).set (out + 1) c.green).set (out + 2) c.blue).set (out + 3) c.alpha,
    s.anyAlpha || (l.bitCount == 32 && c.alpha != 0)⟩

/-- One turn of the loop over the mask. -/
def maskCell (bytes : Bytes) (l : Layout) (data : List ℕ) (cell : ℕ × ℕ) : Reading ImageRefused (List ℕ) := do
  let line := l.maskAt + l.source cell.1 * l.maskRowBytes
  let byte ← readAt bytes (line + cell.2 / 8)
  let transparent := (byte >>> (7 - cell.2 % 8)) &&& 1 == 1
  return data.set ((cell.1 * l.width + cell.2) * 4 + 3) (if transparent then 0 else 255)

structure Pixels where
  data : List ℕ
  width : ℕ
  height : ℕ
deriving DecidableEq

/-- `readDib`, with the record of the places that its loops read. -/
def readDib (bytes : Bytes) : Reading ImageRefused Pixels := fun record =>
  match readHeader bytes with
  | .error e => .error e
  | .ok l =>
    (do
      let s ← (cells l.width l.height).foldlM (paintCell bytes l) ⟨List.replicate (l.width * l.height * 4) 0, false⟩
      if l.hasMask && (l.bitCount != 32 || !s.anyAlpha) then
        let data ← (cells l.width l.height).foldlM (maskCell bytes l) s.data
        return ⟨data, l.width, l.height⟩
      else if l.bitCount == 32 && !s.anyAlpha then
        return ⟨(List.range (s.data.length / 4)).foldl (fun data index => data.set (3 + index * 4) 255) s.data, l.width,
          l.height⟩
      else return ⟨s.data, l.width, l.height⟩ : Reading ImageRefused Pixels) record

end SlugBase.Icons
