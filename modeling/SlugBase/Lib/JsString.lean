import Mathlib.Data.List.DropRight

/-!
# JavaScript strings

A string is a list of UTF-16 code units, which a text that is read from JSON may hold in any order.

* `codePoints`: the pieces the string iterator visits, a surrogate pair in one piece;
* `toWellFormed`, `trim`, `trimEnd`: the methods of the standard library;
* `takePoints`: the string before a number of code points; **`codePoints_take`**: it cuts no pair apart.
-/

namespace JavaScript

/-- A string, as its UTF-16 code units. -/
abbrev JsString := List UInt16

/-- The code units of one Unicode scalar value. -/
def encode (c : Char) : JsString :=
  if c.toNat < 0x10000 then [UInt16.ofNat c.toNat]
  else [UInt16.ofNat (0xD800 + (c.toNat - 0x10000) / 0x400), UInt16.ofNat (0xDC00 + (c.toNat - 0x10000) % 0x400)]

/-- A literal. -/
def js (s : String) : JsString := s.toList.flatMap encode

/-- The first unit of a surrogate pair. -/
def isHighSurrogate (u : UInt16) : Bool := 0xD800 ≤ u && u ≤ 0xDBFF

/-- The second unit of a surrogate pair. -/
def isLowSurrogate (u : UInt16) : Bool := 0xDC00 ≤ u && u ≤ 0xDFFF

/-- `WhiteSpace` and `LineTerminator` of the language: what `trim` removes. -/
def isSpace (u : UInt16) : Bool :=
  (0x0009 ≤ u && u ≤ 0x000D) || u == 0x0020 || u == 0x00A0 || u == 0x1680 || (0x2000 ≤ u && u ≤ 0x200A) ||
    u == 0x2028 || u == 0x2029 || u == 0x202F || u == 0x205F || u == 0x3000 || u == 0xFEFF

/-- `\p{Cc}`: the C0 and C1 ranges and DEL. -/
def isControl (u : UInt16) : Bool := u ≤ 0x001F || (0x007F ≤ u && u ≤ 0x009F)

/-- The pieces of the string iterator: a surrogate pair, or one unit. -/
def codePoints : JsString → List JsString
  | [] => []
  | [u] => [[u]]
  | u :: v :: s =>
    if isHighSurrogate u && isLowSurrogate v then [u, v] :: codePoints s else [u] :: codePoints (v :: s)

/-- A piece that no encoding can carry, replaced. -/
def wellFormedPiece : JsString → JsString
  | [u] => if isHighSurrogate u || isLowSurrogate u then [0xFFFD] else [u]
  | p => p

/-- `toWellFormed`. -/
def toWellFormed (s : JsString) : JsString := (codePoints s).flatMap wellFormedPiece

/-- `trimEnd`. -/
def trimEnd (s : JsString) : JsString := s.rdropWhile isSpace

/-- `trim`. -/
def trim (s : JsString) : JsString := trimEnd (s.dropWhile isSpace)

/-- The string before its code point number `max`. -/
def takePoints (max : ℕ) (s : JsString) : JsString := ((codePoints s).take max).flatten

/-! ## Code points -/

theorem codePoints_flatten (s : JsString) : (codePoints s).flatten = s := by
  induction s using codePoints.induct with
  | case1 => rfl
  | case2 u => rfl
  | case3 u v s h ih => simp only [codePoints, h, if_true, List.flatten_cons, ih, List.cons_append, List.nil_append]
  | case4 u v s h ih =>
    simp only [codePoints, h, Bool.false_eq_true, if_false, List.flatten_cons, ih, List.cons_append, List.nil_append]

/-- The first piece of a string that goes on after it starts with is the piece of the string alone. -/
theorem codePoints_take (max : ℕ) (s : JsString) : codePoints (takePoints max s) = (codePoints s).take max := by
  unfold takePoints
  induction s using codePoints.induct generalizing max with
  | case1 => simp [codePoints]
  | case2 u => cases max <;> simp [codePoints]
  | case3 u v s h ih =>
    cases max with
    | zero => simp [codePoints]
    | succ n =>
      have hcut := ih n
      simp only [codePoints, h, if_true, List.take_succ_cons, List.flatten_cons, List.cons_append,
        List.nil_append, hcut]
  | case4 u v s h ih =>
    cases max with
    | zero => simp [codePoints]
    | succ n =>
      have hcut := ih n
      simp only [codePoints, h, Bool.false_eq_true, if_false, List.take_succ_cons, List.flatten_cons,
        List.cons_append, List.nil_append]
      cases n with
      | zero => simp [codePoints]
      | succ m =>
        obtain ⟨p, ps, hps⟩ : ∃ p ps, codePoints (v :: s) = (v :: p) :: ps := by
          cases s with
          | nil => exact ⟨[], [], rfl⟩
          | cons w t =>
            by_cases hvw : (isHighSurrogate v && isLowSurrogate w) = true
            · exact ⟨[w], codePoints t, by simp only [codePoints, hvw, if_true]⟩
            · exact ⟨[], codePoints (w :: t), by simp only [codePoints, hvw, if_false, Bool.false_eq_true]⟩
        rw [hps, List.take_succ_cons, List.flatten_cons, List.cons_append] at hcut ⊢
        simp only [codePoints, h, Bool.false_eq_true, if_false, hcut]

end JavaScript
