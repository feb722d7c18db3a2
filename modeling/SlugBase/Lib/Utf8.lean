import SlugBase.Lib.JsString

/-!
# Strings that UTF-8 can carry

* `WellFormed`: a string without a lone surrogate;
* `utf8`: the bytes of a string, as `TextEncoder` and `Buffer` write them;
* **`utf8_injective`**: a well-formed string can be read back.
-/

namespace JavaScript

/-- A string in which every surrogate is one of a pair. -/
inductive WellFormed : JsString → Prop
  | nil : WellFormed []
  | unit {u : UInt16} {s : JsString} (hhigh : isHighSurrogate u = false) (hlow : isLowSurrogate u = false) (hs : WellFormed s) :
    WellFormed (u :: s)
  | pair {u v : UInt16} {s : JsString} (hhigh : isHighSurrogate u = true) (hlow : isLowSurrogate v = true) (hs : WellFormed s) :
    WellFormed (u :: v :: s)

/-- The scalar value of a piece; a lone surrogate is replaced. -/
def charOf : JsString → Char
  | [u] => if isHighSurrogate u || isLowSurrogate u then '\uFFFD' else Char.ofNat u.toNat
  | [u, v] => Char.ofNat (0x10000 + (u.toNat - 0xD800) * 0x400 + (v.toNat - 0xDC00))
  | _ => '\uFFFD'

/-- The UTF-8 of a string. -/
def utf8 (s : JsString) : List UInt8 := (String.ofList ((codePoints s).map charOf)).toUTF8.data.toList

/-! ## Well-formed strings -/

theorem WellFormed.append {s t : JsString} (hs : WellFormed s) (ht : WellFormed t) : WellFormed (s ++ t) := by
  induction hs with
  | nil => exact ht
  | unit hhigh hlow _ ih => exact .unit hhigh hlow ih
  | pair hhigh hlow _ ih => exact .pair hhigh hlow ih

theorem WellFormed.flatMap {α : Type} {l : List α} {f : α → JsString} (h : ∀ a ∈ l, WellFormed (f a)) : WellFormed (l.flatMap f) := by
  induction l with
  | nil => exact .nil
  | cons a rest ih =>
    rw [List.flatMap_cons]
    exact (h a List.mem_cons_self).append (ih fun b hb => h b (List.mem_cons_of_mem _ hb))

theorem wellFormed_of_units {s : JsString} (h : ∀ u ∈ s, isHighSurrogate u = false ∧ isLowSurrogate u = false) : WellFormed s := by
  induction s with
  | nil => exact .nil
  | cons u rest ih =>
    obtain ⟨hhigh, hlow⟩ := h u List.mem_cons_self
    exact .unit hhigh hlow (ih fun v hv => h v (List.mem_cons_of_mem _ hv))

/-! ## Reading back -/

theorem high_bounds {u : UInt16} (h : isHighSurrogate u = true) : 0xD800 ≤ u.toNat ∧ u.toNat ≤ 0xDBFF := by
  simp only [isHighSurrogate, Bool.and_eq_true, decide_eq_true_eq, UInt16.le_iff_toNat_le] at h
  exact h

theorem low_bounds {u : UInt16} (h : isLowSurrogate u = true) : 0xDC00 ≤ u.toNat ∧ u.toNat ≤ 0xDFFF := by
  simp only [isLowSurrogate, Bool.and_eq_true, decide_eq_true_eq, UInt16.le_iff_toNat_le] at h
  exact h

theorem plain_bounds {u : UInt16} (hhigh : isHighSurrogate u = false) (hlow : isLowSurrogate u = false) :
    u.toNat < 0xD800 ∨ 0xDFFF < u.toNat := by
  simp only [isHighSurrogate, isLowSurrogate, Bool.and_eq_false_iff, decide_eq_false_iff_not, UInt16.le_iff_toNat_le] at hhigh hlow
  have h1 : (0xD800 : UInt16).toNat = 0xD800 := rfl
  have h2 : (0xDBFF : UInt16).toNat = 0xDBFF := rfl
  have h3 : (0xDC00 : UInt16).toNat = 0xDC00 := rfl
  have h4 : (0xDFFF : UInt16).toNat = 0xDFFF := rfl
  omega

theorem toNat_ofNat_char {n : ℕ} (h : n < 0xD800 ∨ 0xDFFF < n ∧ n < 0x110000) : (Char.ofNat n).toNat = n := by
  have hvalid : n.isValidChar := h
  rw [Char.ofNat, dif_pos hvalid]
  rfl

theorem encode_charOf_unit {u : UInt16} (hhigh : isHighSurrogate u = false) (hlow : isLowSurrogate u = false) :
    encode (charOf [u]) = [u] := by
  have hu := u.toNat_lt
  have hplain := plain_bounds hhigh hlow
  have hvalue : (Char.ofNat u.toNat).toNat = u.toNat := toNat_ofNat_char (by omega)
  simp only [charOf, hhigh, hlow, Bool.or_self, Bool.false_eq_true, if_false, encode, hvalue]
  rw [if_pos (by omega), UInt16.ofNat_toNat]

theorem encode_charOf_pair {u v : UInt16} (hhigh : isHighSurrogate u = true) (hlow : isLowSurrogate v = true) :
    encode (charOf [u, v]) = [u, v] := by
  have hu := high_bounds hhigh
  have hv := low_bounds hlow
  have hvalue := toNat_ofNat_char (n := 0x10000 + (u.toNat - 0xD800) * 0x400 + (v.toNat - 0xDC00)) (by omega)
  simp only [charOf, encode, hvalue]
  rw [if_neg (by omega)]
  have hfirst : 0xD800 + (0x10000 + (u.toNat - 0xD800) * 0x400 + (v.toNat - 0xDC00) - 0x10000) / 0x400 = u.toNat := by omega
  have hsecond : 0xDC00 + (0x10000 + (u.toNat - 0xD800) * 0x400 + (v.toNat - 0xDC00) - 0x10000) % 0x400 = v.toNat := by omega
  rw [hfirst, hsecond, UInt16.ofNat_toNat, UInt16.ofNat_toNat]

theorem codePoints_unit {u : UInt16} (hhigh : isHighSurrogate u = false) (s : JsString) :
    codePoints (u :: s) = [u] :: codePoints s := by
  cases s with
  | nil => rfl
  | cons v rest => simp [codePoints, hhigh]

theorem encode_codePoints {s : JsString} (h : WellFormed s) : ((codePoints s).map charOf).flatMap encode = s := by
  induction h with
  | nil => rfl
  | @unit u s hhigh hlow _ ih =>
    rw [codePoints_unit hhigh, List.map_cons, List.flatMap_cons, ih, encode_charOf_unit hhigh hlow]
    rfl
  | @pair u v s hhigh hlow _ ih =>
    simp only [codePoints, hhigh, hlow, Bool.and_self, if_true, List.map_cons, List.flatMap_cons, ih,
      encode_charOf_pair hhigh hlow, List.cons_append, List.nil_append]

/-- **A well-formed string can be read back from its bytes.** -/
theorem utf8_injective {s t : JsString} (hs : WellFormed s) (ht : WellFormed t) (h : utf8 s = utf8 t) : s = t := by
  have hbytes : (String.ofList ((codePoints s).map charOf)).toByteArray = (String.ofList ((codePoints t).map charOf)).toByteArray := by
    apply ByteArray.ext
    exact Array.toList_inj.mp h
  have hchars := String.ofList_injective (String.toByteArray_inj.mp hbytes)
  rw [← encode_codePoints hs, hchars, encode_codePoints ht]

end JavaScript
