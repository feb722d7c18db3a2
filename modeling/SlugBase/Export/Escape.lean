import SlugBase.Import.Markup

/-!
# Text as markup

The writer of text in a bookmark file, and the references that its reader knows by name.

* `escapeHtml`: the five characters that HTML gives a meaning, as references;
* `NAMED_ENTITIES`: the named references, whose table a `MarkupRuntime` of this writer has;
* **`decode_escapeHtml`**: what is written is read back, and no unit of it is markup.
-/

namespace SlugBase.Export

open JavaScript Import

/-- `HTML_SPECIALS` and `ESCAPES`. -/
def escapeUnit (u : UInt16) : JsString :=
  if u = 0x26 then js "&amp;"
  else if u = 0x3C then js "&lt;"
  else if u = 0x3E then js "&gt;"
  else if u = 0x22 then js "&quot;"
  else if u = 0x27 then js "&#39;"
  else [u]

def escapeHtml (text : JsString) : JsString := text.flatMap escapeUnit

/-- The names of the references from U+00A0 on. -/
def latinEntities : List String :=
  ["nbsp", "iexcl", "cent", "pound", "curren", "yen", "brvbar", "sect", "uml", "copy", "ordf", "laquo", "not", "shy",
    "reg", "macr", "deg", "plusmn", "sup2", "sup3", "acute", "micro", "para", "middot", "cedil", "sup1", "ordm", "raquo",
    "frac14", "frac12", "frac34", "iquest", "Agrave", "Aacute", "Acirc", "Atilde", "Auml", "Aring", "AElig", "Ccedil",
    "Egrave", "Eacute", "Ecirc", "Euml", "Igrave", "Iacute", "Icirc", "Iuml", "ETH", "Ntilde", "Ograve", "Oacute",
    "Ocirc", "Otilde", "Ouml", "times", "Oslash", "Ugrave", "Uacute", "Ucirc", "Uuml", "Yacute", "THORN", "szlig",
    "agrave", "aacute", "acirc", "atilde", "auml", "aring", "aelig", "ccedil", "egrave", "eacute", "ecirc", "euml",
    "igrave", "iacute", "icirc", "iuml", "eth", "ntilde", "ograve", "oacute", "ocirc", "otilde", "ouml", "divide",
    "oslash", "ugrave", "uacute", "ucirc", "uuml", "yacute", "thorn", "yuml"]

/-- `NAMED_ENTITIES`: the names and the character each stands for. -/
def NAMED_ENTITIES : List (JsString × JsString) :=
  [(js "amp", [0x26]), (js "lt", [0x3C]), (js "gt", [0x3E]), (js "quot", [0x22]), (js "apos", [0x27]),
    (js "ndash", [0x2013]), (js "mdash", [0x2014]), (js "lsquo", [0x2018]), (js "rsquo", [0x2019]),
    (js "sbquo", [0x201A]), (js "ldquo", [0x201C]), (js "rdquo", [0x201D]), (js "bdquo", [0x201E]),
    (js "bull", [0x2022]), (js "hellip", [0x2026]), (js "euro", [0x20AC]), (js "trade", [0x2122])] ++
    latinEntities.zipIdx.map fun (name, index) => (js name, [0xA0 + UInt16.ofNat index])

/-- The runtime whose lower case is given, with the named references of the source. -/
def markupRuntime (toLowerCase : JsString → JsString) : MarkupRuntime :=
  ⟨toLowerCase, fun name => NAMED_ENTITIES.lookup name⟩

variable {toLowerCase : JsString → JsString}

/-! ## What is written is read back -/

theorem decodeFrom_length (rt : MarkupRuntime) (body rest : JsString) :
    decodeFrom rt body.length (body ++ rest) = decodeFrom rt 0 rest := by
  induction body with
  | nil => rfl
  | cons u body ih => exact ih

theorem decodeFrom_reference {rt : MarkupRuntime} (body : JsString) {rest character : JsString}
    (h : characterReference rt (body ++ rest) = some (character, body.length)) :
    decodeFrom rt 0 (0x26 :: body ++ rest) = character ++ decodeFrom rt 0 rest := by
  rw [List.cons_append, decodeFrom, if_pos rfl, h]
  dsimp only
  rw [decodeFrom_length]

/-- The references of the five characters. -/
theorem decodeFrom_escapeUnit (u : UInt16) (rest : JsString) :
    decodeFrom (markupRuntime toLowerCase) 0 (escapeUnit u ++ rest) =
      u :: decodeFrom (markupRuntime toLowerCase) 0 rest := by
  unfold escapeUnit
  split_ifs with hamp hlt hgt hquot hapos
  · subst hamp
    exact decodeFrom_reference (js "amp;") rfl
  · subst hlt
    exact decodeFrom_reference (js "lt;") rfl
  · subst hgt
    exact decodeFrom_reference (js "gt;") rfl
  · subst hquot
    exact decodeFrom_reference (js "quot;") rfl
  · subst hapos
    exact decodeFrom_reference (js "#39;") rfl
  · rw [List.singleton_append, decodeFrom, if_neg hamp]

/-- **What is written is read back.** -/
theorem decode_escapeHtml (text : JsString) :
    decodeCharacterReferences (markupRuntime toLowerCase) (escapeHtml text) = text := by
  unfold decodeCharacterReferences
  induction text with
  | nil => rfl
  | cons u text ih =>
    have hcons : escapeHtml (u :: text) = escapeUnit u ++ escapeHtml text := List.flatMap_cons
    rw [hcons, decodeFrom_escapeUnit, ih]

/-! ## What is written is no markup -/

theorem mem_escapeHtml {text : JsString} {v : UInt16} (h : v ∈ escapeHtml text) :
    v ≠ 0x3C ∧ v ≠ 0x3E ∧ v ≠ 0x22 ∧ (v = 0 → 0 ∈ text) := by
  obtain ⟨u, hu, hv⟩ := List.mem_flatMap.mp h
  have hplain : ∀ {reference : String},
      ((js reference).all fun v => v != 0x3C && v != 0x3E && v != 0x22 && v != 0) = true →
      v ∈ js reference → v ≠ 0x3C ∧ v ≠ 0x3E ∧ v ≠ 0x22 ∧ (v = 0 → 0 ∈ text) := by
    intro reference hall hmem
    have hv := List.all_eq_true.mp hall v hmem
    simp only [Bool.and_eq_true, bne_iff_ne] at hv
    exact ⟨hv.1.1.1, hv.1.1.2, hv.1.2, fun h => absurd h hv.2⟩
  unfold escapeUnit at hv
  split_ifs at hv with hamp hlt hgt hquot hapos
  · exact hplain (by decide) hv
  · exact hplain (by decide) hv
  · exact hplain (by decide) hv
  · exact hplain (by decide) hv
  · exact hplain (by decide) hv
  · obtain rfl := List.mem_singleton.mp hv
    exact ⟨hlt, hgt, hquot, fun h => h ▸ hu⟩

/-- A reference has at most six units. -/
theorem length_escapeHtml (text : JsString) : (escapeHtml text).length ≤ 6 * text.length := by
  induction text with
  | nil => exact Nat.zero_le _
  | cons u text ih =>
    have hcons : escapeHtml (u :: text) = escapeUnit u ++ escapeHtml text := List.flatMap_cons
    have hunit : (escapeUnit u).length ≤ 6 := by
      unfold escapeUnit
      split_ifs
      · decide
      · decide
      · decide
      · decide
      · decide
      · exact Nat.le_of_ble_eq_true rfl
    rw [hcons, List.length_append, List.length_cons]
    omega

end SlugBase.Export
