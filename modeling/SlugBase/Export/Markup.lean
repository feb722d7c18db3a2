import SlugBase.Export.Escape
import SlugBase.Import.Netscape

/-!
# Written markup is read back

What the scanner of bookmark files makes of markup that is written plainly: names without characters that end a name,
values in double quotes without one, and text without a less-than sign.

* `tagText`, `endTagText`: tags as they are written; `collected`: the attributes that are kept of a tag;
* **`piecesOf_tag`**, **`piecesOf_endTag`**, **`piecesOf_declaration`**: the piece that each is, and what follows.
-/

namespace SlugBase.Export

open JavaScript Import

variable {rt : MarkupRuntime} {keep : List JsString}

/-! ## Markup -/

/-- A name that is read as a whole. -/
def isName (name : JsString) : Bool :=
  name.head?.any isLetter && name.all fun u => !isMarkupSpace u && u != 0x2F && u != 0x3E && u != 0x3D

/-- ` name="value"`. -/
def attributeText (pair : JsString × JsString) : JsString :=
  0x20 :: pair.1 ++ 0x3D :: 0x22 :: pair.2 ++ [0x22]

/-- A start tag. -/
def tagText (name : JsString) (attributes : Attributes) : JsString :=
  0x3C :: name ++ attributes.flatMap attributeText ++ [0x3E]

/-- An end tag. -/
def endTagText (name : JsString) : JsString := 0x3C :: 0x2F :: name ++ [0x3E]

/-- The attributes that are kept. -/
def collected (rt : MarkupRuntime) (collect : Bool) (kept attributes : Attributes) : Attributes :=
  attributes.foldl (fun kept pair =>
    if collect && decide (kept.length < maxAttributes) && (kept.get (rt.toLowerCase pair.1)).isNone then
      kept ++ [(rt.toLowerCase pair.1, pair.2)] else kept) kept

theorem takeWhile_append_stop {p : UInt16 → Bool} {s : JsString} {u : UInt16} (rest : JsString)
    (hs : ∀ v ∈ s, p v = true) (hu : p u = false) : (s ++ u :: rest).takeWhile p = s ∧ (s ++ u :: rest).dropWhile p = u :: rest := by
  rw [List.takeWhile_append_of_pos hs, List.dropWhile_append_of_pos hs, List.takeWhile_cons, List.dropWhile_cons, hu]
  exact ⟨List.append_nil s, rfl⟩

theorem isName_cons {name : JsString} (h : isName name = true) : ∃ u rest, name = u :: rest ∧ isLetter u = true ∧
    ∀ v ∈ name, isMarkupSpace v = false ∧ v ≠ 0x2F ∧ v ≠ 0x3E ∧ v ≠ 0x3D := by
  obtain ⟨hfirst, hall⟩ := Bool.and_eq_true_iff.mp h
  cases name with
  | nil => cases hfirst
  | cons u rest =>
    refine ⟨u, rest, rfl, hfirst, fun v hv => ?_⟩
    have hplain := List.all_eq_true.mp hall v hv
    simp only [Bool.and_eq_true, Bool.not_eq_true', bne_iff_ne] at hplain
    exact ⟨hplain.1.1.1, hplain.1.1.2, hplain.1.2, hplain.2⟩

/-! ## Attributes -/

theorem afterName_quoted {value rest : JsString} (hvalue : ∀ v ∈ value, v ≠ 0x22) :
    afterName (0x3D :: 0x22 :: (value ++ 0x22 :: rest)) = some (value, rest) := by
  have hother : ∀ v ∈ value, (v != (0x22 : UInt16)) = true := fun v hv => bne_iff_ne.mpr (hvalue v hv)
  have hsplit := takeWhile_append_stop (p := (· != (0x22 : UInt16))) rest hother (bne_self_eq_false _)
  show attributeValue (0x22 :: (value ++ 0x22 :: rest)) = _
  rw [attributeValue, if_pos (Or.inl rfl), hsplit.1, hsplit.2]

/-- One attribute. -/
theorem readAttributes_attribute {collect : Bool} {fuel : ℕ} {kept : Attributes} {pair : JsString × JsString}
    {rest : JsString} (hname : isName pair.1 = true) (hvalue : ∀ v ∈ pair.2, v ≠ 0x22) :
    readAttributes rt collect (fuel + 1) kept (attributeText pair ++ rest) =
      readAttributes rt collect fuel (collected rt collect kept [pair]) rest := by
  obtain ⟨name, value⟩ := pair
  obtain ⟨u, s, rfl, hletter, hplain⟩ := isName_cons hname
  obtain ⟨hspace, hslash, hclose, -⟩ := hplain u List.mem_cons_self
  have hskip : (attributeText (u :: s, value) ++ rest).dropWhile (fun v => isMarkupSpace v || v == 0x2F) =
      u :: (s ++ 0x3D :: 0x22 :: (value ++ 0x22 :: rest)) := by
    have hfirst : (isMarkupSpace u || u == 0x2F) = false := by
      rw [hspace, Bool.false_or, beq_eq_false_iff_ne]
      exact hslash
    have htext : attributeText (u :: s, value) ++ rest =
        0x20 :: u :: (s ++ 0x3D :: 0x22 :: (value ++ 0x22 :: rest)) := by
      simp [attributeText]
    rw [htext, List.dropWhile_cons_of_pos rfl, List.dropWhile_cons, hfirst]
    rfl
  have hstops : ∀ v ∈ s, (!(isMarkupSpace v || v == 0x2F || v == 0x3E || v == 0x3D)) = true := by
    intro v hv
    obtain ⟨h₁, h₂, h₃, h₄⟩ := hplain v (List.mem_cons_of_mem u hv)
    simp [h₁, h₂, h₃, h₄]
  have hsplit := takeWhile_append_stop (u := 0x3D) (0x22 :: (value ++ 0x22 :: rest)) hstops rfl
  rw [readAttributes, hskip]
  dsimp only
  rw [if_neg hclose, hsplit.1, hsplit.2, afterName_quoted hvalue]
  rfl

/-- **All attributes of a tag.** -/
theorem readAttributes_attributes {collect : Bool} {attributes : Attributes} {rest : JsString}
    (hnames : ∀ a ∈ attributes, isName a.1 = true) (hvalues : ∀ a ∈ attributes, ∀ v ∈ a.2, v ≠ 0x22) {fuel : ℕ}
    (hfuel : attributes.length < fuel) {kept : Attributes} :
    readAttributes rt collect fuel kept (attributes.flatMap attributeText ++ 0x3E :: rest) =
      some (collected rt collect kept attributes, rest) := by
  induction attributes generalizing fuel kept with
  | nil =>
    obtain ⟨fuel, rfl⟩ := Nat.exists_eq_succ_of_ne_zero (Nat.ne_of_gt hfuel)
    rfl
  | cons a attributes ih =>
    obtain ⟨fuel, rfl⟩ := Nat.exists_eq_succ_of_ne_zero (Nat.ne_of_gt ((Nat.zero_le _).trans_lt hfuel))
    rw [List.flatMap_cons, List.append_assoc,
      readAttributes_attribute (hnames a List.mem_cons_self) (hvalues a List.mem_cons_self),
      ih (fun b hb => hnames b (List.mem_cons_of_mem a hb)) (fun b hb => hvalues b (List.mem_cons_of_mem a hb))
        (Nat.lt_of_succ_lt_succ hfuel)]
    rfl

/-! ## Tags -/

theorem length_flatMap_attributeText (attributes : Attributes) :
    attributes.length ≤ (attributes.flatMap attributeText).length := by
  induction attributes with
  | nil => exact Nat.zero_le _
  | cons a attributes ih =>
    have hone : 1 ≤ (attributeText a).length := List.length_pos_iff.mpr (List.cons_ne_nil _ _)
    rw [List.flatMap_cons, List.length_append, List.length_cons]
    omega

/-- Behind the name of a tag: an attribute or the end of the tag. -/
theorem readStartTag_tag (rt : MarkupRuntime) (keep : List JsString) {name : JsString} (rest : JsString)
    {attributes : Attributes} (hname : isName name = true)
    (hnames : ∀ a ∈ attributes, isName a.1 = true) (hvalues : ∀ a ∈ attributes, ∀ v ∈ a.2, v ≠ 0x22) :
    readStartTag rt keep (name ++ (attributes.flatMap attributeText ++ 0x3E :: rest)) =
      some (⟨rt.toLowerCase name, collected rt (keep.contains (rt.toLowerCase name)) [] attributes⟩, rest) := by
  obtain ⟨-, -, -, -, hplain⟩ := isName_cons hname
  have hinName : ∀ v ∈ name, (!isMarkupSpace v && v != 0x2F && v != 0x3E) = true := by
    intro v hv
    obtain ⟨h₁, h₂, h₃, -⟩ := hplain v hv
    simp [h₁, h₂, h₃]
  obtain ⟨u, behind, hbehind, hstop⟩ : ∃ u behind, attributes.flatMap attributeText ++ 0x3E :: rest = u :: behind ∧
      (!isMarkupSpace u && u != 0x2F && u != 0x3E) = false := by
    cases attributes with
    | nil => exact ⟨0x3E, rest, rfl, rfl⟩
    | cons a attributes => exact ⟨0x20, _, rfl, rfl⟩
  have hsplit := takeWhile_append_stop behind hinName hstop
  have hlength := length_flatMap_attributeText attributes
  rw [hbehind, readStartTag]
  dsimp only
  rw [hsplit.1, hsplit.2, ← hbehind, readAttributes_attributes hnames hvalues (by rw [List.length_append]; omega)]
  rfl

/-- What a letter begins. -/
theorem openedBy_tag {name rest : JsString} {attributes : Attributes} (hname : isName name = true)
    (hnames : ∀ a ∈ attributes, isName a.1 = true) (hvalues : ∀ a ∈ attributes, ∀ v ∈ a.2, v ≠ 0x22) :
    openedBy rt keep (name ++ (attributes.flatMap attributeText ++ 0x3E :: rest)) =
      .piece (.start ⟨rt.toLowerCase name, collected rt (keep.contains (rt.toLowerCase name)) [] attributes⟩) rest := by
  obtain ⟨u, s, hcons, hletter, -⟩ := isName_cons hname
  have hread := readStartTag_tag rt keep rest hname hnames hvalues
  rw [hcons, List.cons_append] at hread ⊢
  have h₁ : u ≠ 0x21 := by
    rintro rfl
    cases hletter
  have h₂ : u ≠ 0x3F := by
    rintro rfl
    cases hletter
  have h₃ : u ≠ 0x2F := by
    rintro rfl
    cases hletter
  rw [openedBy, if_neg (fun h => h₁ h.1), if_neg (not_or_intro h₁ h₂), if_neg h₃, hletter, if_neg (by simp), hread]

theorem openedBy_endTag {name rest : JsString} (hname : isName name = true) :
    openedBy rt keep (0x2F :: (name ++ 0x3E :: rest)) = .piece (.close (rt.toLowerCase name)) rest := by
  obtain ⟨-, -, -, -, hplain⟩ := isName_cons hname
  have hclose : ∀ v ∈ name, (v != (0x3E : UInt16)) = true := fun v hv => bne_iff_ne.mpr (hplain v hv).2.2.1
  have hinName : ∀ v ∈ name, (!isMarkupSpace v && v != 0x2F) = true := by
    intro v hv
    obtain ⟨h₁, h₂, -, -⟩ := hplain v hv
    simp [h₁, h₂]
  have hsplit := takeWhile_append_stop (p := (· != (0x3E : UInt16))) rest hclose (bne_self_eq_false _)
  show closingTag rt (name ++ 0x3E :: rest) = _
  rw [closingTag, hsplit.1, hsplit.2, List.takeWhile_eq_self_iff.mpr hinName]

/-! ## Pieces -/

theorem nextMarkup_lead {lead rest : JsString} (hlead : ∀ v ∈ lead, v ≠ 0x3C) :
    nextMarkup rt keep (lead ++ 0x3C :: rest) = (lead ++ (nextMarkup rt keep (0x3C :: rest)).1, (nextMarkup rt keep (0x3C :: rest)).2) := by
  induction lead with
  | nil => rfl
  | cons u lead ih =>
    rw [List.cons_append, nextMarkup, if_neg (hlead u List.mem_cons_self),
      ih fun v hv => hlead v (List.mem_cons_of_mem u hv)]
    rfl

theorem nextMarkup_opened {lead rest after : JsString} {markup : Markup} (hlead : ∀ v ∈ lead, v ≠ 0x3C)
    (hopened : openedBy rt keep rest = .piece markup after) :
    nextMarkup rt keep (lead ++ 0x3C :: rest) = (lead, some (markup, after)) := by
  rw [nextMarkup_lead hlead, nextMarkup, if_pos rfl, hopened, List.append_nil]

/-- **The next piece of a text.** -/
theorem piecesOf_opened {lead rest behind after : JsString} {markup : Markup} (hlead : ∀ v ∈ lead, v ≠ 0x3C)
    (hopened : openedBy rt KEPT_ATTRIBUTES rest = .piece markup behind)
    (hafter : afterPiece markup behind = some after) :
    piecesOf rt (lead ++ 0x3C :: rest) = ⟨lead, some markup⟩ :: piecesOf rt after := by
  have hnext := nextMarkup_opened hlead hopened
  have hshort := (length_afterPiece hafter).trans_lt (nextMarkup_length hnext)
  rw [piecesOf, Import.pieces, hnext]
  dsimp only
  rw [hafter]
  exact congrArg _ (pieces_fuel rt hshort (Nat.lt_succ_self _))

theorem piecesOf_tag (rt : MarkupRuntime) {lead name : JsString} (rest : JsString) {attributes : Attributes}
    (hlead : ∀ v ∈ lead, v ≠ 0x3C) (hname : isName name = true) (hnames : ∀ a ∈ attributes, isName a.1 = true)
    (hvalues : ∀ a ∈ attributes, ∀ v ∈ a.2, v ≠ 0x22)
    (hmarkup : (rawTextElements.contains (rt.toLowerCase name) || rt.toLowerCase name == js "title") = false) :
    piecesOf rt (lead ++ (tagText name attributes ++ rest)) = ⟨lead, some (.start ⟨rt.toLowerCase name,
      collected rt (KEPT_ATTRIBUTES.contains (rt.toLowerCase name)) [] attributes⟩)⟩ :: piecesOf rt rest := by
  have htext : tagText name attributes ++ rest =
      0x3C :: (name ++ (attributes.flatMap attributeText ++ 0x3E :: rest)) := by
    simp [tagText]
  rw [htext]
  refine piecesOf_opened hlead (openedBy_tag hname hnames hvalues) ?_
  rw [afterPiece, Markup.isRawText, hmarkup]
  rfl

theorem piecesOf_endTag (rt : MarkupRuntime) {lead name : JsString} (rest : JsString) (hlead : ∀ v ∈ lead, v ≠ 0x3C)
    (hname : isName name = true) : piecesOf rt (lead ++ (endTagText name ++ rest)) =
      ⟨lead, some (.close (rt.toLowerCase name))⟩ :: piecesOf rt rest := by
  have htext : endTagText name ++ rest = 0x3C :: 0x2F :: (name ++ 0x3E :: rest) := by
    simp [endTagText]
  rw [htext]
  exact piecesOf_opened hlead (openedBy_endTag hname) rfl

theorem piecesOf_declaration {lead body rest : JsString} (hlead : ∀ v ∈ lead, v ≠ 0x3C) (hbody : ∀ v ∈ body, v ≠ 0x3E)
    (hcomment : (js "--").isPrefixOf (body ++ 0x3E :: rest) = false) :
    piecesOf rt (lead ++ 0x3C :: 0x21 :: (body ++ 0x3E :: rest)) = ⟨lead, some .other⟩ :: piecesOf rt rest := by
  have hother : ∀ v ∈ body, (v != (0x3E : UInt16)) = true := fun v hv => bne_iff_ne.mpr (hbody v hv)
  have hsplit := takeWhile_append_stop (p := (· != (0x3E : UInt16))) rest hother (bne_self_eq_false _)
  have hopened : openedBy rt KEPT_ATTRIBUTES (0x21 :: (body ++ 0x3E :: rest)) = .piece .other rest := by
    rw [openedBy, hcomment, if_neg (by simp), if_pos (Or.inl rfl), hsplit.2]
  exact piecesOf_opened hlead hopened rfl

theorem piecesOf_end {text : JsString} (htext : ∀ v ∈ text, v ≠ 0x3C) : piecesOf rt text = [⟨text, none⟩] := by
  have hnone : nextMarkup rt KEPT_ATTRIBUTES text = (text, none) := by
    induction text with
    | nil => rfl
    | cons u text ih =>
      rw [nextMarkup, if_neg (htext u List.mem_cons_self), ih fun v hv => htext v (List.mem_cons_of_mem u hv)]
  rw [piecesOf, Import.pieces, hnone]

end SlugBase.Export
