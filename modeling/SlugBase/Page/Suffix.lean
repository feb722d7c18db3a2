import SlugBase.Page.Scanner

/-!
# Positions and what is left of a text

The scanner by positions and the scanner that reads what is left of a text are the same.

* `position_induction`: from the end of a text back to a position;
* `attributeValue_drop`, `readStartTag_drop`, `rawTextEnd_drop`: each reader, where what is left stands at a position;
* **`nextMarkup_drop`**: both find the same piece of markup, and the same text before it.
-/

namespace SlugBase.Page

open JavaScript Import

section

variable {rt : MarkupRuntime} {text pattern : JsString} {cursor start position : ℕ} {p : UInt16 → Bool}

/-! ## Positions -/

theorem position_induction {motive : ℕ → Prop} (text : JsString) (hend : ∀ cursor, text.length ≤ cursor → motive cursor)
    (hback : ∀ cursor u, text.drop cursor = u :: text.drop (cursor + 1) → motive (cursor + 1) → motive cursor)
    (cursor : ℕ) : motive cursor := by
  rcases Nat.lt_or_ge cursor text.length with hlt | hge
  · exact hback cursor _ (List.drop_eq_getElem_cons hlt) (position_induction text hend hback (cursor + 1))
  · exact hend cursor hge
termination_by text.length - cursor

theorem slice_skipWhile : slice text cursor (skipWhile p text cursor) = (text.drop cursor).takeWhile p := by
  have hbegins : (text.drop cursor).takeWhile p <+: text.drop cursor := List.takeWhile_prefix _
  unfold slice skipWhile
  rw [List.drop_take, Nat.add_sub_cancel_left]
  exact (List.prefix_iff_eq_take.mp hbegins).symm

theorem drop_skipWhile : text.drop (skipWhile p text cursor) = (text.drop cursor).dropWhile p := by
  have hsplit : (text.drop cursor).takeWhile p ++ (text.drop cursor).dropWhile p = text.drop cursor :=
    List.takeWhile_append_dropWhile
  have hdrop := congrArg (List.drop ((text.drop cursor).takeWhile p).length) hsplit
  rw [List.drop_left, List.drop_drop] at hdrop
  exact hdrop.symm

theorem drop_of_getElem? {u : UInt16} (h : text[cursor]? = some u) : text.drop cursor = u :: text.drop (cursor + 1) := by
  obtain ⟨hlt, rfl⟩ := List.getElem?_eq_some_iff.mp h
  exact List.drop_eq_getElem_cons hlt

theorem drop_of_getElem?_none (h : text[cursor]? = none) : text.drop cursor = [] :=
  List.drop_eq_nil_of_le (List.getElem?_eq_none_iff.mp h)

theorem slice_cons {u : UInt16} {stop : ℕ} (h : text.drop cursor = u :: text.drop (cursor + 1)) (hstop : cursor < stop) :
    slice text cursor stop = u :: slice text (cursor + 1) stop := by
  have hlength : stop - cursor = stop - (cursor + 1) + 1 := by omega
  rw [slice, slice, List.drop_take, List.drop_take, h, hlength, List.take_succ_cons]

theorem slice_append {stop : ℕ} (hposition : cursor ≤ position) (hstop : position ≤ stop) :
    slice text cursor position ++ slice text position stop = slice text cursor stop := by
  have hshort : (text.take stop).take position = text.take position := by
    rw [List.take_take, min_eq_left hstop]
  have hbehind : (text.take stop).drop position = ((text.take stop).drop cursor).drop (position - cursor) := by
    rw [List.drop_drop, Nat.add_sub_cancel' hposition]
  rw [slice, slice, slice, ← hshort, List.drop_take, hbehind, List.take_append_drop]

theorem indexOf_end (h : text.length ≤ cursor) : indexOf text pattern cursor = none := by
  rw [indexOf, Nat.sub_eq_zero_of_le h]
  rfl

theorem find?_back (q : ℕ → Bool) {u : UInt16} (h : text.drop cursor = u :: text.drop (cursor + 1)) :
    (List.range' cursor (text.length - cursor)).find? q =
      if q cursor = true then some cursor else (List.range' (cursor + 1) (text.length - (cursor + 1))).find? q := by
  have hlt : cursor < text.length := by
    by_contra hge
    rw [List.drop_eq_nil_of_le (Nat.le_of_not_lt hge)] at h
    cases h
  have hlength : text.length - cursor = text.length - (cursor + 1) + 1 := by omega
  rw [hlength, List.range'_succ, List.find?_cons]
  cases q cursor with
  | true => rfl
  | false => rfl

theorem indexOf_back {u : UInt16} (h : text.drop cursor = u :: text.drop (cursor + 1)) :
    indexOf text pattern cursor =
      if startsWith text pattern cursor = true then some cursor else indexOf text pattern (cursor + 1) :=
  find?_back (startsWith text pattern) h

/-- A text that is looked for, and what is left behind it. -/
theorem afterFirst_drop (text pattern : JsString) (cursor : ℕ) : afterFirst pattern (text.drop cursor) =
    (indexOf text pattern cursor).map fun position => text.drop (position + pattern.length) := by
  induction cursor using position_induction text with
  | hend cursor hend =>
    rw [indexOf_end hend, List.drop_eq_nil_of_le hend]
    rfl
  | hback cursor u hdrop ih =>
    rw [indexOf_back hdrop, hdrop, afterFirst, ← hdrop]
    by_cases hfound : startsWith text pattern cursor = true
    · have hstart : pattern.isPrefixOf (text.drop cursor) = true := hfound
      rw [if_pos hfound, if_pos hstart, List.drop_drop]
      rfl
    · have hstart : ¬pattern.isPrefixOf (text.drop cursor) = true := hfound
      rw [if_neg hfound, if_neg hstart]
      exact ih

/-- Where an element ends whose content is text, and what is left from there on. -/
theorem rawTextEnd_drop (text name : JsString) (cursor : ℕ) :
    Import.rawTextEnd name (text.drop cursor) = (rawTextEnd text name cursor).map text.drop := by
  induction cursor using position_induction text with
  | hend cursor hend =>
    rw [rawTextEnd, Nat.sub_eq_zero_of_le hend, List.drop_eq_nil_of_le hend]
    rfl
  | hback cursor u hdrop ih =>
    have hbehind : ((text.drop cursor).drop (name.length + 2)).head? = text[cursor + name.length + 2]? := by
      rw [List.drop_drop, List.head?_drop]
      rfl
    rw [rawTextEnd, find?_back _ hdrop, hdrop, Import.rawTextEnd, ← hdrop, hbehind, ih]
    split_ifs
    · rfl
    · rfl

theorem startsWith_unit {u q : UInt16} (h : text.drop cursor = u :: text.drop (cursor + 1)) :
    startsWith text [q] cursor = (q == u) := by
  rw [startsWith, h, List.isPrefixOf_cons_cons, List.isPrefixOf_nil_left, Bool.and_true]

/-- A unit that is looked for: where it stands, and what is left there. -/
theorem takeWhile_of_indexOf {q : UInt16} :
    (indexOf text [q] cursor = none → (text.drop cursor).dropWhile (· != q) = []) ∧
    ∀ position, indexOf text [q] cursor = some position →
      slice text cursor position = (text.drop cursor).takeWhile (· != q) ∧
        (text.drop cursor).dropWhile (· != q) = q :: text.drop (position + 1) := by
  induction cursor using position_induction text with
  | hend cursor hend =>
    rw [indexOf_end hend, List.drop_eq_nil_of_le hend]
    exact ⟨fun _ => rfl, fun position h => nomatch h⟩
  | hback cursor u hdrop ih =>
    rw [indexOf_back hdrop, startsWith_unit hdrop]
    by_cases hfound : (q == u) = true
    · obtain rfl := eq_of_beq hfound
      rw [if_pos hfound]
      have hstop : (q != q) = false := bne_self_eq_false q
      refine ⟨fun h => (nomatch h), fun position h => ?_⟩
      obtain rfl := Option.some.inj h
      rw [slice, List.drop_take, Nat.sub_self, List.take_zero, hdrop, List.takeWhile_cons, List.dropWhile_cons, hstop]
      exact ⟨rfl, rfl⟩
    · rw [if_neg hfound]
      have hother : (u != q) = true := bne_iff_ne.mpr fun h => hfound (beq_iff_eq.mpr h.symm)
      rw [hdrop, List.takeWhile_cons, List.dropWhile_cons, hother]
      refine ⟨ih.1, fun position h => ?_⟩
      obtain ⟨htaken, hleft⟩ := ih.2 position h
      have hbehind := (indexOf_some h).1
      refine ⟨?_, hleft⟩
      rw [← htaken, slice_cons hdrop hbehind]
      rfl

/-! ## Tags -/

variable {collect : Bool} {name : JsString} {keep : List JsString} {fuel : ℕ}

/-- The value of an attribute, and what is left behind it. -/
theorem afterName_drop (text : JsString) (cursor : ℕ) : afterName (text.drop cursor) =
    (attributeValue text cursor).map fun value => (value.1, text.drop value.2) := by
  have hskip : text.drop (skipWhile isMarkupSpace text cursor) = (text.drop cursor).dropWhile isMarkupSpace :=
    drop_skipWhile
  unfold afterName attributeValue
  dsimp only
  rw [← hskip]
  generalize skipWhile isMarkupSpace text cursor = ahead
  by_cases hequals : text[ahead]? = some 0x3D
  · rw [if_pos hequals, drop_of_getElem? hequals]
    show Import.attributeValue ((text.drop (ahead + 1)).dropWhile isMarkupSpace) = _
    rw [← drop_skipWhile]
    generalize skipWhile isMarkupSpace text (ahead + 1) = ahead
    cases hfirst : text[ahead]? with
    | none =>
      rw [drop_of_getElem?_none hfirst, if_neg (by simp)]
      have hnothing : text.drop ahead = [] := drop_of_getElem?_none hfirst
      simp [Import.attributeValue, slice_skipWhile, drop_skipWhile, hnothing]
    | some quote =>
      have hquoted : (some quote = some (0x22 : UInt16) ∨ some quote = some 0x27) ↔ quote = 0x22 ∨ quote = 0x27 := by
        rw [Option.some_inj, Option.some_inj]
      have hdrop := drop_of_getElem? hfirst
      by_cases hquote : quote = 0x22 ∨ quote = 0x27
      · rw [if_pos (hquoted.mpr hquote), hdrop, Import.attributeValue, if_pos hquote]
        have hunit : slice text ahead (ahead + 1) = [quote] := by
          rw [slice, List.drop_take, Nat.add_sub_cancel_left, hdrop]
          rfl
        rw [hunit]
        cases hclose : indexOf text [quote] (ahead + 1) with
        | none =>
          rw [takeWhile_of_indexOf.1 hclose]
          rfl
        | some close =>
          obtain ⟨htaken, hleft⟩ := takeWhile_of_indexOf.2 close hclose
          rw [hleft, ← htaken]
          rfl
      · rw [if_neg (hquoted.not.mpr hquote), hdrop, Import.attributeValue, if_neg hquote, ← hdrop]
        rw [Option.map_some, slice_skipWhile, drop_skipWhile]
  · rw [if_neg hequals]
    split
    · rename_i rest hrest
      refine absurd ?_ hequals
      rw [← List.head?_drop, hrest]
      rfl
    · rfl

/-- The attributes of a tag, and what is left behind the tag. -/
theorem readAttributes_drop (rt : MarkupRuntime) (text name : JsString) (collect : Bool) (fuel : ℕ)
    (attributes : Attributes) (cursor : ℕ) : readAttributes rt collect fuel attributes (text.drop cursor) =
      (Loop.run (fun s => some (readAttribute rt text name collect s)) fuel ⟨cursor, attributes⟩).join.map fun tag =>
        (tag.attributes, text.drop tag.stop) := by
  induction fuel generalizing attributes cursor with
  | zero => rfl
  | succ fuel ih =>
    have hskip : text.drop (skipWhile (fun u => isMarkupSpace u || u == 0x2F) text cursor) =
        (text.drop cursor).dropWhile fun u => isMarkupSpace u || u == 0x2F := drop_skipWhile
    rw [readAttributes, Loop.run]
    unfold readAttribute
    dsimp only
    rw [← hskip]
    generalize skipWhile (fun u => isMarkupSpace u || u == 0x2F) text cursor = ahead
    cases hfirst : text[ahead]? with
    | none =>
      rw [drop_of_getElem?_none hfirst]
      rfl
    | some u =>
      rw [drop_of_getElem? hfirst]
      dsimp only
      by_cases hclosed : u = 0x3E
      · rw [if_pos hclosed, if_pos hclosed]
        rfl
      · rw [if_neg hclosed, if_neg hclosed, ← drop_skipWhile, afterName_drop, ← slice_skipWhile,
          ← slice_cons (drop_of_getElem? hfirst) le_skipWhile]
        cases attributeValue text
            (skipWhile (fun v => !(isMarkupSpace v || v == 0x2F || v == 0x3E || v == 0x3D)) text (ahead + 1)) with
        | none => rfl
        | some value =>
          dsimp only [Option.map_some]
          rw [ih]
          split_ifs
          · rfl
          · rfl

/-- Only the cursor and the attributes change; the tag has the name it was read under. -/
theorem name_of_readAttribute {s : TagState} {tag : StartTag}
    (h : readAttribute rt text name collect s = .done (some tag)) : tag.name = name := by
  unfold readAttribute at h
  dsimp only at h
  split at h
  · cases h
  · rename_i u hu
    by_cases hclosed : u = 0x3E
    · rw [if_pos hclosed] at h
      cases h
      rfl
    · rw [if_neg hclosed] at h
      split at h
      · cases h
      · split_ifs at h

/-- A start tag, and what is left behind it. -/
theorem readStartTag_drop {fuel : ℕ} (hfuel : text.length < fuel) (start : ℕ) :
    Import.readStartTag rt keep (text.drop (start + 1)) = (readStartTag rt keep fuel text start).join.map fun tag =>
      (⟨tag.name, tag.attributes⟩, text.drop tag.stop) := by
  unfold Import.readStartTag readStartTag
  dsimp only
  rw [← slice_skipWhile, ← drop_skipWhile]
  generalize skipWhile (fun u => !isMarkupSpace u && u != 0x2F && u != 0x3E) text (start + 1) = cursor
  generalize rt.toLowerCase (slice text (start + 1) cursor) = name
  have hless : (text.drop cursor).length < fuel := (List.drop_sublist _ _).length_le.trans_lt hfuel
  rw [readAttributes_fuel (Nat.lt_succ_self _) hless, readAttributes_drop rt text name]
  cases hrun : Loop.run (fun s => some (readAttribute rt text name (keep.contains name) s)) fuel ⟨cursor, []⟩ with
  | none => rfl
  | some answer =>
    cases answer with
    | none => rfl
    | some tag =>
      have hname : tag.name = name := by
        refine Loop.run_post (fun _ => True) (fun answer => ∀ tag, answer = some tag → tag.name = name)
          (fun _ _ _ _ => trivial) ?_ trivial hrun tag rfl
        rintro s answer - hturn tag rfl
        exact name_of_readAttribute (Option.some.inj hturn)
      rw [← hname]
      rfl

/-! ## Pieces -/

/-- A piece of markup and what is left behind it; none at the end of the text. -/
def MarkupToken.piece (text : JsString) : MarkupToken → Option (Markup × JsString)
  | .startTag _ stop tag => some (.start ⟨tag.name, tag.attributes⟩, text.drop stop)
  | .endTag _ stop name => some (.close name, text.drop stop)
  | .other _ stop => some (.other, text.drop stop)
  | .eof _ => none

/-- What a turn of the search makes of a less-than sign. -/
def openedAs (text : JsString) : Loop.Turn ℕ MarkupToken → Opened
  | .again _ => .nothing
  | .done token =>
    match token.piece text with
    | none => .unfinished
    | some (markup, rest) => .piece markup rest

/-- A comment. -/
theorem comment_drop (text : JsString) (opening : ℕ) :
    comment (text.drop (opening + 4)) = openedAs text (.done (commentToken text opening)) := by
  unfold comment commentToken
  by_cases hempty : startsWith text (js ">") (opening + 4) = true
  · have hstart : (js ">").isPrefixOf (text.drop (opening + 4)) = true := hempty
    rw [if_pos hempty, if_pos hstart, List.drop_drop]
    rfl
  · have hnot : ¬(js ">").isPrefixOf (text.drop (opening + 4)) = true := hempty
    rw [if_neg hempty, if_neg hnot]
    by_cases hshort : startsWith text (js "->") (opening + 4) = true
    · have hstart : (js "->").isPrefixOf (text.drop (opening + 4)) = true := hshort
      rw [if_pos hshort, if_pos hstart, List.drop_drop]
      rfl
    · have hlong : ¬(js "->").isPrefixOf (text.drop (opening + 4)) = true := hshort
      rw [if_neg hshort, if_neg hlong, afterFirst_drop]
      cases indexOf text (js "-->") (opening + 4) with
      | none => rfl
      | some close => rfl

theorem slice_min (close : ℕ) :
    slice text cursor (min close (skipWhile p text cursor)) = (slice text cursor close).takeWhile p := by
  have hbegins : (text.drop cursor).takeWhile p <+: text.drop cursor := List.takeWhile_prefix _
  have hlength : min close (skipWhile p text cursor) - cursor =
      min (close - cursor) ((text.drop cursor).takeWhile p).length := by
    unfold skipWhile
    omega
  rw [slice, slice, List.drop_take, List.drop_take, ← List.take_takeWhile, hlength, ← List.take_take,
    ← List.prefix_iff_eq_take.mp hbegins]

/-- A declaration or a processing instruction. -/
theorem declaration_drop (rt : MarkupRuntime) (text : JsString) (opening : ℕ) {next : UInt16}
    (hslash : next ≠ 0x2F) :
    ((text.drop (opening + 2)).dropWhile (· != 0x3E) = [] →
        openedAs text (.done (closedToken rt text opening next)) = .unfinished) ∧
      ∀ u rest, (text.drop (opening + 2)).dropWhile (· != 0x3E) = u :: rest →
        openedAs text (.done (closedToken rt text opening next)) = .piece .other rest := by
  have hunit : js ">" = [0x3E] := by decide
  unfold closedToken
  rw [hunit]
  cases hclose : indexOf text [0x3E] (opening + 2) with
  | none =>
    rw [takeWhile_of_indexOf.1 hclose]
    exact ⟨fun _ => rfl, fun u rest h => (nomatch h)⟩
  | some close =>
    rw [(takeWhile_of_indexOf.2 close hclose).2]
    dsimp only
    rw [if_pos hslash]
    refine ⟨fun h => (nomatch h), fun u rest h => ?_⟩
    rw [← (List.cons.inj h).2]
    rfl

/-- An end tag. -/
theorem closingTag_drop (rt : MarkupRuntime) (text : JsString) (opening : ℕ) :
    closingTag rt (text.drop (opening + 2)) = openedAs text (.done (closedToken rt text opening 0x2F)) := by
  have hunit : js ">" = [0x3E] := by decide
  unfold closedToken closingTag
  rw [hunit]
  cases hclose : indexOf text [0x3E] (opening + 2) with
  | none =>
    rw [takeWhile_of_indexOf.1 hclose]
    rfl
  | some close =>
    obtain ⟨htaken, hleft⟩ := takeWhile_of_indexOf.2 close hclose
    dsimp only
    rw [hleft, ← htaken, if_neg (not_not_intro rfl), slice_min]
    rfl

theorem start_commentToken (text : JsString) (opening : ℕ) : (commentToken text opening).start = opening := by
  unfold commentToken
  split_ifs
  · rfl
  · rfl
  · cases indexOf text (js "-->") (opening + 4) with
    | none => rfl
    | some close => rfl

theorem start_closedToken (rt : MarkupRuntime) (text : JsString) (opening : ℕ) (next : UInt16) :
    (closedToken rt text opening next).start = opening := by
  unfold closedToken
  cases indexOf text (js ">") (opening + 2) with
  | none => rfl
  | some close =>
    dsimp only
    split_ifs
    · rfl
    · rfl

/-- **A less-than sign begins the same in both**, and the search goes on behind it or ends at it. -/
theorem markupAt_drop {opening : ℕ} {turn : Loop.Turn ℕ MarkupToken} (hfuel : text.length < fuel)
    (hopening : indexOf text (js "<") start = some opening) (hturn : markupAt rt keep fuel text start = some turn) :
    openedBy rt keep (text.drop (opening + 1)) = openedAs text turn ∧
      (∀ later, turn = .again later → later = opening + 1) ∧ ∀ token, turn = .done token → token.start = opening := by
  have hagain : (∀ later, (.again (opening + 1) : Loop.Turn ℕ MarkupToken) = .again later → later = opening + 1) ∧
      ∀ token, (.again (opening + 1) : Loop.Turn ℕ MarkupToken) = .done token → token.start = opening :=
    ⟨fun later h => (Loop.Turn.again.inj h).symm, fun token h => (nomatch h)⟩
  have hdone : ∀ {token : MarkupToken}, token.start = opening →
      (∀ later, (.done token : Loop.Turn ℕ MarkupToken) = .again later → later = opening + 1) ∧
        ∀ other, (.done token : Loop.Turn ℕ MarkupToken) = .done other → other.start = opening :=
    fun hstart => ⟨fun later h => (nomatch h), fun other h => Loop.Turn.done.inj h ▸ hstart⟩
  unfold markupAt at hturn
  rw [hopening] at hturn
  dsimp only at hturn
  cases hnext : text[opening + 1]? with
  | none =>
    rw [hnext] at hturn
    obtain rfl := Option.some.inj hturn
    rw [drop_of_getElem?_none hnext]
    exact ⟨rfl, hagain⟩
  | some next =>
    rw [hnext] at hturn
    rw [drop_of_getElem? hnext, openedBy]
    dsimp only at hturn ⊢
    have hyphens : (js "--").isPrefixOf (text.drop (opening + 1 + 1)) = startsWith text (js "--") (opening + 2) := rfl
    rw [hyphens]
    by_cases hcomment : next = 0x21 ∧ startsWith text (js "--") (opening + 2) = true
    · rw [if_pos hcomment] at hturn
      obtain rfl := Option.some.inj hturn
      rw [if_pos hcomment, List.drop_drop]
      exact ⟨comment_drop text opening, hdone (start_commentToken text opening)⟩
    · rw [if_neg hcomment] at hturn
      rw [if_neg hcomment]
      by_cases hclosed : next = 0x21 ∨ next = 0x3F ∨ next = 0x2F
      · rw [if_pos hclosed] at hturn
        obtain rfl := Option.some.inj hturn
        refine ⟨?_, hdone (start_closedToken rt text opening next)⟩
        by_cases hslash : next = 0x2F
        · obtain rfl := hslash
          exact closingTag_drop rt text opening
        · have hdeclared : next = 0x21 ∨ next = 0x3F := hclosed.imp_right fun h => h.resolve_right hslash
          obtain ⟨hunfinished, hpiece⟩ := declaration_drop rt text opening hslash
          rw [if_pos hdeclared]
          cases hleft : (text.drop (opening + 1 + 1)).dropWhile (· != 0x3E) with
          | nil => exact (hunfinished hleft).symm
          | cons u rest => exact (hpiece u rest hleft).symm
      · rw [if_neg hclosed] at hturn
        have hdeclared : ¬(next = 0x21 ∨ next = 0x3F) := fun h => hclosed (h.imp_right Or.inl)
        have hslash : next ≠ 0x2F := fun h => hclosed (Or.inr (Or.inr h))
        rw [if_neg hdeclared, if_neg hslash]
        by_cases hletter : (!isLetter next) = true
        · rw [if_pos hletter] at hturn
          obtain rfl := Option.some.inj hturn
          rw [if_pos hletter]
          exact ⟨rfl, hagain⟩
        · rw [if_neg hletter] at hturn
          obtain ⟨answer, hread, hpiece⟩ := Option.map_eq_some_iff.mp hturn
          rw [if_neg hletter, ← drop_of_getElem? hnext, readStartTag_drop hfuel, hread]
          cases answer with
          | none =>
            obtain rfl := hpiece
            exact ⟨rfl, hdone rfl⟩
          | some tag =>
            obtain rfl := hpiece
            exact ⟨rfl, hdone rfl⟩

/-- Text without a less-than sign, up to the first one. -/
theorem nextMarkup_before (rt : MarkupRuntime) (keep : List JsString) (text : JsString) (cursor : ℕ) :
    (indexOf text (js "<") cursor = none → Import.nextMarkup rt keep (text.drop cursor) = (text.drop cursor, none)) ∧
      ∀ opening, indexOf text (js "<") cursor = some opening →
        Import.nextMarkup rt keep (text.drop cursor) =
          (slice text cursor opening ++ (Import.nextMarkup rt keep (text.drop opening)).1,
            (Import.nextMarkup rt keep (text.drop opening)).2) := by
  have hunit : js "<" = [0x3C] := by decide
  rw [hunit]
  induction cursor using position_induction text with
  | hend cursor hend =>
    rw [indexOf_end hend, List.drop_eq_nil_of_le hend]
    exact ⟨fun _ => rfl, fun opening h => (nomatch h)⟩
  | hback cursor u hdrop ih =>
    rw [indexOf_back hdrop, startsWith_unit hdrop]
    by_cases hfound : ((0x3C : UInt16) == u) = true
    · rw [if_pos hfound]
      refine ⟨fun h => (nomatch h), fun opening h => ?_⟩
      obtain rfl := Option.some.inj h
      rw [slice, List.drop_take, Nat.sub_self, List.take_zero]
      rfl
    · rw [if_neg hfound]
      have hother : u ≠ 0x3C := fun h => hfound (beq_iff_eq.mpr h.symm)
      refine ⟨fun h => ?_, fun opening h => ?_⟩
      · rw [hdrop, Import.nextMarkup, if_neg hother, ih.1 h]
      · have hbehind := (indexOf_some h).1
        rw [slice_cons hdrop hbehind, hdrop, Import.nextMarkup, if_neg hother, ih.2 opening h]
        rfl

theorem drop_of_indexOf {q : UInt16} (h : indexOf text [q] cursor = some position) :
    text.drop position = q :: text.drop (position + 1) := by
  have hlt := (indexOf_some h).2.1
  have hfound : startsWith text [q] position = true :=
    List.find?_some (p := fun position => startsWith text [q] position) h
  have hdrop : text.drop position = text[position] :: text.drop (position + 1) := List.drop_eq_getElem_cons hlt
  rw [startsWith_unit hdrop] at hfound
  rw [hdrop, ← eq_of_beq hfound]

/-- **The next piece of markup**: the text before it, the piece and what is left behind it. -/
theorem nextMarkup_drop {token : MarkupToken} (hfuel : text.length < fuel) {turns : ℕ}
    (h : Loop.run (markupAt rt keep fuel text) turns cursor = some token) :
    Import.nextMarkup rt keep (text.drop cursor) = (slice text cursor token.start, token.piece text) := by
  induction turns generalizing cursor with
  | zero => cases h
  | succ turns ih =>
    obtain ⟨hnone, hsome⟩ := nextMarkup_before rt keep text cursor
    rw [Loop.run] at h
    cases hopening : indexOf text (js "<") cursor with
    | none =>
      have hturn : markupAt rt keep fuel text cursor = some (.done (.eof text.length)) := by
        rw [markupAt, hopening]
      rw [hturn] at h
      obtain rfl := Option.some.inj h
      have hslice : slice text cursor text.length = text.drop cursor := by
        rw [slice, List.take_length]
      rw [hnone hopening, ← hslice]
      rfl
    | some opening =>
      cases hturn : markupAt rt keep fuel text cursor with
      | none =>
        rw [hturn] at h
        cases h
      | some turn =>
        rw [hturn] at h
        obtain ⟨hopened, hlater, hdone⟩ := markupAt_drop hfuel hopening hturn
        have hunit : js "<" = [0x3C] := by decide
        have hless : text.drop opening = 0x3C :: text.drop (opening + 1) := drop_of_indexOf (hunit ▸ hopening)
        obtain ⟨hbegins, hlength, -⟩ := indexOf_some hopening
        rw [hsome opening hopening, hless, Import.nextMarkup, if_pos rfl, hopened]
        cases turn with
        | again later =>
          obtain rfl := hlater later rfl
          have hbehind : opening + 1 ≤ token.start := (le_min le_rfl hlength).trans (run_markupAt_placed h).le_start
          have hslice : slice text cursor opening ++ 0x3C :: slice text (opening + 1) token.start =
              slice text cursor token.start := by
            rw [← slice_cons hless hbehind, slice_append hbegins (Nat.le_of_succ_le hbehind)]
          dsimp only [openedAs]
          rw [ih h, hslice]
        | done token' =>
          obtain rfl := Option.some.inj h
          rw [hdone _ rfl]
          dsimp only [openedAs]
          cases hpiece : token'.piece text with
          | none => rw [List.append_nil]
          | some piece => rw [List.append_nil]

end

end SlugBase.Page
