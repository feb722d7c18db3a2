import SlugBase.Export.Netscape
import SlugBase.Lib.Stringify
import SlugBase.Lib.Utf8
import Mathlib.Data.List.Lex

/-!
# The export as JSON

The writer of the export document: folders, tags, bookmarks, remembered slug choices and shared bookmarks, each read page by
page, with a separator between two pieces of a list.

* `KeyShelf`: rows in the order of a key, which a page resumes behind; `emitAll`, `readRows`: what the pages of a list write;
* **`readRows_answers`**: whatever the page size, the pieces of a list are the texts of all its rows with a comma between them;
* `jsonPieces`: the pieces of the document; `document`: the document as a value;
* **`jsonPieces_answers`**: together the pieces are `JSON.stringify` of the document;
* **`goPreferences_resolve`**: a choice is in the document with the ref of its bookmark, exactly when that bookmark is there,
  has a slug and forwards.
-/

namespace SlugBase.Export

open JavaScript

/-! ## Rows in the order of a key -/

/-- Rows in the order of a key. -/
structure KeyShelf (ρ : Type) {τ κ : Type} [LinearOrder κ] (keyOf : ρ → τ) (rank : τ → κ) where
  rows : List ρ
  ordered : rows.Pairwise fun a b => rank (keyOf a) < rank (keyOf b)

section

variable {ρ τ κ σ : Type} [LinearOrder κ] {keyOf : ρ → τ} {rank : τ → κ}

/-- The rows behind a key. -/
def KeyShelf.behind (shelf : KeyShelf ρ keyOf rank) (after : Option τ) : List ρ :=
  shelf.rows.filter fun row => after.all fun key => decide (rank key < rank (keyOf row))

/-- At most `limit` rows behind a key. -/
def KeyShelf.page (shelf : KeyShelf ρ keyOf rank) (limit : ℕ) (after : Option τ) : List ρ := (shelf.behind after).take limit

/-- What the rows write, one after the other, with what is carried from one to the next. -/
def emitAll (emit : σ → ρ → List JsString × σ) : σ → List ρ → List JsString × σ
  | carry, [] => ([], carry)
  | carry, row :: rows =>
    let (texts, carry) := emit carry row
    let (rest, carry) := emitAll emit carry rows
    (texts ++ rest, carry)

/-- Where a list of the document stands: the key to resume behind, what goes before the next piece, and the pieces so far. -/
structure Listing (τ σ : Type) where
  after : Option τ
  separator : JsString
  carry : σ
  pieces : List JsString

/-- The pieces with that of one more page; none for a page that writes nothing. -/
def Listing.piecesWith (s : Listing τ σ) (texts : List JsString) : List JsString :=
  if texts = [] then s.pieces else s.pieces ++ [s.separator ++ joined texts]

/-- What goes before the piece of the next page. -/
def Listing.separatorAfter (s : Listing τ σ) (texts : List JsString) : JsString := if texts = [] then s.separator else [0x2C]

/-- One page of a list. -/
def rowsTurn (page : Option τ → List ρ) (keyOf : ρ → τ) (pageSize : ℕ) (emit : σ → ρ → List JsString × σ) (s : Listing τ σ) :
    Loop.Turn (Listing τ σ) (List JsString × σ) :=
  let rows := page s.after
  let (texts, carry) := emitAll emit s.carry rows
  if rows.length < pageSize then .done (s.piecesWith texts, carry)
  else .again ⟨(rows.getLast?.map keyOf).or s.after, s.separatorAfter texts, carry, s.piecesWith texts⟩

/-- The pieces of a list, page after page. -/
def readRows (page : Option τ → List ρ) (keyOf : ρ → τ) (pageSize : ℕ) (emit : σ → ρ → List JsString × σ) (carry : σ)
    (fuel : ℕ) : Option (List JsString × σ) :=
  Loop.run (fun s => some (rowsTurn page keyOf pageSize emit s)) fuel ⟨none, [], carry, []⟩

/-! ## All pages of a list -/

theorem KeyShelf.behind_none (shelf : KeyShelf ρ keyOf rank) : shelf.behind none = shelf.rows :=
  List.filter_eq_self.mpr fun _ _ => rfl

theorem KeyShelf.nodup_keys (shelf : KeyShelf ρ keyOf rank) : (shelf.rows.map keyOf).Nodup :=
  List.pairwise_map.mpr (shelf.ordered.imp fun hless heq => (ne_of_lt hless) (congrArg rank heq))

theorem KeyShelf.eq_of_key {shelf : KeyShelf ρ keyOf rank} {a b : ρ} (ha : a ∈ shelf.rows) (hb : b ∈ shelf.rows)
    (h : keyOf a = keyOf b) : a = b := List.inj_on_of_nodup_map shelf.nodup_keys ha hb h

theorem filter_behind {before rest : List ρ} {x : ρ}
    (hordered : (before ++ x :: rest).Pairwise fun a b => rank (keyOf a) < rank (keyOf b)) :
    ((before ++ x :: rest).filter fun row => decide (rank (keyOf x) < rank (keyOf row))) = rest := by
  obtain ⟨-, hrest, hacross⟩ := List.pairwise_append.mp hordered
  rw [List.filter_append, List.filter_eq_nil_iff.mpr, List.nil_append, List.filter_cons_of_neg, List.filter_eq_self]
  · exact fun row hrow => decide_eq_true (List.rel_of_pairwise_cons hrest hrow)
  · simp
  · intro row hrow
    simpa using (hacross row hrow x List.mem_cons_self).le

/-- Behind the last row of a full page is what the page left out. -/
theorem KeyShelf.behind_page {shelf : KeyShelf ρ keyOf rank} {pageSize : ℕ} {after : Option τ} (hpos : 0 < pageSize)
    (hfull : ¬(shelf.page pageSize after).length < pageSize) :
    shelf.behind (((shelf.page pageSize after).getLast?.map keyOf).or after) = (shelf.behind after).drop pageSize := by
  have hne : shelf.page pageSize after ≠ [] := by
    intro hnil
    rw [hnil] at hfull
    exact hfull hpos
  obtain ⟨before, x, hlast⟩ : ∃ before x, shelf.page pageSize after = before ++ [x] :=
    ⟨_, _, (List.dropLast_append_getLast hne).symm⟩
  have hsplit : shelf.behind after = before ++ x :: (shelf.behind after).drop pageSize := by
    conv_lhs => rw [← List.take_append_drop pageSize (shelf.behind after)]
    rw [show (shelf.behind after).take pageSize = before ++ [x] from hlast, List.append_assoc, List.singleton_append]
  have hordered : (shelf.behind after).Pairwise fun a b => rank (keyOf a) < rank (keyOf b) := shelf.ordered.filter _
  rw [hsplit] at hordered
  have hx : after.all (fun key => decide (rank key < rank (keyOf x))) = true := by
    have hmem : x ∈ shelf.behind after := by
      rw [hsplit]
      exact List.mem_append_right before List.mem_cons_self
    exact (List.mem_filter.mp hmem).2
  have hbehind : shelf.behind (some (keyOf x)) =
      (shelf.behind after).filter fun row => decide (rank (keyOf x) < rank (keyOf row)) := by
    unfold KeyShelf.behind
    rw [List.filter_filter]
    refine List.filter_congr fun row _ => ?_
    cases after with
    | none => exact (Bool.and_true _).symm
    | some key =>
      refine (Bool.and_eq_left_iff_imp.mpr fun hrow => ?_).symm
      exact decide_eq_true ((of_decide_eq_true hx).trans (of_decide_eq_true hrow))
  rw [hlast, List.getLast?_concat, Option.map_some, Option.some_or, hbehind]
  conv_lhs => rw [hsplit]
  exact filter_behind hordered

theorem emitAll_append (emit : σ → ρ → List JsString × σ) (carry : σ) (rows rows' : List ρ) :
    emitAll emit carry (rows ++ rows') = ((emitAll emit carry rows).1 ++ (emitAll emit (emitAll emit carry rows).2 rows').1,
      (emitAll emit (emitAll emit carry rows).2 rows').2) := by
  induction rows generalizing carry with
  | nil => rfl
  | cons row rows ih =>
    simp only [List.cons_append, emitAll, ih, List.append_assoc]

theorem joined_of_append {l l' : List JsString} (h : l ≠ []) (h' : l' ≠ []) : joined (l ++ l') = joined l ++ 0x2C :: joined l' := by
  obtain ⟨s, l, rfl⟩ := List.exists_cons_of_ne_nil h
  obtain ⟨t, l', rfl⟩ := List.exists_cons_of_ne_nil h'
  rw [List.cons_append, joined_cons, joined_cons, joined_cons, List.flatMap_append, List.flatMap_cons, List.append_assoc]
  rfl

/-- A list that has written the texts of the rows `before`. -/
structure Listing.Stands (emit : σ → ρ → List JsString × σ) (first : σ) (before : List ρ) (s : Listing τ σ) : Prop where
  carry : s.carry = (emitAll emit first before).2
  pieces : s.pieces.flatten = joined (emitAll emit first before).1
  separator : s.separator = if (emitAll emit first before).1 = [] then [] else [0x2C]

/-- One more page. -/
theorem Listing.Stands.page {emit : σ → ρ → List JsString × σ} {carry : σ} {before : List ρ} {s : Listing τ σ}
    (h : s.Stands emit carry before) (rows : List ρ) (after : Option τ) :
    Listing.Stands emit carry (before ++ rows) ⟨after, s.separatorAfter (emitAll emit s.carry rows).1,
      (emitAll emit s.carry rows).2, s.piecesWith (emitAll emit s.carry rows).1⟩ := by
  obtain ⟨hcarry, hpieces, hseparator⟩ := h
  unfold Listing.separatorAfter Listing.piecesWith
  rw [hcarry]
  refine ⟨by rw [emitAll_append], ?_, ?_⟩ <;> rw [emitAll_append]
  · dsimp only
    split_ifs with hnone
    · rw [hpieces, hnone, List.append_nil]
    rw [List.flatten_append, List.flatten_singleton, hpieces, hseparator]
    split_ifs with hfirst
    · rw [hfirst]
      rfl
    · rw [joined_of_append hfirst hnone]
      rfl
  · dsimp only
    split_ifs with hnone hboth hboth
    · rw [hseparator, if_pos (List.append_eq_nil_iff.mp hboth).1]
    · rw [hseparator, if_neg fun hfirst => hboth (List.append_eq_nil_iff.mpr ⟨hfirst, hnone⟩)]
    · exact absurd (List.append_eq_nil_iff.mp hboth).2 hnone
    · rfl

/-- **The pieces of a list are the texts of all its rows**, in order and with a comma between two, for any page size. -/
theorem readRows_answers (shelf : KeyShelf ρ keyOf rank) (emit : σ → ρ → List JsString × σ) (carry : σ) {pageSize n : ℕ}
    (hpos : 0 < pageSize) (hn : shelf.rows.length ≤ n) :
    ∃ pieces, Loop.Answers (readRows (shelf.page pageSize) keyOf pageSize emit carry) n
        (pieces, (emitAll emit carry shelf.rows).2) ∧
      pieces.flatten = joined (emitAll emit carry shelf.rows).1 := by
  have hlower : ∀ s s', True → rowsTurn (shelf.page pageSize) keyOf pageSize emit s = .again s' →
      True ∧ (shelf.behind s'.after).length < (shelf.behind s.after).length := by
    intro s s' _ hagain
    unfold rowsTurn at hagain
    dsimp only at hagain
    split_ifs at hagain with hlast
    obtain rfl := Loop.Turn.again.inj hagain
    have hroom : ¬((shelf.behind s.after).take pageSize).length < pageSize := hlast
    rw [List.length_take] at hroom
    refine ⟨trivial, ?_⟩
    dsimp only
    rw [KeyShelf.behind_page hpos hlast, List.length_drop]
    omega
  have hlength : (shelf.behind none).length ≤ n := by rwa [shelf.behind_none]
  obtain ⟨⟨pieces, last⟩, hanswers⟩ : ∃ b, Loop.Answers (readRows (shelf.page pageSize) keyOf pageSize emit carry) n b :=
    Loop.answers_of_measure (fun _ => True) (fun s => (shelf.behind s.after).length) (fun _ _ _ _ => rfl) hlower trivial hlength
  -- what is written so far and what is still to be read are the whole list
  have hpost := @Loop.run_post _ _ (fun s => some (rowsTurn (shelf.page pageSize) keyOf pageSize emit s))
    (fun s => ∃ before, before ++ shelf.behind s.after = shelf.rows ∧ s.Stands emit carry before)
    (fun answer => answer.1.flatten = joined (emitAll emit carry shelf.rows).1 ∧ answer.2 = (emitAll emit carry shelf.rows).2)
    ?_ ?_ _ _ _ ?_ (hanswers (n + 1) (Nat.lt_succ_self n))
  · obtain ⟨hflat, rfl⟩ := hpost
    exact ⟨pieces, hanswers, hflat⟩
  · rintro s s' ⟨before, hbefore, hs⟩ hagain
    have hnext := Option.some.inj hagain
    unfold rowsTurn at hnext
    dsimp only at hnext
    split_ifs at hnext with hlast
    obtain rfl := Loop.Turn.again.inj hnext
    refine ⟨before ++ shelf.page pageSize s.after, ?_, hs.page _ _⟩
    rw [KeyShelf.behind_page hpos hlast, List.append_assoc, ← hbefore]
    exact congrArg (before ++ ·) (List.take_append_drop pageSize (shelf.behind s.after))
  · rintro s answer ⟨before, hbefore, hs⟩ hdone
    have hnext := Option.some.inj hdone
    unfold rowsTurn at hnext
    dsimp only at hnext
    split_ifs at hnext with hlast
    obtain rfl := Loop.Turn.done.inj hnext
    have hall : shelf.page pageSize s.after = shelf.behind s.after := by
      have hpage : shelf.page pageSize s.after = (shelf.behind s.after).take pageSize := rfl
      rw [hpage, List.length_take] at hlast
      rw [hpage]
      exact List.take_of_length_le (by omega)
    have hlists := hs.page (shelf.page pageSize s.after) none
    rw [hall, hbefore] at hlists
    exact ⟨hall ▸ hlists.pieces, hall ▸ hlists.carry⟩
  · exact ⟨[], by rw [shelf.behind_none]; rfl, rfl, rfl, rfl⟩

end

/-! ## The values of the document -/

/-- The value of an object literal: its names, and their values in the same order. -/
def literal (names : List JsString) (distinct : names.Nodup) (values : List JsValue) : JsValue :=
  .object names distinct fun name => ((names.zip values).lookup name).getD .undefined

/-- A text or `null`. -/
def optionalText : Option JsString → JsValue
  | none => .scalar .null
  | some text => .text text

/-- The digits of a number. -/
def digits (n : ℕ) : JsString := (Nat.toDigits 10 n).map fun c => UInt16.ofNat c.toNat

theorem isNumberUnit_of_digit {c : Char} (h : c.isDigit = true) : isNumberUnit (UInt16.ofNat c.toNat) = true := by
  simp only [Char.isDigit, Bool.and_eq_true, decide_eq_true_eq, ge_iff_le, UInt32.le_iff_toNat_le] at h
  have hlow : 48 ≤ c.toNat := h.1
  have hhigh : c.toNat ≤ 57 := h.2
  have hnat : (UInt16.ofNat c.toNat).toNat = c.toNat := by
    rw [UInt16.toNat_ofNat']
    exact Nat.mod_eq_of_lt (by omega)
  simp only [isNumberUnit, Bool.or_eq_true, Bool.and_eq_true, decide_eq_true_eq, UInt16.le_iff_toNat_le, hnat]
  exact .inl (.inl (.inl (.inl ⟨hlow, hhigh⟩)))

/-- A whole number. -/
def wholeNumber (n : ℕ) : JsNumber where
  text := digits n
  ne_nil := by
    rw [digits, Ne, List.map_eq_nil_iff]
    exact Nat.toDigits_ne_nil
  units := by
    rintro u hu
    obtain ⟨c, hc, rfl⟩ := List.mem_map.mp hu
    exact isNumberUnit_of_digit (Nat.isDigit_of_mem_toDigits (by decide) (by decide) hc)

/-! ## The rows of the document -/

/-- A bookmark as the store reads it. -/
structure ExportBookmarkRow where
  id : ℕ
  url : JsString
  title : JsString
  description : Option JsString
  slug : Option JsString
  forwarding : Bool
  pinned : Bool
  planArchived : Bool
  folders : List JsString
  tags : List JsString

/-- A remembered slug choice as the store reads it. -/
structure ExportGoPreferenceRow where
  slug : JsString
  bookmarkId : ℕ

structure ExportFolderRow where
  name : JsString
  icon : JsString
  color : ℕ

/-- A bookmark shared with the member, with the name of its owner. -/
structure SharedBookmarkRow where
  id : ℕ
  url : JsString
  title : JsString
  description : Option JsString
  slug : Option JsString
  ownerName : Option JsString

/-- The bytes of a name, by which the database sorts it. -/
def nameBytes (name : JsString) : List ℕ := (utf8 name).map UInt8.toNat

/-- What the reads of the store page through. -/
structure JsonLibrary where
  folders : KeyShelf ExportFolderRow ExportFolderRow.name nameBytes
  tags : KeyShelf JsString id nameBytes
  bookmarks : KeyShelf ExportBookmarkRow ExportBookmarkRow.id (id : ℕ → ℕ)
  goPreferences : KeyShelf ExportGoPreferenceRow ExportGoPreferenceRow.slug nameBytes
  shared : KeyShelf SharedBookmarkRow SharedBookmarkRow.id (id : ℕ → ℕ)

def ExportFolderRow.value (row : ExportFolderRow) : JsValue :=
  literal (["name", "icon", "color"].map js) (by decide)
    [.text row.name, .text row.icon, .scalar (.number (wholeNumber row.color))]

/-- The `ref` of the bookmark at a position, counted from 1. -/
def refAt (position : ℕ) : JsString := js "b" ++ digits position

def ExportBookmarkRow.value (row : ExportBookmarkRow) (ref : JsString) : JsValue :=
  literal (["ref", "url", "title", "description", "slug", "forwarding", "pinned", "planArchived", "folders", "tags"].map js)
    (by decide)
    [.text ref, .text row.url, .text row.title, optionalText row.description, optionalText row.slug,
      .scalar (.bool row.forwarding), .scalar (.bool row.pinned), .scalar (.bool row.planArchived),
      .ofList (row.folders.map JsValue.text), .ofList (row.tags.map JsValue.text)]

def goPreferenceValue (slug ref : JsString) : JsValue :=
  literal (["slug", "bookmarkRef"].map js) (by decide) [.text slug, .text ref]

def SharedBookmarkRow.value (row : SharedBookmarkRow) : JsValue :=
  literal (["url", "title", "description", "slug", "ownerName", "shared"].map js) (by decide)
    [.text row.url, .text row.title, optionalText row.description, optionalText row.slug, optionalText row.ownerName,
      .scalar (.bool true)]

/-! ## The pieces of the document -/

/-- The position of the last bookmark written, and the refs of those that have a slug and forward. -/
structure Refs where
  position : ℕ := 0
  refOf : List (ℕ × JsString) := []

/-- What a bookmark writes, and its ref when a choice may name it. -/
def emitBookmark (refs : Refs) (row : ExportBookmarkRow) : List JsString × Refs :=
  let ref := refAt (refs.position + 1)
  ([stringify (row.value ref)], ⟨refs.position + 1,
    if row.slug.isSome && row.forwarding then (row.id, ref) :: refs.refOf else refs.refOf⟩)

/-- What a choice writes: nothing when its bookmark has no ref. -/
def emitGoPreference (refOf : List (ℕ × JsString)) (carry : Unit) (row : ExportGoPreferenceRow) : List JsString × Unit :=
  match refOf.lookup row.bookmarkId with
  | none => ([], carry)
  | some ref => ([stringify (goPreferenceValue row.slug ref)], carry)

/-- What every row of a list writes. -/
def emitValue {ρ : Type} (value : ρ → JsValue) (carry : Unit) (row : ρ) : List JsString × Unit :=
  ([stringify (value row)], carry)

section

variable (exportedAt workspaceName : JsString) (library : JsonLibrary) (ask : ExportStreamAsk) (pageSize : ℕ)

/-- The values before the lists. -/
def headValues : List JsValue :=
  [.text (js "slugbase-export"), .scalar (.number (wholeNumber 1)), .text exportedAt,
    literal (["name"].map js) (by decide) [.text workspaceName]]

/-- What opens the document: the head without its brace. -/
def jsonHead : JsString :=
  (stringify (literal (["format", "version", "exportedAt", "workspace"].map js) (by decide)
    (headValues exportedAt workspaceName))).dropLast ++ js ",\"folders\":["

/-- The choices, which are asked for when some bookmark has a ref. -/
def choicePieces (refOf : List (ℕ × JsString)) (fuel : ℕ) : Option (List JsString) :=
  if refOf = [] then some []
  else (readRows (library.goPreferences.page pageSize) ExportGoPreferenceRow.slug pageSize (emitGoPreference refOf) () fuel).map
    Prod.fst

/-- The shared bookmarks, where they are read. -/
def sharedRowPieces (fuel : ℕ) : Option (List JsString) :=
  if readsShared ask then
    (readRows (library.shared.page pageSize) SharedBookmarkRow.id pageSize (emitValue SharedBookmarkRow.value) () fuel).map
      Prod.fst
  else some []

/-- `pieces`. -/
def jsonPieces (fuel : ℕ) : Option (List JsString) := do
  let folders ← readRows (library.folders.page pageSize) ExportFolderRow.name pageSize (emitValue ExportFolderRow.value) () fuel
  let tags ← readRows (library.tags.page pageSize) id pageSize (emitValue JsValue.text) () fuel
  let bookmarks ← readRows (library.bookmarks.page pageSize) ExportBookmarkRow.id pageSize emitBookmark {} fuel
  let goPreferences ← choicePieces library pageSize bookmarks.2.refOf fuel
  let shared ← sharedRowPieces library ask pageSize fuel
  some ([jsonHead exportedAt workspaceName] ++ folders.1 ++ [js "],\"tags\":["] ++ tags.1 ++ [js "],\"bookmarks\":["] ++
    bookmarks.1 ++ [js "],\"goPreferences\":["] ++ goPreferences ++ [js "],\"shared\":["] ++ shared ++ [js "]\x7d"])

/-! ## The document as a value -/

/-- Bookmarks, each with its ref, from a position on. -/
def refsFrom (position : ℕ) (rows : List ExportBookmarkRow) : List (ExportBookmarkRow × JsString) :=
  (rows.zipIdx position).map fun p => (p.1, refAt (p.2 + 1))

/-- The bookmarks of the document, each with its ref. -/
def JsonLibrary.refs : List (ExportBookmarkRow × JsString) := refsFrom 0 library.bookmarks.rows

/-- Whether a choice for bookmark `id` may name the bookmark of an entry. -/
def nameable (id : ℕ) (p : ExportBookmarkRow × JsString) : Bool := p.1.id == id && p.1.slug.isSome && p.1.forwarding

/-- The choices that are written: those whose bookmark is in the document, has a slug and forwards. -/
def JsonLibrary.choices : List (JsString × JsString) :=
  library.goPreferences.rows.filterMap fun choice =>
    (library.refs.find? (nameable choice.bookmarkId)).map fun p => (choice.slug, p.2)

/-- **The document.** -/
def document : JsValue :=
  literal (["format", "version", "exportedAt", "workspace", "folders", "tags", "bookmarks", "goPreferences", "shared"].map js)
    (by decide)
    (headValues exportedAt workspaceName ++
      [.ofList (library.folders.rows.map ExportFolderRow.value), .ofList (library.tags.rows.map JsValue.text),
        .ofList (library.refs.map fun p => p.1.value p.2),
        .ofList (library.choices.map fun p => goPreferenceValue p.1 p.2),
        .ofList (if readsShared ask then library.shared.rows.map SharedBookmarkRow.value else [])])

/-- The most rows of a list of the document. -/
def JsonLibrary.size : ℕ :=
  library.folders.rows.length + library.tags.rows.length + library.bookmarks.rows.length +
    library.goPreferences.rows.length + library.shared.rows.length

end

/-! ## The pieces are the document -/

theorem stringify_literal {names : List JsString} (distinct : names.Nodup) {values : List JsValue}
    (hlength : names.length = values.length) (hdefined : ∀ value ∈ values, value.isUndefined = false) :
    stringify (literal names distinct values) =
      0x7B :: (joined ((names.zip values).map fun f => quote f.1 ++ 0x3A :: stringify f.2) ++ [0x7D]) := by
  have hlookup : ∀ (names : List JsString) (values : List JsValue), names.Nodup → names.length = values.length →
      names.map (fun name => (name, ((names.zip values).lookup name).getD .undefined)) = names.zip values := by
    intro names
    induction names with
    | nil => exact fun _ _ _ => rfl
    | cons name names ih =>
      rintro (_ | ⟨value, values⟩) hnodup hlength
      · cases hlength
      rw [List.nodup_cons] at hnodup
      rw [List.map_cons, List.zip_cons_cons, List.lookup_cons_self]
      refine congrArg₂ List.cons rfl ((List.map_congr_left fun other hother => ?_).trans
        (ih values hnodup.2 (Nat.succ.inj hlength)))
      have hne : other ≠ name := fun heq => hnodup.1 (heq ▸ hother)
      simp only [List.lookup_cons, beq_false_of_ne hne]
  have hall := hlookup names values distinct hlength
  have hkept : names.filter (fun name => !(((names.zip values).lookup name).getD .undefined).isUndefined) = names := by
    refine List.filter_eq_self.mpr fun name hname => ?_
    have hmem := List.mem_map_of_mem (f := fun name => (name, ((names.zip values).lookup name).getD .undefined)) hname
    rw [hall] at hmem
    rw [hdefined _ (List.of_mem_zip hmem).2]
    rfl
  rw [literal, stringify, hkept]
  conv_rhs => rw [← hall, List.map_map]
  rfl

theorem stringify_ofList (items : List JsValue) : stringify (.ofList items) = 0x5B :: (joined (items.map stringify) ++ [0x5D]) := by
  rw [JsValue.ofList, stringify]
  have hitems : (List.range items.length).map (fun i => stringify (items.getD i .undefined)) = items.map stringify := by
    refine List.ext_getElem (by simp) fun i hi _ => ?_
    simp only [List.length_map, List.length_range] at hi
    simp [List.getElem_range, hi]
  rw [hitems]

theorem emitAll_value {ρ : Type} (value : ρ → JsValue) (rows : List ρ) :
    (emitAll (emitValue value) () rows).1 = (rows.map value).map stringify := by
  induction rows with
  | nil => rfl
  | cons row rows ih => rw [emitAll, List.map_cons, List.map_cons, ← ih]; rfl

/-! ## The choices of the document -/

theorem emitBookmark_texts (refs : Refs) (rows : List ExportBookmarkRow) :
    (emitAll emitBookmark refs rows).1 = ((refsFrom refs.position rows).map fun p => p.1.value p.2).map stringify := by
  induction rows generalizing refs with
  | nil => rfl
  | cons row rows ih =>
    rw [emitAll]
    dsimp only
    rw [ih]
    rfl

/-- The refs that are kept are those of the bookmarks that may be named. -/
theorem emitBookmark_refOf (refs : Refs) (rows : List ExportBookmarkRow) :
    (emitAll emitBookmark refs rows).2.refOf =
      (((refsFrom refs.position rows).filter fun p => p.1.slug.isSome && p.1.forwarding).map fun p => (p.1.id, p.2)).reverse ++
        refs.refOf := by
  induction rows generalizing refs with
  | nil => rfl
  | cons row rows ih =>
    have hrefs : refsFrom refs.position (row :: rows) =
        (row, refAt (refs.position + 1)) :: refsFrom (refs.position + 1) rows := rfl
    rw [emitAll, hrefs]
    dsimp only
    rw [ih, emitBookmark]
    by_cases hkept : (row.slug.isSome && row.forwarding) = true
    · rw [if_pos hkept, List.filter_cons_of_pos (by exact hkept)]
      simp
    · rw [if_neg hkept, List.filter_cons_of_neg (by exact hkept)]

theorem lookup_map_eq_find {l : List (ExportBookmarkRow × JsString)} (id : ℕ) :
    ((l.filter fun p => p.1.slug.isSome && p.1.forwarding).map fun p => (p.1.id, p.2)).lookup id =
      (l.find? (nameable id)).map Prod.snd := by
  induction l with
  | nil => rfl
  | cons p l ih =>
    by_cases hkept : (p.1.slug.isSome && p.1.forwarding) = true
    · rw [List.filter_cons_of_pos (by exact hkept), List.map_cons, List.lookup_cons]
      by_cases hid : p.1.id = id
      · have hnamed : nameable id p = true := by rw [nameable, Bool.and_assoc, hkept, Bool.and_true, hid, beq_self_eq_true]
        rw [List.find?_cons_of_pos hnamed, beq_iff_eq.mpr hid.symm]
        rfl
      · have hnamed : ¬nameable id p = true := by
          rw [nameable, Bool.and_assoc, hkept, Bool.and_true, beq_iff_eq]
          exact hid
        rw [List.find?_cons_of_neg hnamed, beq_false_of_ne fun heq => hid heq.symm]
        exact ih
    · have hnamed : ¬nameable id p = true := by
        rw [nameable, Bool.and_assoc, Bool.and_eq_true]
        exact fun h => hkept h.2
      rw [List.filter_cons_of_neg (by exact hkept), List.find?_cons_of_neg hnamed, ih]

theorem lookup_reverse {β : Type} {l : List (ℕ × β)} (hnodup : (l.map Prod.fst).Nodup) (id : ℕ) :
    l.reverse.lookup id = l.lookup id := by
  have hreverse : (l.reverse.map Prod.fst).Nodup := by rwa [List.map_reverse, List.nodup_reverse]
  cases hlookup : l.lookup id with
  | none =>
    refine List.lookup_eq_none_iff.mpr fun p hp => ?_
    exact List.lookup_eq_none_iff.mp hlookup p (List.mem_reverse.mp hp)
  | some b =>
    obtain ⟨before, after, rfl, -⟩ := List.lookup_eq_some_iff.mp hlookup
    exact Relational.lookup_of_mem hreverse (List.mem_reverse.mpr (by simp))

theorem refsFrom_ids (position : ℕ) (rows : List ExportBookmarkRow) :
    (refsFrom position rows).map (fun p => p.1.id) = rows.map ExportBookmarkRow.id := by
  rw [refsFrom, List.map_map]
  conv_rhs => rw [← List.zipIdx_map_fst position rows]
  rw [List.map_map]
  rfl

/-- **The ref a choice finds** is that of its bookmark, when the bookmark may be named. -/
theorem refOf_lookup (library : JsonLibrary) (id : ℕ) :
    (emitAll emitBookmark {} library.bookmarks.rows).2.refOf.lookup id = (library.refs.find? (nameable id)).map Prod.snd := by
  have hids : ((refsFrom 0 library.bookmarks.rows).map fun p => p.1.id).Nodup := by
    rw [refsFrom_ids]
    exact library.bookmarks.nodup_keys
  rw [emitBookmark_refOf, List.append_nil, lookup_reverse, lookup_map_eq_find]
  · rfl
  · rw [List.map_map]
    exact hids.sublist (List.filter_sublist.map _)

theorem emitGoPreference_texts (library : JsonLibrary) :
    (emitAll (emitGoPreference (emitAll emitBookmark {} library.bookmarks.rows).2.refOf) () library.goPreferences.rows).1 =
      (library.choices.map fun p => goPreferenceValue p.1 p.2).map stringify := by
  rw [JsonLibrary.choices]
  induction library.goPreferences.rows with
  | nil => rfl
  | cons choice rows ih =>
    rw [emitAll]
    dsimp only
    rw [ih, emitGoPreference, refOf_lookup]
    cases hfind : library.refs.find? (nameable choice.bookmarkId) with
    | none =>
      rw [List.filterMap_cons_none (by rw [hfind]; rfl)]
      rfl
    | some p =>
      rw [List.filterMap_cons_some (b := (choice.slug, p.2)) (by rw [hfind]; rfl)]
      rfl

/-! ## The pieces are the document -/

section

variable {library : JsonLibrary} {ask : ExportStreamAsk} {pageSize : ℕ}

theorem choicePieces_answers (hpos : 0 < pageSize) :
    ∃ pieces, Loop.Answers (choicePieces library pageSize (emitAll emitBookmark {} library.bookmarks.rows).2.refOf)
        library.size pieces ∧
      pieces.flatten = joined ((library.choices.map fun p => goPreferenceValue p.1 p.2).map stringify) := by
  obtain ⟨choices, hchoices, hflat⟩ := readRows_answers library.goPreferences
    (emitGoPreference (emitAll emitBookmark {} library.bookmarks.rows).2.refOf) () hpos
    (n := library.size) (by unfold JsonLibrary.size; omega)
  unfold choicePieces
  by_cases hrefs : (emitAll emitBookmark {} library.bookmarks.rows).2.refOf = []
  · -- without a ref no choice is written
    have hnone : library.choices = [] := by
      refine List.filterMap_eq_nil_iff.mpr fun choice _ => ?_
      have hlookup := refOf_lookup library choice.bookmarkId
      rw [hrefs, List.lookup_nil] at hlookup
      rw [Option.map_eq_none_iff.mp hlookup.symm]
      rfl
    refine ⟨[], fun _ _ => if_pos hrefs, ?_⟩
    rw [hnone]
    rfl
  · refine ⟨choices, fun fuel hfuel => ?_, hflat.trans (congrArg joined (emitGoPreference_texts library))⟩
    dsimp only
    rw [if_neg hrefs, hchoices fuel hfuel]
    rfl

theorem sharedRowPieces_answers (hpos : 0 < pageSize) :
    ∃ pieces, Loop.Answers (sharedRowPieces library ask pageSize) library.size pieces ∧
      pieces.flatten =
        joined ((if readsShared ask then library.shared.rows.map SharedBookmarkRow.value else []).map stringify) := by
  obtain ⟨shared, hshared, hflat⟩ := readRows_answers library.shared (emitValue SharedBookmarkRow.value) () hpos
    (n := library.size) (by unfold JsonLibrary.size; omega)
  unfold sharedRowPieces
  by_cases hask : readsShared ask = true
  · refine ⟨shared, fun fuel hfuel => ?_, ?_⟩
    · dsimp only
      rw [if_pos hask, hshared fuel hfuel]
      rfl
    · rw [hflat, emitAll_value, if_pos hask]
  · refine ⟨[], fun _ _ => if_neg hask, ?_⟩
    rw [if_neg hask]
    rfl

/-- **Together the pieces are the document**, whatever the page size. -/
theorem jsonPieces_answers (exportedAt workspaceName : JsString) (library : JsonLibrary) (ask : ExportStreamAsk)
    (hpos : 0 < pageSize) :
    ∃ pieces, Loop.Answers (jsonPieces exportedAt workspaceName library ask pageSize) library.size pieces ∧
      pieces.flatten = stringify (document exportedAt workspaceName library ask) := by
  obtain ⟨folders, hfolders, hfoldersFlat⟩ := readRows_answers library.folders (emitValue ExportFolderRow.value) () hpos
    (n := library.size) (by unfold JsonLibrary.size; omega)
  obtain ⟨tags, htags, htagsFlat⟩ := readRows_answers library.tags (emitValue JsValue.text) () hpos
    (n := library.size) (by unfold JsonLibrary.size; omega)
  obtain ⟨bookmarks, hbookmarks, hbookmarksFlat⟩ := readRows_answers library.bookmarks emitBookmark {} hpos
    (n := library.size) (by unfold JsonLibrary.size; omega)
  obtain ⟨choices, hchoices, hchoicesFlat⟩ := @choicePieces_answers library _ hpos
  obtain ⟨shared, hshared, hsharedFlat⟩ := @sharedRowPieces_answers library ask _ hpos
  rw [emitAll_value] at hfoldersFlat htagsFlat
  rw [emitBookmark_texts] at hbookmarksFlat
  have hread : ∀ fuel, library.size < fuel → jsonPieces exportedAt workspaceName library ask pageSize fuel =
      some ([jsonHead exportedAt workspaceName] ++ folders ++ [js "],\"tags\":["] ++ tags ++ [js "],\"bookmarks\":["] ++
        bookmarks ++ [js "],\"goPreferences\":["] ++ choices ++ [js "],\"shared\":["] ++ shared ++ [js "]\x7d"]) := by
    intro fuel hfuel
    unfold jsonPieces
    rw [hfolders fuel hfuel, htags fuel hfuel, hbookmarks fuel hfuel]
    simp only [bind, Option.bind_some]
    rw [hchoices fuel hfuel, hshared fuel hfuel]
    rfl
  refine ⟨_, hread, ?_⟩
  simp only [List.flatten_append, List.flatten_singleton, hfoldersFlat, htagsFlat, hbookmarksFlat, hchoicesFlat, hsharedFlat]
  rw [document, stringify_literal _ (by rfl) (by simp [headValues, literal, JsValue.ofList, JsValue.isUndefined]), jsonHead,
    stringify_literal _ (by rfl) (by simp [headValues, literal, JsValue.isUndefined]), ← List.cons_append, List.dropLast_concat]
  have hopens : js ",\"folders\":[" = 0x2C :: (quote (js "folders") ++ [0x3A, 0x5B]) ∧
      js "],\"tags\":[" = 0x5D :: 0x2C :: (quote (js "tags") ++ [0x3A, 0x5B]) ∧
      js "],\"bookmarks\":[" = 0x5D :: 0x2C :: (quote (js "bookmarks") ++ [0x3A, 0x5B]) ∧
      js "],\"goPreferences\":[" = 0x5D :: 0x2C :: (quote (js "goPreferences") ++ [0x3A, 0x5B]) ∧
      js "],\"shared\":[" = 0x5D :: 0x2C :: (quote (js "shared") ++ [0x3A, 0x5B]) ∧ js "]\x7d" = [0x5D, 0x7D] := by
    decide
  obtain ⟨h1, h2, h3, h4, h5, h6⟩ := hopens
  rw [h1, h2, h3, h4, h5, h6]
  simp [headValues, joined, stringify_ofList, JsonLibrary.refs]

end

theorem jsonPieces_answers_of_two : ∃ library : JsonLibrary, library.bookmarks.rows.length = 2 ∧
    library.goPreferences.rows.length = 1 ∧
    ∃ pieces, Loop.Answers (jsonPieces (js "2026-01-01") (js "Home") library ⟨false, none⟩ 1) library.size pieces ∧
      pieces.flatten = stringify (document (js "2026-01-01") (js "Home") library ⟨false, none⟩) :=
  let bookmark (id : ℕ) : ExportBookmarkRow :=
    ⟨id, js "https://a.example", js "A", none, some (digits id), true, false, false, [], []⟩
  ⟨⟨⟨[], .nil⟩, ⟨[], .nil⟩, ⟨[bookmark 1, bookmark 2], by simp [bookmark]⟩, ⟨[⟨digits 2, 2⟩], List.pairwise_singleton _ _⟩,
    ⟨[], .nil⟩⟩, rfl, rfl, jsonPieces_answers _ _ _ _ (by decide)⟩

/-! ## What a choice names -/

theorem digits_injective {n m : ℕ} (h : digits n = digits m) : n = m := by
  have hback (n : ℕ) : (digits n).map (fun u => Char.ofNat u.toNat) = Nat.toDigits 10 n := by
    rw [digits, List.map_map]
    refine (List.map_congr_left fun c hc => ?_).trans (List.map_id _)
    have hdigit := Nat.isDigit_of_mem_toDigits (by decide) (by decide) hc
    simp only [Char.isDigit, Bool.and_eq_true, decide_eq_true_eq, ge_iff_le, UInt32.le_iff_toNat_le] at hdigit
    have hhigh : c.toNat ≤ 57 := hdigit.2
    show Char.ofNat (UInt16.ofNat c.toNat).toNat = c
    rw [UInt16.toNat_ofNat', Nat.mod_eq_of_lt (by omega), Char.ofNat_toNat]
  have hdigits : Nat.toDigits 10 n = Nat.toDigits 10 m := by rw [← hback, ← hback, h]
  have hvalue := congrArg (fun digits => Nat.ofDigitChars 10 digits 0) hdigits
  simpa only [Nat.ofDigitChars_ten_toDigits] using hvalue

theorem refAt_injective {n m : ℕ} (h : refAt n = refAt m) : n = m :=
  digits_injective (List.append_cancel_left h)

theorem mem_refs {library : JsonLibrary} {p : ExportBookmarkRow × JsString} :
    p ∈ library.refs ↔ ∃ i, library.bookmarks.rows[i]? = some p.1 ∧ p.2 = refAt (i + 1) := by
  rw [JsonLibrary.refs, refsFrom, List.mem_map]
  constructor
  · rintro ⟨⟨row, i⟩, hmem, rfl⟩
    exact ⟨i, List.mk_mem_zipIdx_iff_getElem?.mp hmem, rfl⟩
  · rintro ⟨i, hrow, href⟩
    exact ⟨(p.1, i), List.mk_mem_zipIdx_iff_getElem?.mpr hrow, Prod.ext rfl href.symm⟩

/-- **A choice names its bookmark**: the refs of the document are distinct, and a choice is written, with the ref of its
bookmark, exactly when that bookmark is in the document, has a slug and forwards. -/
theorem goPreferences_resolve (library : JsonLibrary) :
    (∀ p ∈ library.refs, ∀ q ∈ library.refs, p.2 = q.2 → p = q) ∧
      (∀ row ∈ library.bookmarks.rows, ∃ ref, (row, ref) ∈ library.refs) ∧
      ∀ choice ∈ library.goPreferences.rows, ∀ ref, (choice.slug, ref) ∈ library.choices ↔
        ∃ row, (row, ref) ∈ library.refs ∧ row.id = choice.bookmarkId ∧ row.slug.isSome = true ∧ row.forwarding = true := by
  refine ⟨fun p hp q hq href => ?_, fun row hrow => ?_, fun choice hchoice ref => ?_⟩
  · obtain ⟨i, hi, hpref⟩ := mem_refs.mp hp
    obtain ⟨j, hj, hqref⟩ := mem_refs.mp hq
    obtain rfl := Nat.succ.inj (refAt_injective (hpref.symm.trans (href.trans hqref)))
    exact Prod.ext (Option.some.inj (hi.symm.trans hj)) href
  · obtain ⟨i, hi⟩ := List.mem_iff_getElem?.mp hrow
    exact ⟨refAt (i + 1), mem_refs.mpr ⟨i, hi, rfl⟩⟩
  · have hnameable {id : ℕ} {p : ExportBookmarkRow × JsString} :
        nameable id p = true ↔ p.1.id = id ∧ p.1.slug.isSome = true ∧ p.1.forwarding = true := by
      rw [nameable, Bool.and_eq_true, Bool.and_eq_true, beq_iff_eq, and_assoc]
    rw [JsonLibrary.choices, List.mem_filterMap]
    constructor
    · rintro ⟨other, hother, hfound⟩
      obtain ⟨p, hfind, hpair⟩ := Option.map_eq_some_iff.mp hfound
      obtain ⟨hslug, rfl⟩ := Prod.ext_iff.mp hpair
      -- a slug has one choice
      obtain rfl := KeyShelf.eq_of_key hother hchoice hslug
      exact ⟨p.1, List.mem_of_find?_eq_some hfind, hnameable.mp (List.find?_some hfind)⟩
    · rintro ⟨row, hmem, hnamed⟩
      refine ⟨choice, hchoice, ?_⟩
      cases hfind : library.refs.find? (nameable choice.bookmarkId) with
      | none => exact absurd (hnameable.mpr hnamed) (List.find?_eq_none.mp hfind _ hmem)
      | some p =>
        -- an identifier has one bookmark, and a bookmark one ref
        obtain ⟨i, hi, hpref⟩ := mem_refs.mp (List.mem_of_find?_eq_some hfind)
        obtain ⟨j, hj, href⟩ := mem_refs.mp hmem
        have hid : p.1.id = row.id := (hnameable.mp (List.find?_some hfind)).1.trans hnamed.1.symm
        have hkeys := library.bookmarks.nodup_keys
        have hij : i = j := by
          have hi' : (library.bookmarks.rows.map ExportBookmarkRow.id)[i]? = some row.id := by
            rw [List.getElem?_map, hi, ← hid]
            rfl
          have hj' : (library.bookmarks.rows.map ExportBookmarkRow.id)[j]? = some row.id := by
            rw [List.getElem?_map, hj]
            rfl
          obtain ⟨hlt, hati⟩ := List.getElem?_eq_some_iff.mp hi'
          obtain ⟨hlt', hatj⟩ := List.getElem?_eq_some_iff.mp hj'
          exact (hkeys.getElem_inj_iff).mp (hati.trans hatj.symm)
        rw [Option.map_some, hpref, hij, ← show ref = refAt (j + 1) from href]

end SlugBase.Export
