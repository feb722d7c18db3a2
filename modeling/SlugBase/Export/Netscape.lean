import SlugBase.Export.Escape
import SlugBase.Lib.Loop
import Mathlib.Data.List.Pairwise

/-!
# The export for browsers

The writer of a Netscape bookmark file: the bookmarks in no folder, the shared ones, and a section for each folder, all
read page by page.

* `Shelf`: the rows that the reads of the store page through, in the order of their identifiers;
* `readPages`: page after page; `pieces`: the pieces of the file; `written`: the file as a whole;
* **`pieces_answers`**: with a page of at least one row the pieces are there, and together they are the file.
-/

namespace SlugBase.Export

open JavaScript Import

/-! ## Rows -/

/-- A bookmark as the store reads it. -/
structure NetscapeBookmarkRow where
  id : ℕ
  url : JsString
  title : JsString
  slug : Option JsString
  tags : List JsString

/-- A bookmark shared with the member. -/
structure ExportSharedRow where
  id : ℕ
  url : JsString
  title : JsString
  slug : Option JsString

/-- A folder. -/
structure NetscapeSectionRow where
  id : ℕ
  name : JsString

/-- Rows in the order of their identifiers. -/
structure Shelf (ρ : Type) (idOf : ρ → ℕ) where
  rows : List ρ
  ordered : rows.Pairwise fun a b => idOf a < idOf b

/-- At most `limit` rows behind an identifier. -/
def Shelf.page {ρ : Type} {idOf : ρ → ℕ} (shelf : Shelf ρ idOf) (limit : ℕ) (after : Option ℕ) : List ρ :=
  (shelf.rows.filter fun row => after.all fun id => decide (id < idOf row)).take limit

/-- What the reads of the store page through. -/
structure Library where
  unfiled : Shelf NetscapeBookmarkRow NetscapeBookmarkRow.id
  shared : Shelf ExportSharedRow ExportSharedRow.id
  sections : Shelf NetscapeSectionRow NetscapeSectionRow.id
  filed : ℕ → Shelf NetscapeBookmarkRow NetscapeBookmarkRow.id

/-- What the member asked for. -/
structure ExportStreamAsk where
  includeShared : Bool
  only : Option (List ℕ)

/-- `readsShared`. -/
def readsShared (ask : ExportStreamAsk) : Bool := ask.includeShared || ask.only.isSome

/-! ## Pages -/

/-- Where a loop over pages stands, and what it has written. -/
structure PageState where
  after : Option ℕ := none
  pieces : List JsString := []

section

variable {ρ : Type} (page : Option ℕ → List ρ) (idOf : ρ → ℕ) (pageSize : ℕ) (write : List ρ → Option (List JsString))

/-- One page. -/
def pageTurn (s : PageState) : Option (Loop.Turn PageState (List JsString)) :=
  (write (page s.after)).map fun written =>
    if (page s.after).length < pageSize then .done (s.pieces ++ written)
    else .again ⟨((page s.after).getLast?.map idOf).or s.after, s.pieces ++ written⟩

/-- Page after page, up to one that is not full. -/
def readPages (fuel : ℕ) : Option (List JsString) := Loop.run (pageTurn page idOf pageSize write) fuel {}

end

/-! ## The file -/

/-- `HEAD`. -/
def HEAD : JsString :=
  js "<!DOCTYPE NETSCAPE-Bookmark-file-1>\n<META HTTP-EQUIV=\"Content-Type\" CONTENT=\"text/html; charset=UTF-8\">\n" ++
    js "<TITLE>Bookmarks</TITLE>\n<H1>Bookmarks</H1>\n<DL><p>\n"

/-- `link`. -/
def link (row : NetscapeBookmarkRow) (indent : JsString) : JsString :=
  let slug := match row.slug with
    | none => []
    | some slug => js " SHORTCUTURL=\"" ++ escapeHtml slug ++ js "\""
  let tags := if row.tags.length = 0 then [] else js " TAGS=\"" ++ escapeHtml ([0x2C].intercalate row.tags) ++ js "\""
  indent ++ js "<DT><A HREF=\"" ++ escapeHtml row.url ++ js "\"" ++ slug ++ tags ++ js ">" ++ escapeHtml row.title ++
    js "</A>\n"

/-- A shared bookmark as it is written. -/
def ExportSharedRow.bare (row : ExportSharedRow) : NetscapeBookmarkRow := ⟨row.id, row.url, row.title, row.slug, []⟩

/-- The piece of a page of links; none for an empty page. -/
def linkPieces {ρ : Type} (toLink : ρ → JsString) (rows : List ρ) : List JsString :=
  if rows = [] then [] else [rows.flatMap toLink]

/-- What opens a section. -/
def sectionHead (folder : NetscapeSectionRow) : JsString :=
  js "    <DT><H3>" ++ escapeHtml folder.name ++ js "</H3>\n    <DL><p>\n"

def sectionEnd : JsString := js "    </DL><p>\n"

def fileEnd : JsString := js "</DL><p>\n"

variable (library : Library) (ask : ExportStreamAsk) (pageSize : ℕ)

/-- One section. -/
def sectionPieces (fuel : ℕ) (folder : NetscapeSectionRow) : Option (List JsString) :=
  (readPages ((library.filed folder.id).page pageSize) NetscapeBookmarkRow.id pageSize
    (fun rows => some (linkPieces (link · (js "        ")) rows)) fuel).map fun links =>
      sectionHead folder :: links ++ [sectionEnd]

/-- The shared bookmarks, where they are read. -/
def sharedPieces (fuel : ℕ) : Option (List JsString) :=
  if readsShared ask then
    readPages (library.shared.page pageSize) ExportSharedRow.id pageSize
      (fun rows => some (linkPieces (fun row => link row.bare (js "    ")) rows)) fuel
  else some []

/-- `pieces`. -/
def pieces (fuel : ℕ) : Option (List JsString) := do
  let unfiled ← readPages (library.unfiled.page pageSize) NetscapeBookmarkRow.id pageSize
    (fun rows => some (linkPieces (link · (js "    ")) rows)) fuel
  let shared ← sharedPieces library ask pageSize fuel
  let sections ← readPages (library.sections.page pageSize) NetscapeSectionRow.id pageSize
    (fun folders => (folders.mapM (sectionPieces library pageSize fuel)).map List.flatten) fuel
  some (HEAD :: unfiled ++ shared ++ sections ++ [fileEnd])

/-- The links outside the sections. -/
def topLinks : List NetscapeBookmarkRow :=
  library.unfiled.rows ++ if readsShared ask then library.shared.rows.map ExportSharedRow.bare else []

/-- The text of a section. -/
def sectionText (folder : NetscapeSectionRow) : JsString :=
  sectionHead folder ++ (library.filed folder.id).rows.flatMap (link · (js "        ")) ++ sectionEnd

/-- **The file as a whole.** -/
def written : JsString :=
  HEAD ++ (topLinks library ask).flatMap (link · (js "    ")) ++ library.sections.rows.flatMap (sectionText library) ++
    fileEnd

/-- The most rows of a list that is paged through. -/
def Library.rows : ℕ :=
  library.unfiled.rows.length + library.shared.rows.length + library.sections.rows.length +
    (library.sections.rows.map fun folder => (library.filed folder.id).rows.length).foldr (· + ·) 0

/-! ## All pages -/

section

variable {ρ : Type} {idOf : ρ → ℕ} {shelf : Shelf ρ idOf} {pageSize : ℕ}

/-- The rows behind an identifier. -/
def Shelf.behind (shelf : Shelf ρ idOf) (after : Option ℕ) : List ρ :=
  shelf.rows.filter fun row => after.all fun id => decide (id < idOf row)

theorem Shelf.behind_none (shelf : Shelf ρ idOf) : shelf.behind none = shelf.rows :=
  List.filter_eq_self.mpr fun _ _ => rfl

/-- Behind the last row of a full page is what the page left out. -/
theorem Shelf.behind_page {after : Option ℕ} (hpos : 0 < pageSize)
    (hfull : ¬(shelf.page pageSize after).length < pageSize) :
    shelf.behind (((shelf.page pageSize after).getLast?.map idOf).or after) = (shelf.behind after).drop pageSize := by
  have hpage : shelf.page pageSize after = (shelf.behind after).take pageSize := rfl
  have hne : (shelf.behind after).take pageSize ≠ [] := by
    intro hnil
    rw [hpage, hnil] at hfull
    exact hfull hpos
  obtain ⟨before, x, hlast⟩ : ∃ before x, (shelf.behind after).take pageSize = before ++ [x] :=
    ⟨_, _, (List.dropLast_append_getLast hne).symm⟩
  have hordered : (shelf.behind after).Pairwise fun a b => idOf a < idOf b := shelf.ordered.filter _
  rw [← List.take_append_drop pageSize (shelf.behind after), hlast, List.pairwise_append] at hordered
  obtain ⟨hfirst, -, hacross⟩ := hordered
  have hx : x ∈ shelf.behind after :=
    List.mem_of_mem_take (hlast ▸ List.mem_append_right before (List.mem_singleton_self x))
  have hafter := (List.mem_filter.mp hx).2
  -- what is behind the row is behind the earlier identifier as well
  have hbehind : shelf.behind (some (idOf x)) = (shelf.behind after).filter fun row => decide (idOf x < idOf row) := by
    unfold Shelf.behind
    rw [List.filter_filter]
    refine List.filter_congr fun row _ => ?_
    cases after with
    | none => exact (Bool.and_true _).symm
    | some id =>
      have hid : id < idOf x := of_decide_eq_true hafter
      by_cases hrow : idOf x < idOf row
      · have hless : id < idOf row := hid.trans hrow
        simp [hrow, hless]
      · simp [hrow]
  have htaken : (before ++ [x]).filter (fun row => decide (idOf x < idOf row)) = [] := by
    refine List.filter_eq_nil_iff.mpr fun row hrow => ?_
    rcases List.mem_append.mp hrow with hrow | hrow
    · have hless := (List.pairwise_append.mp hfirst).2.2 row hrow x (List.mem_singleton_self x)
      simp [hless.le]
    · obtain rfl := List.mem_singleton.mp hrow
      simp
  have hleft : ((shelf.behind after).drop pageSize).filter (fun row => decide (idOf x < idOf row)) =
      (shelf.behind after).drop pageSize := by
    refine List.filter_eq_self.mpr fun row hrow => decide_eq_true ?_
    exact hacross x (List.mem_append_right before (List.mem_singleton_self x)) row hrow
  rw [hpage, hlast, List.getLast?_concat, Option.map_some, Option.some_or, hbehind]
  conv_lhs => rw [← List.take_append_drop pageSize (shelf.behind after)]
  rw [List.filter_append, hlast, htaken, hleft, List.nil_append]

/-- **Every row is read once, in order**, when a page has room for a row. -/
theorem readPages_answers (shelf : Shelf ρ idOf) (write : ℕ → List ρ → Option (List JsString)) {text : ρ → JsString}
    {n : ℕ} (hpos : 0 < pageSize)
    (hwrite : ∀ rows, rows ⊆ shelf.rows → ∃ written, Loop.Answers (fun fuel => write fuel rows) n written ∧
      written.flatten = rows.flatMap text) (hn : shelf.rows.length ≤ n) :
    ∃ pieces, Loop.Answers (fun fuel => readPages (shelf.page pageSize) idOf pageSize (write fuel) fuel) n pieces ∧
      pieces.flatten = shelf.rows.flatMap text := by
  have hpages : ∀ after, ∃ written, Loop.Answers (fun fuel => write fuel (shelf.page pageSize after)) n written ∧
      written.flatten = (shelf.page pageSize after).flatMap text := fun after =>
    hwrite _ fun row hrow => (List.mem_filter.mp (List.mem_of_mem_take hrow)).1
  choose writtenOf hwritten hflat using hpages
  let next : PageState → Loop.Turn PageState (List JsString) := fun s =>
    if (shelf.page pageSize s.after).length < pageSize then .done (s.pieces ++ writtenOf s.after)
    else .again ⟨((shelf.page pageSize s.after).getLast?.map idOf).or s.after, s.pieces ++ writtenOf s.after⟩
  have hturn : ∀ s : PageState,
      Loop.Answers (fun fuel => pageTurn (shelf.page pageSize) idOf pageSize (write fuel) s) n (next s) := by
    intro s fuel hfuel
    have hpage : write fuel (shelf.page pageSize s.after) = some (writtenOf s.after) := hwritten s.after fuel hfuel
    show pageTurn (shelf.page pageSize) idOf pageSize (write fuel) s = _
    rw [pageTurn, hpage, Option.map_some]
  have hlength : ∀ after, (shelf.behind after).length ≤ shelf.rows.length := fun after => List.length_filter_le _ _
  have hlower : ∀ s s', True → next s = .again s' →
      True ∧ (shelf.behind s'.after).length < (shelf.behind s.after).length := by
    intro s s' _ hagain
    dsimp only [next] at hagain
    split_ifs at hagain with hlast
    obtain rfl := Loop.Turn.again.inj hagain
    have hroom : ¬((shelf.behind s.after).take pageSize).length < pageSize := hlast
    rw [List.length_take] at hroom
    refine ⟨trivial, ?_⟩
    dsimp only
    rw [shelf.behind_page hpos hlast, List.length_drop]
    omega
  obtain ⟨pieces, hpieces⟩ := Loop.answers_of_measure (fun _ => True) (fun s => (shelf.behind s.after).length)
    (fun s _ => hturn s) hlower (s := {}) trivial ((hlength none).trans hn)
  refine ⟨pieces, hpieces, ?_⟩
  refine Loop.run_post (fun s : PageState => s.pieces.flatten ++ (shelf.behind s.after).flatMap text =
      shelf.rows.flatMap text) (fun pieces => pieces.flatten = shelf.rows.flatMap text) ?_ ?_ ?_
    (hpieces (n + 1) (Nat.lt_succ_self n))
  · intro s s' hs hagain
    have hnext : next s = .again s' := Option.some.inj ((hturn s (n + 1) (Nat.lt_succ_self n)).symm.trans hagain)
    dsimp only [next] at hnext
    split_ifs at hnext with hlast
    obtain rfl := Loop.Turn.again.inj hnext
    have hsplit := List.take_append_drop pageSize (shelf.behind s.after)
    rw [← hs, List.flatten_append, hflat, shelf.behind_page hpos hlast, List.append_assoc, ← List.flatMap_append]
    exact congrArg (fun rows => s.pieces.flatten ++ rows.flatMap text) hsplit
  · intro s pieces hs hdone
    have hnext : next s = .done pieces := Option.some.inj ((hturn s (n + 1) (Nat.lt_succ_self n)).symm.trans hdone)
    dsimp only [next] at hnext
    split_ifs at hnext with hlast
    obtain rfl := Loop.Turn.done.inj hnext
    have hpage : shelf.page pageSize s.after = (shelf.behind s.after).take pageSize := rfl
    have hall : shelf.page pageSize s.after = shelf.behind s.after := by
      rw [hpage, List.length_take] at hlast
      rw [hpage]
      exact List.take_of_length_le (by omega)
    rw [← hs, List.flatten_append, hflat, hall]
  · rw [shelf.behind_none]
    rfl

theorem flatten_linkPieces (toLink : ρ → JsString) (rows : List ρ) :
    (linkPieces toLink rows).flatten = rows.flatMap toLink := by
  unfold linkPieces
  split_ifs with hrows
  · rw [hrows]
    rfl
  · exact List.flatten_singleton

theorem linkPages_answers (shelf : Shelf ρ idOf) (toLink : ρ → JsString) {n : ℕ} (hpos : 0 < pageSize)
    (hn : shelf.rows.length ≤ n) :
    ∃ pieces, Loop.Answers (fun fuel => readPages (shelf.page pageSize) idOf pageSize
      (fun rows => some (linkPieces toLink rows)) fuel) n pieces ∧ pieces.flatten = shelf.rows.flatMap toLink :=
  readPages_answers shelf (fun _ rows => some (linkPieces toLink rows)) hpos
    (fun rows _ => ⟨_, fun _ _ => rfl, flatten_linkPieces toLink rows⟩) hn

end

section

variable {library : Library} {ask : ExportStreamAsk} {pageSize : ℕ}

theorem sectionPieces_answers (hpos : 0 < pageSize) {n : ℕ} {folder : NetscapeSectionRow}
    (hn : (library.filed folder.id).rows.length ≤ n) :
    ∃ pieces, Loop.Answers (fun fuel => sectionPieces library pageSize fuel folder) n pieces ∧
      pieces.flatten = sectionText library folder := by
  obtain ⟨links, hlinks, hflat⟩ := linkPages_answers (library.filed folder.id) (link · (js "        ")) hpos hn
  refine ⟨sectionHead folder :: links ++ [sectionEnd], fun fuel hfuel => ?_, ?_⟩
  · have hread := hlinks fuel hfuel
    dsimp only at hread ⊢
    rw [sectionPieces, hread, Option.map_some]
  · rw [List.flatten_append, List.flatten_cons, hflat, List.flatten_singleton, sectionText]

/-- A page of sections. -/
theorem sectionsPage_answers (hpos : 0 < pageSize) {n : ℕ} (folders : List NetscapeSectionRow)
    (hn : ∀ folder ∈ folders, (library.filed folder.id).rows.length ≤ n) :
    ∃ written,
      Loop.Answers (fun fuel => (folders.mapM (sectionPieces library pageSize fuel)).map List.flatten) n written ∧
        written.flatten = folders.flatMap (sectionText library) := by
  induction folders with
  | nil => exact ⟨[], fun _ _ => rfl, rfl⟩
  | cons folder folders ih =>
    obtain ⟨first, hfirst, hflat⟩ := sectionPieces_answers hpos (hn folder (List.mem_cons_self))
    obtain ⟨rest, hrest, hrestFlat⟩ := ih fun folder hfolder => hn folder (List.mem_cons_of_mem _ hfolder)
    refine ⟨first ++ rest, fun fuel hfuel => ?_, ?_⟩
    · have hone : sectionPieces library pageSize fuel folder = some first := hfirst fuel hfuel
      obtain ⟨others, hothers, hjoined⟩ := Option.map_eq_some_iff.mp (hrest fuel hfuel)
      dsimp only
      rw [List.mapM_cons, hone, hothers, ← hjoined]
      rfl
    · rw [List.flatten_append, hflat, hrestFlat, List.flatMap_cons]

theorem le_foldr_of_mem {lengths : List ℕ} {m : ℕ} (h : m ∈ lengths) : m ≤ lengths.foldr (· + ·) 0 := by
  induction lengths with
  | nil => cases h
  | cons first lengths ih =>
    rw [List.foldr_cons]
    rcases List.mem_cons.mp h with rfl | h
    · exact Nat.le_add_right _ _
    · exact (ih h).trans (Nat.le_add_left _ _)

/-- **The pieces are there, with pages of any size, and together they are the file.** -/
theorem pieces_answers (library : Library) (ask : ExportStreamAsk) (hpos : 0 < pageSize) :
    ∃ file, Loop.Answers (pieces library ask pageSize) library.rows file ∧ file.flatten = written library ask := by
  have hfolders : ∀ folder ∈ library.sections.rows, (library.filed folder.id).rows.length ≤ library.rows := by
    intro folder hfolder
    have hmem : (library.filed folder.id).rows.length ∈
        library.sections.rows.map fun folder => (library.filed folder.id).rows.length :=
      List.mem_map_of_mem hfolder
    have hle := le_foldr_of_mem hmem
    unfold Library.rows
    omega
  have hunfiledLength : library.unfiled.rows.length ≤ library.rows := by
    unfold Library.rows
    omega
  have hsharedLength : library.shared.rows.length ≤ library.rows := by
    unfold Library.rows
    omega
  have hsectionsLength : library.sections.rows.length ≤ library.rows := by
    unfold Library.rows
    omega
  obtain ⟨unfiled, hunfiled, hunfiledFlat⟩ :=
    linkPages_answers library.unfiled (link · (js "    ")) hpos hunfiledLength
  obtain ⟨shared, hshared, hsharedFlat⟩ :=
    linkPages_answers library.shared (fun row => link row.bare (js "    ")) hpos hsharedLength
  obtain ⟨sections, hsections, hsectionsFlat⟩ := readPages_answers library.sections
    (fun fuel folders => (folders.mapM (sectionPieces library pageSize fuel)).map List.flatten) hpos
    (fun folders hmem => sectionsPage_answers hpos folders fun folder hfolder => hfolders folder (hmem hfolder))
    hsectionsLength
  have hread : ∀ fuel, library.rows < fuel → pieces library ask pageSize fuel =
      some (HEAD :: unfiled ++ (if readsShared ask then shared else []) ++ sections ++ [fileEnd]) := by
    intro fuel hfuel
    have hfirst := hunfiled fuel hfuel
    have hsecond := hshared fuel hfuel
    have hthird := hsections fuel hfuel
    dsimp only at hfirst hsecond hthird
    have hboth : sharedPieces library ask pageSize fuel = some (if readsShared ask then shared else []) := by
      unfold sharedPieces
      by_cases hask : readsShared ask = true
      · rw [if_pos hask, if_pos hask, hsecond]
      · rw [if_neg hask, if_neg hask]
    unfold pieces
    rw [hfirst, hboth, hthird]
    rfl
  refine ⟨_, hread, ?_⟩
  unfold written topLinks
  rw [List.flatten_append, List.flatten_append, List.flatten_append, List.flatten_cons, hunfiledFlat, hsectionsFlat,
    List.flatten_singleton, List.flatMap_append]
  by_cases hask : readsShared ask = true
  · rw [if_pos hask, if_pos hask, hsharedFlat, List.flatMap_map]
    simp only [List.append_assoc]
  · rw [if_neg hask, if_neg hask]
    simp only [List.append_assoc, List.flatten_nil, List.flatMap_nil]

end

end SlugBase.Export
