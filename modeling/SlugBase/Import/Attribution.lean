import SlugBase.Import.Netscape
import Mathlib.Tactic.SplitIfs
import Mathlib.Logic.Basic

/-!
# The folders of a bookmark file

Which lists a link stands in, and that the walk files it in the nearest one that has a name.

* `Reader`: the lists that are open at each place of a text, to any depth; `nearestNamed`: the folder of a place;
* **`attribution`**: each link is filed in the nearest list with a name, where lists deeper than the limit count as the
  list at the limit; and lists that are opened and closed again leave the folder in force as it was.
-/

namespace SlugBase.Import

open JavaScript

variable (rt : MarkupRuntime)

/-! ## The lists of a text -/

/-- The lists that are open, the innermost first, with the name of the heading each was opened under; the heading that
the next list takes; the text of a heading that is being read; and for each link so far the lists around it. -/
structure Reader where
  opened : List (Option JsString) := []
  heading : Option JsString := none
  text : Option JsString := none
  enclosing : List (List (Option JsString)) := []

namespace Reader

variable (r : Reader)

/-- The text before a piece, added to a heading. -/
def read (before : JsString) : Reader :=
  match r.text with
  | none => r
  | some text =>
    if text.length < TEXT_MAX_LENGTH ∧ before ≠ [] then { r with text := some (text ++ before.take TEXT_MAX_LENGTH) } else r

/-- The heading ends. -/
def endHeading : Reader :=
  match r.text with
  | none => r
  | some text => { r with heading := Walk.nameOf rt text, text := none }

def close (name : JsString) : Reader :=
  if name = js "h3" then r.endHeading rt
  else if name = js "dl" then { r with heading := none, text := none, opened := r.opened.tail }
  else r

def openTag (tag : StartTag) : Reader :=
  if (Markup.start tag).isRawText || !ENTRY_TAGS.contains tag.name then r
  else if tag.name = js "h3" then { r.endHeading rt with text := some [] }
  else if tag.name = js "dl" then
    { r.endHeading rt with opened := (r.endHeading rt).heading :: r.opened, heading := none }
  else if tag.name = js "a" ∧ (tag.attributes.get (js "href")).isSome then
    { r.endHeading rt with enclosing := r.enclosing ++ [r.opened] }
  else r.endHeading rt

def step (p : Piece) : Reader :=
  match p.markup with
  | none => r.read p.before
  | some .other => r.read p.before
  | some (.close name) => (r.read p.before).close rt name
  | some (.start tag) => (r.read p.before).openTag rt tag

end Reader

/-- The lists around each link of pieces. -/
def readPieces (pieces : List Piece) : Reader := pieces.foldl (Reader.step rt) {}

/-- The open lists that count: those down to the limit. -/
def countedLists (opened : List (Option JsString)) : List (Option JsString) := opened.drop (opened.length - MAX_FOLDER_DEPTH)

/-- **The nearest list with a name.** -/
def nearestNamed (opened : List (Option JsString)) : Option JsString := (countedLists opened).findSome? id

theorem countedLists_nil : countedLists [] = [] := List.drop_nil

theorem countedLists_cons_of_lt {name : Option JsString} {around : List (Option JsString)}
    (h : around.length < MAX_FOLDER_DEPTH) : countedLists (name :: around) = name :: countedLists around := by
  have hwhole : around.length + 1 - MAX_FOLDER_DEPTH = 0 := by omega
  have hrest : around.length - MAX_FOLDER_DEPTH = 0 := by omega
  rw [countedLists, countedLists, List.length_cons, hwhole, hrest, List.drop_zero, List.drop_zero]

theorem countedLists_cons_of_le {name : Option JsString} {around : List (Option JsString)}
    (h : MAX_FOLDER_DEPTH ≤ around.length) : countedLists (name :: around) = countedLists around := by
  have hnext : around.length + 1 - MAX_FOLDER_DEPTH = around.length - MAX_FOLDER_DEPTH + 1 := by omega
  rw [countedLists, countedLists, List.length_cons, hnext, List.drop_succ_cons]

theorem length_countedLists (opened : List (Option JsString)) :
    (countedLists opened).length = min opened.length MAX_FOLDER_DEPTH := by
  rw [countedLists, List.length_drop]
  omega

/-! ## Names -/

/-- The folder of each list: its own name, or the folder of the list around it. -/
def effective : List (Option JsString) → List (Option JsString)
  | [] => []
  | name :: around => name.or (effective around).head?.join :: effective around

theorem length_effective : ∀ opened, (effective opened).length = opened.length
  | [] => rfl
  | _ :: around => by rw [effective, List.length_cons, length_effective around, List.length_cons]

theorem head_effective : ∀ opened, (effective opened).head?.join = opened.findSome? id
  | [] => rfl
  | name :: around => by
    rw [effective, List.head?_cons, Option.join_some, List.findSome?_cons, head_effective around]
    cases name <;> rfl

/-! ## The walk and the reader -/

/-- The text of the heading that the walk collects. -/
def Walk.headingText (w : Walk) : Option JsString :=
  match w.collecting with
  | some (.folder text) => some text
  | _ => none

/-- The folders of the links so far. -/
def Walk.filed (w : Walk) : List (Option (List JsString)) :=
  w.bookmarks.map (·.folders) ++
    match w.collecting with
    | some (.link _ folder _ _) => [some folder.toList]
    | _ => []

/-- **The walk keeps what the reader knows**: the folders of the lists that count, how many do not, and for each link
the nearest list with a name. -/
structure Follows (w : Walk) (r : Reader) : Prop where
  folders : w.folders = effective (countedLists r.opened)
  overflow : w.overflow = r.opened.length - MAX_FOLDER_DEPTH
  named : w.named = r.heading
  text : w.headingText = r.text
  filed : w.filed = r.enclosing.map fun opened => some (nearestNamed opened).toList

section

variable {rt : MarkupRuntime} {w w' : Walk} {r : Reader}

theorem follows_start : Follows {} {} := ⟨rfl, rfl, rfl, rfl, rfl⟩

theorem Follows.folderHere (h : Follows w r) : w.folderHere = nearestNamed r.opened := by
  rw [Walk.folderHere, h.folders, head_effective, nearestNamed]

theorem Follows.read (h : Follows w r) (before : JsString) : Follows (w.read before) (r.read before) := by
  unfold Walk.read Reader.read
  rcases hcollecting : w.collecting with _ | ⟨href, folder, tags, text⟩ | ⟨text⟩
  · have htext : r.text = none := by rw [← h.text, Walk.headingText, hcollecting]
    rw [htext]
    exact h
  · have htext : r.text = none := by rw [← h.text, Walk.headingText, hcollecting]
    have hfiled := h.filed
    rw [Walk.filed, hcollecting] at hfiled
    rw [htext]
    dsimp only
    split_ifs
    · exact ⟨h.folders, h.overflow, h.named, htext.symm, hfiled⟩
    · exact h
  · have htext : r.text = some text := by rw [← h.text, Walk.headingText, hcollecting]
    have hfiled := h.filed
    rw [Walk.filed, hcollecting] at hfiled
    have hlength : (Collecting.folder text).text = text := rfl
    rw [htext]
    dsimp only
    rw [hlength]
    by_cases hgoes : text.length < TEXT_MAX_LENGTH ∧ before ≠ []
    · rw [if_pos hgoes, if_pos hgoes]
      exact ⟨h.folders, h.overflow, h.named, rfl, hfiled⟩
    · rw [if_neg hgoes, if_neg hgoes]
      exact h

theorem Walk.collecting_finish (w : Walk) : (w.finish rt).collecting = none := by
  unfold Walk.finish
  rcases hcollecting : w.collecting with _ | ⟨href, folder, tags, text⟩ | ⟨text⟩
  · exact hcollecting
  · rfl
  · rfl

theorem Reader.opened_endHeading (r : Reader) : (r.endHeading rt).opened = r.opened := by
  unfold Reader.endHeading
  cases r.text <;> rfl

theorem Reader.enclosing_endHeading (r : Reader) : (r.endHeading rt).enclosing = r.enclosing := by
  unfold Reader.endHeading
  cases r.text <;> rfl

theorem Follows.finish (h : Follows w r) : Follows (w.finish rt) (r.endHeading rt) := by
  have hfiled := h.filed
  unfold Walk.finish Reader.endHeading
  rcases hcollecting : w.collecting with _ | ⟨href, folder, tags, text⟩ | ⟨text⟩
  · have htext : r.text = none := by rw [← h.text, Walk.headingText, hcollecting]
    rw [htext]
    exact h
  · have htext : r.text = none := by rw [← h.text, Walk.headingText, hcollecting]
    rw [htext]
    refine ⟨h.folders, h.overflow, h.named, htext.symm, ?_⟩
    rw [Walk.filed, hcollecting] at hfiled
    rw [Walk.filed, List.map_append, List.append_nil]
    exact hfiled
  · have htext : r.text = some text := by rw [← h.text, Walk.headingText, hcollecting]
    rw [htext]
    rw [Walk.filed, hcollecting] at hfiled
    exact ⟨h.folders, h.overflow, rfl, rfl, hfiled⟩

theorem Follows.closeList (h : Follows w r) :
    Follows (Walk.close.closeList rt w (js "dl")) { r with heading := none, text := none, opened := r.opened.tail } := by
  have hdone : Follows (w.finish rt) (r.endHeading rt) := h.finish
  have htext : (w.finish rt).headingText = none := by rw [Walk.headingText, w.collecting_finish]
  have hfolders := hdone.folders
  have hoverflow := hdone.overflow
  have hfiled := hdone.filed
  rw [r.opened_endHeading] at hfolders hoverflow
  rw [r.enclosing_endHeading] at hfiled
  rw [Walk.close.closeList, if_pos (Eq.refl (js "dl"))]
  dsimp only
  cases hopened : r.opened with
  | nil =>
    rw [hopened] at hfolders hoverflow
    rw [List.length_nil, Nat.zero_sub] at hoverflow
    rw [countedLists_nil, effective] at hfolders
    rw [if_neg (by omega)]
    refine ⟨?_, ?_, rfl, htext, hfiled⟩
    · rw [hfolders, List.tail_nil, countedLists_nil, effective]
    · rw [hoverflow, List.tail_nil, List.length_nil, Nat.zero_sub]
  | cons name around =>
    rw [hopened, List.length_cons] at hoverflow
    rw [hopened] at hfolders
    by_cases hdeep : MAX_FOLDER_DEPTH ≤ around.length
    · rw [countedLists_cons_of_le hdeep] at hfolders
      rw [if_pos (by omega)]
      refine ⟨hfolders, ?_, rfl, htext, hfiled⟩
      rw [List.tail_cons]
      dsimp only
      omega
    · rw [countedLists_cons_of_lt (by omega), effective] at hfolders
      rw [if_neg (by omega)]
      refine ⟨?_, ?_, rfl, htext, hfiled⟩
      · rw [hfolders, List.tail_cons, List.tail_cons]
      · rw [List.tail_cons]
        dsimp only
        omega

theorem Follows.close (h : Follows w r) (name : JsString) : Follows (w.close rt name) (r.close rt name) := by
  have hnames : js "h3" ≠ js "dl" := by decide
  have hanchor : js "a" ≠ js "dl" ∧ js "a" ≠ js "h3" := by decide
  have hlist : name ≠ js "h3" → Follows (Walk.close.closeList rt w name) (r.close rt name) := by
    intro hname
    rw [Reader.close, if_neg hname]
    by_cases hdl : name = js "dl"
    · rw [if_pos hdl, hdl]
      exact h.closeList
    · rw [if_neg hdl, Walk.close.closeList, if_neg hdl]
      exact h
  have hheading (hname : name = js "h3") (htext : r.text = none) :
      Follows (Walk.close.closeList rt w name) (r.close rt name) := by
    rw [Reader.close, if_pos hname, Reader.endHeading, htext, Walk.close.closeList, if_neg (hname ▸ hnames)]
    exact h
  unfold Walk.close
  rcases hcollecting : w.collecting with _ | ⟨href, folder, tags, text⟩ | ⟨text⟩
  · have htext : r.text = none := by rw [← h.text, Walk.headingText, hcollecting]
    by_cases hname : name = js "h3"
    · exact hheading hname htext
    · exact hlist hname
  · have htext : r.text = none := by rw [← h.text, Walk.headingText, hcollecting]
    dsimp only
    by_cases ha : name = js "a"
    · have hfinish : Follows (w.finish rt) (r.endHeading rt) := h.finish
      rw [Reader.endHeading, htext] at hfinish
      rw [if_pos ha, Reader.close, if_neg (ha ▸ hanchor.2), if_neg (ha ▸ hanchor.1)]
      exact hfinish
    · rw [if_neg ha]
      by_cases hname : name = js "h3"
      · exact hheading hname htext
      · exact hlist hname
  · dsimp only
    by_cases hname : name = js "h3"
    · rw [if_pos hname, Reader.close, if_pos hname]
      exact h.finish
    · rw [if_neg hname]
      exact hlist hname

theorem Follows.openList (h : Follows w r) :
    Follows w.openList { r with opened := r.heading :: r.opened, heading := none } := by
  have hlength : w.folders.length = min r.opened.length MAX_FOLDER_DEPTH := by
    rw [h.folders, length_effective, length_countedLists]
  have hoverflow := h.overflow
  unfold Walk.openList
  dsimp only
  by_cases hshallow : r.opened.length < MAX_FOLDER_DEPTH
  · rw [if_pos (by omega)]
    refine ⟨?_, ?_, rfl, h.text, h.filed⟩
    · rw [countedLists_cons_of_lt hshallow, effective, ← h.folders, h.named]
      rfl
    · dsimp only [List.length_cons]
      omega
  · rw [if_neg (by omega)]
    refine ⟨?_, ?_, rfl, h.text, h.filed⟩
    · rw [countedLists_cons_of_le (by omega)]
      exact h.folders
    · dsimp only [List.length_cons]
      omega

theorem Follows.openLink {attributes : Attributes} (h : Follows w r) (hcollecting : w.collecting = none)
    (hlink : (attributes.get (js "href")).isSome) (hopen : w.openLink rt attributes = some w') :
    Follows w' { r with enclosing := r.enclosing ++ [r.opened] } := by
  obtain ⟨href, hhref⟩ := Option.isSome_iff_exists.mp hlink
  have htext := h.text
  have hfiled := h.filed
  rw [Walk.headingText, hcollecting] at htext
  rw [Walk.filed, hcollecting, List.append_nil] at hfiled
  rw [Walk.openLink, hhref] at hopen
  dsimp only at hopen
  split_ifs at hopen with hmany
  obtain rfl := Option.some.inj hopen
  refine ⟨h.folders, h.overflow, h.named, htext, ?_⟩
  rw [Walk.filed, hfiled, List.map_append, List.map_singleton, ← h.folderHere]

theorem Follows.openTag {tag : StartTag} (h : Follows w r) (hopen : w.openTag rt tag = some w') :
    Follows w' (r.openTag rt tag) := by
  have hdone : Follows (w.finish rt) (r.endHeading rt) := h.finish
  unfold Walk.openTag at hopen
  unfold Reader.openTag
  by_cases hentry : ((Markup.start tag).isRawText || !ENTRY_TAGS.contains tag.name) = true
  · rw [if_pos hentry] at hopen ⊢
    obtain rfl := Option.some.inj hopen
    exact h
  rw [if_neg hentry] at hopen ⊢
  by_cases hheading : tag.name = js "h3"
  · rw [if_pos hheading] at hopen ⊢
    obtain rfl := Option.some.inj hopen
    refine ⟨hdone.folders, hdone.overflow, hdone.named, rfl, ?_⟩
    have hfiled := hdone.filed
    rw [Walk.filed, w.collecting_finish] at hfiled
    exact hfiled
  rw [if_neg hheading] at hopen ⊢
  by_cases hlist : tag.name = js "dl"
  · rw [if_pos hlist] at hopen ⊢
    obtain rfl := Option.some.inj hopen
    have hnext := hdone.openList
    rw [r.opened_endHeading] at hnext
    exact hnext
  rw [if_neg hlist] at hopen ⊢
  by_cases hlink : tag.name = js "a"
  · rw [if_pos hlink] at hopen
    by_cases hhref : (tag.attributes.get (js "href")).isSome
    · rw [if_pos ⟨hlink, hhref⟩]
      have hnext := hdone.openLink w.collecting_finish hhref hopen
      rw [r.enclosing_endHeading, r.opened_endHeading] at hnext
      dsimp only
      rw [r.opened_endHeading]
      exact hnext
    · rw [if_neg fun hboth => hhref hboth.2]
      rw [Walk.openLink, Option.not_isSome_iff_eq_none.mp hhref] at hopen
      obtain rfl := Option.some.inj hopen
      exact hdone
  · rw [if_neg hlink] at hopen
    rw [if_neg fun hboth => hlink hboth.1]
    obtain rfl := Option.some.inj hopen
    exact hdone

theorem Follows.step {p : Piece} (h : Follows w r) (hstep : w.step rt p = some w') : Follows w' (r.step rt p) := by
  have hread := h.read p.before
  unfold Walk.step at hstep
  unfold Reader.step
  rcases hmarkup : p.markup with _ | ⟨tag⟩ | ⟨name⟩ | _
  · rw [hmarkup] at hstep
    exact Option.some.inj hstep ▸ hread
  · rw [hmarkup] at hstep
    exact hread.openTag hstep
  · rw [hmarkup] at hstep
    exact Option.some.inj hstep ▸ hread.close name
  · rw [hmarkup] at hstep
    exact Option.some.inj hstep ▸ hread

theorem Follows.walk {ps : List Piece} :
    ∀ {w : Walk} {r : Reader}, Follows w r → walk rt w ps = some w' → Follows w' (ps.foldl (Reader.step rt) r) := by
  induction ps with
  | nil =>
    intro w r h hwalk
    exact Option.some.inj hwalk ▸ h
  | cons p rest ih =>
    intro w r h hwalk
    obtain ⟨between, hstep, hrest⟩ := Option.bind_eq_some_iff.mp hwalk
    exact ih (h.step hstep) hrest

/-! ## Balanced lists -/

/-- Whether a piece opens a list. -/
def Piece.opensList (p : Piece) : Prop := ∃ attributes, p.markup = some (.start ⟨js "dl", attributes⟩)

/-- Whether a piece closes a list. -/
def Piece.closesList (p : Piece) : Prop := p.markup = some (.close (js "dl"))

/-- Pieces of a text in which each list that is opened is closed again. -/
inductive Balanced : List Piece → Prop
  | nil : Balanced []
  | entry {p : Piece} {rest : List Piece} (opens : ¬p.opensList) (closes : ¬p.closesList) (balanced : Balanced rest) :
      Balanced (p :: rest)
  | list {first last : Piece} {within rest : List Piece} (opens : first.opensList) (closes : last.closesList)
      (inner : Balanced within) (balanced : Balanced rest) : Balanced (first :: within ++ last :: rest)

theorem Reader.opened_read (r : Reader) (before : JsString) : (r.read before).opened = r.opened := by
  unfold Reader.read
  cases r.text with
  | none => rfl
  | some text =>
    dsimp only
    split_ifs <;> rfl

theorem Reader.opened_step_opens {p : Piece} (hopens : p.opensList) (r : Reader) :
    ∃ heading, (r.step rt p).opened = heading :: r.opened := by
  obtain ⟨attributes, hmarkup⟩ := hopens
  have hentry : ¬((Markup.start ⟨js "dl", attributes⟩).isRawText || !ENTRY_TAGS.contains (js "dl")) = true := by
    change ¬((rawTextElements.contains (js "dl") || js "dl" == js "title") || !ENTRY_TAGS.contains (js "dl")) = true
    decide
  have hheading : js "dl" ≠ js "h3" := by decide
  rw [Reader.step, hmarkup]
  dsimp only
  rw [Reader.openTag, if_neg hentry, if_neg hheading, if_pos (Eq.refl (js "dl"))]
  dsimp only
  rw [Reader.opened_read]
  exact ⟨_, rfl⟩

theorem Reader.opened_step_closes {p : Piece} (hcloses : p.closesList) (r : Reader) :
    (r.step rt p).opened = r.opened.tail := by
  have hheading : js "dl" ≠ js "h3" := by decide
  rw [Reader.step, hcloses]
  dsimp only
  rw [Reader.close, if_neg hheading, if_pos (Eq.refl (js "dl"))]
  dsimp only
  rw [Reader.opened_read]

theorem Reader.opened_step_entry {p : Piece} (hopens : ¬p.opensList) (hcloses : ¬p.closesList) (r : Reader) :
    (r.step rt p).opened = r.opened := by
  rw [Reader.step]
  rcases hmarkup : p.markup with _ | ⟨name, attributes⟩ | ⟨name⟩ | _
  · exact r.opened_read _
  · have hname : name ≠ js "dl" := fun hname => hopens ⟨attributes, by rw [hmarkup, hname]⟩
    dsimp only
    rw [Reader.openTag]
    dsimp only
    rw [if_neg hname]
    split_ifs <;> simp only [Reader.opened_endHeading, Reader.opened_read]
  · have hname : name ≠ js "dl" := fun hname => hcloses (by rw [Piece.closesList, hmarkup, hname])
    dsimp only
    rw [Reader.close, if_neg hname]
    split_ifs <;> simp only [Reader.opened_endHeading, Reader.opened_read]
  · exact r.opened_read _

theorem Balanced.opened {ps : List Piece} (h : Balanced ps) :
    ∀ r : Reader, (ps.foldl (Reader.step rt) r).opened = r.opened := by
  induction h with
  | nil => exact fun _ => rfl
  | entry hopens hcloses _ ih => exact fun r => (ih _).trans (r.opened_step_entry hopens hcloses)
  | @list first last within rest hopens hcloses _ _ ihinner ihrest =>
    intro r
    obtain ⟨heading, hfirst⟩ : ∃ heading, (r.step rt first).opened = heading :: r.opened := r.opened_step_opens hopens
    rw [List.cons_append, List.foldl_cons, List.foldl_append, List.foldl_cons, ihrest, Reader.opened_step_closes hcloses,
      ihinner, hfirst, List.tail_cons]

theorem Follows.bookmarks (h : Follows w r) :
    (w.finish rt).bookmarks.map (·.folders) = r.enclosing.map fun opened => some (nearestNamed opened).toList := by
  have hdone : Follows (w.finish rt) (r.endHeading rt) := h.finish
  have hfiled := hdone.filed
  rw [Walk.filed, w.collecting_finish, List.append_nil, Reader.enclosing_endHeading] at hfiled
  exact hfiled

end

/-! ## The folders of a file -/

/-- **The folder of each link is the name of the nearest enclosing list that has one**, the lists deeper than the limit
counting as the list at the limit; and wherever in a file lists are opened and closed again, the folder in force after
them is the one in force before. -/
theorem attribution (text : JsString) :
    (∀ bookmarks, parseNetscapeBookmarks rt text = .parsed bookmarks → bookmarks.map (·.folders) =
      (readPieces rt (piecesOf rt (text.filter (· != 0)))).enclosing.map fun opened => some (nearestNamed opened).toList) ∧
    ∀ before within after w w', piecesOf rt (text.filter (· != 0)) = before ++ within ++ after → Balanced within →
      walk rt {} before = some w → walk rt w within = some w' →
        w'.folderHere = w.folderHere ∧ w'.folders = w.folders ∧ w'.overflow = w.overflow := by
  constructor
  · intro bookmarks hparsed
    unfold parseNetscapeBookmarks at hparsed
    cases hwalk : walk rt {} (piecesOf rt (text.filter (· != 0))) with
    | none =>
      rw [hwalk] at hparsed
      cases hparsed
    | some w =>
      rw [hwalk] at hparsed
      obtain rfl := NetscapeFile.parsed.inj hparsed
      exact (follows_start.walk hwalk).bookmarks
  · intro before within after w w' _ hbalanced hbefore hwithin
    have hfirst := follows_start.walk hbefore
    have hlast := hfirst.walk hwithin
    have hopened : (within.foldl (Reader.step rt) (before.foldl (Reader.step rt) {})).opened =
        (before.foldl (Reader.step rt) {}).opened := hbalanced.opened _
    refine ⟨?_, ?_, ?_⟩
    · rw [hlast.folderHere, hfirst.folderHere, hopened]
    · rw [hlast.folders, hfirst.folders, hopened]
    · rw [hlast.overflow, hfirst.overflow, hopened]

/-- A runtime of plain letters. -/
def plainMarkup : MarkupRuntime := ⟨List.map asciiLower, fun _ => none⟩

/-- A list named `a` with a link in it, and a link behind it. -/
def twoLinks : JsString := js "<H3>a</H3><DL><A HREF=u></A></DL><A HREF=v></A>"

def theHeading : List Piece := [⟨[], some (.start ⟨js "h3", []⟩)⟩, ⟨js "a", some (.close (js "h3"))⟩]

def theList : List Piece :=
  [⟨[], some (.start ⟨js "dl", []⟩)⟩, ⟨[], some (.start ⟨js "a", [(js "href", js "u")]⟩)⟩,
    ⟨[], some (.close (js "a"))⟩, ⟨[], some (.close (js "dl"))⟩]

def theLastLink : List Piece :=
  [⟨[], some (.start ⟨js "a", [(js "href", js "v")]⟩)⟩, ⟨[], some (.close (js "a"))⟩, ⟨[], none⟩]

theorem piecesOf_twoLinks :
    piecesOf plainMarkup (twoLinks.filter (· != 0)) = theHeading ++ theList ++ theLastLink := by decide +kernel

theorem balanced_theList : Balanced theList := by
  have hnames : js "a" ≠ js "dl" := by decide
  have hlink : Balanced [⟨[], some (.start ⟨js "a", [(js "href", js "u")]⟩)⟩, ⟨[], some (.close (js "a"))⟩] := by
    refine .entry ?_ (by rintro ⟨⟩) (.entry (by rintro ⟨_, ⟨⟩⟩) ?_ .nil)
    · rintro ⟨attributes, hopens⟩
      injection hopens with hopens
      injection hopens with hopens
      injection hopens with hname
      exact hnames hname
    · intro hcloses
      injection hcloses with hcloses
      injection hcloses with hname
      exact hnames hname
  exact @Balanced.list _ ⟨[], some (.close (js "dl"))⟩ _ _ ⟨[], rfl⟩ rfl hlink .nil

/-- What the walk knows behind the heading. -/
def behindHeading : Walk := { named := some (js "a") }

/-- What the walk knows behind the list. -/
def behindList : Walk :=
  { bookmarks := [{ url := js "u", title := some [], folders := some [js "a"], tags := some [] }], links := 1 }

theorem attribution_twoLinks :
    (readPieces plainMarkup (piecesOf plainMarkup (twoLinks.filter (· != 0)))).enclosing.map
        (fun opened => some (nearestNamed opened).toList) = [some [js "a"], some []] ∧
      behindList.folderHere = behindHeading.folderHere := by
  have hbookmarks : parseNetscapeBookmarks plainMarkup twoLinks =
      .parsed (behindList.bookmarks ++ [{ url := js "v", title := some [], folders := some [], tags := some [] }]) := by
    decide +kernel
  have hbehind := (attribution plainMarkup twoLinks).2 theHeading theList theLastLink behindHeading behindList
    piecesOf_twoLinks balanced_theList (by decide +kernel) (by decide +kernel)
  exact ⟨((attribution plainMarkup twoLinks).1 _ hbookmarks).symm, hbehind.1⟩

end SlugBase.Import
