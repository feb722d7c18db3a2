import SlugBase.Import.Markup

/-!
# Bookmark files of browsers

The reader of Netscape bookmark HTML: one pass over the markup of the text, with a stack of folder names.

* `piecesOf`: the markup of a text, element after element;
* `Walk.step`: what the walk does at a piece of markup;
* `parseNetscapeBookmarks`: the bookmarks of a file.
-/

namespace SlugBase.Import

open JavaScript

/-- The most folders deep the walk keeps names for. -/
def MAX_FOLDER_DEPTH : ℕ := 128

/-- The most characters of the text of one title or folder name the walk keeps. -/
def TEXT_MAX_LENGTH : ℕ := 4096

/-- The most tags of one link the walk keeps. -/
def MAX_TAGS_PER_BOOKMARK : ℕ := 1000

def KEPT_ATTRIBUTES : List JsString := [js "a", js "h3"]

/-- The tags that begin or end an entry. -/
def ENTRY_TAGS : List JsString := ["a", "dt", "dd", "dl", "h1", "h2", "h3", "hr", "p"].map js

variable (rt : MarkupRuntime)

/-! ## The markup of a text -/

/-- The text before a piece of markup, and the piece; none at the end of the text. -/
structure Piece where
  before : JsString
  markup : Option Markup
deriving DecidableEq

/-- Whether the content of a piece is text. -/
def Markup.isRawText : Markup → Bool
  | .start tag => rawTextElements.contains tag.name || tag.name == js "title"
  | _ => false

/-- The text that the walk goes on with: behind the content of an element whose content is text; none when it is never
closed. -/
def afterPiece (markup : Markup) (rest : JsString) : Option JsString :=
  match markup with
  | .start tag => if markup.isRawText then rawTextEnd tag.name rest else some rest
  | _ => some rest

/-- The pieces of a text. -/
def pieces : ℕ → JsString → List Piece
  | 0, _ => []
  | fuel + 1, text =>
    match nextMarkup rt KEPT_ATTRIBUTES text with
    | (before, none) => [⟨before, none⟩]
    | (before, some (markup, rest)) =>
      match afterPiece markup rest with
      | none => [⟨before, some markup⟩]
      | some rest => ⟨before, some markup⟩ :: pieces fuel rest

/-- The pieces of a whole text: each is shorter than what it stands in. -/
def piecesOf (text : JsString) : List Piece := pieces rt (text.length + 1) text

theorem length_afterPiece {markup : Markup} {rest after : JsString} (h : afterPiece markup rest = some after) :
    after.length ≤ rest.length := by
  unfold afterPiece at h
  split at h
  next tag =>
    split_ifs at h with hraw
    · exact length_rawTextEnd h
    · rw [Option.some.inj h]
  next => rw [Option.some.inj h]

/-- More turns than there are characters find the same pieces. -/
theorem pieces_fuel {fuel : ℕ} :
    ∀ {enough : ℕ} {text : JsString}, text.length < fuel → text.length < enough → pieces rt fuel text = pieces rt enough text := by
  induction fuel with
  | zero => intro enough text h; exact absurd h (Nat.not_lt_zero _)
  | succ fuel ih =>
    intro enough text hfuel henough
    obtain ⟨enough, rfl⟩ := Nat.exists_eq_succ_of_ne_zero (Nat.ne_of_gt (Nat.zero_lt_of_lt henough))
    rw [pieces, pieces]
    rcases hnext : nextMarkup rt KEPT_ATTRIBUTES text with ⟨before, _ | ⟨markup, rest⟩⟩
    · rfl
    · have hlength := nextMarkup_length hnext
      dsimp only
      cases hafter : afterPiece markup rest with
      | none => rfl
      | some after =>
        have hbehind := length_afterPiece hafter
        exact congrArg _ (ih (by omega) (by omega))

/-! ## The walk -/

/-- What the walk is collecting the text of. -/
inductive Collecting
  | link (href : JsString) (folder : Option JsString) (tags : List JsString) (text : JsString)
  | folder (text : JsString)
deriving DecidableEq

def Collecting.text : Collecting → JsString
  | .link _ _ _ text => text
  | .folder text => text

def Collecting.withText (text : JsString) : Collecting → Collecting
  | .link href around tags _ => .link href around tags text
  | .folder _ => .folder text

/-- The state of the walk; the innermost folder comes first. -/
structure Walk where
  bookmarks : List ImportFileBookmark := []
  folders : List (Option JsString) := []
  overflow : ℕ := 0
  links : ℕ := 0
  named : Option JsString := none
  collecting : Option Collecting := none
deriving DecidableEq

namespace Walk

variable (w : Walk)

/-- The folder of the innermost list. -/
def folderHere : Option JsString := w.folders.head?.join

/-- A folder name; none when nothing is left of it. -/
def nameOf (text : JsString) : Option JsString := if plain rt text = [] then none else some (plain rt text)

/-- The bookmark of a link. -/
def bookmarkOf (href : JsString) (folder : Option JsString) (tags : List JsString) (text : JsString) : ImportFileBookmark :=
  { url := href, title := some (plain rt text), folders := some folder.toList, tags := some tags }

/-- `finish`. -/
def finish : Walk :=
  match w.collecting with
  | none => w
  | some (.link href folder tags text) =>
    { w with bookmarks := w.bookmarks ++ [bookmarkOf rt href folder tags text], collecting := none }
  | some (.folder text) => { w with named := nameOf rt text, collecting := none }

/-- The text before a piece, added to what is collected. -/
def read (before : JsString) : Walk :=
  match w.collecting with
  | none => w
  | some c =>
    if c.text.length < TEXT_MAX_LENGTH ∧ before ≠ [] then
      { w with collecting := some (c.withText (c.text ++ before.take TEXT_MAX_LENGTH)) }
    else w

/-- An end tag. -/
def close (name : JsString) : Walk :=
  match w.collecting with
  | some (.link _ _ _ _) => if name = js "a" then w.finish rt else closeList name
  | some (.folder _) => if name = js "h3" then w.finish rt else closeList name
  | none => closeList name
where
  /-- `</dl>`. -/
  closeList (name : JsString) : Walk :=
    if name = js "dl" then
      let done := { w.finish rt with named := none }
      if 0 < done.overflow then { done with overflow := done.overflow - 1 } else { done with folders := done.folders.tail }
    else w

/-- `tagsOf`. -/
def tagsOf (written : Option JsString) : List JsString :=
  match written with
  | none => []
  | some text =>
    ((((decodeCharacterReferences rt text).splitOn 0x2C).take MAX_TAGS_PER_BOOKMARK).map collapsed).filter (· != [])

/-- `<dl>`. -/
def openList : Walk :=
  let name := w.named.or w.folderHere
  if w.folders.length < MAX_FOLDER_DEPTH then { w with named := none, folders := name :: w.folders }
  else { w with named := none, overflow := w.overflow + 1 }

/-- `<a>`; none when there are too many links. -/
def openLink (attributes : Attributes) : Option Walk :=
  match attributes.get (js "href") with
  | none => some w
  | some href =>
    if importMaxBookmarks < w.links + 1 then none
    else some { w with
      links := w.links + 1
      collecting := some (.link (decodeCharacterReferences rt href) w.folderHere (tagsOf rt (attributes.get (js "tags"))) []) }

/-- A start tag. -/
def openTag (tag : StartTag) : Option Walk :=
  if (Markup.start tag).isRawText || !ENTRY_TAGS.contains tag.name then some w
  else if tag.name = js "h3" then some { w.finish rt with collecting := some (.folder []) }
  else if tag.name = js "dl" then some (w.finish rt).openList
  else if tag.name = js "a" then (w.finish rt).openLink rt tag.attributes
  else some (w.finish rt)

/-- One turn of the walk; none when there are too many links. -/
def step (p : Piece) : Option Walk :=
  match p.markup with
  | none => some (w.read p.before)
  | some .other => some (w.read p.before)
  | some (.close name) => some ((w.read p.before).close rt name)
  | some (.start tag) => (w.read p.before).openTag rt tag

end Walk

/-- What a file is read as. -/
inductive NetscapeFile
  | parsed (bookmarks : List ImportFileBookmark)
  | tooMany
deriving DecidableEq

/-- The walk over pieces. -/
def walk (w : Walk) : List Piece → Option Walk
  | [] => some w
  | p :: rest => (w.step rt p).bind fun w => walk w rest

/-- `parseNetscapeBookmarks` of the text of a file, which holds no NUL. -/
def parseNetscapeBookmarks (text : JsString) : NetscapeFile :=
  match walk rt {} (piecesOf rt (text.filter (· != 0))) with
  | none => .tooMany
  | some w => .parsed (w.finish rt).bookmarks

end SlugBase.Import
