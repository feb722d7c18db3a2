import SlugBase.Bookmark.Url
import SlugBase.Go.Slug
import SlugBase.Lib.JsString
import SlugBase.Lib.Query

/-!
# The import file and what is read of it

A file that has passed the strict schemas, and each of its bookmarks judged on its content: its URL goes
through the bookmark URL module, its text is made plain and cut to its limits.

* `plainText`, `plainDescription`, `cutCodePoints`, `cleanText`, `cleanDescription`: every string that is stored or echoed is
  made plain text first;
* `ImportRequest`: an export document or a plain array of at most `importMaxBookmarks` bookmarks;
* `readImportBookmark`, `readsOf`: the normalised bookmarks of the file and the refusals, by place;
* `overDistinctNames`: a file of more spellings than one import may name;
* **`readsOf_positions`**: the places of a file are counted from 1, each once.
-/

namespace SlugBase.Import

open JavaScript Relational

/-! ## The text of a file -/

/-- `value` as plain text. -/
def plainText (value : JsString) : JsString := trim (toWellFormed (value.filter fun u => !isControl u))

/-- `LINE_BREAK_VARIANT` replaced: `\r\n` and a lone `\r` become `\n`. -/
def unifyLineBreaks : JsString → JsString
  | [] => []
  | 0x0D :: 0x0A :: s => 0x0A :: unifyLineBreaks s
  | 0x0D :: s => 0x0A :: unifyLineBreaks s
  | u :: s => u :: unifyLineBreaks s

/-- `value` as the plain text of a description, which keeps line breaks and tabs. -/
def plainDescription (value : JsString) : JsString :=
  trim (toWellFormed ((unifyLineBreaks value).filter fun u => !isControl u || u == 0x0A || u == 0x09))

/-- `value` cut to at most `max` code points, never inside a surrogate pair. -/
def cutCodePoints (value : JsString) (max : ℕ) : JsString :=
  if value.length ≤ max then value else trimEnd (takePoints max value)

def cleanText (value : JsString) (max : ℕ) : JsString := cutCodePoints (plainText value) max

def cleanDescription (value : JsString) (max : ℕ) : JsString := cutCodePoints (plainDescription value) max

/-! ## Limits -/

def importMaxBookmarks : ℕ := 5000
def importMaxNewNames : ℕ := 10000
def importMaxLinks : ℕ := 100000
def importMaxDistinctNames : ℕ := importMaxNewNames + importMaxLinks
def bookmarkTitleMaxLength : ℕ := 300
def bookmarkDescriptionMaxLength : ℕ := 1000
def folderNameMaxLength : ℕ := 64
def tagNameMaxLength : ℕ := 40
def folderColorMin : ℤ := 1
def folderColorMax : ℤ := 8
def folderDefaultColor : ℤ := 1
def folderDefaultIcon : JsString := js "folder"

/-- The icons a folder may carry. -/
def folderIcons : List JsString :=
  ["folder", "folder-open", "folder-heart", "folder-code", "folder-archive", "briefcase", "building-2", "book",
    "book-open", "bookmark", "star", "heart", "house", "newspaper", "graduation-cap", "flask-conical", "code",
    "terminal", "cpu", "database", "server", "cloud", "globe", "map", "map-pin", "plane", "car", "utensils",
    "coffee", "shopping-cart", "gift", "music", "film", "camera", "image", "video", "gamepad-2", "palette",
    "lightbulb", "rocket", "target", "trophy", "flag", "tag", "wallet", "credit-card", "dumbbell", "leaf", "sun",
    "moon", "zap", "shield", "lock", "users", "mail", "calendar", "inbox", "package", "wrench", "sparkles"].map js

/-! ## The parsed file -/

/-- A bookmark of the file; a field that is `null` or left out is none. -/
structure ImportFileBookmark where
  ref : Option JsString := none
  url : JsString
  title : Option JsString := none
  description : Option JsString := none
  slug : Option JsString := none
  forwarding : Option Bool := none
  pinned : Option Bool := none
  folders : Option (List JsString) := none
  tags : Option (List JsString) := none
  deriving DecidableEq, Repr

structure ImportFileFolder where
  name : JsString
  icon : Option JsString := none
  color : Option ℤ := none
  deriving DecidableEq, Repr

structure ImportGoPreference where
  slug : JsString
  bookmarkRef : JsString
  deriving DecidableEq, Repr

/-- The lists of an export document beside its bookmarks. -/
structure ImportEnvelope where
  folders : Option (List ImportFileFolder) := none
  tags : Option (List JsString) := none
  goPreferences : Option (List ImportGoPreference) := none
  deriving DecidableEq, Repr

/-- A parsed file: an export document, or a plain array when there is no envelope. -/
structure ImportRequest where
  envelope : Option ImportEnvelope
  bookmarks : List ImportFileBookmark
  atMost : bookmarks.length ≤ importMaxBookmarks

namespace ImportRequest

variable (file : ImportRequest)

/-- The bookmarks of a file, whether it is an export document or a plain array. -/
def bookmarksOfFile : List ImportFileBookmark := file.bookmarks

/-- The folders the document lists; none of a plain array. -/
def listedFolders : List ImportFileFolder := (file.envelope.bind (·.folders)).getD []

/-- The tags the document lists; none of a plain array. -/
def listedTags : List JsString := (file.envelope.bind (·.tags)).getD []

/-- The remembered choices of the document; none of a plain array. -/
def goPreferences : List ImportGoPreference := (file.envelope.bind (·.goPreferences)).getD []

end ImportRequest

/-! ## Reading a bookmark -/

/-- What the runtime and the database provide: the parser of the URL Standard, the lower case of a text,
and what the comparison of a `citext` column sees of a name. -/
structure Runtime where
  parseUrl : JsString → Option ParsedUrl
  toLowerCase : JsString → JsString
  citext : JsString → JsString

/-- The slug the file gives: none, one in the grammar, or text outside it. -/
inductive FileSlug
  | none
  | valid (slug : JsString)
  | invalid (text : JsString)
  deriving DecidableEq, Repr

/-- A bookmark of the file whose URL is one a bookmark can have, with its text cut to its limits. -/
structure ImportBookmark where
  position : ℕ
  url : JsString
  canonical : JsString
  host : JsString
  title : JsString
  description : Option JsString
  pinned : Bool
  slug : FileSlug
  forwarding : Bool
  folders : List JsString
  tags : List JsString
  deriving DecidableEq, Repr

inductive ImportRefusalReason
  | urlNotAllowed
  | urlInvalid
  deriving DecidableEq, Repr

/-- A bookmark of the file whose URL is refused. -/
structure ImportRefusal where
  position : ℕ
  title : JsString
  url : JsString
  reason : ImportRefusalReason
  deriving DecidableEq, Repr

/-- What is read of one bookmark of the file. -/
inductive Read
  | bookmark (b : ImportBookmark)
  | refusal (r : ImportRefusal)
  deriving DecidableEq, Repr

/-- A bookmark of the file as a report names it. -/
structure Entry where
  position : ℕ
  title : JsString
  url : JsString
  deriving DecidableEq, Repr

def ImportBookmark.entry (b : ImportBookmark) : Entry := ⟨b.position, b.title, b.url⟩

def ImportRefusal.entry (r : ImportRefusal) : Entry := ⟨r.position, r.title, r.url⟩

def Read.position : Read → ℕ
  | .bookmark b => b.position
  | .refusal r => r.position

/-- The reason a refused URL is reported with. -/
def refusals : BookmarkUrlRefusal → ImportRefusalReason
  | .empty => .urlInvalid
  | .tooLong => .urlInvalid
  | .malformed => .urlInvalid
  | .notHttp => .urlNotAllowed

/-- The names as plain text cut to `max`, without the empty ones and without a spelling repeated. -/
def cleanNames (names : Option (List JsString)) (max : ℕ) : List JsString :=
  unique (((names.getD []).map (cleanText · max)).filter (· ≠ []))

variable (rt : Runtime)

def readSlug (slug : Option JsString) : FileSlug :=
  match slug with
  | none => .none
  | some s =>
    if trim s = [] then .none
    else match parseSlug rt.toLowerCase s with
      | none => .invalid (cleanText s bookmarkUrlMaxLength)
      | some parsed => .valid parsed

/-- Reads one bookmark of the file: its normalised form, or the reason its URL is refused. -/
def readImportBookmark (entry : ImportFileBookmark) (position : ℕ) : Read :=
  let title := cleanText (entry.title.getD []) bookmarkTitleMaxLength
  match normalizeBookmarkUrl rt.parseUrl entry.url with
  | .error reason => .refusal ⟨position, title, cleanText entry.url bookmarkUrlMaxLength, refusals reason⟩
  | .ok value =>
    let description := cleanDescription (entry.description.getD []) bookmarkDescriptionMaxLength
    .bookmark
      { position
        url := value.url
        canonical := value.canonical
        host := value.host
        title := if title = [] then cleanText value.host bookmarkTitleMaxLength else title
        description := if description = [] then none else some description
        pinned := entry.pinned = some true
        slug := readSlug rt entry.slug
        forwarding := entry.forwarding = some true
        folders := cleanNames entry.folders folderNameMaxLength
        tags := cleanNames entry.tags tagNameMaxLength }

/-- The bookmarks of the file as they are read, by their place. -/
def readsOf (file : ImportRequest) : List Read :=
  file.bookmarksOfFile.zipIdx.map fun p => readImportBookmark rt p.1 (p.2 + 1)

/-- The canonical forms to ask the store about, each once. -/
def canonicalsOf (reads : List Read) : List JsString :=
  unique (reads.filterMap fun read => match read with
    | .bookmark b => some b.canonical
    | .refusal _ => none)

/-- How many spellings of folder and tag names the file holds, when that is more than one import may. -/
def overDistinctNames (file : ImportRequest) : Option ℕ :=
  let folders := unique ((file.listedFolders.map (cleanText ·.name folderNameMaxLength) ++
    file.bookmarksOfFile.flatMap fun b => (b.folders.getD []).map (cleanText · folderNameMaxLength)).filter (· ≠ []))
  let tags := unique ((file.listedTags.map (cleanText · tagNameMaxLength) ++
    file.bookmarksOfFile.flatMap fun b => (b.tags.getD []).map (cleanText · tagNameMaxLength)).filter (· ≠ []))
  let total := folders.length + tags.length
  if total > importMaxDistinctNames then some total else none

/-! ## Places -/

variable {rt}

@[simp] theorem readImportBookmark_position (entry : ImportFileBookmark) (position : ℕ) :
    (readImportBookmark rt entry position).position = position := by
  simp only [readImportBookmark]
  split <;> rfl

/-- **The places of a file**: 1, 2 and so on, each once. -/
theorem readsOf_positions (file : ImportRequest) :
    (readsOf rt file).map Read.position = List.range' 1 file.bookmarks.length := by
  rw [readsOf, List.map_map, ImportRequest.bookmarksOfFile]
  refine List.ext_getElem (by simp) fun i h₁ h₂ => ?_
  simp only [List.getElem_map, Function.comp_apply, readImportBookmark_position, List.getElem_zipIdx,
    List.getElem_range']
  omega

end SlugBase.Import
