import SlugBase.Page.Scanner

/-!
# The metadata of a page

What one pass over the text of a page reads: its fields and its icons.

* `PageWalk`, `PageWalk.readTag`: what the walk has read, and what a start tag adds to it;
* `walkTurn`, `walkPage`: the walk of the source;
* **`walks_page`**, **`walkPage_answers`**: every turn passes the piece it has read, and the walk ends.

The type of the response and its character set are looked at before; the URL parser is the runtime's.
-/

namespace SlugBase.Page

open JavaScript Import

def METADATA_TITLE_MAX_LENGTH : ℕ := 300

def METADATA_DESCRIPTION_MAX_LENGTH : ℕ := 1000

def METADATA_SITE_NAME_MAX_LENGTH : ℕ := 100

def METADATA_CANONICAL_URL_MAX_LENGTH : ℕ := 2048

def METADATA_LANGUAGE_MAX_LENGTH : ℕ := 35

def METADATA_ICON_LINKS_MAX : ℕ := 8

def MAX_META_TAGS : ℕ := 1000

def MAX_LINK_TAGS : ℕ := 200

/-- A URL that was parsed: its protocol, and its text without credentials and fragment. -/
structure PageUrl where
  protocol : JsString
  bare : JsString

/-- What the walk rests on beside the scanner: `new URL(href, base)`, none when it throws. -/
structure PageRuntime extends MarkupRuntime where
  parseUrl : JsString → JsString → Option PageUrl

variable (rt : PageRuntime)

/-! ## Fields -/

/-- `CONTROL_CHARACTERS`. -/
def isPageControl (u : UInt16) : Bool := u ≤ 0x08 || (0x0E ≤ u && u ≤ 0x1F) || (0x7F ≤ u && u ≤ 0x9F)

/-- `plainText`: none when nothing is left. -/
def plainText (raw : JsString) (max : ℕ) : Option JsString :=
  let text := collapsed ((decodeCharacterReferences rt.toMarkupRuntime raw).filter fun u => !isPageControl u)
  if text = [] then none
  else
    let cut := trim (takePoints max (text.take (max * 2)))
    if cut = [] then none else some cut

/-- `LANGUAGE_TAG`. -/
def isLanguageTag (text : JsString) : Bool :=
  match text.splitOn 0x2D with
  | [] => false
  | first :: rest =>
    decide (2 ≤ first.length ∧ first.length ≤ 8) && first.all isLetter && decide (rest.length ≤ 4) &&
      rest.all fun part => decide (1 ≤ part.length ∧ part.length ≤ 8) && part.all fun u => isLetter u || isDecimalDigit u

/-- `languageOf`. -/
def languageOf (raw : Option JsString) : Option JsString :=
  (raw.bind fun text => plainText rt text (METADATA_LANGUAGE_MAX_LENGTH + 1)).bind fun tag =>
    let normalised := tag.map fun u => if u = 0x5F then 0x2D else u
    if decide (normalised.length ≤ METADATA_LANGUAGE_MAX_LENGTH) && isLanguageTag normalised then some normalised
    else none

/-- `canonicalLinkOf`. -/
def canonicalLinkOf (raw base : JsString) : Option JsString :=
  let href := trim ((decodeCharacterReferences rt.toMarkupRuntime raw).filter fun u => !isPageControl u)
  if href = [] then none
  else
    (rt.parseUrl href base).bind fun resolved =>
      if resolved.protocol ≠ js "http:" ∧ resolved.protocol ≠ js "https:" then none
      else if resolved.bare.length ≤ METADATA_CANONICAL_URL_MAX_LENGTH then some resolved.bare
      else none

/-- `META_KEYS`: the keys that are read, each with the longest value that is kept. -/
def META_KEYS : List (JsString × ℕ) :=
  [(js "og:title", METADATA_TITLE_MAX_LENGTH), (js "og:description", METADATA_DESCRIPTION_MAX_LENGTH),
    (js "description", METADATA_DESCRIPTION_MAX_LENGTH), (js "og:site_name", METADATA_SITE_NAME_MAX_LENGTH),
    (js "application-name", METADATA_SITE_NAME_MAX_LENGTH), (js "og:locale", METADATA_LANGUAGE_MAX_LENGTH + 1)]

/-- `KEPT_ATTRIBUTES`. -/
def KEPT_PAGE_ATTRIBUTES : List JsString := [js "html", js "meta", js "link"]

/-! ## The walk -/

/-- What the walk has read. -/
structure PageWalk where
  metaValues : List (JsString × JsString) := []
  documentTitle : Option JsString := none
  htmlLanguage : Option JsString := none
  canonical : Option JsString := none
  icons : List JsString := []
  metaTags : ℕ := 0
  linkTags : ℕ := 0
  svgDepth : ℕ := 0

namespace PageWalk

variable (w : PageWalk)

/-- The value of a `<meta>` under one of its keys. -/
def readMetaKey (content : JsString) (key : Option JsString) : PageWalk :=
  match key.map fun key => rt.toLowerCase (trim key) with
  | none => w
  | some wanted =>
    if (w.metaValues.lookup wanted).isSome then w
    else
      match META_KEYS.lookup wanted with
      | none => w
      | some limit =>
        match plainText rt content limit with
        | none => w
        | some value => { w with metaValues := w.metaValues ++ [(wanted, value)] }

/-- `<meta>`. -/
def readMeta (attributes : Attributes) : PageWalk :=
  let w := { w with metaTags := w.metaTags + 1 }
  if MAX_META_TAGS < w.metaTags then w
  else
    match attributes.get (js "content") with
    | none => w
    | some content =>
      (w.readMetaKey rt content (attributes.get (js "property"))).readMetaKey rt content (attributes.get (js "name"))

/-- `rel.toLowerCase().split(/\s+/)`. -/
def relTokens (rel : JsString) : List JsString := (oneSpace false (rt.toLowerCase rel)).splitOn 0x20

/-- A canonical link, when none was read before. -/
def readCanonical (url href : JsString) (tokens : List JsString) : PageWalk :=
  if w.canonical.isNone && tokens.contains (js "canonical") then { w with canonical := canonicalLinkOf rt href url }
  else w

/-- The address of an icon, at most so many and each once. -/
def readIcon (url href : JsString) (tokens : List JsString) : PageWalk :=
  if decide (w.icons.length < METADATA_ICON_LINKS_MAX) && tokens.contains (js "icon") then
    match canonicalLinkOf rt href url with
    | none => w
    | some target => if w.icons.contains target then w else { w with icons := w.icons ++ [target] }
  else w

/-- `<link>`. -/
def readLink (url : JsString) (attributes : Attributes) : PageWalk :=
  let w := { w with linkTags := w.linkTags + 1 }
  match attributes.get (js "rel"), attributes.get (js "href") with
  | some rel, some href =>
    if MAX_LINK_TAGS < w.linkTags then w
    else (w.readCanonical rt url href (relTokens rt rel)).readIcon rt url href (relTokens rt rel)
  | _, _ => w

/-- An end tag. -/
def readEnd (name : JsString) : PageWalk :=
  if name = js "svg" ∧ 0 < w.svgDepth then { w with svgDepth := w.svgDepth - 1 } else w

/-- `<html>`. -/
def readHtml (attributes : Attributes) : PageWalk :=
  let language := languageOf rt ((attributes.get (js "lang")).or (attributes.get (js "xml:lang")))
  { w with htmlLanguage := w.htmlLanguage.or language }

/-- A start tag whose content is read no further. -/
def readTag (url : JsString) (tag : StartTag) : PageWalk :=
  if tag.name = js "svg" then (if tag.selfClosing then w else { w with svgDepth := w.svgDepth + 1 })
  else if tag.name = js "html" then w.readHtml rt tag.attributes
  else if tag.name = js "meta" then w.readMeta rt tag.attributes
  else if tag.name = js "link" then w.readLink rt url tag.attributes
  else w

end PageWalk

/-- Where the walk stands, and what it has read. -/
structure PageCursor where
  cursor : ℕ := 0
  walk : PageWalk := {}

/-- A start tag behind which the cursor stands. -/
def startTagTurn (url text : JsString) (s : PageCursor) (tag : StartTag) : Loop.Turn PageCursor PageWalk :=
  if rawTextElements.contains tag.name then
    match rawTextEnd text tag.name s.cursor with
    | none => .done s.walk
    | some closing => .again { s with cursor := closing }
  else if tag.name = js "title" then
    if s.walk.documentTitle.isSome ∨ 0 < s.walk.svgDepth then .again s
    else
      match rawTextEnd text (js "title") s.cursor with
      | none => .done s.walk
      | some closing =>
        .again ⟨closing, { s.walk with
          documentTitle := plainText rt (slice text s.cursor closing) METADATA_TITLE_MAX_LENGTH }⟩
  else .again { s with walk := s.walk.readTag rt url tag }

/-- What the walk does at a piece of markup. -/
def pieceTurn (url text : JsString) (s : PageCursor) (token : MarkupToken) : Loop.Turn PageCursor PageWalk :=
  match token with
  | .eof _ => .done s.walk
  | .endTag _ stop name => .again ⟨stop, s.walk.readEnd name⟩
  | .other _ stop => .again { s with cursor := stop }
  | .startTag _ stop tag => startTagTurn rt url text { s with cursor := stop } tag

/-- One turn of the walk. -/
def walkTurn (url : JsString) (fuel : ℕ) (text : JsString) (s : PageCursor) : Option (Loop.Turn PageCursor PageWalk) :=
  if s.cursor < text.length then
    (nextMarkup rt.toMarkupRuntime KEPT_PAGE_ATTRIBUTES fuel text s.cursor).map (pieceTurn rt url text s)
  else some (.done s.walk)

/-- What a page told about itself. -/
structure PageMetadata where
  title : Option JsString
  description : Option JsString
  siteName : Option JsString
  canonicalUrl : Option JsString
  language : Option JsString

/-- The fields and the icons of what was read. -/
def PageWalk.result (w : PageWalk) : PageMetadata × List JsString :=
  ({ title := (w.metaValues.lookup (js "og:title")).or w.documentTitle
     description := (w.metaValues.lookup (js "og:description")).or (w.metaValues.lookup (js "description"))
     siteName := (w.metaValues.lookup (js "og:site_name")).or (w.metaValues.lookup (js "application-name"))
     canonicalUrl := w.canonical
     language := w.htmlLanguage.or (languageOf rt (w.metaValues.lookup (js "og:locale"))) }, w.icons)

/-- `walkPage` of the text of a page. -/
def walkPage (url : JsString) (fuel : ℕ) (text : JsString) : Option (PageMetadata × List JsString) :=
  (Loop.run (walkTurn rt url fuel (text.filter (· != 0))) fuel {}).map (PageWalk.result rt)

/-! ## The walk goes on and ends -/

section

variable {rt} {url text : JsString} {fuel : ℕ} {s s' : PageCursor}

/-- Behind a tag the cursor goes on, or past the content of its element. -/
theorem startTagTurn_again {tag : StartTag} (hs : s.cursor ≤ text.length)
    (h : startTagTurn rt url text s tag = .again s') : s.cursor ≤ s'.cursor ∧ s'.cursor ≤ text.length := by
  have hclosed : ∀ {name : JsString} {closing : ℕ}, rawTextEnd text name s.cursor = some closing →
      s.cursor ≤ closing ∧ closing ≤ text.length := fun hclosing =>
    ⟨(rawTextEnd_some hclosing).1, (rawTextEnd_some hclosing).2.le⟩
  unfold startTagTurn at h
  by_cases hraw : rawTextElements.contains tag.name = true
  · rw [if_pos hraw] at h
    split at h
    · cases h
    · rename_i closing hclosing
      cases h
      exact hclosed hclosing
  · rw [if_neg hraw] at h
    by_cases htitle : tag.name = js "title"
    · rw [if_pos htitle] at h
      by_cases hread : s.walk.documentTitle.isSome ∨ 0 < s.walk.svgDepth
      · rw [if_pos hread] at h
        cases h
        exact ⟨le_rfl, hs⟩
      · rw [if_neg hread] at h
        split at h
        · cases h
        · rename_i closing hclosing
          cases h
          exact hclosed hclosing
    · rw [if_neg htitle] at h
      cases h
      exact ⟨le_rfl, hs⟩

end

/-- The walk over a page is a walk over its markup. -/
theorem walks_page (rt : PageRuntime) (url text : JsString) :
    Walks rt.toMarkupRuntime KEPT_PAGE_ATTRIBUTES text PageCursor.cursor fun fuel s => walkTurn rt url fuel text s := by
  refine ⟨fun fuel s s' hturn => ?_, fun s => ?_⟩
  · unfold walkTurn at hturn
    by_cases hmore : s.cursor < text.length
    · rw [if_pos hmore] at hturn
      obtain ⟨token, htoken, hnext⟩ := Option.map_eq_some_iff.mp hturn
      have hplaced := nextMarkup_placed htoken
      refine ⟨token, ?_⟩
      cases token with
      | startTag start stop tag =>
        have hmoved := startTagTurn_again hplaced.2.2 hnext
        exact ⟨stop, htoken, rfl, hmoved.1, hmoved.2⟩
      | endTag start stop name =>
        cases hnext
        exact ⟨stop, htoken, rfl, le_rfl, hplaced.2.2⟩
      | other start stop =>
        cases hnext
        exact ⟨stop, htoken, rfl, le_rfl, hplaced.2.2⟩
      | eof start => cases hnext
    · rw [if_neg hmore] at hturn
      cases hturn
  · obtain ⟨token, htoken⟩ := nextMarkup_answers rt.toMarkupRuntime KEPT_PAGE_ATTRIBUTES text s.cursor
    by_cases hmore : s.cursor < text.length
    · refine ⟨pieceTurn rt url text s token, fun fuel hfuel => ?_⟩
      have hfound : nextMarkup rt.toMarkupRuntime KEPT_PAGE_ATTRIBUTES fuel text s.cursor = some token :=
        htoken fuel hfuel
      show walkTurn rt url fuel text s = _
      rw [walkTurn, if_pos hmore, hfound, Option.map_some]
    · refine ⟨.done s.walk, fun fuel _ => ?_⟩
      show walkTurn rt url fuel text s = _
      rw [walkTurn, if_neg hmore]

/-- **The walk over a page ends.** -/
theorem walkPage_answers (rt : PageRuntime) (url text : JsString) :
    ∃ result, Loop.Answers (fun fuel => walkPage rt url fuel text) text.length result := by
  obtain ⟨walk, hwalk⟩ := (walks_page rt url (text.filter (· != 0))).answers {}
  refine ⟨walk.result rt, fun fuel hfuel => ?_⟩
  have hless : (text.filter (· != 0)).length < fuel := (List.length_filter_le _ _).trans_lt hfuel
  have hrun : Loop.run (walkTurn rt url fuel (text.filter (· != 0))) fuel {} = some walk := hwalk fuel hless
  show walkPage rt url fuel text = _
  rw [walkPage, hrun, Option.map_some]

end SlugBase.Page
