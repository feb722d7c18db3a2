import SlugBase.Export.Netscape
import SlugBase.Export.Markup

/-!
# The export is read back

What the reader of bookmark files makes of the file that the export for browsers writes.

* `Fits`: texts within the limits of a bookmark; `readBack`: what a link of the file is read as;
* `readOn`: the walk over what is left of a text; `idle`: the walk between two links;
* **`export_readBack`**: up to the limit of an import every link is read back once, in order; more of them are refused.
-/

namespace SlugBase.Export

open JavaScript Import

variable {toLowerCase : JsString → JsString}

/-! ## What is read back -/

/-- The texts of a row: no NUL, no comma in a tag, and no more of them than a bookmark may have. -/
structure Fits (row : NetscapeBookmarkRow) : Prop where
  noNul : 0 ∉ row.url ∧ 0 ∉ row.title ∧ (∀ slug ∈ row.slug, 0 ∉ slug) ∧ ∀ tag ∈ row.tags, 0 ∉ tag
  title : (codePoints row.title).length ≤ bookmarkTitleMaxLength
  tags : row.tags.length ≤ MAX_TAGS_PER_BOOKMARK ∧ ∀ tag ∈ row.tags, 0x2C ∉ tag

/-- What a link is read as: its address, the title with its whitespace made one space, and so its folder and tags. -/
def readBack (folder : Option JsString) (row : NetscapeBookmarkRow) : ImportFileBookmark :=
  { url := row.url, title := some (collapsed row.title), folders := some folder.toList,
    tags := some ((row.tags.map collapsed).filter (· != [])) }

/-- The folder that a section is read as; none when nothing is left of its name. -/
def folderRead (name : JsString) : Option JsString := if collapsed name = [] then none else some (collapsed name)

/-! ## The walk over a text -/

/-- The walk over what is left of a text. -/
def readOn (toLowerCase : JsString → JsString) (w : Walk) (text : JsString) : Option Walk :=
  walk (markupRuntime toLowerCase) w (piecesOf (markupRuntime toLowerCase) text)

/-- The walk between two links. -/
def idle (folders : List (Option JsString)) (bookmarks : List ImportFileBookmark) : Walk :=
  { bookmarks := bookmarks, folders := folders, links := bookmarks.length }

/-- Text without markup. -/
def Plain (text : JsString) : Prop := ∀ v ∈ text, v ≠ 0x3C

theorem plain_nil : Plain [] := fun _ hv => absurd hv List.not_mem_nil

theorem js_of_characters {text : String} {characters : List Char} (h : text = String.ofList characters) :
    js text = characters.flatMap encode := by
  rw [js, h, String.toList_ofList]

theorem plain_js {text : String} (h : ((js text).all fun v => v != 0x3C) = true) : Plain (js text) := fun v hv =>
  bne_iff_ne.mp (List.all_eq_true.mp h v hv)

theorem plain_lineBreak : Plain [0x0A] := by
  intro v hv
  obtain rfl := List.mem_singleton.mp hv
  decide

theorem Plain.append {a b : JsString} (ha : Plain a) (hb : Plain b) : Plain (a ++ b) := fun v hv =>
  (List.mem_append.mp hv).elim (ha v) (hb v)

theorem plain_escapeHtml (text : JsString) : Plain (escapeHtml text) := fun _ hv => (mem_escapeHtml hv).1

theorem readOn_tag {lead name rest : JsString} {attributes : Attributes} (hlead : Plain lead)
    (hname : isName name = true) (hnames : ∀ a ∈ attributes, isName a.1 = true) (hvalues : ∀ a ∈ attributes, ∀ v ∈ a.2, v ≠ 0x22)
    (hmarkup : (rawTextElements.contains (toLowerCase name) || toLowerCase name == js "title") = false) (w : Walk) :
    readOn toLowerCase w (lead ++ (tagText name attributes ++ rest)) =
      ((w.read lead).openTag (markupRuntime toLowerCase) ⟨toLowerCase name, collected (markupRuntime toLowerCase)
        (KEPT_ATTRIBUTES.contains (toLowerCase name)) [] attributes⟩).bind fun w => readOn toLowerCase w rest := by
  have hpieces := piecesOf_tag (markupRuntime toLowerCase) rest hlead hname hnames hvalues hmarkup
  rw [readOn, hpieces]
  rfl

theorem readOn_endTag {lead name rest : JsString} (hlead : Plain lead) (hname : isName name = true) (w : Walk) :
    readOn toLowerCase w (lead ++ (endTagText name ++ rest)) =
      readOn toLowerCase ((w.read lead).close (markupRuntime toLowerCase) (toLowerCase name)) rest := by
  have hpieces := piecesOf_endTag (markupRuntime toLowerCase) rest hlead hname
  rw [readOn, hpieces]
  rfl

/-! ## Tags without attributes -/

/-- The lower case of a text of ASCII characters. -/
def LowersAscii (toLowerCase : JsString → JsString) : Prop :=
  ∀ s : JsString, (s.all fun u => u < 0x80) = true → toLowerCase s = s.map asciiLower

section

variable (hlower : LowersAscii toLowerCase) {folders : List (Option JsString)} {bookmarks : List ImportFileBookmark}
  {lead rest : JsString}

include hlower

theorem readOn_dt (hlead : Plain lead) :
    readOn toLowerCase (idle folders bookmarks) (lead ++ (tagText (js "DT") [] ++ rest)) =
      readOn toLowerCase (idle folders bookmarks) rest := by
  have hname : toLowerCase (js "DT") = js "dt" := (hlower _ (by decide)).trans (by decide)
  rw [readOn_tag hlead (by decide) (by simp) (by simp) (by rw [hname]; decide), hname]
  rfl

theorem readOn_p (hlead : Plain lead) :
    readOn toLowerCase (idle folders bookmarks) (lead ++ (tagText (js "p") [] ++ rest)) =
      readOn toLowerCase (idle folders bookmarks) rest := by
  have hname : toLowerCase (js "p") = js "p" := (hlower _ (by decide)).trans (by decide)
  rw [readOn_tag hlead (by decide) (by simp) (by simp) (by rw [hname]; decide), hname]
  rfl

theorem readOn_endList {name : Option JsString} (hlead : Plain lead) :
    readOn toLowerCase (idle (name :: folders) bookmarks) (lead ++ (endTagText (js "DL") ++ rest)) =
      readOn toLowerCase (idle folders bookmarks) rest := by
  have hname : toLowerCase (js "DL") = js "dl" := (hlower _ (by decide)).trans (by decide)
  rw [readOn_endTag hlead (by decide), hname]
  rfl

/-! ## Links -/

omit hlower in
theorem nameOf_escapeHtml (toLowerCase : JsString → JsString) (name : JsString) :
    Walk.nameOf (markupRuntime toLowerCase) (escapeHtml name) = folderRead name := by
  rw [Walk.nameOf, plain, decode_escapeHtml]
  rfl

/-- The attributes of a link as they are written. -/
def linkAttributes (row : NetscapeBookmarkRow) : Attributes :=
  (js "HREF", escapeHtml row.url) :: (row.slug.map fun slug => (js "SHORTCUTURL", escapeHtml slug)).toList ++
    if row.tags.length = 0 then [] else [(js "TAGS", escapeHtml ([0x2C].intercalate row.tags))]

omit hlower in
theorem link_eq (row : NetscapeBookmarkRow) (indent : JsString) : link row indent ++ rest =
    indent ++ (tagText (js "DT") [] ++ (tagText (js "A") (linkAttributes row) ++
      (escapeHtml row.title ++ (endTagText (js "A") ++ (0x0A :: rest))))) := by
  have hhref : js "<DT><A HREF=\"" = tagText (js "DT") [] ++ 0x3C :: js "A" ++ 0x20 :: js "HREF" ++ [0x3D, 0x22] := by
    decide
  have hslug : js " SHORTCUTURL=\"" = 0x20 :: js "SHORTCUTURL" ++ [0x3D, 0x22] := by decide
  have htags : js " TAGS=\"" = 0x20 :: js "TAGS" ++ [0x3D, 0x22] := by decide
  have hquote : js "\"" = [0x22] := by decide
  have hclose : js ">" = [0x3E] := by decide
  have hend : js "</A>\n" = endTagText (js "A") ++ [0x0A] := by decide
  unfold link linkAttributes
  rw [hhref, hslug, htags, hquote, hclose, hend]
  cases row.slug with
  | none =>
    split_ifs
    · simp [tagText, attributeText]
    · simp [tagText, attributeText]
  | some slug =>
    split_ifs
    · simp [tagText, attributeText]
    · simp [tagText, attributeText]

/-- The attributes of a link as they are read. -/
theorem collected_linkAttributes (row : NetscapeBookmarkRow) :
    let read := collected (markupRuntime toLowerCase) true [] (linkAttributes row)
    read.get (js "href") = some (escapeHtml row.url) ∧
      read.get (js "tags") = if row.tags.length = 0 then none else some (escapeHtml ([0x2C].intercalate row.tags)) := by
  have hhref : (markupRuntime toLowerCase).toLowerCase (js "HREF") = js "href" :=
    (hlower _ (by decide)).trans (by decide)
  have hslug : (markupRuntime toLowerCase).toLowerCase (js "SHORTCUTURL") = js "shortcuturl" :=
    (hlower _ (by decide)).trans (by decide)
  have htags : (markupRuntime toLowerCase).toLowerCase (js "TAGS") = js "tags" :=
    (hlower _ (by decide)).trans (by decide)
  unfold linkAttributes collected
  cases row.slug with
  | none =>
    by_cases hnone : row.tags.length = 0
    · simp only [if_pos hnone, Option.map_none, Option.toList_none, List.append_nil, List.foldl_cons, List.foldl_nil,
        hhref]
      exact ⟨rfl, rfl⟩
    · simp only [if_neg hnone, Option.map_none, Option.toList_none, List.nil_append, List.cons_append, List.foldl_cons,
        List.foldl_nil, hhref, htags]
      exact ⟨rfl, rfl⟩
  | some slug =>
    by_cases hnone : row.tags.length = 0
    · simp only [if_pos hnone, Option.map_some, Option.toList_some, List.append_nil, List.foldl_cons, List.foldl_nil,
        hhref, hslug]
      exact ⟨rfl, rfl⟩
    · simp only [if_neg hnone, Option.map_some, Option.toList_some, List.cons_append, List.nil_append, List.foldl_cons,
        List.foldl_nil, hhref, hslug, htags]
      exact ⟨rfl, rfl⟩

omit hlower in
theorem tagsOf_written {tags : List JsString} (hlength : tags.length ≤ MAX_TAGS_PER_BOOKMARK)
    (hcomma : ∀ tag ∈ tags, 0x2C ∉ tag) :
    Walk.tagsOf (markupRuntime toLowerCase)
      (if tags.length = 0 then none else some (escapeHtml ([0x2C].intercalate tags))) =
        (tags.map collapsed).filter (· != []) := by
  by_cases hnone : tags.length = 0
  · obtain rfl := List.length_eq_zero_iff.mp hnone
    rfl
  · have hne : tags ≠ [] := fun h => hnone (List.length_eq_zero_iff.mpr h)
    rw [if_neg hnone, Walk.tagsOf, decode_escapeHtml, List.splitOn_intercalate _ hcomma hne,
      List.take_of_length_le hlength]

omit hlower in
theorem length_le_codePoints (s : JsString) : s.length ≤ 2 * (codePoints s).length := by
  induction s using codePoints.induct with
  | case1 => exact Nat.zero_le _
  | case2 u => exact Nat.le_succ 1
  | case3 u v s h ih =>
    simp only [codePoints, h, if_true, List.length_cons]
    omega
  | case4 u v s h ih =>
    simp only [codePoints, h, Bool.false_eq_true, if_false, List.length_cons] at ih ⊢
    omega

omit hlower in
/-- What is collected behind a tag is the text that was written there. -/
theorem read_collecting {w : Walk} {c : Collecting} (hw : w.collecting = some c) (hnothing : c.text = [])
    {before : JsString} (hbefore : before.length ≤ TEXT_MAX_LENGTH) :
    w.read before = { w with collecting := some (c.withText before) } := by
  rw [Walk.read, hw]
  dsimp only
  by_cases hempty : before = []
  · rw [if_neg fun h => h.2 hempty, hempty]
    have hsame : c.withText [] = c := by
      cases c with
      | link href around tags text =>
        obtain rfl := hnothing
        rfl
      | folder text =>
        obtain rfl := hnothing
        rfl
    rw [hsame, ← hw]
  · have hroom : c.text.length < TEXT_MAX_LENGTH := by
      rw [hnothing]
      decide
    rw [if_pos ⟨hroom, hempty⟩, hnothing, List.take_of_length_le hbefore, List.nil_append]

omit hlower in
theorem mem_linkAttributes {row : NetscapeBookmarkRow} {a : JsString × JsString} (ha : a ∈ linkAttributes row) :
    isName a.1 = true ∧ ∀ v ∈ a.2, v ≠ 0x22 := by
  have hwritten : ∀ {name : String} {text : JsString}, isName (js name) = true → a = (js name, escapeHtml text) →
      isName a.1 = true ∧ ∀ v ∈ a.2, v ≠ 0x22 := by
    rintro name text hname rfl
    exact ⟨hname, fun v hv => (mem_escapeHtml hv).2.2.1⟩
  rcases List.mem_append.mp ha with ha | ha
  · rcases List.mem_cons.mp ha with ha | ha
    · exact hwritten (by decide) ha
    · obtain ⟨slug, -, ha⟩ := Option.map_eq_some_iff.mp (Option.mem_toList.mp ha)
      exact hwritten (by decide) ha.symm
  · split_ifs at ha
    · cases ha
    · exact hwritten (by decide) (List.mem_singleton.mp ha)

/-- **A link is read back.** -/
theorem readOn_link {row : NetscapeBookmarkRow} (hrow : Fits row) (hlead : Plain lead) {indent : JsString}
    (hindent : Plain indent) :
    readOn toLowerCase (idle folders bookmarks) (lead ++ (link row indent ++ rest)) =
      if importMaxBookmarks < bookmarks.length + 1 then none
      else readOn toLowerCase (idle folders (bookmarks ++ [readBack folders.head?.join row])) (0x0A :: rest) := by
  have hname : toLowerCase (js "A") = js "a" := (hlower _ (by decide)).trans (by decide)
  have hplain : Plain (lead ++ indent) := hlead.append hindent
  obtain ⟨hhref, htags⟩ := collected_linkAttributes hlower row
  have hkept : KEPT_ATTRIBUTES.contains (js "a") = true := by decide
  have hlength : (escapeHtml row.title).length ≤ TEXT_MAX_LENGTH := by
    have hescaped := length_escapeHtml row.title
    have hunits := length_le_codePoints row.title
    have hpoints : (codePoints row.title).length ≤ 300 := hrow.title
    show _ ≤ 4096
    omega
  rw [link_eq, ← List.append_assoc, readOn_dt hlower hplain, ← List.nil_append (tagText (js "A") _ ++ _),
    readOn_tag plain_nil (by decide) (fun a ha => (mem_linkAttributes ha).1) (fun a ha => (mem_linkAttributes ha).2)
      (by rw [hname]; decide), hname, hkept]
  generalize collected (markupRuntime toLowerCase) true [] (linkAttributes row) = attributes at hhref htags ⊢
  have hopen : ((idle folders bookmarks).read []).openTag (markupRuntime toLowerCase) ⟨js "a", attributes⟩ =
      (idle folders bookmarks).openLink (markupRuntime toLowerCase) attributes := rfl
  rw [hopen, Walk.openLink, hhref, htags]
  dsimp only
  rw [decode_escapeHtml, tagsOf_written hrow.tags.1 hrow.tags.2]
  by_cases hmany : importMaxBookmarks < bookmarks.length + 1
  · rw [if_pos hmany]
    exact (congrArg (fun w => Option.bind w _) (if_pos hmany)).trans rfl
  · rw [if_neg hmany]
    refine (congrArg (fun w => Option.bind w _) (if_neg hmany)).trans ?_
    have htitle : plain (markupRuntime toLowerCase) (escapeHtml row.title) = collapsed row.title := by
      rw [plain, decode_escapeHtml]
    rw [Option.bind_some, readOn_endTag (plain_escapeHtml row.title) (by decide), hname, read_collecting rfl rfl hlength]
    refine congrArg (fun w => readOn toLowerCase w (0x0A :: rest)) ?_
    unfold idle readBack
    rw [List.length_append, ← htitle]
    rfl

variable (folders bookmarks rest) in
/-- **Links are read back, one after the other.** -/
theorem readOn_links {rows : List NetscapeBookmarkRow} (hrows : ∀ row ∈ rows, Fits row) (indent : JsString)
    (hindent : Plain indent) (hbookmarks : bookmarks.length ≤ importMaxBookmarks) (hlead : Plain lead) :
    ∃ lead', Plain lead' ∧ readOn toLowerCase (idle folders bookmarks) (lead ++ (rows.flatMap (link · indent) ++ rest)) =
      if bookmarks.length + rows.length ≤ importMaxBookmarks then
        readOn toLowerCase (idle folders (bookmarks ++ rows.map (readBack folders.head?.join))) (lead' ++ rest)
      else none := by
  induction rows generalizing bookmarks lead with
  | nil =>
    have hroom : bookmarks.length + ([] : List NetscapeBookmarkRow).length ≤ importMaxBookmarks := hbookmarks
    refine ⟨lead, hlead, ?_⟩
    rw [if_pos hroom, List.map_nil, List.append_nil]
    rfl
  | cons row rows ih =>
    rw [List.flatMap_cons, List.append_assoc, readOn_link hlower (hrows row List.mem_cons_self) hlead hindent]
    by_cases hmany : importMaxBookmarks < bookmarks.length + 1
    · refine ⟨[], plain_nil, ?_⟩
      rw [if_pos hmany, if_neg (by rw [List.length_cons]; omega)]
    · have hroom : (bookmarks ++ [readBack folders.head?.join row]).length ≤ importMaxBookmarks := by
        rw [List.length_append, List.length_singleton]
        omega
      obtain ⟨lead', hlead', hrest⟩ := ih _ (fun row hrow => hrows row (List.mem_cons_of_mem _ hrow)) hroom plain_lineBreak
      refine ⟨lead', hlead', ?_⟩
      rw [if_neg hmany]
      refine hrest.trans ?_
      rw [List.length_append, List.length_singleton, List.length_cons, List.map_cons, List.append_assoc,
        List.singleton_append, Nat.add_assoc, Nat.add_comm 1]

/-! ## Sections -/

omit hlower in
theorem sectionText_eq (library : Library) (folder : NetscapeSectionRow) : sectionText library folder ++ rest =
    js "    " ++ (tagText (js "DT") [] ++ (tagText (js "H3") [] ++ (escapeHtml folder.name ++ (endTagText (js "H3") ++
      (js "\n    " ++ (tagText (js "DL") [] ++ (tagText (js "p") [] ++ ([0x0A] ++
        ((library.filed folder.id).rows.flatMap (link · (js "        ")) ++ (js "    " ++ (endTagText (js "DL") ++
          (tagText (js "p") [] ++ ([0x0A] ++ rest))))))))))))) := by
  have hfirst : js "    <DT><H3>" = js "    " ++ (tagText (js "DT") [] ++ tagText (js "H3") []) := by decide
  have hsecond : js "</H3>\n    <DL><p>\n" = endTagText (js "H3") ++ (js "\n    " ++ (tagText (js "DL") [] ++
    (tagText (js "p") [] ++ [0x0A]))) := by decide
  have hlast : js "    </DL><p>\n" = js "    " ++ (endTagText (js "DL") ++ (tagText (js "p") [] ++ [0x0A])) := by decide
  unfold sectionText sectionHead sectionEnd
  rw [hfirst, hsecond, hlast]
  simp only [List.append_assoc]

/-- The name of a folder, and the list it opens. -/
theorem readOn_heading {name : JsString} (hname : (codePoints name).length ≤ folderNameMaxLength) (hlead : Plain lead) :
    readOn toLowerCase (idle [none] bookmarks) (lead ++ (tagText (js "H3") [] ++ (escapeHtml name ++
      (endTagText (js "H3") ++ (js "\n    " ++ (tagText (js "DL") [] ++ rest)))))) =
        readOn toLowerCase (idle [folderRead name, none] bookmarks) rest := by
  have hheading : toLowerCase (js "H3") = js "h3" := (hlower _ (by decide)).trans (by decide)
  have hlist : toLowerCase (js "DL") = js "dl" := (hlower _ (by decide)).trans (by decide)
  have hlength : (escapeHtml name).length ≤ TEXT_MAX_LENGTH := by
    have hescaped := length_escapeHtml name
    have hunits := length_le_codePoints name
    have hpoints : (codePoints name).length ≤ 64 := hname
    show _ ≤ 4096
    omega
  rw [readOn_tag hlead (by decide) (by simp) (by simp) (by rw [hheading]; decide), hheading]
  have hopen : ((idle [none] bookmarks).read lead).openTag (markupRuntime toLowerCase) ⟨js "h3",
      collected (markupRuntime toLowerCase) (KEPT_ATTRIBUTES.contains (js "h3")) [] []⟩ =
        some { idle [none] bookmarks with collecting := some (.folder []) } := rfl
  rw [hopen, Option.bind_some, readOn_endTag (plain_escapeHtml name) (by decide), hheading,
    read_collecting rfl rfl hlength, readOn_tag (plain_js (by decide)) (by decide) (by simp) (by simp) (by rw [hlist]; decide), hlist]
  have hlisted : idle [(Walk.nameOf (markupRuntime toLowerCase) (escapeHtml name)).or none, none] bookmarks =
      idle [folderRead name, none] bookmarks := by
    rw [Option.or_none, nameOf_escapeHtml]
  rw [← hlisted]
  rfl

variable (rest) in
/-- **A section is read back under its name.** -/
theorem readOn_section {library : Library} {folder : NetscapeSectionRow}
    (hname : (codePoints folder.name).length ≤ folderNameMaxLength)
    (hrows : ∀ row ∈ (library.filed folder.id).rows, Fits row) (hbookmarks : bookmarks.length ≤ importMaxBookmarks)
    (hlead : Plain lead) :
    ∃ lead', Plain lead' ∧ readOn toLowerCase (idle [none] bookmarks) (lead ++ (sectionText library folder ++ rest)) =
      if bookmarks.length + (library.filed folder.id).rows.length ≤ importMaxBookmarks then
        readOn toLowerCase (idle [none] (bookmarks ++
          (library.filed folder.id).rows.map (readBack (folderRead folder.name)))) (lead' ++ rest)
      else none := by
  rw [sectionText_eq, ← List.append_assoc, readOn_dt hlower (hlead.append (plain_js (by decide))),
    ← List.nil_append (tagText (js "H3") _ ++ _), readOn_heading hlower hname plain_nil,
    ← List.nil_append (tagText (js "p") _ ++ _), readOn_p hlower plain_nil]
  obtain ⟨lead', hlead', hlinks⟩ := readOn_links hlower [folderRead folder.name, none] bookmarks
    (js "    " ++ (endTagText (js "DL") ++ (tagText (js "p") [] ++ ([0x0A] ++ rest)))) hrows (js "        ")
    (plain_js (by decide)) hbookmarks plain_lineBreak
  refine ⟨[0x0A], plain_lineBreak, ?_⟩
  rw [hlinks]
  split_ifs
  · rw [← List.append_assoc lead', readOn_endList hlower (hlead'.append (plain_js (by decide))),
      ← List.nil_append (tagText (js "p") _ ++ _), readOn_p hlower plain_nil]
    rfl
  · rfl

/-- What the sections of folders are read as. -/
def sectionsRead (library : Library) (folders : List NetscapeSectionRow) : List ImportFileBookmark :=
  folders.flatMap fun folder => (library.filed folder.id).rows.map (readBack (folderRead folder.name))

/-- The names and the links of a section. -/
structure SectionFits (library : Library) (folder : NetscapeSectionRow) : Prop where
  noNul : 0 ∉ folder.name
  name : (codePoints folder.name).length ≤ folderNameMaxLength
  links : ∀ row ∈ (library.filed folder.id).rows, Fits row

variable (rest) in
/-- **Sections are read back, one after the other.** -/
theorem readOn_sections {library : Library} {sections : List NetscapeSectionRow}
    (hsections : ∀ folder ∈ sections, SectionFits library folder) (hbookmarks : bookmarks.length ≤ importMaxBookmarks)
    (hlead : Plain lead) :
    ∃ lead', Plain lead' ∧
      readOn toLowerCase (idle [none] bookmarks) (lead ++ (sections.flatMap (sectionText library) ++ rest)) =
        if bookmarks.length + (sectionsRead library sections).length ≤ importMaxBookmarks then
          readOn toLowerCase (idle [none] (bookmarks ++ sectionsRead library sections)) (lead' ++ rest)
        else none := by
  induction sections generalizing bookmarks lead with
  | nil =>
    have hroom : bookmarks.length + (sectionsRead library []).length ≤ importMaxBookmarks := hbookmarks
    refine ⟨lead, hlead, ?_⟩
    rw [if_pos hroom]
    exact congrArg (fun bookmarks => readOn toLowerCase (idle [none] bookmarks) _) (List.append_nil bookmarks).symm
  | cons folder sections ih =>
    obtain ⟨-, hname, hlinks⟩ := hsections folder List.mem_cons_self
    obtain ⟨lead', hlead', hfirst⟩ := readOn_section hlower (sections.flatMap (sectionText library) ++ rest) hname
      hlinks hbookmarks hlead
    have hread : sectionsRead library (folder :: sections) =
        (library.filed folder.id).rows.map (readBack (folderRead folder.name)) ++ sectionsRead library sections :=
      List.flatMap_cons
    rw [List.flatMap_cons, List.append_assoc, hfirst, hread, List.length_append, List.length_map]
    by_cases hroom : bookmarks.length + (library.filed folder.id).rows.length ≤ importMaxBookmarks
    · have hnext : (bookmarks ++ (library.filed folder.id).rows.map (readBack (folderRead folder.name))).length ≤
          importMaxBookmarks := by
        rw [List.length_append, List.length_map]
        exact hroom
      obtain ⟨lead'', hlead'', hrest⟩ :=
        ih (fun folder hfolder => hsections folder (List.mem_cons_of_mem _ hfolder)) hnext hlead'
      refine ⟨lead'', hlead'', ?_⟩
      rw [if_pos hroom, hrest, List.length_append, List.length_map, List.append_assoc, Nat.add_assoc]
    · refine ⟨[], plain_nil, ?_⟩
      rw [if_neg hroom, if_neg (by omega)]

/-! ## The file -/

/-- What stands before the first link. -/
theorem readOn_head : readOn toLowerCase {} (HEAD ++ rest) = readOn toLowerCase (idle [none] []) ([0x0A] ++ rest) := by
  have hhead : HEAD ++ rest = [] ++ 0x3C :: 0x21 :: (js "DOCTYPE NETSCAPE-Bookmark-file-1" ++ 0x3E :: ([0x0A] ++
      (tagText (js "META") [(js "HTTP-EQUIV", js "Content-Type"), (js "CONTENT", js "text/html; charset=UTF-8")] ++
        ([0x0A] ++ 0x3C :: (js "TITLE" ++ (([] : Attributes).flatMap attributeText ++ 0x3E :: (js "Bookmarks" ++
          (endTagText (js "TITLE") ++ ([0x0A] ++ (tagText (js "H1") [] ++ (js "Bookmarks" ++ (endTagText (js "H1") ++
            ([0x0A] ++ (tagText (js "DL") [] ++ (tagText (js "p") [] ++ ([0x0A] ++ rest)))))))))))))))) := by
    rw [HEAD, js_of_characters rfl, js_of_characters rfl]
    rfl
  have hmeta : toLowerCase (js "META") = js "meta" := (hlower _ (by decide)).trans (by decide)
  have htitle : toLowerCase (js "TITLE") = js "title" := (hlower _ (by decide)).trans (by decide)
  have hheading : toLowerCase (js "H1") = js "h1" := (hlower _ (by decide)).trans (by decide)
  have hlist : toLowerCase (js "DL") = js "dl" := (hlower _ (by decide)).trans (by decide)
  -- the declaration
  have hdeclared : ∀ behind, readOn toLowerCase {} ([] ++ 0x3C :: 0x21 :: (js "DOCTYPE NETSCAPE-Bookmark-file-1" ++
      0x3E :: behind)) = readOn toLowerCase (idle [] []) behind := by
    intro behind
    have hbody : ∀ v ∈ js "DOCTYPE NETSCAPE-Bookmark-file-1", v ≠ 0x3E := by
      have hall : ((js "DOCTYPE NETSCAPE-Bookmark-file-1").all fun v => v != 0x3E) = true := by decide
      exact fun v hv => bne_iff_ne.mp (List.all_eq_true.mp hall v hv)
    rw [readOn, piecesOf_declaration plain_nil hbody rfl]
    rfl
  -- the title, whose content is text
  have htitled : ∀ behind, readOn toLowerCase (idle [] []) ([0x0A] ++ 0x3C :: (js "TITLE" ++
      (([] : Attributes).flatMap attributeText ++ 0x3E :: (js "Bookmarks" ++ (endTagText (js "TITLE") ++ behind))))) =
        readOn toLowerCase (idle [] []) behind := by
    intro behind
    have hopened : openedBy (markupRuntime toLowerCase) KEPT_ATTRIBUTES (js "TITLE" ++
        (([] : Attributes).flatMap attributeText ++ 0x3E :: (js "Bookmarks" ++ (endTagText (js "TITLE") ++ behind)))) =
          .piece (.start ⟨toLowerCase (js "TITLE"), []⟩) (js "Bookmarks" ++ (endTagText (js "TITLE") ++ behind)) :=
      openedBy_tag (by decide) (by simp) (by simp)
    rw [htitle] at hopened
    have hclosing : afterPiece (.start ⟨js "title", []⟩) (js "Bookmarks" ++ (endTagText (js "TITLE") ++ behind)) =
        some (endTagText (js "TITLE") ++ behind) := rfl
    rw [readOn, piecesOf_opened plain_lineBreak hopened hclosing]
    show readOn toLowerCase (idle [] []) ([] ++ (endTagText (js "TITLE") ++ behind)) = _
    rw [readOn_endTag plain_nil (by decide), htitle]
    rfl
  -- the line that names the encoding
  have hnames : ∀ a ∈ ([(js "HTTP-EQUIV", js "Content-Type"), (js "CONTENT", js "text/html; charset=UTF-8")] : Attributes),
      isName a.1 = true := by
    have hall : (([(js "HTTP-EQUIV", js "Content-Type"), (js "CONTENT", js "text/html; charset=UTF-8")] : Attributes).all
        fun a => isName a.1) = true := by decide
    exact List.all_eq_true.mp hall
  have hvalues : ∀ a ∈ ([(js "HTTP-EQUIV", js "Content-Type"), (js "CONTENT", js "text/html; charset=UTF-8")] : Attributes),
      ∀ v ∈ a.2, v ≠ 0x22 := by
    have hall : (([(js "HTTP-EQUIV", js "Content-Type"), (js "CONTENT", js "text/html; charset=UTF-8")] : Attributes).all
        fun a => a.2.all fun v => v != 0x22) = true := by decide
    exact fun a ha v hv => bne_iff_ne.mp (List.all_eq_true.mp (List.all_eq_true.mp hall a ha) v hv)
  rw [hhead, hdeclared, readOn_tag plain_lineBreak (by decide) hnames hvalues (by rw [hmeta]; decide), hmeta]
  show readOn toLowerCase (idle [] []) _ = _
  rw [htitled, readOn_tag plain_lineBreak (by decide) (by simp) (by simp) (by rw [hheading]; decide), hheading]
  show readOn toLowerCase (idle [] []) _ = _
  rw [readOn_endTag (plain_js (by decide)) (by decide), hheading]
  show readOn toLowerCase (idle [] []) _ = _
  rw [readOn_tag plain_lineBreak (by decide) (by simp) (by simp) (by rw [hlist]; decide), hlist]
  show readOn toLowerCase (idle [none] []) ([] ++ (tagText (js "p") [] ++ ([0x0A] ++ rest))) = _
  exact readOn_p hlower plain_nil

omit hlower in
theorem readOn_end {w : Walk} (hw : w.collecting = none) {text : JsString} (htext : Plain text) :
    readOn toLowerCase w text = some w := by
  rw [readOn, piecesOf_end htext]
  show (w.step (markupRuntime toLowerCase) ⟨text, none⟩).bind _ = _
  rw [Walk.step]
  dsimp only
  rw [Walk.read, hw]
  rfl

theorem readOn_fileEnd (hlead : Plain lead) :
    readOn toLowerCase (idle [none] bookmarks) (lead ++ fileEnd) = some (idle [] bookmarks) := by
  have hend : fileEnd = endTagText (js "DL") ++ (tagText (js "p") [] ++ [0x0A]) := by decide
  rw [hend, readOn_endList hlower hlead, ← List.nil_append (tagText (js "p") _ ++ _), readOn_p hlower plain_nil]
  exact readOn_end rfl plain_lineBreak

end

/-! ## The whole file -/

/-- The texts that are written are those of bookmarks and folders. -/
structure Writable (library : Library) (ask : ExportStreamAsk) : Prop where
  links : ∀ row ∈ topLinks library ask, Fits row
  sections : ∀ folder ∈ library.sections.rows, SectionFits library folder

/-- What the links of the file are read as, in its order. -/
def linksRead (library : Library) (ask : ExportStreamAsk) : List ImportFileBookmark :=
  (topLinks library ask).map (readBack none) ++ sectionsRead library library.sections.rows

variable {library : Library} {ask : ExportStreamAsk}

theorem noNul_js {text : String} (h : ((js text).all fun v => v != 0) = true) : 0 ∉ js text := fun hv =>
  bne_iff_ne.mp (List.all_eq_true.mp h 0 hv) rfl

theorem noNul_escapeHtml {text : JsString} (h : 0 ∉ text) : 0 ∉ escapeHtml text := fun hv =>
  h ((mem_escapeHtml hv).2.2.2 rfl)

theorem noNul_append {a b : JsString} (ha : 0 ∉ a) (hb : 0 ∉ b) : 0 ∉ a ++ b := fun h =>
  (List.mem_append.mp h).elim ha hb

theorem noNul_intercalate {tags : List JsString} (h : ∀ tag ∈ tags, 0 ∉ tag) : 0 ∉ [0x2C].intercalate tags := by
  induction tags with
  | nil => exact List.not_mem_nil
  | cons tag tags ih =>
    have hrest := ih fun other hother => h other (List.mem_cons_of_mem tag hother)
    cases tags with
    | nil =>
      rw [List.intercalate_singleton]
      exact h tag List.mem_cons_self
    | cons next tags =>
      rw [List.intercalate_cons_cons]
      exact noNul_append (noNul_append (h tag List.mem_cons_self) (by decide)) hrest

theorem noNul_link {row : NetscapeBookmarkRow} (h : Fits row) {indent : JsString} (hindent : 0 ∉ indent) :
    0 ∉ link row indent := by
  obtain ⟨hurl, htitle, hslug, htags⟩ := h.noNul
  unfold link
  refine noNul_append (noNul_append (noNul_append (noNul_append (noNul_append (noNul_append (noNul_append
    (noNul_append hindent (noNul_js (by decide))) (noNul_escapeHtml hurl)) (noNul_js (by decide))) ?_) ?_)
      (noNul_js (by decide))) (noNul_escapeHtml htitle)) (noNul_js (by decide))
  · cases hrow : row.slug with
    | none => exact List.not_mem_nil
    | some slug =>
      exact noNul_append (noNul_append (noNul_js (by decide)) (noNul_escapeHtml (hslug slug hrow)))
        (noNul_js (by decide))
  · by_cases hnone : row.tags.length = 0
    · rw [if_pos hnone]
      exact List.not_mem_nil
    · rw [if_neg hnone]
      exact noNul_append (noNul_append (noNul_js (by decide)) (noNul_escapeHtml (noNul_intercalate htags)))
        (noNul_js (by decide))

theorem noNul_sectionText {folder : NetscapeSectionRow} (h : SectionFits library folder) :
    0 ∉ sectionText library folder := by
  unfold sectionText sectionHead sectionEnd
  refine noNul_append (noNul_append (noNul_append (noNul_append (noNul_js (by decide)) (noNul_escapeHtml h.noNul))
    (noNul_js (by decide))) ?_) (noNul_js (by decide))
  intro hmem
  obtain ⟨row, hrow, hmem⟩ := List.mem_flatMap.mp hmem
  exact noNul_link (h.links row hrow) (noNul_js (by decide)) hmem

theorem noNul_written (h : Writable library ask) : 0 ∉ written library ask := by
  intro hmem
  unfold written at hmem
  rcases List.mem_append.mp hmem with hmem | hmem
  · rcases List.mem_append.mp hmem with hmem | hmem
    · rcases List.mem_append.mp hmem with hmem | hmem
      · exact noNul_append (noNul_js (by rw [js_of_characters rfl]; decide)) (noNul_js (by rw [js_of_characters rfl]; decide))
          hmem
      · obtain ⟨row, hrow, hmem⟩ := List.mem_flatMap.mp hmem
        exact noNul_link (h.links row hrow) (noNul_js (by decide)) hmem
    · obtain ⟨folder, hfolder, hmem⟩ := List.mem_flatMap.mp hmem
      exact noNul_sectionText (h.sections folder hfolder) hmem
  · exact noNul_js (by decide) hmem

/-- The walk over the file. -/
theorem readOn_written (hlower : LowersAscii toLowerCase) (h : Writable library ask) :
    readOn toLowerCase {} (written library ask) =
      if (linksRead library ask).length ≤ importMaxBookmarks then some (idle [] (linksRead library ask)) else none := by
  obtain ⟨lead, hlead, htop⟩ := readOn_links hlower [none] []
    (library.sections.rows.flatMap (sectionText library) ++ fileEnd) h.links (js "    ") (plain_js (by decide))
    (Nat.zero_le _) plain_lineBreak
  have hlength : (linksRead library ask).length =
      (topLinks library ask).length + (sectionsRead library library.sections.rows).length := by
    rw [linksRead, List.length_append, List.length_map]
  rw [written, List.append_assoc, List.append_assoc, readOn_head hlower, htop, hlength, List.length_nil, Nat.zero_add,
    List.nil_append]
  show (if _ then readOn toLowerCase (idle [none] ((topLinks library ask).map (readBack none))) _ else none) = _
  by_cases hroom : (topLinks library ask).length ≤ importMaxBookmarks
  · have htopRoom : ((topLinks library ask).map (readBack none)).length ≤ importMaxBookmarks := by
      rw [List.length_map]
      exact hroom
    obtain ⟨lead', hlead', hsections⟩ := readOn_sections hlower fileEnd h.sections htopRoom hlead
    rw [if_pos hroom, hsections, readOn_fileEnd hlower hlead', List.length_map]
    rfl
  · rw [if_neg hroom, if_neg (by omega)]

theorem parse_written (hlower : LowersAscii toLowerCase) (h : Writable library ask) :
    parseNetscapeBookmarks (markupRuntime toLowerCase) (written library ask) =
      if (linksRead library ask).length ≤ importMaxBookmarks then .parsed (linksRead library ask) else .tooMany := by
  have hfilter : (written library ask).filter (· != 0) = written library ask :=
    List.filter_eq_self.mpr fun v hv => bne_iff_ne.mpr fun h0 => noNul_written h (h0 ▸ hv)
  have hread : walk (markupRuntime toLowerCase) {} (piecesOf (markupRuntime toLowerCase) (written library ask)) =
      if (linksRead library ask).length ≤ importMaxBookmarks then some (idle [] (linksRead library ask)) else none :=
    readOn_written hlower h
  rw [parseNetscapeBookmarks, hfilter, hread]
  split_ifs
  · rfl
  · rfl

/-- **The export is read back**: with pages of any size the pieces of the file are there, and the reader finds every link
of the file once, in order, with its address and with its title, folder and tags; a file of more links than an import may
have is refused whole. -/
theorem export_readBack (toLowerCase : JsString → JsString) (hlower : LowersAscii toLowerCase) (library : Library)
    (ask : ExportStreamAsk) (h : Writable library ask) (pageSize : ℕ) (hpos : 0 < pageSize) :
    ∃ file, Loop.Answers (pieces library ask pageSize) library.rows file ∧
      parseNetscapeBookmarks (markupRuntime toLowerCase) file.flatten =
        if (linksRead library ask).length ≤ importMaxBookmarks then .parsed (linksRead library ask) else .tooMany := by
  obtain ⟨file, hfile, htext⟩ := pieces_answers library ask hpos
  exact ⟨file, hfile, htext ▸ parse_written hlower h⟩

theorem lowersAscii_map : LowersAscii (List.map asciiLower) := fun _ _ => rfl

/-- A bookmark whose texts look like markup. -/
def looksLikeMarkup : NetscapeBookmarkRow :=
  ⟨2, js "https://a.b/?c=1&lt=2", js " <b>&amp;</A> ", some (js "c\""), [js "d'", js "e"]⟩

/-- A folder with one bookmark. -/
def oneFiled : Library where
  unfiled := ⟨[], List.Pairwise.nil⟩
  shared := ⟨[], List.Pairwise.nil⟩
  sections := ⟨[⟨1, js "f & g"⟩], List.pairwise_singleton _ _⟩
  filed _ := ⟨[looksLikeMarkup], List.pairwise_singleton _ _⟩

theorem fits_looksLikeMarkup : Fits looksLikeMarkup where
  noNul := by
    refine ⟨by decide, by decide, fun slug hslug => ?_, by decide⟩
    obtain rfl := Option.some.inj hslug
    decide
  title := by decide
  tags := by decide

theorem writable_oneFiled : Writable oneFiled ⟨false, none⟩ where
  links := fun _ hrow => absurd hrow List.not_mem_nil
  sections := by
    intro folder hfolder
    obtain rfl := List.mem_singleton.mp hfolder
    refine ⟨by decide, by decide, fun row hrow => ?_⟩
    obtain rfl := List.mem_singleton.mp hrow
    exact fits_looksLikeMarkup

theorem export_readBack_oneFiled : ∃ file, Loop.Answers (pieces oneFiled ⟨false, none⟩ 1) oneFiled.rows file ∧
    parseNetscapeBookmarks (markupRuntime (List.map asciiLower)) file.flatten = .parsed
      [{ url := js "https://a.b/?c=1&lt=2", title := some (js "<b>&amp;</A>"), folders := some [js "f & g"],
         tags := some [js "d'", js "e"] }] := by
  obtain ⟨file, hfile, hparsed⟩ :=
    export_readBack _ lowersAscii_map oneFiled ⟨false, none⟩ writable_oneFiled 1 Nat.one_pos
  have hread : linksRead oneFiled ⟨false, none⟩ =
      [{ url := js "https://a.b/?c=1&lt=2", title := some (js "<b>&amp;</A>"), folders := some [js "f & g"],
         tags := some [js "d'", js "e"] }] := by
    decide +kernel
  rw [hread] at hparsed
  exact ⟨file, hfile, hparsed.trans (if_pos (by decide))⟩

/-! ## A name that is not read back as it was -/

/-- The links with their folders and tags as they were. -/
def linksAsTheyWere (library : Library) (ask : ExportStreamAsk) : List ImportFileBookmark :=
  (topLinks library ask).map (asItWas none) ++ library.sections.rows.flatMap fun folder =>
    (library.filed folder.id).rows.map (asItWas (some folder.name))
where
  asItWas (folder : Option JsString) (row : NetscapeBookmarkRow) : ImportFileBookmark :=
    { url := row.url, title := some (collapsed row.title), folders := some folder.toList, tags := some row.tags }

/-- A bookmark in no folder, with two spaces in its tag. -/
def twoSpaces : Library where
  unfiled := ⟨[⟨1, js "https://a.b/", js "c", none, [js "d  e"]⟩], List.pairwise_singleton _ _⟩
  shared := ⟨[], List.Pairwise.nil⟩
  sections := ⟨[], List.Pairwise.nil⟩
  filed _ := ⟨[], List.Pairwise.nil⟩

theorem writable_twoSpaces : Writable twoSpaces ⟨false, none⟩ where
  links := by
    intro row hrow
    obtain rfl := List.mem_singleton.mp hrow
    exact ⟨⟨by decide, by decide, fun _ hslug => (nomatch hslug), by decide⟩, by decide, by decide⟩
  sections := fun _ hfolder => absurd hfolder List.not_mem_nil

/-- Tags are not always read back as they were. -/
theorem twoSpaces_notAsTheyWere :
    ¬ ∀ (toLowerCase : JsString → JsString) (library : Library) (ask : ExportStreamAsk) (pageSize : ℕ),
      LowersAscii toLowerCase → Writable library ask → 0 < pageSize →
        ∃ file, Loop.Answers (pieces library ask pageSize) library.rows file ∧
          parseNetscapeBookmarks (markupRuntime toLowerCase) file.flatten = .parsed (linksAsTheyWere library ask) := by
  intro hall
  obtain ⟨file, hfile, hparsed⟩ := hall _ twoSpaces ⟨false, none⟩ 1 lowersAscii_map writable_twoSpaces Nat.one_pos
  obtain ⟨file', hfile', htext⟩ := pieces_answers twoSpaces ⟨false, none⟩ Nat.one_pos
  have hsame := (hfile _ (Nat.lt_succ_self _)).symm.trans (hfile' _ (Nat.lt_succ_self _))
  obtain rfl : file = file' := Option.some.inj hsame
  rw [htext, parse_written lowersAscii_map writable_twoSpaces] at hparsed
  revert hparsed
  decide +kernel

end SlugBase.Export
