import SlugBase.Import.Netscape
import SlugBase.Page.Metadata
import SlugBase.Page.Suffix

/-!
# The reader of bookmark files by positions

The loop of the reader over the positions of the text, and that no text keeps a reader of markup going.

* `FileCursor`, `fileTurn`, `parseNetscapeBookmarks`: the loop of the source;
* **`walks_file`**, **`parseNetscapeBookmarks_answers`**: every turn passes the piece it has read, and it ends;
* **`parseNetscapeBookmarks_eq`**: it answers as the reader of what is left of the text does;
* `Progress`, **`scanner_progress`**: what holds of the scanner and of both walks on a text.
-/

namespace SlugBase.Page

open JavaScript Import

variable (rt : MarkupRuntime)

/-! ## The loop -/

/-- Where the reader stands, and what it has read. -/
structure FileCursor where
  cursor : ℕ := 0
  walk : Walk := {}

/-- A start tag behind which the cursor stands. -/
def fileTagTurn (text : JsString) (s : FileCursor) (tag : StartTag) : Loop.Turn FileCursor NetscapeFile :=
  if rawTextElements.contains tag.name || tag.name == js "title" then
    match rawTextEnd text tag.name s.cursor with
    | none => .done (.parsed (s.walk.finish rt).bookmarks)
    | some closing => .again { s with cursor := closing }
  else
    match s.walk.openTag rt ⟨tag.name, tag.attributes⟩ with
    | none => .done .tooMany
    | some walk => .again { s with walk := walk }

/-- What the reader does at a piece of markup. -/
def filePieceTurn (text : JsString) (s : FileCursor) (token : MarkupToken) : Loop.Turn FileCursor NetscapeFile :=
  let walk := s.walk.read (slice text s.cursor token.start)
  match token with
  | .eof _ => .done (.parsed (walk.finish rt).bookmarks)
  | .other _ stop => .again ⟨stop, walk⟩
  | .endTag _ stop name => .again ⟨stop, walk.close rt name⟩
  | .startTag _ stop tag => fileTagTurn rt text ⟨stop, walk⟩ tag

/-- One turn of the reader. -/
def fileTurn (fuel : ℕ) (text : JsString) (s : FileCursor) : Option (Loop.Turn FileCursor NetscapeFile) :=
  (nextMarkup rt KEPT_ATTRIBUTES fuel text s.cursor).map (filePieceTurn rt text s)

/-- `parseNetscapeBookmarks` of the text of a file. -/
def parseNetscapeBookmarks (fuel : ℕ) (text : JsString) : Option NetscapeFile :=
  Loop.run (fileTurn rt fuel (text.filter (· != 0))) fuel {}

/-! ## The loop goes on and ends -/

variable {rt} in
/-- Behind a tag the cursor goes on, or past the content of its element. -/
theorem fileTagTurn_again {text : JsString} {s s' : FileCursor} {tag : StartTag} (hs : s.cursor ≤ text.length)
    (h : fileTagTurn rt text s tag = .again s') : s.cursor ≤ s'.cursor ∧ s'.cursor ≤ text.length := by
  unfold fileTagTurn at h
  by_cases hraw : (rawTextElements.contains tag.name || tag.name == js "title") = true
  · rw [if_pos hraw] at h
    split at h
    · cases h
    · rename_i closing hclosing
      cases h
      exact ⟨(rawTextEnd_some hclosing).1, (rawTextEnd_some hclosing).2.le⟩
  · rw [if_neg hraw] at h
    split at h
    · cases h
    · cases h
      exact ⟨le_rfl, hs⟩

/-- The reader of a file walks over its markup. -/
theorem walks_file (text : JsString) :
    Walks rt KEPT_ATTRIBUTES text FileCursor.cursor fun fuel s => fileTurn rt fuel text s := by
  refine ⟨fun fuel s s' hturn => ?_, fun s => ?_⟩
  · obtain ⟨token, htoken, hnext⟩ := Option.map_eq_some_iff.mp hturn
    have hplaced := nextMarkup_placed htoken
    refine ⟨token, ?_⟩
    cases token with
    | startTag start stop tag =>
      have hmoved := fileTagTurn_again hplaced.2.2 hnext
      exact ⟨stop, htoken, rfl, hmoved.1, hmoved.2⟩
    | endTag start stop name =>
      cases hnext
      exact ⟨stop, htoken, rfl, le_rfl, hplaced.2.2⟩
    | other start stop =>
      cases hnext
      exact ⟨stop, htoken, rfl, le_rfl, hplaced.2.2⟩
    | eof start => cases hnext
  · obtain ⟨token, htoken⟩ := nextMarkup_answers rt KEPT_ATTRIBUTES text s.cursor
    refine ⟨filePieceTurn rt text s token, fun fuel hfuel => ?_⟩
    have hfound : nextMarkup rt KEPT_ATTRIBUTES fuel text s.cursor = some token := htoken fuel hfuel
    show fileTurn rt fuel text s = _
    rw [fileTurn, hfound, Option.map_some]

/-- **The reader of a file ends.** -/
theorem parseNetscapeBookmarks_answers (text : JsString) :
    ∃ file, Loop.Answers (fun fuel => parseNetscapeBookmarks rt fuel text) text.length file := by
  obtain ⟨file, hfile⟩ := (walks_file rt (text.filter (· != 0))).answers {}
  exact ⟨file, fun fuel hfuel => hfile fuel ((List.length_filter_le _ _).trans_lt hfuel)⟩

/-! ## The reader of what is left -/

/-- What the reader answers at the end of a walk. -/
def fileOf (rt : MarkupRuntime) : Option Walk → NetscapeFile
  | none => .tooMany
  | some walk => .parsed (walk.finish rt).bookmarks

section

variable {rt : MarkupRuntime} {text : JsString} {fuel : ℕ}

/-- **The reader by positions walks over the pieces of what is left.** -/
theorem fileOf_walk (hfuel : text.length < fuel) {turns : ℕ} {s : FileCursor} {file : NetscapeFile}
    (h : Loop.run (fileTurn rt fuel text) turns s = some file) :
    fileOf rt (walk rt s.walk (pieces rt turns (text.drop s.cursor))) = file := by
  induction turns generalizing s with
  | zero => cases h
  | succ turns ih =>
    rw [Loop.run] at h
    unfold fileTurn at h
    cases htoken : nextMarkup rt KEPT_ATTRIBUTES fuel text s.cursor with
    | none =>
      rw [htoken] at h
      cases h
    | some token =>
      rw [htoken, Option.map_some] at h
      rw [pieces, nextMarkup_drop hfuel htoken]
      cases token with
      | eof start =>
        obtain rfl := Option.some.inj h
        rfl
      | other start stop => exact ih h
      | endTag start stop name => exact ih h
      | startTag start stop tag =>
        dsimp only [filePieceTurn, MarkupToken.piece, MarkupToken.start, afterPiece] at h ⊢
        unfold fileTagTurn at h
        by_cases hraw : (rawTextElements.contains tag.name || tag.name == js "title") = true
        · have hpiece : (Markup.start ⟨tag.name, tag.attributes⟩).isRawText = true := hraw
          have hstep : ∀ w : Walk, w.openTag rt ⟨tag.name, tag.attributes⟩ = some w := fun w => by
            rw [Walk.openTag, hpiece]
            rfl
          rw [if_pos hraw] at h
          rw [if_pos hpiece, rawTextEnd_drop]
          cases hclosing : rawTextEnd text tag.name stop with
          | none =>
            rw [hclosing] at h
            obtain rfl := Option.some.inj h
            show fileOf rt (((s.walk.read (slice text s.cursor start)).openTag rt ⟨tag.name, tag.attributes⟩).bind
              fun w => walk rt w []) = _
            rw [hstep]
            rfl
          | some closing =>
            rw [hclosing] at h
            show fileOf rt (((s.walk.read (slice text s.cursor start)).openTag rt ⟨tag.name, tag.attributes⟩).bind
              fun w => walk rt w (pieces rt turns (text.drop closing))) = _
            rw [hstep]
            exact ih h
        · have hpiece : ¬(Markup.start ⟨tag.name, tag.attributes⟩).isRawText = true := hraw
          rw [if_neg hraw] at h
          rw [if_neg hpiece]
          show fileOf rt (((s.walk.read (slice text s.cursor start)).openTag rt ⟨tag.name, tag.attributes⟩).bind
            fun w => walk rt w (pieces rt turns (text.drop stop))) = _
          cases hopen : (s.walk.read (slice text s.cursor start)).openTag rt ⟨tag.name, tag.attributes⟩ with
          | none =>
            rw [hopen] at h
            obtain rfl := Option.some.inj h
            rfl
          | some w =>
            rw [hopen] at h
            exact ih h

/-- **Both readers of a file answer the same.** -/
theorem parseNetscapeBookmarks_eq (rt : MarkupRuntime) (text : JsString) :
    Loop.Answers (fun fuel => parseNetscapeBookmarks rt fuel text) text.length
      (Import.parseNetscapeBookmarks rt text) := by
  intro fuel hfuel
  obtain ⟨file, hfile⟩ := parseNetscapeBookmarks_answers rt text
  have hanswer : parseNetscapeBookmarks rt fuel text = some file := hfile fuel hfuel
  have hless : (text.filter (· != 0)).length < fuel := (List.length_filter_le _ _).trans_lt hfuel
  have hwalk := fileOf_walk hless hanswer
  have hpieces : pieces rt fuel (text.filter (· != 0)) = piecesOf rt (text.filter (· != 0)) :=
    pieces_fuel rt hless (Nat.lt_succ_self _)
  rw [List.drop_zero, hpieces] at hwalk
  show parseNetscapeBookmarks rt fuel text = _
  rw [hanswer, ← hwalk, Import.parseNetscapeBookmarks]
  cases walk rt {} (piecesOf rt (text.filter (· != 0))) with
  | none => rfl
  | some w => rfl

end

/-! ## Every text -/

/-- The pieces that `walkPage` finds, one after the other. -/
def pageTokens (rt : PageRuntime) (url : JsString) (fuel : ℕ) (text : JsString) : List MarkupToken :=
  found rt.toMarkupRuntime KEPT_PAGE_ATTRIBUTES (text.filter (· != 0)) PageCursor.cursor
    (fun fuel s => walkTurn rt url fuel (text.filter (· != 0)) s) fuel {}

/-- The pieces that `parseNetscapeBookmarks` finds, one after the other. -/
def fileTokens (fuel : ℕ) (text : JsString) : List MarkupToken :=
  found rt KEPT_ATTRIBUTES (text.filter (· != 0)) FileCursor.cursor
    (fun fuel s => fileTurn rt fuel (text.filter (· != 0)) s) fuel {}

/-- What no text changes. Each answer is there with any number of turns above the length of the text. -/
structure Progress (rt : PageRuntime) (text : JsString) : Prop where
  /-- The search from a cursor ends, in the text, at or after the cursor, with a piece that ends behind its start. -/
  piece : ∀ keep cursor, ∃ token, Placed text cursor token ∧
    Loop.Answers (fun fuel => nextMarkup rt.toMarkupRuntime keep fuel text cursor) text.length token
  /-- The reading of a start tag ends, in the text and behind the first character of its name. -/
  tag : ∀ keep start, ∃ answer : Option StartTag, (∀ tag ∈ answer, start + 1 < tag.stop ∧ tag.stop ≤ text.length) ∧
    Loop.Answers (fun fuel => readStartTag rt.toMarkupRuntime keep fuel text start) text.length answer
  /-- What is looked for behind a piece starts behind it. -/
  apart : ∀ keep keep' fuel fuel' cursor start first second stop,
    nextMarkup rt.toMarkupRuntime keep fuel text cursor = some first → first.stop = some stop → stop ≤ start →
      nextMarkup rt.toMarkupRuntime keep' fuel' text start = some second → stop ≤ second.start
  /-- The walk over a page ends, and its pieces are disjoint. -/
  page : ∀ url, (∃ result, Loop.Answers (fun fuel => walkPage rt url fuel text) text.length result) ∧
    ∀ fuel, (pageTokens rt url fuel text).Pairwise fun a b => ∀ stop, a.stop = some stop → stop ≤ b.start
  /-- The reader of a file ends, and its pieces are disjoint. -/
  file : (∃ file, Loop.Answers (fun fuel => parseNetscapeBookmarks rt.toMarkupRuntime fuel text) text.length file) ∧
    ∀ fuel, (fileTokens rt.toMarkupRuntime fuel text).Pairwise fun a b => ∀ stop, a.stop = some stop → stop ≤ b.start

/-- **On every text the scanner makes progress and both walks end.** -/
theorem scanner_progress (rt : PageRuntime) (text : JsString) : Progress rt text where
  piece keep cursor := by
    obtain ⟨token, htoken⟩ := nextMarkup_answers rt.toMarkupRuntime keep text cursor
    exact ⟨token, nextMarkup_placed (htoken _ (Nat.lt_succ_self _)), htoken⟩
  tag keep start := by
    obtain ⟨answer, hanswer⟩ := readStartTag_answers rt.toMarkupRuntime keep text start
    refine ⟨answer, fun tag htag => ?_, hanswer⟩
    have hread := hanswer _ (Nat.lt_succ_self _)
    rw [Option.mem_def.mp htag] at hread
    exact readStartTag_placed hread
  apart keep keep' fuel fuel' cursor start first second stop hfirst hstop hstart hsecond :=
    nextMarkup_behind hfirst hstop hstart hsecond
  page url := ⟨walkPage_answers rt url text, fun fuel => (walks_page rt url (text.filter (· != 0))).apart fuel {}⟩
  file := ⟨parseNetscapeBookmarks_answers rt.toMarkupRuntime text, fun fuel =>
    (walks_file rt.toMarkupRuntime (text.filter (· != 0))).apart fuel {}⟩

end SlugBase.Page
