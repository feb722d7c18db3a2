import SlugBase.Import.Markup
import SlugBase.Lib.Loop

/-!
# The scanner of pages

The scanner that every parser of untrusted HTML shares, by positions: a cursor moves over the text.

* `readStartTag`, `nextMarkup`, `rawTextEnd`: the loops of the source, each given a number of turns;
* `Placed`: where a piece of markup stands;
* **`nextMarkup_placed`**, **`nextMarkup_answers`**: a piece lies in the text, not before the cursor, and the loops end;
* `Walks`: what a walk over the pieces keeps to;
* **`Walks.answers`**, **`Walks.apart`**: a walk ends, and its pieces are disjoint.

An index beyond the text reads nothing.
-/

namespace SlugBase.Page

open JavaScript Import

/-! ## Positions -/

/-- `slice`. -/
def slice (text : JsString) (start stop : ℕ) : JsString := (text.take stop).drop start

/-- `startsWith`. -/
def startsWith (text pattern : JsString) (position : ℕ) : Bool := pattern.isPrefixOf (text.drop position)

/-- `indexOf`, none for -1. -/
def indexOf (text pattern : JsString) (start : ℕ) : Option ℕ :=
  (List.range' start (text.length - start)).find? fun position => startsWith text pattern position

/-- `while (cursor < length && p(text.charCodeAt(cursor))) cursor += 1`. -/
def skipWhile (p : UInt16 → Bool) (text : JsString) (cursor : ℕ) : ℕ :=
  cursor + ((text.drop cursor).takeWhile p).length

/-! ## Start tags -/

/-- A start tag. -/
structure StartTag where
  name : JsString
  attributes : Attributes
  /-- Where the tag ends, behind its `>`. -/
  stop : ℕ
  selfClosing : Bool
deriving DecidableEq

variable (rt : MarkupRuntime)

/-- The value behind the name of an attribute, and where the cursor is then; none when its quote is never closed. -/
def attributeValue (text : JsString) (cursor : ℕ) : Option (JsString × ℕ) :=
  let ahead := skipWhile isMarkupSpace text cursor
  if text[ahead]? = some 0x3D then
    let ahead := skipWhile isMarkupSpace text (ahead + 1)
    if text[ahead]? = some 0x22 ∨ text[ahead]? = some 0x27 then
      (indexOf text (slice text ahead (ahead + 1)) (ahead + 1)).map fun close =>
        (slice text (ahead + 1) close, close + 1)
    else
      let stop := skipWhile (fun u => !isMarkupSpace u && u != 0x3E) text ahead
      some (slice text ahead stop, stop)
  else some ([], cursor)

/-- What the loop of `readStartTag` goes on with. -/
structure TagState where
  cursor : ℕ
  attributes : Attributes

/-- One attribute, or the end of the tag; the tag is none when the text ends in it. -/
def readAttribute (text name : JsString) (collect : Bool) (s : TagState) : Loop.Turn TagState (Option StartTag) :=
  let cursor := skipWhile (fun u => isMarkupSpace u || u == 0x2F) text s.cursor
  let selfClosing := (slice text s.cursor cursor).getLast? == some 0x2F
  match text[cursor]? with
  | none => .done none
  | some u =>
    if u = 0x3E then .done (some ⟨name, s.attributes, cursor + 1, selfClosing⟩)
    else
      let nameEnd := skipWhile (fun u => !(isMarkupSpace u || u == 0x2F || u == 0x3E || u == 0x3D)) text (cursor + 1)
      let attributeName := rt.toLowerCase (slice text cursor nameEnd)
      match attributeValue text nameEnd with
      | none => .done none
      | some (value, next) =>
        if collect && decide (s.attributes.length < maxAttributes) && (s.attributes.get attributeName).isNone then
          .again ⟨next, s.attributes ++ [(attributeName, value)]⟩
        else .again ⟨next, s.attributes⟩

/-- `readStartTag`. -/
def readStartTag (keep : List JsString) (fuel : ℕ) (text : JsString) (start : ℕ) : Option (Option StartTag) :=
  let cursor := skipWhile (fun u => !isMarkupSpace u && u != 0x2F && u != 0x3E) text (start + 1)
  let name := rt.toLowerCase (slice text (start + 1) cursor)
  Loop.run (fun s => some (readAttribute rt text name (keep.contains name) s)) fuel ⟨cursor, []⟩

/-! ## Markup -/

/-- A piece of markup and where it stands; `eof` is where the text ends. -/
inductive MarkupToken
  | startTag (start stop : ℕ) (tag : StartTag)
  | endTag (start stop : ℕ) (name : JsString)
  | other (start stop : ℕ)
  | eof (start : ℕ)
deriving DecidableEq

def MarkupToken.start : MarkupToken → ℕ
  | .startTag start _ _ | .endTag start _ _ | .other start _ | .eof start => start

/-- Where a piece ends; none for the end of the text. -/
def MarkupToken.stop : MarkupToken → Option ℕ
  | .startTag _ stop _ | .endTag _ stop _ | .other _ stop => some stop
  | .eof _ => none

/-- A comment whose less-than sign stands at `opening`. -/
def commentToken (text : JsString) (opening : ℕ) : MarkupToken :=
  if startsWith text (js ">") (opening + 4) then .other opening (opening + 5)
  else if startsWith text (js "->") (opening + 4) then .other opening (opening + 6)
  else
    match indexOf text (js "-->") (opening + 4) with
    | none => .eof opening
    | some close => .other opening (close + 3)

/-- A declaration, a processing instruction or an end tag; `next` is its second character. -/
def closedToken (text : JsString) (opening : ℕ) (next : UInt16) : MarkupToken :=
  match indexOf text (js ">") (opening + 2) with
  | none => .eof opening
  | some close =>
    if next ≠ 0x2F then .other opening (close + 1)
    else
      let nameEnd := min close (skipWhile (fun u => !isMarkupSpace u && u != 0x2F) text (opening + 2))
      .endTag opening (close + 1) (rt.toLowerCase (slice text (opening + 2) nameEnd))

/-- One less-than sign: markup, or text to go on behind. -/
def markupAt (keep : List JsString) (fuel : ℕ) (text : JsString) (start : ℕ) : Option (Loop.Turn ℕ MarkupToken) :=
  match indexOf text (js "<") start with
  | none => some (.done (.eof text.length))
  | some opening =>
    match text[opening + 1]? with
    | none => some (.again (opening + 1))
    | some next =>
      if next = 0x21 ∧ startsWith text (js "--") (opening + 2) = true then some (.done (commentToken text opening))
      else if next = 0x21 ∨ next = 0x3F ∨ next = 0x2F then some (.done (closedToken rt text opening next))
      else if !isLetter next then some (.again (opening + 1))
      else
        (readStartTag rt keep fuel text opening).map fun tag =>
          match tag with
          | none => .done (.eof opening)
          | some tag => .done (.startTag opening tag.stop tag)

/-- `nextMarkup`. -/
def nextMarkup (keep : List JsString) (fuel : ℕ) (text : JsString) (cursor : ℕ) : Option MarkupToken :=
  Loop.run (markupAt rt keep fuel text) fuel cursor

/-- `rawTextEnd`, none for -1. -/
def rawTextEnd (text name : JsString) (start : ℕ) : Option ℕ :=
  (List.range' start (text.length - start)).find? fun position =>
    hasPrefix (js "</" ++ name) (text.drop position) &&
      text[position + name.length + 2]?.any fun u => isSpace u || u == 0x2F || u == 0x3E

/-- **Where a piece of markup stands** that was looked for from the cursor on. -/
def Placed (text : JsString) (cursor : ℕ) : MarkupToken → Prop
  | .startTag start stop _ | .endTag start stop _ | .other start stop =>
    cursor ≤ start ∧ start < stop ∧ stop ≤ text.length
  | .eof start => min cursor text.length ≤ start ∧ start ≤ text.length

/-! ## Where the cursor goes -/

section

variable {rt} {text pattern : JsString} {cursor start position : ℕ} {p : UInt16 → Bool}

theorem le_skipWhile : cursor ≤ skipWhile p text cursor := Nat.le_add_right _ _

theorem skipWhile_le (h : cursor ≤ text.length) : skipWhile p text cursor ≤ text.length := by
  have htaken : (text.drop cursor).takeWhile p <+: text.drop cursor := List.takeWhile_prefix _
  have hlength := htaken.length_le
  rw [List.length_drop] at hlength
  unfold skipWhile
  omega

theorem indexOf_some (h : indexOf text pattern start = some position) :
    start ≤ position ∧ position < text.length ∧ position + pattern.length ≤ text.length := by
  have hmem := List.mem_range'_1.mp (List.mem_of_find?_eq_some h)
  have hfound : startsWith text pattern position = true :=
    List.find?_some (p := fun position => startsWith text pattern position) h
  have hstart := List.isPrefixOf_iff_prefix.mp hfound
  have hlength := hstart.length_le
  rw [List.length_drop] at hlength
  omega

theorem startsWith_length (h : startsWith text pattern position = true) (hp : pattern ≠ []) :
    position + pattern.length ≤ text.length := by
  have hstart := List.isPrefixOf_iff_prefix.mp h
  have hlength := hstart.length_le
  have hpos := List.length_pos_iff.mpr hp
  rw [List.length_drop] at hlength
  omega

theorem rawTextEnd_some {name : JsString} (h : rawTextEnd text name start = some position) :
    start ≤ position ∧ position < text.length := by
  have hmem := List.mem_range'_1.mp (List.mem_of_find?_eq_some h)
  omega

/-- A value moves the cursor on, or leaves it. -/
theorem attributeValue_next {value : JsString} {next : ℕ} (hcursor : cursor ≤ text.length)
    (h : attributeValue text cursor = some (value, next)) : cursor ≤ next ∧ next ≤ text.length := by
  have hahead : cursor ≤ skipWhile isMarkupSpace text cursor := le_skipWhile
  unfold attributeValue at h
  dsimp only at h
  split_ifs at h with hequals hquote
  · obtain ⟨close, hclose, hpair⟩ := Option.map_eq_some_iff.mp h
    cases hpair
    have hinner : skipWhile isMarkupSpace text cursor + 1 ≤
        skipWhile isMarkupSpace text (skipWhile isMarkupSpace text cursor + 1) := le_skipWhile
    have hfound := indexOf_some hclose
    omega
  · cases h
    obtain ⟨hlt, -⟩ := List.getElem?_eq_some_iff.mp hequals
    have hinner : skipWhile isMarkupSpace text cursor + 1 ≤
        skipWhile isMarkupSpace text (skipWhile isMarkupSpace text cursor + 1) := le_skipWhile
    have hbound : skipWhile isMarkupSpace text (skipWhile isMarkupSpace text cursor + 1) ≤ text.length :=
      skipWhile_le hlt
    exact ⟨(by omega : cursor ≤ _).trans le_skipWhile, skipWhile_le hbound⟩
  · cases h
    exact ⟨le_rfl, hcursor⟩

/-! ## Start tags -/

variable {name : JsString} {collect : Bool} {s s' : TagState} {keep : List JsString} {fuel : ℕ}

/-- **An attribute moves the cursor on.** -/
theorem readAttribute_again (h : readAttribute rt text name collect s = .again s') :
    s.cursor < s'.cursor ∧ s'.cursor ≤ text.length := by
  have hskipped : s.cursor ≤ skipWhile (fun u => isMarkupSpace u || u == 0x2F) text s.cursor := le_skipWhile
  unfold readAttribute at h
  dsimp only at h
  split at h
  · cases h
  · rename_i u hu
    obtain ⟨hlt, -⟩ := List.getElem?_eq_some_iff.mp hu
    by_cases hclosed : u = 0x3E
    · rw [if_pos hclosed] at h
      cases h
    · rw [if_neg hclosed] at h
      split at h
      · cases h
      · rename_i value next hvalue
        obtain ⟨hname, hnext⟩ := attributeValue_next (skipWhile_le hlt) hvalue
        have hnameEnd := (le_skipWhile.trans hname : _ + 1 ≤ next)
        have hcursor : s'.cursor = next := by
          split_ifs at h
          · cases h
            rfl
          · cases h
            rfl
        rw [hcursor]
        exact ⟨by omega, hnext⟩

theorem readAttribute_done {tag : StartTag} (h : readAttribute rt text name collect s = .done (some tag)) :
    s.cursor < tag.stop ∧ tag.stop ≤ text.length := by
  have hskipped : s.cursor ≤ skipWhile (fun u => isMarkupSpace u || u == 0x2F) text s.cursor := le_skipWhile
  unfold readAttribute at h
  dsimp only at h
  split at h
  · cases h
  · rename_i u hu
    obtain ⟨hlt, -⟩ := List.getElem?_eq_some_iff.mp hu
    by_cases hclosed : u = 0x3E
    · rw [if_pos hclosed] at h
      cases h
      exact ⟨Nat.lt_succ_of_le hskipped, hlt⟩
    · rw [if_neg hclosed] at h
      split at h
      · cases h
      · split_ifs at h

/-- **A tag ends in the text, behind its less-than sign and the character after it.** -/
theorem readStartTag_placed {tag : StartTag} (h : readStartTag rt keep fuel text start = some (some tag)) :
    start + 1 < tag.stop ∧ tag.stop ≤ text.length := by
  refine Loop.run_post (fun s : TagState => start + 1 ≤ s.cursor)
    (fun answer => ∀ tag, answer = some tag → start + 1 < tag.stop ∧ tag.stop ≤ text.length) ?_ ?_ ?_ h tag rfl
  · intro s s' hs hturn
    have hmoved := readAttribute_again (Option.some.inj hturn)
    omega
  · rintro s answer hs hturn tag rfl
    have hdone := readAttribute_done (Option.some.inj hturn)
    omega
  · exact le_skipWhile

/-- **The loop over the attributes ends.** -/
theorem readStartTag_answers (rt : MarkupRuntime) (keep : List JsString) (text : JsString) (start : ℕ) :
    ∃ answer, Loop.Answers (fun fuel => readStartTag rt keep fuel text start) text.length answer := by
  refine Loop.answers_of_measure (fun _ => True) (fun s : TagState => text.length - s.cursor)
    (fun s _ fuel _ => rfl) (fun s s' _ hturn => ⟨trivial, ?_⟩) trivial (Nat.sub_le _ _)
  have hmoved := readAttribute_again hturn
  omega

/-! ## Markup -/

theorem commentToken_placed {opening : ℕ} (hcursor : cursor ≤ opening)
    (h : startsWith text (js "--") (opening + 2) = true) : Placed text cursor (commentToken text opening) := by
  have hhyphens : opening + 2 + 2 ≤ text.length := startsWith_length h (by decide)
  unfold commentToken
  by_cases hempty : startsWith text (js ">") (opening + 4) = true
  · rw [if_pos hempty]
    have hlength : opening + 4 + 1 ≤ text.length := startsWith_length hempty (by decide)
    exact ⟨hcursor, by omega, by omega⟩
  · rw [if_neg hempty]
    by_cases hshort : startsWith text (js "->") (opening + 4) = true
    · rw [if_pos hshort]
      have hlength : opening + 4 + 2 ≤ text.length := startsWith_length hshort (by decide)
      exact ⟨hcursor, by omega, by omega⟩
    · rw [if_neg hshort]
      cases hclose : indexOf text (js "-->") (opening + 4) with
      | none => exact ⟨(min_le_left _ _).trans hcursor, by omega⟩
      | some close =>
        obtain ⟨hafter, -, hlength⟩ := indexOf_some hclose
        have hpattern : (js "-->").length = 3 := by decide
        exact ⟨hcursor, by omega, by omega⟩

theorem closedToken_placed {opening : ℕ} {next : UInt16} (hcursor : cursor ≤ opening)
    (hopening : opening < text.length) : Placed text cursor (closedToken rt text opening next) := by
  unfold closedToken
  cases hclose : indexOf text (js ">") (opening + 2) with
  | none => exact ⟨(min_le_left _ _).trans hcursor, hopening.le⟩
  | some close =>
    obtain ⟨hafter, hlength, -⟩ := indexOf_some hclose
    dsimp only
    by_cases hslash : next ≠ 0x2F
    · rw [if_pos hslash]
      exact ⟨hcursor, by omega, hlength⟩
    · rw [if_neg hslash]
      exact ⟨hcursor, by omega, hlength⟩

/-- **A less-than sign that is text moves the search on, and any other is where a piece starts.** -/
theorem markupAt_turn {turn : Loop.Turn ℕ MarkupToken} (h : markupAt rt keep fuel text start = some turn) :
    (∀ later, turn = .again later → start < later ∧ later ≤ text.length) ∧
      ∀ token, turn = .done token → Placed text start token := by
  unfold markupAt at h
  cases hopening : indexOf text (js "<") start with
  | none =>
    rw [hopening] at h
    obtain rfl := Option.some.inj h
    refine ⟨fun later hlater => ?_, fun token htoken => ?_⟩
    · cases hlater
    obtain rfl := Loop.Turn.done.inj htoken
    exact ⟨min_le_right _ _, le_rfl⟩
  | some opening =>
    obtain ⟨hstart, hlength, -⟩ := indexOf_some hopening
    have hagain : (∀ later, (.again (opening + 1) : Loop.Turn ℕ MarkupToken) = .again later →
          start < later ∧ later ≤ text.length) ∧
        ∀ token, (.again (opening + 1) : Loop.Turn ℕ MarkupToken) = .done token → Placed text start token := by
      refine ⟨fun later hlater => ?_, fun token htoken => ?_⟩
      · obtain rfl := Loop.Turn.again.inj hlater
        omega
      · cases htoken
    have hdone : ∀ {token : MarkupToken}, Placed text start token →
        (∀ later, (.done token : Loop.Turn ℕ MarkupToken) = .again later → start < later ∧ later ≤ text.length) ∧
          ∀ other, (.done token : Loop.Turn ℕ MarkupToken) = .done other → Placed text start other := by
      intro token hplaced
      refine ⟨fun later hlater => ?_, fun other hother => ?_⟩
      · cases hlater
      obtain rfl := Loop.Turn.done.inj hother
      exact hplaced
    rw [hopening] at h
    dsimp only at h
    split at h
    · obtain rfl := Option.some.inj h
      exact hagain
    · rename_i next hnext
      by_cases hcomment : next = 0x21 ∧ startsWith text (js "--") (opening + 2) = true
      · rw [if_pos hcomment] at h
        obtain rfl := Option.some.inj h
        exact hdone (commentToken_placed hstart hcomment.2)
      · rw [if_neg hcomment] at h
        by_cases hclosed : next = 0x21 ∨ next = 0x3F ∨ next = 0x2F
        · rw [if_pos hclosed] at h
          obtain rfl := Option.some.inj h
          exact hdone (closedToken_placed hstart hlength)
        · rw [if_neg hclosed] at h
          by_cases hletter : (!isLetter next) = true
          · rw [if_pos hletter] at h
            obtain rfl := Option.some.inj h
            exact hagain
          · rw [if_neg hletter] at h
            obtain ⟨answer, htag, rfl⟩ := Option.map_eq_some_iff.mp h
            cases answer with
            | none => exact hdone ⟨(min_le_left _ _).trans hstart, hlength.le⟩
            | some tag =>
              obtain ⟨hbehind, hin⟩ := readStartTag_placed htag
              exact hdone ⟨hstart, by omega, hin⟩

theorem Placed.mono {token : MarkupToken} (h : Placed text start token) (hcursor : cursor ≤ start) :
    Placed text cursor token := by
  cases token with
  | startTag | endTag | other => exact ⟨hcursor.trans h.1, h.2⟩
  | eof first =>
    obtain ⟨hfirst, hlast⟩ := h
    exact ⟨by omega, hlast⟩

theorem run_markupAt_placed {turns : ℕ} {token : MarkupToken}
    (h : Loop.run (markupAt rt keep fuel text) turns cursor = some token) : Placed text cursor token := by
  refine Loop.run_post (fun start => cursor ≤ start) (Placed text cursor) ?_ ?_ le_rfl h
  · intro start later hstart hturn
    have hmoved := (markupAt_turn hturn).1 later rfl
    omega
  · intro start token hstart hturn
    exact ((markupAt_turn hturn).2 token rfl).mono hstart

/-- **A piece of markup lies in the text, at or after the cursor, and ends behind its start.** -/
theorem nextMarkup_placed {token : MarkupToken} (h : nextMarkup rt keep fuel text cursor = some token) :
    Placed text cursor token := run_markupAt_placed h

theorem Placed.le_start {token : MarkupToken} (h : Placed text cursor token) :
    min cursor text.length ≤ token.start := by
  cases token with
  | startTag | endTag | other => exact (min_le_left _ _).trans h.1
  | eof => exact h.1

/-- One turn of the search ends. -/
theorem markupAt_answers (rt : MarkupRuntime) (keep : List JsString) (text : JsString) (start : ℕ) :
    ∃ turn, Loop.Answers (fun fuel => markupAt rt keep fuel text start) text.length turn := by
  choose tagAt htagAt using readStartTag_answers rt keep text
  have hsame : ∀ fuel, text.length < fuel →
      markupAt rt keep fuel text start = markupAt rt keep (text.length + 1) text start := by
    intro fuel hfuel
    have hread : ∀ opening, readStartTag rt keep fuel text opening = some (tagAt opening) := fun opening =>
      htagAt opening fuel hfuel
    have hread' : ∀ opening, readStartTag rt keep (text.length + 1) text opening = some (tagAt opening) := fun opening =>
      htagAt opening _ (Nat.lt_succ_self _)
    simp only [markupAt, hread, hread']
  cases hturn : markupAt rt keep (text.length + 1) text start with
  | some turn => exact ⟨turn, fun fuel hfuel => (hsame fuel hfuel).trans hturn⟩
  | none =>
    -- only a tag that is never read would leave no answer
    have hread : ∀ opening, readStartTag rt keep (text.length + 1) text opening = some (tagAt opening) := fun opening =>
      htagAt opening _ (Nat.lt_succ_self _)
    simp only [markupAt, hread, Option.map_some] at hturn
    split at hturn
    · cases hturn
    · split at hturn
      · cases hturn
      · split_ifs at hturn

/-- **The search for markup ends.** -/
theorem nextMarkup_answers (rt : MarkupRuntime) (keep : List JsString) (text : JsString) (cursor : ℕ) :
    ∃ token, Loop.Answers (fun fuel => nextMarkup rt keep fuel text cursor) text.length token := by
  choose turnAt hturnAt using markupAt_answers rt keep text
  refine Loop.answers_of_measure (fun _ => True) (fun start => text.length - start)
    (fun start _ => hturnAt start) (fun start later _ hturn => ⟨trivial, ?_⟩) trivial (Nat.sub_le _ _)
  have hanswer := hturnAt start (text.length + 1) (Nat.lt_succ_self _)
  have hmoved := (markupAt_turn hanswer).1 later hturn
  omega

theorem nextMarkup_behind {first second : MarkupToken} {keep' : List JsString} {fuel' start stop : ℕ}
    (hfirst : nextMarkup rt keep fuel text cursor = some first) (hstop : first.stop = some stop) (hstart : stop ≤ start)
    (hsecond : nextMarkup rt keep' fuel' text start = some second) : stop ≤ second.start := by
  have hend : stop ≤ text.length := by
    have hplaced := nextMarkup_placed hfirst
    cases first with
    | startTag | endTag | other =>
      obtain rfl := Option.some.inj hstop
      exact hplaced.2.2
    | eof => cases hstop
  exact (le_min hstart hend).trans (nextMarkup_placed hsecond).le_start

end

/-! ## Walks -/

section Walks

variable {rt} {σ β : Type} {keep : List JsString} {text : JsString} {cursorOf : σ → ℕ}
variable {turn : ℕ → σ → Option (Loop.Turn σ β)}

/-- **A walk over the markup of a text**: every turn that goes on has passed the piece it found, and turns end. -/
structure Walks (rt : MarkupRuntime) (keep : List JsString) (text : JsString) (cursorOf : σ → ℕ)
    (turn : ℕ → σ → Option (Loop.Turn σ β)) : Prop where
  passes : ∀ fuel s s', turn fuel s = some (.again s') → ∃ token stop,
    nextMarkup rt keep fuel text (cursorOf s) = some token ∧ token.stop = some stop ∧ stop ≤ cursorOf s' ∧
      cursorOf s' ≤ text.length
  ends : ∀ s, ∃ next, Loop.Answers (fun fuel => turn fuel s) text.length next

/-- The pieces that a walk finds from one state after the other. -/
def found (rt : MarkupRuntime) (keep : List JsString) (text : JsString) (cursorOf : σ → ℕ)
    (turn : ℕ → σ → Option (Loop.Turn σ β)) (fuel : ℕ) (s : σ) : List MarkupToken :=
  (Loop.visited (turn fuel) fuel s).filterMap fun s => nextMarkup rt keep fuel text (cursorOf s)

theorem Walks.moves (h : Walks rt keep text cursorOf turn) {fuel : ℕ} {s s' : σ}
    (hturn : turn fuel s = some (.again s')) : cursorOf s < cursorOf s' ∧ cursorOf s' ≤ text.length := by
  obtain ⟨token, stop, htoken, hstop, hpassed, hlength⟩ := h.passes fuel s s' hturn
  have hplaced := nextMarkup_placed htoken
  refine ⟨?_, hlength⟩
  cases token with
  | startTag | endTag | other =>
    obtain rfl := Option.some.inj hstop
    exact (hplaced.1.trans_lt hplaced.2.1).trans_le hpassed
  | eof => cases hstop

/-- **A walk ends.** -/
theorem Walks.answers (h : Walks rt keep text cursorOf turn) (s : σ) :
    ∃ answer, Loop.Answers (fun fuel => Loop.run (turn fuel) fuel s) text.length answer := by
  choose next hnext using h.ends
  refine Loop.answers_of_measure (fun _ => True) (fun s => text.length - cursorOf s) (fun s _ => hnext s)
    (fun s s' _ hagain => ⟨trivial, ?_⟩) trivial (Nat.sub_le _ _)
  have hturn : turn (text.length + 1) s = some (.again s') := hagain ▸ hnext s _ (Nat.lt_succ_self _)
  have hmoved := h.moves hturn
  omega

/-- **The pieces of a walk are disjoint**, each behind all that were found before it. -/
theorem Walks.apart (h : Walks rt keep text cursorOf turn) (fuel : ℕ) (s : σ) :
    (found rt keep text cursorOf turn fuel s).Pairwise fun a b => ∀ stop, a.stop = some stop → stop ≤ b.start := by
  have hstates : (Loop.visited (turn fuel) fuel s).Pairwise fun s t => ∀ token stop,
      nextMarkup rt keep fuel text (cursorOf s) = some token → token.stop = some stop → stop ≤ cursorOf t := by
    refine Loop.visited_pairwise (fun s s' hturn token stop htoken hstop => ?_)
      (fun s t t' ht hturn token stop htoken hstop => ?_) fuel s
    · obtain ⟨token', stop', htoken', hstop', hpassed, -⟩ := h.passes fuel s s' hturn
      obtain rfl := Option.some.inj (htoken.symm.trans htoken')
      obtain rfl := Option.some.inj (hstop.symm.trans hstop')
      exact hpassed
    · exact (ht token stop htoken hstop).trans (h.moves hturn).1.le
  refine hstates.filterMap _ fun s t hpassed a ha b hb stop hstop => ?_
  exact nextMarkup_behind ha hstop (hpassed a stop ha hstop) hb

end Walks

end SlugBase.Page
