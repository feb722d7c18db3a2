import SlugBase.Import.File
import Mathlib.Tactic.SplitIfs
import Mathlib.Data.List.TakeWhile

/-!
# Markup

The scanner that the parsers of untrusted HTML share, and the text that markup holds.

* `decodeCharacterReferences`, `plain`: character references decoded once, whitespace made one space;
* `nextMarkup`: the next piece of markup of a text; `rawTextEnd`: the end of an element whose content is text;
* **`nextMarkup_length`**: what follows a piece of markup is shorter.

The lower case of a text, as in `File`, and the table of named references are the runtime's.
-/

namespace SlugBase.Import

open JavaScript

/-- What the scanner rests on: the lower case of a text, and the table of named character references. -/
structure MarkupRuntime where
  toLowerCase : JsString → JsString
  namedEntity : JsString → Option JsString

variable (rt : MarkupRuntime)

/-! ## Text -/

def isDecimalDigit (u : UInt16) : Bool := 0x30 ≤ u && u ≤ 0x39

def isHexadecimalDigit (u : UInt16) : Bool := isDecimalDigit u || (0x41 ≤ u && u ≤ 0x46) || (0x61 ≤ u && u ≤ 0x66)

def isLetter (u : UInt16) : Bool := (0x41 ≤ u && u ≤ 0x5A) || (0x61 ≤ u && u ≤ 0x7A)

/-- The number of digits of a base. -/
def numberOf (base : ℕ) (digits : JsString) : ℕ :=
  digits.foldl (fun n u => base * n + (if u ≤ 0x39 then u.toNat - 0x30 else if u ≤ 0x46 then u.toNat - 0x37 else u.toNat - 0x57)) 0

/-- The character of a numeric reference; the replacement character for what is none. -/
def characterOf (codePoint : ℕ) : JsString :=
  if codePoint = 0 ∨ 0x10FFFF < codePoint ∨ (0xD800 ≤ codePoint ∧ codePoint ≤ 0xDFFF) then [0xFFFD]
  else encode (Char.ofNat codePoint)

/-- The name or the digits of a reference, when a semicolon follows them. -/
def referenceBody (isOf : UInt16 → Bool) (max : ℕ) (text : JsString) : Option JsString :=
  let body := text.takeWhile isOf
  if 1 ≤ body.length ∧ body.length ≤ max ∧ (text.dropWhile isOf).head? = some 0x3B then some body else none

/-- `CHARACTER_REFERENCE` behind an ampersand: what it stands for and how long it is; a name that is not known stays as
it is written. -/
def characterReference (text : JsString) : Option (JsString × ℕ) :=
  match text with
  | 0x23 :: x :: digits =>
    if x = 0x78 ∨ x = 0x58 then
      (referenceBody isHexadecimalDigit 6 digits).map fun body => (characterOf (numberOf 16 body), body.length + 3)
    else (referenceBody isDecimalDigit 7 (x :: digits)).map fun body => (characterOf (numberOf 10 body), body.length + 2)
  | u :: rest =>
    if isLetter u then
      (referenceBody (fun v => isLetter v || isDecimalDigit v) 32 (u :: rest)).bind fun body =>
        if body.length < 2 then none else some ((rt.namedEntity body).getD (0x26 :: body ++ [0x3B]), body.length + 1)
    else none
  | [] => none

/-- `decodeCharacterReferences`, with the units of a reference that are still to be passed over. -/
def decodeFrom : ℕ → JsString → JsString
  | _, [] => []
  | skip + 1, _ :: rest => decodeFrom skip rest
  | 0, u :: rest =>
    if u = 0x26 then
      match characterReference rt rest with
      | some (character, length) => character ++ decodeFrom length rest
      | none => u :: decodeFrom 0 rest
    else u :: decodeFrom 0 rest

def decodeCharacterReferences (text : JsString) : JsString := decodeFrom rt 0 text

/-- Every run of whitespace as one space; `inRun` when the unit before was whitespace. -/
def oneSpace : Bool → JsString → JsString
  | _, [] => []
  | inRun, u :: rest =>
    if isSpace u then (if inRun then oneSpace true rest else 0x20 :: oneSpace true rest) else u :: oneSpace false rest

/-- Whitespace made one space, and none at the ends. -/
def collapsed (text : JsString) : JsString := trim (oneSpace false text)

/-- `plain`. -/
def plain (text : JsString) : JsString := collapsed (decodeCharacterReferences rt text)

/-! ## Tags -/

/-- The whitespace of markup. -/
def isMarkupSpace (u : UInt16) : Bool := u == 0x20 || u == 0x09 || u == 0x0A || u == 0x0C || u == 0x0D

/-- The attributes of a tag: the first value of each, by lower-case name. -/
abbrev Attributes := List (JsString × JsString)

def Attributes.get (attributes : Attributes) (name : JsString) : Option JsString := attributes.lookup name

def maxAttributes : ℕ := 64

/-- What a value leaves: the value and what follows it; none when its quote is never closed. -/
def attributeValue (text : JsString) : Option (JsString × JsString) :=
  match text with
  | [] => some ([], [])
  | quote :: rest =>
    if quote = 0x22 ∨ quote = 0x27 then
      match rest.dropWhile (· != quote) with
      | [] => none
      | _ :: after => some (rest.takeWhile (· != quote), after)
    else some (text.takeWhile (fun u => !isMarkupSpace u && u != 0x3E), text.dropWhile (fun u => !isMarkupSpace u && u != 0x3E))

/-- The value behind the name of an attribute, and what follows. -/
def afterName (text : JsString) : Option (JsString × JsString) :=
  match text.dropWhile isMarkupSpace with
  | 0x3D :: rest => attributeValue (rest.dropWhile isMarkupSpace)
  | _ => some ([], text)

/-- The attributes of a tag, and what follows the tag; none when the text ends inside it. -/
def readAttributes (collect : Bool) : ℕ → Attributes → JsString → Option (Attributes × JsString)
  | 0, _, _ => none
  | fuel + 1, attributes, text =>
    match text.dropWhile (fun u => isMarkupSpace u || u == 0x2F) with
    | [] => none
    | u :: rest =>
      if u = 0x3E then some (attributes, rest)
      else
        let stops := fun v => isMarkupSpace v || v == 0x2F || v == 0x3E || v == 0x3D
        let name := rt.toLowerCase (u :: rest.takeWhile fun v => !stops v)
        match afterName (rest.dropWhile fun v => !stops v) with
        | none => none
        | some (value, after) =>
          let kept := if collect && decide (attributes.length < maxAttributes) && (attributes.get name).isNone then
            attributes ++ [(name, value)] else attributes
          readAttributes collect fuel kept after

/-- A start tag. -/
structure StartTag where
  name : JsString
  attributes : Attributes
deriving DecidableEq

/-- `readStartTag` behind the less-than sign. -/
def readStartTag (keep : List JsString) (text : JsString) : Option (StartTag × JsString) :=
  let inName := fun u => !isMarkupSpace u && u != 0x2F && u != 0x3E
  let name := rt.toLowerCase (text.takeWhile inName)
  let rest := text.dropWhile inName
  (readAttributes rt (keep.contains name) (rest.length + 1) [] rest).map fun (attributes, after) => (⟨name, attributes⟩, after)

/-! ## Pieces -/

/-- A piece of markup. -/
inductive Markup
  | start (tag : StartTag)
  | close (name : JsString)
  | other
deriving DecidableEq

/-- What follows the first occurrence of a text. -/
def afterFirst (pattern : JsString) : JsString → Option JsString
  | [] => none
  | u :: rest => if pattern.isPrefixOf (u :: rest) then some ((u :: rest).drop pattern.length) else afterFirst pattern rest

/-- What a less-than sign begins: nothing, something that the text ends in, or a piece of markup and what follows it. -/
inductive Opened
  | nothing
  | unfinished
  | piece (markup : Markup) (rest : JsString)

/-- The piece that an end tag is. -/
def closingTag (text : JsString) : Opened :=
  match text.dropWhile (· != 0x3E) with
  | [] => .unfinished
  | _ :: rest =>
    .piece (.close (rt.toLowerCase ((text.takeWhile (· != 0x3E)).takeWhile fun u => !isMarkupSpace u && u != 0x2F))) rest

/-- A comment behind its two hyphens. -/
def comment (text : JsString) : Opened :=
  if (js ">").isPrefixOf text then .piece .other (text.drop 1)
  else if (js "->").isPrefixOf text then .piece .other (text.drop 2)
  else match afterFirst (js "-->") text with
    | none => .unfinished
    | some rest => .piece .other rest

/-- What stands behind a less-than sign. -/
def openedBy (keep : List JsString) (text : JsString) : Opened :=
  match text with
  | [] => .nothing
  | u :: rest =>
    if u = 0x21 ∧ (js "--").isPrefixOf rest then comment (rest.drop 2)
    else if u = 0x21 ∨ u = 0x3F then
      match rest.dropWhile (· != 0x3E) with
      | [] => .unfinished
      | _ :: after => .piece .other after
    else if u = 0x2F then closingTag rt rest
    else if !isLetter u then .nothing
    else match readStartTag rt keep (u :: rest) with
      | none => .unfinished
      | some (tag, after) => .piece (.start tag) after

/-- `nextMarkup`: the text before the next piece of markup, and the piece with what follows it; no piece at the end. -/
def nextMarkup (keep : List JsString) : JsString → JsString × Option (Markup × JsString)
  | [] => ([], none)
  | u :: rest =>
    if u = 0x3C then
      match openedBy rt keep rest with
      | .piece markup after => ([], some (markup, after))
      | .unfinished => ([], none)
      | .nothing => let (before, found) := nextMarkup keep rest; (u :: before, found)
    else let (before, found) := nextMarkup keep rest; (u :: before, found)

/-- The elements whose content is text. -/
def rawTextElements : List JsString := ["script", "style", "textarea", "xmp", "iframe", "noembed", "noframes"].map js

/-- `rawTextEnd`: the text from the closing tag of an element on. -/
def rawTextEnd (name : JsString) : JsString → Option JsString
  | [] => none
  | u :: rest =>
    if hasPrefix (js "</" ++ name) (u :: rest) &&
        ((u :: rest).drop (name.length + 2)).head?.any (fun v => isSpace v || v == 0x2F || v == 0x3E) then some (u :: rest)
    else rawTextEnd name rest

/-! ## What is left of a text -/

variable {rt}

theorem length_afterFirst {pattern : JsString} {rest : JsString} :
    ∀ {text : JsString}, afterFirst pattern text = some rest → rest.length ≤ text.length := by
  intro text
  induction text with
  | nil => intro h; cases h
  | cons u around ih =>
    intro h
    rw [afterFirst] at h
    split_ifs at h with hfound
    · rw [← Option.some.inj h, List.length_drop]
      omega
    · exact (ih h).trans (Nat.le_succ _)

theorem length_rawTextEnd {name : JsString} {rest : JsString} :
    ∀ {text : JsString}, rawTextEnd name text = some rest → rest.length ≤ text.length := by
  intro text
  induction text with
  | nil => intro h; cases h
  | cons u around ih =>
    intro h
    rw [rawTextEnd] at h
    split_ifs at h with hfound
    · rw [← Option.some.inj h]
    · exact (ih h).trans (Nat.le_succ _)

theorem length_attributeValue {text value after : JsString} (h : attributeValue text = some (value, after)) :
    after.length ≤ text.length := by
  cases text with
  | nil =>
    cases h
    exact le_rfl
  | cons quote rest =>
    rw [attributeValue] at h
    split_ifs at h with hquote
    · have hdrop := List.length_dropWhile_le (· != quote) rest
      cases hclosed : rest.dropWhile (· != quote) with
      | nil => rw [hclosed] at h; cases h
      | cons u behind =>
        rw [hclosed] at h hdrop
        cases h
        rw [List.length_cons] at hdrop ⊢
        omega
    · cases h
      exact List.length_dropWhile_le _ _

theorem length_afterName {text value after : JsString} (h : afterName text = some (value, after)) :
    after.length ≤ text.length := by
  have hspace := List.length_dropWhile_le isMarkupSpace text
  unfold afterName at h
  split at h
  next rest hequals =>
    have hvalue := length_attributeValue h
    have hbehind := List.length_dropWhile_le isMarkupSpace rest
    rw [hequals, List.length_cons] at hspace
    omega
  next =>
    cases h
    exact le_rfl

/-- What follows a tag is shorter than the rest of the tag and what follows it. -/
theorem length_readAttributes {collect : Bool} {found : Attributes} {after : JsString} {fuel : ℕ} :
    ∀ {kept : Attributes} {text : JsString}, readAttributes rt collect fuel kept text = some (found, after) →
      after.length < text.length := by
  induction fuel with
  | zero => intro kept text h; cases h
  | succ fuel ih =>
    intro kept text h
    have hskipped := List.length_dropWhile_le (fun u => isMarkupSpace u || u == 0x2F) text
    rw [readAttributes] at h
    split at h
    next => cases h
    next u rest hrest =>
      rw [hrest, List.length_cons] at hskipped
      split_ifs at h with hclosed
      · cases h
        omega
      · dsimp only at h
        split at h
        next => cases h
        next value behind hvalue =>
          have hname := length_afterName hvalue
          have hstop := List.length_dropWhile_le
            (fun v => !(isMarkupSpace v || v == 0x2F || v == 0x3E || v == 0x3D)) rest
          have hlast := ih h
          omega

/-- More fuel than there are characters reads the same tag. -/
theorem readAttributes_fuel {collect : Bool} {fuel : ℕ} : ∀ {enough : ℕ} {kept : Attributes} {text : JsString},
    text.length < fuel → text.length < enough →
      readAttributes rt collect fuel kept text = readAttributes rt collect enough kept text := by
  induction fuel with
  | zero => intro enough kept text h; exact absurd h (Nat.not_lt_zero _)
  | succ fuel ih =>
    intro enough kept text hfuel henough
    obtain ⟨enough, rfl⟩ := Nat.exists_eq_succ_of_ne_zero (Nat.ne_of_gt (Nat.zero_lt_of_lt henough))
    have hskipped := List.length_dropWhile_le (fun u => isMarkupSpace u || u == 0x2F) text
    rw [readAttributes, readAttributes]
    cases hrest : text.dropWhile (fun u => isMarkupSpace u || u == 0x2F) with
    | nil => rfl
    | cons u rest =>
      rw [hrest, List.length_cons] at hskipped
      dsimp only
      by_cases hclosed : u = 0x3E
      · rw [if_pos hclosed, if_pos hclosed]
      · rw [if_neg hclosed, if_neg hclosed]
        cases hvalue : afterName (rest.dropWhile fun v => !(isMarkupSpace v || v == 0x2F || v == 0x3E || v == 0x3D)) with
        | none => rfl
        | some pair =>
          have hname := length_afterName hvalue
          have hstop := List.length_dropWhile_le
            (fun v => !(isMarkupSpace v || v == 0x2F || v == 0x3E || v == 0x3D)) rest
          exact ih (by omega) (by omega)

theorem length_readStartTag {keep : List JsString} {text after : JsString} {tag : StartTag}
    (h : readStartTag rt keep text = some (tag, after)) : after.length < text.length := by
  obtain ⟨⟨attributes, behind⟩, hread, hpair⟩ := Option.map_eq_some_iff.mp h
  cases hpair
  exact (length_readAttributes hread).trans_le (List.length_dropWhile_le _ _)

theorem length_openedBy {keep : List JsString} {text after : JsString} {markup : Markup}
    (h : openedBy rt keep text = .piece markup after) : after.length ≤ text.length := by
  cases text with
  | nil => cases h
  | cons u rest =>
    have hclose := List.length_dropWhile_le (· != 0x3E) rest
    unfold openedBy at h
    dsimp only at h
    split_ifs at h
    · unfold comment at h
      split_ifs at h
      · cases h
        simp only [List.length_drop, List.length_cons]
        omega
      · cases h
        simp only [List.length_drop, List.length_cons]
        omega
      · split at h
        next => cases h
        next behind hbehind =>
          cases h
          have hlength := length_afterFirst hbehind
          rw [List.length_drop] at hlength
          rw [List.length_cons]
          omega
    · split at h
      next => cases h
      next v behind hbehind =>
        cases h
        rw [hbehind, List.length_cons] at hclose
        rw [List.length_cons]
        omega
    · unfold closingTag at h
      split at h
      next => cases h
      next v behind hbehind =>
        cases h
        rw [hbehind, List.length_cons] at hclose
        rw [List.length_cons]
        omega
    · split at h
      next => cases h
      next tag behind hbehind =>
        cases h
        exact (length_readStartTag hbehind).le

/-- **What follows a piece of markup is shorter than the text it was found in.** -/
theorem nextMarkup_length {keep : List JsString} {before after : JsString} {markup : Markup} :
    ∀ {text : JsString}, nextMarkup rt keep text = (before, some (markup, after)) → after.length < text.length := by
  intro text
  induction text generalizing before with
  | nil => intro h; cases h
  | cons u rest ih =>
    intro h
    rw [nextMarkup] at h
    rw [List.length_cons, Nat.lt_succ_iff]
    split_ifs at h with hopen
    · split at h
      next opened behind hopened =>
        cases h
        exact length_openedBy hopened
      next => cases h
      next =>
        obtain ⟨-, hfound⟩ := Prod.mk.inj h
        exact (ih (Prod.ext rfl hfound)).le
    · obtain ⟨-, hfound⟩ := Prod.mk.inj h
      exact (ih (Prod.ext rfl hfound)).le

end SlugBase.Import
