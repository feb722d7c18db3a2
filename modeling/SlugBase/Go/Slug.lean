import SlugBase.Lib.JsString

/-!
# Slugs

A slug is trimmed and lower-cased wherever it enters, and only then held to the grammar.

* `normalizeSlug`, `isValidSlug`, `parseSlug`; **`parseSlug_isValid`**: what is parsed is in the grammar.

The lower case of a text is the runtime's (`toLowerCase`), a parameter here.
-/

namespace SlugBase

open JavaScript

variable (toLowerCase : JsString → JsString)

/-- A lower-case letter or a digit. -/
def isSlugStart (u : UInt16) : Bool := (0x61 ≤ u && u ≤ 0x7A) || (0x30 ≤ u && u ≤ 0x39)

/-- The whitespace around the slug removed and its letters lower-cased. -/
def normalizeSlug (input : JsString) : JsString := toLowerCase (trim input)

/-- `BOOKMARK_SLUG_PATTERN`: 1 to 64 lower-case letters, digits and hyphens, not starting with a hyphen. -/
def isValidSlug : JsString → Bool
  | [] => false
  | u :: s => isSlugStart u && s.all (fun v => isSlugStart v || v == 0x2D) && decide (s.length ≤ 63)

/-- The slug of `input` when its normal form is in the grammar. -/
def parseSlug (input : JsString) : Option JsString :=
  if isValidSlug (normalizeSlug toLowerCase input) then some (normalizeSlug toLowerCase input) else none

theorem parseSlug_isValid {input slug : JsString} (h : parseSlug toLowerCase input = some slug) :
    isValidSlug slug = true ∧ slug = normalizeSlug toLowerCase input := by
  unfold parseSlug at h
  split at h
  · rename_i hvalid
    obtain rfl := Option.some.inj h
    exact ⟨hvalid, rfl⟩
  · cases h

end SlugBase
