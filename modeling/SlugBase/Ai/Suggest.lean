import SlugBase.Bookmark.Url
import SlugBase.Go.Slug
import SlugBase.Lib.Json
import SlugBase.Lib.Utf8
import Mathlib.Algebra.Order.Ring.Rat
import Mathlib.Data.List.DropRight

/-!
# AI suggestions

A suggestion for a bookmark: what a provider or the cache says is data, held to the limits of the fields, and made the
member's own on every answer.

* `checkSuggestion`, `forMember`, `suggestWithAi`: the checks, the member's part and the request;
* `Checked`: a suggestion within the limits; **`checkSuggestion_fieldsOf`**: it reads back as itself;
* `Served`: what a request asks, caches and answers;
* **`suggestWithAi_served`**: every request is served so, whatever the provider answers and the transactions find.

The two transactions of a request find what they find: the member's state may change between them.
-/

namespace SlugBase.Ai

open JavaScript

/-- A number of an answer, or one that is not finite. -/
inductive AnswerNumber
  | finite (value : ℚ)
  | notFinite

abbrev Value := Json AnswerNumber

/-- What is read of an answer or of a cached row; none for `undefined`. -/
structure AnswerFields where
  title : Option Value
  slug : Option Value
  tags : Option Value
  confidence : Option Value

/-- `AiSuggestionResult`. -/
structure AiSuggestionResult where
  title : JsString
  slug : Option JsString
  tags : List JsString
  confidence : ℚ
deriving DecidableEq

def bookmarkTitleMaxLength : ℕ := 300
def tagNameMaxLength : ℕ := 40
def AI_SUGGESTION_TAGS_MAX : ℕ := 5
def AI_CONTEXT_TAGS_MAX : ℕ := 200

variable (toLowerCase : JsString → JsString)

/-! ## The checks -/

/-- `isWellFormed`. -/
def isWellFormed (s : JsString) : Bool := decide (toWellFormed s = s)

inductive TagNameRefusal
  | empty
  | tooLong
deriving DecidableEq, Repr

/-- `normalizeTagName`: the name as it is stored, or why it is refused. -/
def normalizeTagName (name : JsString) : Except TagNameRefusal JsString :=
  if (codePoints (trim name)).length < 1 then .error .empty
  else if tagNameMaxLength < (codePoints (trim name)).length then .error .tooLong
  else .ok (trim name)

/-- `plainTitle`. -/
def plainTitle (value : Option Value) : Option JsString :=
  match value with
  | some (.text text) =>
    if text.contains 0 || !isWellFormed text then none
    else if 1 ≤ (codePoints (trim text)).length ∧ (codePoints (trim text)).length ≤ bookmarkTitleMaxLength then some (trim text)
    else none
  | _ => none

/-- The loop of `plainTags`, with the tags that are kept so far. -/
def keepTags : List JsString → List Value → Option (List JsString)
  | tags, [] => some tags
  | tags, candidate :: rest =>
    if tags.length = AI_SUGGESTION_TAGS_MAX then some tags
    else
      match candidate with
      | .text text =>
        if text.contains 0 then keepTags tags rest
        else if !isWellFormed text then none
        else
          match normalizeTagName text with
          | .ok name =>
            if (tags.map toLowerCase).contains (toLowerCase name) then keepTags tags rest else keepTags (tags ++ [name]) rest
          | .error _ => keepTags tags rest
      | _ => keepTags tags rest

/-- `plainTags`. -/
def plainTags (value : Option Value) : Option (List JsString) :=
  match value with
  | some (.array items) => keepTags toLowerCase [] items
  | _ => none

/-- The slug of an answer, when it is in the grammar. -/
def plainSlug (value : Option Value) : Option JsString :=
  match value with
  | some (.text text) => parseSlug toLowerCase text
  | _ => none

/-- The confidence of an answer, brought between 0 and 1. -/
def plainConfidence (value : Option Value) : Option ℚ :=
  match value with
  | some (.number (.finite confidence)) => some (min 1 (max 0 confidence))
  | _ => none

/-- `checkSuggestion`. -/
def checkSuggestion (value : AnswerFields) : Option AiSuggestionResult :=
  (plainTitle value.title).bind fun title =>
    (plainTags toLowerCase value.tags).bind fun tags =>
      (plainConfidence value.confidence).map fun confidence =>
        { title, slug := plainSlug toLowerCase value.slug, tags, confidence }

/-- A suggestion as data, as the cache holds it. -/
def fieldsOf (result : AiSuggestionResult) : AnswerFields where
  title := some (.text result.title)
  slug := some ((result.slug.map Json.text).getD .null)
  tags := some (.array (result.tags.map .text))
  confidence := some (.number (.finite result.confidence))

/-! ## The request -/

/-- `availability` of the store. -/
structure Availability where
  workspaceEnabled : Bool
  memberOptedOut : Bool

/-- What one transaction finds: the settings, the names of the member's tags in the order they are read, the cached row, the
slugs the member uses, and whether the member is still in the workspace. -/
structure AiSuggestionStore where
  availability : Option Availability
  tags : List JsString
  cached : JsString → JsString → Option AnswerFields
  slugTaken : JsString → Bool
  isMember : Bool

/-- `tagNames`. -/
def AiSuggestionStore.tagNames (store : AiSuggestionStore) (limit : ℕ) : List JsString := store.tags.take limit

/-- The spelling of a name among the member's tags: the last that is set under its key. -/
def spellingOf (memberTags : List JsString) (key : JsString) : Option JsString :=
  memberTags.reverse.find? fun name => decide (toLowerCase name = key)

/-- The loop of `forMember`, with the keys that were seen: the member's own spellings and the tags it does not have. -/
def ownAndCreated (memberTags : List JsString) : List JsString → List JsString → List JsString × List JsString
  | _, [] => ([], [])
  | seen, tag :: rest =>
    if seen.contains (toLowerCase tag) then ownAndCreated memberTags seen rest
    else
      let others := ownAndCreated memberTags (toLowerCase tag :: seen) rest
      match spellingOf toLowerCase memberTags (toLowerCase tag) with
      | none => (others.1, tag :: others.2)
      | some own => (own :: others.1, others.2)

/-- `forMember`. -/
def forMember (store : AiSuggestionStore) (result : AiSuggestionResult) (memberTags : List JsString) : AiSuggestionResult :=
  let tags := ownAndCreated toLowerCase memberTags [] result.tags
  { result with
    slug := if result.slug.any store.slugTaken then none else result.slug
    tags := (tags.1 ++ tags.2).take AI_SUGGESTION_TAGS_MAX }

/-- What is sent to the provider. -/
structure AiSuggestRequest where
  url : JsString
  language : JsString
  title : Option JsString
  description : Option JsString
  tags : List JsString

/-- `AiSuggestionCacheEntry`. -/
structure AiSuggestionCacheEntry where
  urlCanonical : JsString
  locale : JsString
  result : AiSuggestionResult
  provider : JsString
  model : JsString

/-- The dependencies of a request that are settings. -/
structure AiSettings where
  available : Bool
  provider : JsString
  model : JsString

/-- `AiSuggestionAsk`. -/
structure AiSuggestionAsk where
  url : JsString
  locale : JsString
  title : Option JsString
  description : Option JsString

/-- What comes first: the answer of the provider, or its failure or the deadline. -/
inductive Race
  | answered (fields : AnswerFields)
  | failed
  | deadline

inductive AiSuggestionOutcome
  | suggested (suggestion : AiSuggestionResult) (cached : Bool)
  | unavailable
  | disabledByWorkspace
  | disabledByMember
  | notFound
  | urlRefused (reason : BookmarkUrlRefusal)
  | failed
deriving DecidableEq

/-- A request: its outcome, what it asked the provider and what it cached. -/
structure Run where
  outcome : AiSuggestionOutcome
  asked : Option AiSuggestRequest := none
  stored : Option AiSuggestionCacheEntry := none

/-- `askProvider`. -/
def askProvider (race : Race) : Option AiSuggestionResult :=
  match race with
  | .answered fields => checkSuggestion toLowerCase fields
  | .failed => none
  | .deadline => none

/-- The rest of `suggestWithAi` after a miss. -/
def suggestFresh (settings : AiSettings) (second : AiSuggestionStore) (race : Race) (urlCanonical locale : JsString)
    (request : AiSuggestRequest) : Run :=
  match askProvider toLowerCase race with
  | none => { outcome := .failed, asked := some request }
  | some answered =>
    if second.isMember then
      { outcome := .suggested (forMember toLowerCase second answered request.tags) false
        asked := some request
        stored := some { urlCanonical, locale, result := answered, provider := settings.provider, model := settings.model } }
    else { outcome := .notFound, asked := some request }

/-- `suggestWithAi`. -/
def suggestWithAi (parseUrl : JsString → Option ParsedUrl) (settings : AiSettings) (first second : AiSuggestionStore) (race : Race)
    (ask : AiSuggestionAsk) : Run :=
  if !settings.available then { outcome := .unavailable }
  else
    let locale := toLowerCase (trim ask.locale)
    match first.availability with
    | none => { outcome := .notFound }
    | some availability =>
      if !availability.workspaceEnabled then { outcome := .disabledByWorkspace }
      else if availability.memberOptedOut then { outcome := .disabledByMember }
      else
        match normalizeBookmarkUrl parseUrl ask.url with
        | .error reason => { outcome := .urlRefused reason }
        | .ok url =>
          let tags := first.tagNames AI_CONTEXT_TAGS_MAX
          match (first.cached url.canonical locale).bind (checkSuggestion toLowerCase) with
          | some hit => { outcome := .suggested (forMember toLowerCase first hit tags) true }
          | none =>
            suggestFresh toLowerCase settings second race url.canonical locale
              { url := url.canonical, language := locale, title := ask.title, description := ask.description, tags }

/-! ## What is promised -/

/-- A tag name within its limits. -/
structure IsTagName (name : JsString) : Prop where
  trimmed : trim name = name
  wellFormed : WellFormed name
  noNul : (0 : UInt16) ∉ name
  length : 1 ≤ (codePoints name).length ∧ (codePoints name).length ≤ tagNameMaxLength

/-- **A suggestion within the limits of the fields.** -/
structure Checked (result : AiSuggestionResult) : Prop where
  trimmed : trim result.title = result.title
  wellFormed : WellFormed result.title
  noNul : (0 : UInt16) ∉ result.title
  title : 1 ≤ (codePoints result.title).length ∧ (codePoints result.title).length ≤ bookmarkTitleMaxLength
  slug : ∀ slug, result.slug = some slug → isValidSlug slug = true
  tags : ∀ tag ∈ result.tags, IsTagName tag
  few : result.tags.length ≤ AI_SUGGESTION_TAGS_MAX
  distinct : (result.tags.map toLowerCase).Nodup
  confidence : 0 ≤ result.confidence ∧ result.confidence ≤ 1

/-- An answer for a member, of the transaction that makes it and the names that were read: at most five tags that are distinct
up to case, spelled as the member's own where its name was read, and no slug the member uses. -/
structure Own (store : AiSuggestionStore) (memberTags : List JsString) (suggestion : AiSuggestionResult) : Prop where
  few : suggestion.tags.length ≤ AI_SUGGESTION_TAGS_MAX
  distinct : (suggestion.tags.map toLowerCase).Nodup
  spelled : ∀ tag ∈ suggestion.tags, (∃ name ∈ memberTags, toLowerCase name = toLowerCase tag) → tag ∈ memberTags
  free : ∀ slug, suggestion.slug = some slug → isValidSlug slug = true ∧ store.slugTaken slug = false

/-- What a request asks the provider, caches and answers. -/
structure Served (parseUrl : JsString → Option ParsedUrl) (settings : AiSettings) (first second : AiSuggestionStore) (race : Race)
    (ask : AiSuggestionAsk) (run : Run) : Prop where
  asked : ∀ request, run.asked = some request → settings.available = true ∧
    (∃ availability, first.availability = some availability ∧ availability.workspaceEnabled = true ∧
      availability.memberOptedOut = false) ∧
    ∃ url, normalizeBookmarkUrl parseUrl ask.url = .ok url ∧ request.url = url.canonical ∧
      request.tags = first.tagNames AI_CONTEXT_TAGS_MAX ∧
      (first.cached url.canonical (toLowerCase (trim ask.locale))).bind (checkSuggestion toLowerCase) = none
  stored : ∀ entry, run.stored = some entry → run.asked.isSome = true ∧ Checked toLowerCase entry.result ∧
    ∃ fields, race = .answered fields ∧ checkSuggestion toLowerCase fields = some entry.result
  cached : ∀ suggestion, run.outcome = .suggested suggestion true → run.asked = none ∧ run.stored = none ∧
    Own toLowerCase first (first.tagNames AI_CONTEXT_TAGS_MAX) suggestion
  fresh : ∀ suggestion, run.outcome = .suggested suggestion false → run.stored.isSome = true ∧
    Own toLowerCase second (first.tagNames AI_CONTEXT_TAGS_MAX) suggestion

/-! ## Texts -/

theorem space_plain {u : UInt16} (h : isSpace u = true) : isHighSurrogate u = false ∧ isLowSurrogate u = false := by
  have hbounds : u.toNat ≤ 0x3000 ∨ u.toNat = 0xFEFF := by
    simp only [isSpace, Bool.or_eq_true, Bool.and_eq_true, decide_eq_true_eq, beq_iff_eq, UInt16.le_iff_toNat_le,
      ← UInt16.toNat_inj, UInt16.reduceToNat] at h
    omega
  constructor
  · rw [← Bool.not_eq_true]
    intro hhigh
    have hbounds' := high_bounds hhigh
    omega
  · rw [← Bool.not_eq_true]
    intro hlow
    have hbounds' := low_bounds hlow
    omega

theorem wellFormed_of_append_left {a s : JsString} (h : WellFormed (a ++ s))
    (ha : ∀ u ∈ a, isHighSurrogate u = false ∧ isLowSurrogate u = false) : WellFormed s := by
  induction a with
  | nil => exact h
  | cons u rest ih =>
    have hu := ha u List.mem_cons_self
    rw [List.cons_append] at h
    generalize ht : rest ++ s = t at h
    cases h with
    | unit _ _ hs => exact ih (ht ▸ hs) fun v hv => ha v (List.mem_cons_of_mem _ hv)
    | pair hhigh _ _ =>
      rw [hu.1] at hhigh
      cases hhigh

theorem wellFormed_of_append_right {t : JsString} (h : WellFormed t) :
    ∀ {s b : JsString}, t = s ++ b → (∀ u ∈ b, isHighSurrogate u = false ∧ isLowSurrogate u = false) → WellFormed s := by
  induction h with
  | nil =>
    intro s b heq _
    rw [(List.append_eq_nil_iff.mp heq.symm).1]
    exact .nil
  | unit hhigh hlow _ ih =>
    intro s b heq hb
    cases s with
    | nil => exact .nil
    | cons v s =>
      rw [List.cons_append, List.cons.injEq] at heq
      obtain ⟨rfl, heq⟩ := heq
      exact .unit hhigh hlow (ih heq hb)
  | pair hhigh hlow _ ih =>
    intro s b heq hb
    match s, heq with
    | [], _ => exact .nil
    | [w], heq =>
      rw [List.cons_append, List.nil_append, List.cons.injEq] at heq
      have hplain := hb _ (heq.2 ▸ List.mem_cons_self)
      rw [hplain.2] at hlow
      cases hlow
    | w :: x :: s, heq =>
      rw [List.cons_append, List.cons_append, List.cons.injEq, List.cons.injEq] at heq
      obtain ⟨rfl, rfl, heq⟩ := heq
      exact .pair hhigh hlow (ih heq hb)

theorem trim_split (s : JsString) : ∃ a b, s = a ++ (trim s ++ b) ∧ (∀ u ∈ a, isSpace u = true) ∧ ∀ u ∈ b, isSpace u = true := by
  refine ⟨s.takeWhile isSpace, (s.dropWhile isSpace).rtakeWhile isSpace, ?_, fun u hu => List.mem_takeWhile_imp hu,
    fun u hu => List.mem_rtakeWhile_imp hu⟩
  rw [trim, trimEnd, List.rdropWhile_append_rtakeWhile, List.takeWhile_append_dropWhile]

theorem wellFormed_trim {s : JsString} (h : WellFormed s) : WellFormed (trim s) := by
  obtain ⟨a, b, hs, ha, hb⟩ := trim_split s
  have hrest : WellFormed (trim s ++ b) := wellFormed_of_append_left (hs ▸ h) fun u hu => space_plain (ha u hu)
  exact wellFormed_of_append_right hrest rfl fun u hu => space_plain (hb u hu)

theorem mem_of_mem_trim {s : JsString} {u : UInt16} (h : u ∈ trim s) : u ∈ s := by
  obtain ⟨a, b, hs, -, -⟩ := trim_split s
  rw [hs]
  exact List.mem_append_right _ (List.mem_append_left _ h)

/-- What is trimmed stays so. -/
theorem trim_trim (s : JsString) : trim (trim s) = trim s := by
  have hdrop : (trim s).dropWhile isSpace = trim s := by
    rw [List.dropWhile_eq_self_iff]
    intro hne
    obtain ⟨t, ht⟩ := List.rdropWhile_prefix isSpace (s.dropWhile isSpace)
    change trim s ++ t = s.dropWhile isSpace at ht
    have hpos : 0 < (s.dropWhile isSpace).length := by
      rw [← ht, List.length_append]
      omega
    have hhead := List.dropWhile_get_zero_not isSpace s hpos
    have hsame : (s.dropWhile isSpace).get ⟨0, hpos⟩ = (trim s).get ⟨0, hne⟩ := by
      simp only [List.get_eq_getElem, ← ht, List.getElem_append_left hne]
    rwa [hsame] at hhead
  rw [trim, hdrop, trim, trimEnd, trimEnd, List.rdropWhile_idempotent]

theorem trim_of_no_space {s : JsString} (h : ∀ u ∈ s, isSpace u = false) : trim s = s := by
  obtain ⟨a, b, hs, ha, hb⟩ := trim_split s
  have ha' : a = [] := List.eq_nil_iff_forall_not_mem.mpr fun u hu => by
    have hmem : u ∈ s := hs ▸ List.mem_append_left _ hu
    exact absurd (ha u hu) (by simp [h u hmem])
  have hb' : b = [] := List.eq_nil_iff_forall_not_mem.mpr fun u hu => by
    have hmem : u ∈ s := hs ▸ List.mem_append_right _ (List.mem_append_right _ hu)
    exact absurd (hb u hu) (by simp [h u hmem])
  rw [ha', hb', List.nil_append, List.append_nil] at hs
  exact hs.symm

/-- A string is well formed when `toWellFormed` leaves it as it is. -/
theorem isWellFormed_iff {s : JsString} : isWellFormed s = true ↔ WellFormed s := by
  rw [isWellFormed, decide_eq_true_eq]
  have hpiece : ∀ {u : UInt16} {rest t : JsString}, wellFormedPiece [u] ++ rest = u :: t →
      isHighSurrogate u = false ∧ isLowSurrogate u = false ∧ rest = t := by
    intro u rest t h
    by_cases hsurrogate : (isHighSurrogate u || isLowSurrogate u) = true
    · simp only [wellFormedPiece, if_pos hsurrogate, List.cons_append, List.nil_append, List.cons.injEq] at h
      rw [← h.1] at hsurrogate
      exact absurd hsurrogate (by decide)
    · simp only [wellFormedPiece, if_neg hsurrogate, List.cons_append, List.nil_append, List.cons.injEq, true_and] at h
      rw [Bool.not_eq_true, Bool.or_eq_false_iff] at hsurrogate
      exact ⟨hsurrogate.1, hsurrogate.2, h⟩
  constructor
  · intro h
    induction s using codePoints.induct with
    | case1 => exact .nil
    | case2 u =>
      have hsingle : wellFormedPiece [u] ++ [] = u :: [] := by simpa [toWellFormed, codePoints] using h
      obtain ⟨hhigh, hlow, -⟩ := hpiece hsingle
      exact .unit hhigh hlow .nil
    | case3 u v s hpair ih =>
      simp only [toWellFormed, codePoints, hpair, if_true, List.flatMap_cons, wellFormedPiece, List.cons_append, List.nil_append,
        List.cons.injEq, true_and] at h
      rw [Bool.and_eq_true] at hpair
      exact .pair hpair.1 hpair.2 (ih h)
    | case4 u v s hpair ih =>
      simp only [toWellFormed, codePoints, hpair, Bool.false_eq_true, if_false, List.flatMap_cons] at h
      obtain ⟨hhigh, hlow, hrest⟩ := hpiece h
      exact .unit hhigh hlow (ih hrest)
  · intro h
    induction h with
    | nil => rfl
    | @unit u s hhigh hlow _ ih =>
      rw [toWellFormed] at ih
      rw [toWellFormed, codePoints_unit hhigh, List.flatMap_cons, ih]
      simp [wellFormedPiece, hhigh, hlow]
    | @pair u v s hhigh hlow _ ih =>
      rw [toWellFormed] at ih
      simp only [toWellFormed, codePoints, hhigh, hlow, Bool.and_self, if_true, List.flatMap_cons, wellFormedPiece, ih,
        List.cons_append, List.nil_append]

/-! ## The checks, one by one -/

section

variable {toLowerCase}

theorem contains_nul {s : JsString} : s.contains 0 = false ↔ (0 : UInt16) ∉ s := by
  rw [← Bool.not_eq_true, List.contains_iff_mem]

theorem normalizeTagName_ok {text name : JsString} (h : normalizeTagName text = .ok name) :
    name = trim text ∧ 1 ≤ (codePoints name).length ∧ (codePoints name).length ≤ tagNameMaxLength := by
  unfold normalizeTagName at h
  split_ifs at h with hempty hlong
  obtain rfl := Except.ok.inj h
  exact ⟨rfl, Nat.le_of_not_lt hempty, Nat.le_of_not_lt hlong⟩

theorem IsTagName.normalize {name : JsString} (h : IsTagName name) : normalizeTagName name = .ok name := by
  have hlow := h.length.1
  have hhigh := h.length.2
  rw [normalizeTagName, h.trimmed, if_neg (by omega), if_neg (by omega)]

theorem plainTitle_eq_some {value : Option Value} {title : JsString} (h : plainTitle value = some title) :
    trim title = title ∧ WellFormed title ∧ (0 : UInt16) ∉ title ∧
      1 ≤ (codePoints title).length ∧ (codePoints title).length ≤ bookmarkTitleMaxLength := by
  unfold plainTitle at h
  split at h
  · rename_i text
    split_ifs at h with hbad hlength
    obtain rfl := Option.some.inj h
    rw [Bool.not_eq_true, Bool.or_eq_false_iff, contains_nul, Bool.not_eq_false', isWellFormed_iff] at hbad
    exact ⟨trim_trim text, wellFormed_trim hbad.2, fun hmem => hbad.1 (mem_of_mem_trim hmem), hlength.1, hlength.2⟩
  · cases h

theorem plainTitle_text {title : JsString} (htrim : trim title = title) (hwell : WellFormed title) (hnul : (0 : UInt16) ∉ title)
    (hlength : 1 ≤ (codePoints title).length ∧ (codePoints title).length ≤ bookmarkTitleMaxLength) :
    plainTitle (some (.text title)) = some title := by
  have hgood : ¬ (title.contains 0 || !isWellFormed title) = true := by
    rw [Bool.not_eq_true, Bool.or_eq_false_iff, contains_nul, Bool.not_eq_false', isWellFormed_iff]
    exact ⟨hnul, hwell⟩
  simp only [plainTitle, if_neg hgood, htrim, if_pos hlength]

/-- The tags that are kept so far: within the limits, distinct up to case, and at most five. -/
structure Kept (toLowerCase : JsString → JsString) (tags : List JsString) : Prop where
  names : ∀ tag ∈ tags, IsTagName tag
  few : tags.length ≤ AI_SUGGESTION_TAGS_MAX
  distinct : (tags.map toLowerCase).Nodup

theorem Kept.concat {tags : List JsString} (h : Kept toLowerCase tags) {name : JsString} (hname : IsTagName name)
    (hroom : tags.length ≠ AI_SUGGESTION_TAGS_MAX) (hnew : toLowerCase name ∉ tags.map toLowerCase) :
    Kept toLowerCase (tags ++ [name]) where
  names := by
    intro tag htag
    rcases List.mem_append.mp htag with hold | hold
    · exact h.names tag hold
    · rw [List.mem_singleton.mp hold]
      exact hname
  few := by
    have hfew := h.few
    rw [List.length_append, List.length_singleton]
    omega
  distinct := by
    rw [List.map_append, List.map_singleton, List.nodup_append]
    refine ⟨h.distinct, List.nodup_singleton _, ?_⟩
    rintro a ha b hb rfl
    exact hnew (List.mem_singleton.mp hb ▸ ha)

theorem keepTags_kept {items : List Value} {tags result : List JsString} (htags : Kept toLowerCase tags)
    (h : keepTags toLowerCase tags items = some result) : Kept toLowerCase result := by
  induction items generalizing tags with
  | nil =>
    obtain rfl := Option.some.inj h
    exact htags
  | cons candidate rest ih =>
    rw [keepTags.eq_def] at h
    dsimp only at h
    by_cases hfull : tags.length = AI_SUGGESTION_TAGS_MAX
    · rw [if_pos hfull] at h
      obtain rfl := Option.some.inj h
      exact htags
    · rw [if_neg hfull] at h
      split at h
      · rename_i text
        by_cases hnul : text.contains 0 = true
        · rw [if_pos hnul] at h
          exact ih htags h
        · rw [if_neg hnul] at h
          by_cases hwell : (!isWellFormed text) = true
          · rw [if_pos hwell] at h
            cases h
          · rw [if_neg hwell] at h
            split at h
            · rename_i name hname
              by_cases hseen : (tags.map toLowerCase).contains (toLowerCase name) = true
              · rw [if_pos hseen] at h
                exact ih htags h
              · rw [if_neg hseen] at h
                rw [Bool.not_eq_true, contains_nul] at hnul
                rw [Bool.not_eq_true, Bool.not_eq_false', isWellFormed_iff] at hwell
                obtain ⟨rfl, hlength⟩ := normalizeTagName_ok hname
                have hlimits : IsTagName (trim text) :=
                  ⟨trim_trim text, wellFormed_trim hwell, fun hmem => hnul (mem_of_mem_trim hmem), hlength⟩
                exact ih (htags.concat hlimits hfull fun hmem => hseen (List.contains_iff_mem.mpr hmem)) h
            · exact ih htags h
      · exact ih htags h

/-- Kept tags are kept again, all of them. -/
theorem keepTags_texts {rest tags : List JsString} (h : Kept toLowerCase (tags ++ rest)) :
    keepTags toLowerCase tags (rest.map .text) = some (tags ++ rest) := by
  induction rest generalizing tags with
  | nil => rw [List.map_nil, keepTags, List.append_nil]
  | cons name rest ih =>
    have hname : IsTagName name := h.names name (List.mem_append_right _ List.mem_cons_self)
    have hroom : tags.length ≠ AI_SUGGESTION_TAGS_MAX := by
      have hfew := h.few
      rw [List.length_append, List.length_cons] at hfew
      omega
    have hnew : ¬ (tags.map toLowerCase).contains (toLowerCase name) = true := by
      have hdistinct := h.distinct
      rw [List.map_append, List.map_cons, List.nodup_append] at hdistinct
      exact fun hmem => hdistinct.2.2 _ (List.contains_iff_mem.mp hmem) _ List.mem_cons_self rfl
    have hnul : ¬ name.contains 0 = true := by
      rw [Bool.not_eq_true, contains_nul]
      exact hname.noNul
    have hwell : ¬ (!isWellFormed name) = true := by
      rw [Bool.not_eq_true, Bool.not_eq_false', isWellFormed_iff]
      exact hname.wellFormed
    have hsplit : tags ++ name :: rest = (tags ++ [name]) ++ rest := by
      rw [List.append_assoc, List.cons_append, List.nil_append]
    rw [List.map_cons, keepTags, if_neg hroom]
    simp only [if_neg hnul, if_neg hwell, hname.normalize, if_neg hnew]
    rw [ih (hsplit ▸ h), ← hsplit]

/-- **What is accepted is within the limits.** -/
theorem checkSuggestion_checked {value : AnswerFields} {result : AiSuggestionResult}
    (h : checkSuggestion toLowerCase value = some result) : Checked toLowerCase result := by
  obtain ⟨title, htitle, h⟩ := Option.bind_eq_some_iff.mp h
  obtain ⟨tags, htags, h⟩ := Option.bind_eq_some_iff.mp h
  obtain ⟨confidence, hconfidence, rfl⟩ := Option.map_eq_some_iff.mp h
  obtain ⟨htrim, hwell, hnul, hlength⟩ := plainTitle_eq_some htitle
  have hkept : Kept toLowerCase tags := by
    unfold plainTags at htags
    split at htags
    · have hnone : Kept toLowerCase [] := ⟨by simp, by simp, by simp⟩
      exact keepTags_kept hnone htags
    · cases htags
  refine ⟨htrim, hwell, hnul, hlength, fun slug hslug => ?_, hkept.names, hkept.few, hkept.distinct, ?_⟩
  · change plainSlug toLowerCase value.slug = some slug at hslug
    unfold plainSlug at hslug
    split at hslug
    · exact (parseSlug_isValid _ hslug).1
    · cases hslug
  · unfold plainConfidence at hconfidence
    split at hconfidence
    · obtain rfl := Option.some.inj hconfidence
      exact ⟨le_min zero_le_one (le_max_left _ _), min_le_left _ _⟩
    · cases hconfidence

theorem slugStart_not_space {u : UInt16} (h : (isSlugStart u || u == 0x2D) = true) : isSpace u = false := by
  rw [← Bool.not_eq_true]
  intro hspace
  simp only [isSlugStart, isSpace, Bool.or_eq_true, Bool.and_eq_true, decide_eq_true_eq, beq_iff_eq, UInt16.le_iff_toNat_le,
    ← UInt16.toNat_inj, UInt16.reduceToNat] at h hspace
  omega

theorem parseSlug_of_valid (hlower : ∀ slug, isValidSlug slug = true → toLowerCase slug = slug) {slug : JsString}
    (h : isValidSlug slug = true) : parseSlug toLowerCase slug = some slug := by
  have htrim : trim slug = slug := by
    refine trim_of_no_space fun u hu => slugStart_not_space ?_
    cases slug with
    | nil => cases hu
    | cons v rest =>
      simp only [isValidSlug, Bool.and_eq_true, List.all_eq_true] at h
      rcases List.mem_cons.mp hu with rfl | hrest
      · rw [h.1.1, Bool.true_or]
      · exact h.1.2 u hrest
  have hnormal : normalizeSlug toLowerCase slug = slug := by rw [normalizeSlug, htrim, hlower slug h]
  rw [parseSlug, hnormal, if_pos h]

/-- **A suggestion within the limits reads back as itself.** -/
theorem checkSuggestion_fieldsOf (hlower : ∀ slug, isValidSlug slug = true → toLowerCase slug = slug)
    {result : AiSuggestionResult} (h : Checked toLowerCase result) :
    checkSuggestion toLowerCase (fieldsOf result) = some result := by
  have hkept : Kept toLowerCase ([] ++ result.tags) := ⟨h.tags, h.few, h.distinct⟩
  have htags : plainTags toLowerCase (fieldsOf result).tags = some result.tags := keepTags_texts hkept
  have hslug : plainSlug toLowerCase (fieldsOf result).slug = result.slug := by
    cases hresult : result.slug with
    | none => simp [fieldsOf, plainSlug, hresult]
    | some slug => simp [fieldsOf, plainSlug, hresult, parseSlug_of_valid hlower (h.slug slug hresult)]
  have hconfidence : plainConfidence (fieldsOf result).confidence = some result.confidence := by
    simp only [fieldsOf, plainConfidence, max_eq_right h.confidence.1, min_eq_right h.confidence.2]
  have htitle : plainTitle (fieldsOf result).title = some result.title := plainTitle_text h.trimmed h.wellFormed h.noNul h.title
  rw [checkSuggestion, htitle, htags, hconfidence, hslug]
  rfl

/-! ## The member's part -/

theorem spellingOf_eq_some {memberTags : List JsString} {key own : JsString}
    (h : spellingOf toLowerCase memberTags key = some own) : own ∈ memberTags ∧ toLowerCase own = key := by
  have hmem := List.mem_of_find?_eq_some h
  have hkey := List.find?_some h
  exact ⟨List.mem_reverse.mp hmem, of_decide_eq_true hkey⟩

theorem spellingOf_eq_none {memberTags : List JsString} {key name : JsString}
    (h : spellingOf toLowerCase memberTags key = none) (hname : name ∈ memberTags) : toLowerCase name ≠ key := by
  intro heq
  exact List.find?_eq_none.mp h name (List.mem_reverse.mpr hname) (decide_eq_true heq)

/-- The member's own spellings and the tags it does not have. -/
structure Split (toLowerCase : JsString → JsString) (memberTags seen : List JsString) (parts : List JsString × List JsString) : Prop where
  distinct : ((parts.1 ++ parts.2).map toLowerCase).Nodup
  fresh : ∀ tag ∈ parts.1 ++ parts.2, toLowerCase tag ∉ seen
  own : ∀ tag ∈ parts.1, tag ∈ memberTags
  created : ∀ tag ∈ parts.2, ∀ name ∈ memberTags, toLowerCase name ≠ toLowerCase tag

theorem ownAndCreated_split (memberTags seen tags : List JsString) :
    Split toLowerCase memberTags seen (ownAndCreated toLowerCase memberTags seen tags) := by
  induction tags generalizing seen with
  | nil => exact ⟨List.nodup_nil, by simp [ownAndCreated], by simp [ownAndCreated], by simp [ownAndCreated]⟩
  | cons tag rest ih =>
    rw [ownAndCreated]
    by_cases hseen : toLowerCase tag ∈ seen
    · rw [if_pos (List.contains_iff_mem.mpr hseen)]
      exact ih seen
    · rw [if_neg fun hcontains => hseen (List.contains_iff_mem.mp hcontains)]
      obtain ⟨hdistinct, hfresh, hown, hcreated⟩ := ih (toLowerCase tag :: seen)
      generalize ownAndCreated toLowerCase memberTags (toLowerCase tag :: seen) rest = others at hdistinct hfresh hown hcreated
      obtain ⟨existing, created⟩ := others
      dsimp only at hdistinct hfresh hown hcreated ⊢
      have hkey : toLowerCase tag ∉ (existing ++ created).map toLowerCase := by
        intro hmem
        obtain ⟨other, hother, heq⟩ := List.mem_map.mp hmem
        exact hfresh other hother (heq ▸ List.mem_cons_self)
      have hothers : ∀ other ∈ existing ++ created, toLowerCase other ∉ seen := fun other hother hmem =>
        hfresh other hother (List.mem_cons_of_mem _ hmem)
      cases hspelling : spellingOf toLowerCase memberTags (toLowerCase tag) with
      | some own =>
        obtain ⟨hmember, hlower⟩ := spellingOf_eq_some hspelling
        refine ⟨?_, ?_, ?_, hcreated⟩
        · rw [List.cons_append, List.map_cons, List.nodup_cons, hlower]
          exact ⟨hkey, hdistinct⟩
        · intro other hother
          rcases List.mem_cons.mp hother with rfl | hother
          · rw [hlower]
            exact hseen
          · exact hothers other hother
        · intro other hother
          rcases List.mem_cons.mp hother with rfl | hother
          · exact hmember
          · exact hown other hother
      | none =>
        refine ⟨?_, ?_, hown, ?_⟩
        · refine ((List.perm_middle (a := tag)).map toLowerCase).nodup_iff.mpr ?_
          rw [List.map_cons, List.nodup_cons]
          exact ⟨hkey, hdistinct⟩
        · intro other hother
          rcases List.mem_cons.mp (List.perm_middle.mem_iff.mp hother) with rfl | hother
          · exact hseen
          · exact hothers other hother
        · intro other hother
          rcases List.mem_cons.mp hother with rfl | hother
          · exact fun name hname => spellingOf_eq_none hspelling hname
          · exact hcreated other hother

/-- **What is answered is the member's own.** -/
theorem forMember_own (store : AiSuggestionStore) {result : AiSuggestionResult} (hchecked : Checked toLowerCase result)
    (memberTags : List JsString) : Own toLowerCase store memberTags (forMember toLowerCase store result memberTags) := by
  have hsplit : Split toLowerCase memberTags [] (ownAndCreated toLowerCase memberTags [] result.tags) :=
    ownAndCreated_split memberTags [] result.tags
  generalize hparts : ownAndCreated toLowerCase memberTags [] result.tags = parts at hsplit
  have htags : (forMember toLowerCase store result memberTags).tags = (parts.1 ++ parts.2).take AI_SUGGESTION_TAGS_MAX := by
    rw [← hparts]
    rfl
  refine ⟨?_, ?_, ?_, ?_⟩
  · rw [htags]
    exact List.length_take_le _ _
  · rw [htags]
    exact hsplit.distinct.sublist ((List.take_sublist _ _).map _)
  · rw [htags]
    rintro tag htag ⟨name, hname, hlower⟩
    rcases List.mem_append.mp (List.mem_of_mem_take htag) with hown | hcreated
    · exact hsplit.own tag hown
    · exact absurd hlower (hsplit.created tag hcreated name hname)
  · intro slug hslug
    change (if result.slug.any store.slugTaken then none else result.slug) = some slug at hslug
    by_cases htaken : result.slug.any store.slugTaken = true
    · rw [if_pos htaken] at hslug
      cases hslug
    · rw [if_neg htaken] at hslug
      rw [hslug, Option.any_some, Bool.not_eq_true] at htaken
      exact ⟨hchecked.slug slug hslug, htaken⟩

/-! ## Requests -/

section

variable {parseUrl : JsString → Option ParsedUrl} {settings : AiSettings} {first second : AiSuggestionStore} {race : Race}
  {ask : AiSuggestionAsk}

theorem served_silent {run : Run} (hasked : run.asked = none) (hstored : run.stored = none)
    (houtcome : ∀ suggestion cached, run.outcome ≠ .suggested suggestion cached) :
    Served toLowerCase parseUrl settings first second race ask run where
  asked request h := by rw [hasked] at h; cases h
  stored entry h := by rw [hstored] at h; cases h
  cached suggestion h := absurd h (houtcome suggestion true)
  fresh suggestion h := absurd h (houtcome suggestion false)

/-- A request that asks the provider when it may. -/
theorem suggestFresh_served {url : BookmarkUrl} (havailable : settings.available = true)
    (hsettings : ∃ availability, first.availability = some availability ∧ availability.workspaceEnabled = true ∧
      availability.memberOptedOut = false)
    (hurl : normalizeBookmarkUrl parseUrl ask.url = .ok url)
    (hmiss : (first.cached url.canonical (toLowerCase (trim ask.locale))).bind (checkSuggestion toLowerCase) = none)
    {request : AiSuggestRequest} (hrequest : request.url = url.canonical) (htags : request.tags = first.tagNames AI_CONTEXT_TAGS_MAX) :
    Served toLowerCase parseUrl settings first second race ask
      (suggestFresh toLowerCase settings second race url.canonical (toLowerCase (trim ask.locale)) request) := by
  have hasked : ∀ request', some request = some request' → settings.available = true ∧
      (∃ availability, first.availability = some availability ∧ availability.workspaceEnabled = true ∧
        availability.memberOptedOut = false) ∧
      ∃ url, normalizeBookmarkUrl parseUrl ask.url = .ok url ∧ request'.url = url.canonical ∧
        request'.tags = first.tagNames AI_CONTEXT_TAGS_MAX ∧
        (first.cached url.canonical (toLowerCase (trim ask.locale))).bind (checkSuggestion toLowerCase) = none := by
    rintro request' heq
    obtain rfl := Option.some.inj heq
    exact ⟨havailable, hsettings, url, hurl, hrequest, htags, hmiss⟩
  unfold suggestFresh
  cases hanswer : askProvider toLowerCase race with
  | none => exact ⟨hasked, fun entry h => (by cases h), fun suggestion h => (by cases h), fun suggestion h => (by cases h)⟩
  | some answered =>
    obtain ⟨fields, rfl, hfields⟩ : ∃ fields, race = .answered fields ∧ checkSuggestion toLowerCase fields = some answered := by
      cases race with
      | answered fields => exact ⟨fields, rfl, hanswer⟩
      | failed => cases hanswer
      | deadline => cases hanswer
    have hchecked := checkSuggestion_checked hfields
    by_cases hmember : second.isMember = true
    · simp only [if_pos hmember]
      refine ⟨hasked, fun entry h => ?_, fun suggestion h => (by cases h), fun suggestion h => ?_⟩
      · obtain rfl := Option.some.inj h
        exact ⟨rfl, hchecked, fields, rfl, hfields⟩
      · cases h
        rw [htags]
        exact ⟨rfl, forMember_own second hchecked _⟩
    · simp only [if_neg hmember]
      exact ⟨hasked, fun entry h => (by cases h), fun suggestion h => (by cases h), fun suggestion h => (by cases h)⟩

end

variable (toLowerCase)

/-- **Suggestions are checked, cached and gated, whatever is answered and found.** -/
theorem suggestWithAi_served (hlower : ∀ slug, isValidSlug slug = true → toLowerCase slug = slug) :
    (∀ value result, checkSuggestion toLowerCase value = some result →
      Checked toLowerCase result ∧ checkSuggestion toLowerCase (fieldsOf result) = some result) ∧
    ∀ parseUrl settings first second race ask, Served toLowerCase parseUrl settings first second race ask
      (suggestWithAi toLowerCase parseUrl settings first second race ask) := by
  refine ⟨fun value result h => ?_, fun parseUrl settings first second race ask => ?_⟩
  · have hchecked := checkSuggestion_checked h
    exact ⟨hchecked, checkSuggestion_fieldsOf hlower hchecked⟩
  · unfold suggestWithAi
    cases havailable : settings.available with
    | false => exact served_silent rfl rfl fun _ _ h => (by cases h)
    | true =>
      cases hsettings : first.availability with
      | none => exact served_silent rfl rfl fun _ _ h => (by cases h)
      | some availability =>
        cases hworkspace : availability.workspaceEnabled with
        | false =>
          simp only [hworkspace]
          exact served_silent rfl rfl fun _ _ h => (by cases h)
        | true =>
          cases hmember : availability.memberOptedOut with
          | true =>
            simp only [hworkspace, hmember]
            exact served_silent rfl rfl fun _ _ h => (by cases h)
          | false =>
            simp only [hworkspace, hmember, Bool.not_true, Bool.false_eq_true, if_false]
            cases hurl : normalizeBookmarkUrl parseUrl ask.url with
            | error reason => exact served_silent rfl rfl fun _ _ h => (by cases h)
            | ok url =>
              dsimp only
              cases hhit : (first.cached url.canonical (toLowerCase (trim ask.locale))).bind (checkSuggestion toLowerCase) with
              | some hit =>
                obtain ⟨fields, -, hfields⟩ := Option.bind_eq_some_iff.mp hhit
                refine ⟨fun _ h => (by cases h), fun _ h => (by cases h), fun suggestion h => ?_, fun _ h => (by cases h)⟩
                cases h
                exact ⟨rfl, rfl, forMember_own first (checkSuggestion_checked hfields) _⟩
              | none =>
                exact suggestFresh_served havailable ⟨availability, hsettings, hworkspace, hmember⟩ hurl hhit rfl rfl

end

/-! ## More names than are read -/

/-- The lower case of a text in ASCII. -/
def asciiLowerCase (s : JsString) : JsString := s.map asciiLower

theorem asciiLowerCase_valid {slug : JsString} (h : isValidSlug slug = true) : asciiLowerCase slug = slug := by
  have hunit : ∀ u, (isSlugStart u || u == 0x2D) = true → asciiLower u = u := by
    intro u hu
    have hlow : ¬ (0x41 ≤ u && u ≤ 0x5A) = true := by
      intro hupper
      simp only [isSlugStart, Bool.or_eq_true, Bool.and_eq_true, decide_eq_true_eq, beq_iff_eq, UInt16.le_iff_toNat_le,
        ← UInt16.toNat_inj, UInt16.reduceToNat] at hu hupper
      omega
    rw [asciiLower, if_neg hlow]
  cases slug with
  | nil => rfl
  | cons u rest =>
    simp only [isValidSlug, Bool.and_eq_true, List.all_eq_true] at h
    have hfirst : asciiLower u = u := hunit u (by rw [h.1.1, Bool.true_or])
    have hrest : rest.map asciiLower = rest := (List.map_congr_left fun v hv => hunit v (h.1.2 v hv)).trans (List.map_id _)
    rw [asciiLowerCase, List.map_cons, hfirst, hrest]

/-- A member with 200 tags before `Zebra`, for whom a suggestion of `zebra` is cached. -/
def manyTags : AiSuggestionStore where
  availability := some { workspaceEnabled := true, memberOptedOut := false }
  tags := (List.range 200).map (fun i => [0x61, UInt16.ofNat (0x61 + i / 20), UInt16.ofNat (0x61 + i % 20)]) ++ [js "Zebra"]
  cached := fun _ _ => some
    { title := some (.text (js "Zoo")), slug := some .null, tags := some (.array [.text (js "zebra")]),
      confidence := some (.number (.finite 1)) }
  slugTaken := fun _ => false
  isMember := true

/-- A request for the page of a zoo. -/
def zooAsk : AiSuggestionAsk where
  url := js "https://zoo.example/"
  locale := js "en"
  title := none
  description := none

def zooUrl : ParsedUrl where
  href := js "https://zoo.example/"
  protocol := js "https:"
  host := js "zoo.example"
  hostname := js "zoo.example"
  pathname := js "/"
  search := []

theorem suggestWithAi_served_zoo :
    Served asciiLowerCase (fun _ => some zooUrl) ⟨true, js "p", js "m"⟩ manyTags manyTags .deadline zooAsk
      (suggestWithAi asciiLowerCase (fun _ => some zooUrl) ⟨true, js "p", js "m"⟩ manyTags manyTags .deadline zooAsk) :=
  (suggestWithAi_served asciiLowerCase fun _ h => asciiLowerCase_valid h).2 _ _ _ _ _ _

theorem suggestWithAi_manyTags :
    ¬ ∀ parseUrl settings first second race ask suggestion cached,
      (suggestWithAi asciiLowerCase parseUrl settings first second race ask).outcome = .suggested suggestion cached →
      ∀ tag ∈ suggestion.tags, ∀ name ∈ first.tags, asciiLowerCase name = asciiLowerCase tag → tag ∈ first.tags := by
  intro h
  have hanswer : (suggestWithAi asciiLowerCase (fun _ => some zooUrl) ⟨true, js "p", js "m"⟩ manyTags manyTags .deadline
      zooAsk).outcome = .suggested ⟨js "Zoo", none, [js "zebra"], 1⟩ true := by decide +kernel
  have hmem := h _ _ _ _ _ _ _ _ hanswer (js "zebra") List.mem_cons_self (js "Zebra")
    (List.mem_append_right _ List.mem_cons_self) (by decide)
  exact absurd hmem (by decide +kernel)

end SlugBase.Ai
