import SlugBase.Import.Plan

/-!
# The import preview

What an import of the file would do, and nothing written.

* `spendRoom`: the bookmarks of the file judged in its order, a duplicate before the room is spent;
* `previewImport`: the limits in the order of the code, then the result that is announced.
-/

namespace SlugBase.Import

open JavaScript Relational

/-- What is asked of a preview and of an import: the file, whether duplicates are left out, and the
workspace's `bookmarks.max` (none: unlimited). -/
structure ImportPreviewAsk where
  file : ImportRequest
  skipDuplicates : Bool
  ceiling : Option ℕ

inductive ImportPreviewOutcome
  | unavailable
  | previewed (result : ImportResult)
  | tooManyNames (newNames : ℕ)
  | tooManyDistinctNames (names : ℕ)
  | tooManyLinks (links : ℕ)
  deriving DecidableEq, Repr

/-- The places left under the workspace's ceiling when `used` bookmarks count; none: no limit. -/
def roomUnder (ceiling : Option ℕ) (used : ℤ) : Option ℕ := ceiling.map fun max : ℕ => ((max : ℤ) - used).toNat

/-- The bookmarks of the file in its order: refused, left out, or given a place while there is room. -/
def spendRoom (skipDuplicates : Bool) (existing : List JsString) :
    (seen : List JsString) → (room : Option ℕ) → List Read → Judged
  | _, _, [] => {}
  | seen, room, .refusal r :: reads =>
    let judged := spendRoom skipDuplicates existing seen room reads
    { judged with failed := ⟨r.entry, r.reason⟩ :: judged.failed }
  | seen, room, .bookmark b :: reads =>
    if isDuplicate skipDuplicates existing seen b then
      let judged := spendRoom skipDuplicates existing (b.canonical :: seen) room reads
      { judged with skipped := ⟨b.entry, .duplicate⟩ :: judged.skipped }
    else
      match room with
      | some 0 =>
        let judged := spendRoom skipDuplicates existing (b.canonical :: seen) (some 0) reads
        { judged with skipped := ⟨b.entry, .bookmarkLimitReached⟩ :: judged.skipped }
      | room =>
        let judged := spendRoom skipDuplicates existing (b.canonical :: seen) (room.map (· - 1)) reads
        { judged with created := b :: judged.created }

section

variable (rt : Runtime) (shelfAt : History)

/-- The canonical URLs of the file that the account has; nothing is asked when duplicates are imported. -/
def existingOf (skipDuplicates : Bool) (reads : List Read) : List JsString :=
  if skipDuplicates then (shelfAt .existingCanonicalUrls).existingCanonicalUrls (canonicalsOf reads) else []

/-- The judgement of the preview: what it announces as created, skipped and failed. -/
def previewJudged (ask : ImportPreviewAsk) (used : ℤ) : Judged :=
  let reads := readsOf rt ask.file
  spendRoom ask.skipDuplicates (existingOf shelfAt ask.skipDuplicates reads) [] (roomUnder ask.ceiling used) reads

/-- The slugs of the created bookmarks, with those the account has asked of the store. -/
def slugPlanOf (created : List ImportBookmark) : SlugPlan :=
  planSlugs ((shelfAt .existingSlugs).existingSlugs (slugsToCheck created)) [] created

/-- What an import of the file would do, and nothing written. -/
def previewImport (ask : ImportPreviewAsk) : Except String ImportPreviewOutcome :=
  match overDistinctNames ask.file with
  | some names => .ok (.tooManyDistinctNames names)
  | none =>
    match (shelfAt .bookmarkCount).bookmarkCount with
    | none => .ok .unavailable
    | some used => do
      let judged := previewJudged rt shelfAt ask used
      let plan := slugPlanOf shelfAt judged.created
      match ← plannedNames rt shelfAt false ask.file judged.created with
      | .tooManyNames newNames => return .tooManyNames newNames
      | .tooManyLinks links => return .tooManyLinks links
      | .within names missing =>
        return .previewed
          { detectedBookmarks := (readsOf rt ask.file).length
            detectedFolders := names.detectedFolders
            detectedTags := names.detectedTags
            created := judged.created.length
            skipped := judged.skipped
            failed := judged.failed
            slugsDropped := plan.dropped.length
            droppedSlugs := plan.dropped
            foldersCreated := missing.folders
            tagsCreated := missing.tags }

end

end SlugBase.Import
