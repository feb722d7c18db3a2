import SlugBase.Import.Names

/-!
# Planning an import

What the preview and the import decide by the same rules: which bookmarks of the file are candidates, which
slugs the created ones keep, and whether their names are within the limits.

* `place`: each bookmark of the file refused, a duplicate or a candidate;
* `planSlugs`: the slugs that are kept and those that are dropped; **`planSlugs_kept`**, `planSlugs_dropped`;
* `plannedNames`: the plan of the names, or the limit it is over.
-/

namespace SlugBase.Import

open JavaScript Relational

/-! ## Reports -/

inductive SkippedReason
  | duplicate
  | bookmarkLimitReached
  deriving DecidableEq, Repr

structure Skipped where
  entry : Entry
  reason : SkippedReason
  deriving DecidableEq, Repr

structure Failed where
  entry : Entry
  reason : ImportRefusalReason
  deriving DecidableEq, Repr

inductive SlugDroppedReason
  | slugInvalid
  | slugConflict
  deriving DecidableEq, Repr

structure DroppedSlug where
  entry : Entry
  slug : JsString
  reason : SlugDroppedReason
  deriving DecidableEq, Repr

/-- What an import answers. -/
structure ImportResult where
  detectedBookmarks : ℕ
  detectedFolders : ℕ
  detectedTags : ℕ
  created : ℕ
  skipped : List Skipped
  failed : List Failed
  slugsDropped : ℕ
  droppedSlugs : List DroppedSlug
  foldersCreated : ℕ
  tagsCreated : ℕ
  deriving DecidableEq, Repr

/-- The created bookmarks of a file and the reports of the others. -/
structure Judged where
  created : List ImportBookmark := []
  skipped : List Skipped := []
  failed : List Failed := []
  deriving DecidableEq, Repr

/-- Every place of the file that the three lists name. -/
def Judged.positions (j : Judged) : List ℕ :=
  j.created.map (·.position) ++ (j.skipped.map (·.entry.position) ++ j.failed.map (·.entry.position))

/-! ## Candidates -/

/-- A bookmark of the file as the import places it. -/
inductive Placed
  | refused (refusal : ImportRefusal)
  | duplicate (bookmark : ImportBookmark)
  | candidate (bookmark : ImportBookmark)
  deriving DecidableEq, Repr

def Placed.position : Placed → ℕ
  | .refused r => r.position
  | .duplicate b => b.position
  | .candidate b => b.position

/-- Whether a bookmark is left out: the account has its canonical URL, or an earlier bookmark of the file. -/
def isDuplicate (skipDuplicates : Bool) (existing seen : List JsString) (b : ImportBookmark) : Bool :=
  skipDuplicates && (existing.contains b.canonical || seen.contains b.canonical)

def place (skipDuplicates : Bool) (existing : List JsString) : (seen : List JsString) → List Read → List Placed
  | _, [] => []
  | seen, .refusal r :: reads => .refused r :: place skipDuplicates existing seen reads
  | seen, .bookmark b :: reads =>
    (if isDuplicate skipDuplicates existing seen b then .duplicate b else .candidate b) ::
      place skipDuplicates existing (b.canonical :: seen) reads

def candidatesOf (placed : List Placed) : List ImportBookmark :=
  placed.filterMap fun item => match item with
    | .candidate b => some b
    | _ => none

theorem place_positions (skipDuplicates : Bool) (existing seen : List JsString) (reads : List Read) :
    (place skipDuplicates existing seen reads).map Placed.position = reads.map Read.position := by
  induction reads generalizing seen with
  | nil => rfl
  | cons read reads ih =>
    cases read with
    | refusal r => simp only [place, List.map_cons, ih, Placed.position, Read.position]
    | bookmark b =>
      simp only [place, List.map_cons, ih, Read.position]
      split_ifs <;> rfl

theorem candidatesOf_positions (placed : List Placed) :
    ((candidatesOf placed).map (·.position)).Sublist (placed.map Placed.position) := by
  induction placed with
  | nil => exact List.Sublist.refl _
  | cons item placed ih =>
    cases item with
    | refused r => exact ih.cons _
    | duplicate b => exact ih.cons _
    | candidate b => exact ih.cons_cons _

/-! ## Slugs -/

/-- What the bookmarks that are created do with their slugs. -/
structure SlugPlan where
  kept : List (ℕ × JsString) := []
  dropped : List DroppedSlug := []
  deriving DecidableEq, Repr

/-- The slugs of `created` that are in the grammar, each once: the ones to ask the store about. -/
def slugsToCheck (created : List ImportBookmark) : List JsString :=
  unique (created.filterMap fun b => match b.slug with
    | .valid slug => some slug
    | _ => none)

/-- Decides which slug each bookmark of `created` keeps: one in the grammar that is not in `existing` and
that no earlier bookmark keeps (`claimed`). -/
def planSlugs (existing : List JsString) : (claimed : List JsString) → List ImportBookmark → SlugPlan
  | _, [] => {}
  | claimed, b :: rest =>
    match b.slug with
    | .none => planSlugs existing claimed rest
    | .invalid text =>
      let plan := planSlugs existing claimed rest
      { plan with dropped := ⟨b.entry, text, .slugInvalid⟩ :: plan.dropped }
    | .valid slug =>
      if existing.contains slug || claimed.contains slug then
        let plan := planSlugs existing claimed rest
        { plan with dropped := ⟨b.entry, slug, .slugConflict⟩ :: plan.dropped }
      else
        let plan := planSlugs existing (slug :: claimed) rest
        { plan with kept := (b.position, slug) :: plan.kept }

/-- **The slugs that are kept** are distinct, new, and each the slug of a created bookmark. -/
theorem planSlugs_kept (existing claimed : List JsString) (created : List ImportBookmark) :
    (((planSlugs existing claimed created).kept.map (·.2)).Nodup) ∧
    (∀ p ∈ (planSlugs existing claimed created).kept, p.2 ∉ existing ∧ p.2 ∉ claimed ∧
      ∃ b ∈ created, b.position = p.1 ∧ b.slug = .valid p.2) ∧
    ((planSlugs existing claimed created).kept.map (·.1)).Sublist (created.map (·.position)) := by
  induction created generalizing claimed with
  | nil => exact ⟨List.nodup_nil, fun p hp => absurd hp List.not_mem_nil, List.Sublist.refl _⟩
  | cons b rest ih =>
    have hrest : ∀ claimed', (∀ s, s ∉ claimed' → s ∉ claimed) →
        ∀ p ∈ (planSlugs existing claimed' rest).kept, p.2 ∉ existing ∧ p.2 ∉ claimed ∧
          ∃ b' ∈ b :: rest, b'.position = p.1 ∧ b'.slug = .valid p.2 := by
      intro claimed' hle p hp
      obtain ⟨hnew, hfree, b', hb', hpos⟩ := (ih claimed').2.1 p hp
      exact ⟨hnew, hle _ hfree, b', List.mem_cons_of_mem _ hb', hpos⟩
    rw [planSlugs]
    split
    · exact ⟨(ih claimed).1, hrest claimed fun _ h => h, (ih claimed).2.2.cons _⟩
    · exact ⟨(ih claimed).1, hrest claimed fun _ h => h, (ih claimed).2.2.cons _⟩
    · rename_i slug hslug
      split_ifs with htaken
      · exact ⟨(ih claimed).1, hrest claimed fun _ h => h, (ih claimed).2.2.cons _⟩
      · simp only [Bool.or_eq_true, List.contains_iff_mem, not_or] at htaken
        refine ⟨?_, ?_, (ih (slug :: claimed)).2.2.cons_cons _⟩
        · rw [List.map_cons, List.nodup_cons]
          refine ⟨fun hmem => ?_, (ih (slug :: claimed)).1⟩
          obtain ⟨p, hp, hps⟩ := List.mem_map.mp hmem
          exact ((ih (slug :: claimed)).2.1 p hp).2.1 (hps ▸ List.mem_cons_self)
        · intro p hp
          rcases List.mem_cons.mp hp with rfl | hp
          · exact ⟨htaken.1, htaken.2, b, List.mem_cons_self, rfl, hslug⟩
          · exact hrest _ (fun _ h hmem => h (List.mem_cons_of_mem _ hmem)) p hp

theorem planSlugs_dropped (existing claimed : List JsString) (created : List ImportBookmark) :
    ((planSlugs existing claimed created).dropped.map (·.entry.position)).Sublist (created.map (·.position)) := by
  induction created generalizing claimed with
  | nil => exact List.Sublist.refl _
  | cons b rest ih =>
    rw [planSlugs]
    split
    · exact (ih claimed).cons _
    · exact (ih claimed).cons_cons _
    · split_ifs
      · exact (ih claimed).cons_cons _
      · exact (ih _).cons _

/-! ## Moments -/

/-- The statements of an import, each of which finds the committed rows of its own moment. -/
inductive Moment
  | existingCanonicalUrls
  | bookmarkCount
  | existingFolderNames (underLock : Bool)
  | existingTagNames (underLock : Bool)
  | takePlaces
  | existingSlugs
  | readFolders (round : ℕ)
  | insertFolders (round : ℕ)
  | readTags (round : ℕ)
  | insertTags (round : ℕ)
  | insertBookmarks (batch : ℕ)
  | insertAgain (batch : ℕ)
  deriving DecidableEq, Repr

/-- The rows that are committed at each moment: other transactions may change them in between. -/
abbrev History := Moment → Shelf

/-- The plan of the names of the created bookmarks, or the limit it is over. -/
inductive PlannedNames
  | within (names : NamePlan) (missing : MissingNames)
  | tooManyNames (newNames : ℕ)
  | tooManyLinks (links : ℕ)
  deriving DecidableEq, Repr

/-- The limits in the order of the code: the new names before the links. -/
def withinLimits (created : List ImportBookmark) (names : NamePlan) (missing : MissingNames) : PlannedNames :=
  match overNewNames missing with
  | some newNames => .tooManyNames newNames
  | none =>
    match overLinks created names with
    | some links => .tooManyLinks links
    | none => .within names missing

def plannedNames (rt : Runtime) (shelfAt : History) (underLock : Bool) (file : ImportRequest)
    (created : List ImportBookmark) : Except String PlannedNames := do
  let names ← planNames rt file created
  return withinLimits created names (missingNames rt (shelfAt (.existingFolderNames underLock)).folders
    (shelfAt (.existingTagNames underLock)).tags names)

theorem withinLimits_within {created : List ImportBookmark} {names names' : NamePlan} {missing missing' : MissingNames}
    (h : withinLimits created names missing = .within names' missing') :
    names' = names ∧ missing' = missing ∧ linksOf created names ≤ importMaxLinks := by
  unfold withinLimits at h
  split at h
  · cases h
  split at h
  · cases h
  rename_i hlinks
  cases h
  refine ⟨rfl, rfl, ?_⟩
  unfold overLinks at hlinks
  split_ifs at hlinks with hmany
  exact Nat.le_of_not_lt hmany

theorem plannedNames_ok (rt : Runtime) (shelfAt : History) (underLock : Bool) (file : ImportRequest)
    (created : List ImportBookmark) :
    ∃ names, planNames rt file created = .ok names ∧ names.Covers rt file created ∧
      plannedNames rt shelfAt underLock file created = .ok (withinLimits created names
        (missingNames rt (shelfAt (.existingFolderNames underLock)).folders
          (shelfAt (.existingTagNames underLock)).tags names)) := by
  obtain ⟨names, hnames, hcovers⟩ := planNames_ok rt file created
  exact ⟨names, hnames, hcovers, by rw [plannedNames, hnames]; rfl⟩

theorem plannedNames_within {rt : Runtime} {shelfAt : History} {underLock : Bool} {file : ImportRequest}
    {created : List ImportBookmark} {names : NamePlan} {missing : MissingNames}
    (h : plannedNames rt shelfAt underLock file created = .ok (.within names missing)) :
    names.Covers rt file created ∧ linksOf created names ≤ importMaxLinks := by
  obtain ⟨plan, -, hcovers, hplanned⟩ := plannedNames_ok rt shelfAt underLock file created
  obtain ⟨rfl, -, hlinks⟩ := withinLimits_within (Except.ok.inj (hplanned.symm.trans h))
  exact ⟨hcovers, hlinks⟩

end SlugBase.Import
