import SlugBase.Import.Exact

/-!
# What the plans of an import promise

The slugs that are kept and dropped, and the names that the import makes sure of.

* **`mem_kept`**, **`mem_dropped`**: a slug is kept by its first claimant, and dropped for a reason;
* **`nameSet_first`**: the wanted spelling of a name is the first that is met;
* **`plans_sound`**: all of it, for every file, every list of created bookmarks and every store.
-/

namespace SlugBase.Import

open JavaScript Relational

/-! ## First claimants -/

section

variable {α : Type}

/-- The splits of a list at an element, of a list with one more element. -/
theorem exists_split_cons {x : α} {rest : List α} {p : List α → α → Prop} :
    (∃ before b after, x :: rest = before ++ b :: after ∧ p before b) ↔
      p [] x ∨ ∃ before b after, rest = before ++ b :: after ∧ p (x :: before) b := by
  constructor
  · rintro ⟨before, b, after, hsplit, hp⟩
    cases before with
    | nil =>
      rw [List.nil_append, List.cons.injEq] at hsplit
      exact .inl (hsplit.1 ▸ hp)
    | cons y before =>
      rw [List.cons_append, List.cons.injEq] at hsplit
      exact .inr ⟨before, b, after, hsplit.2, hsplit.1 ▸ hp⟩
  · rintro (hp | ⟨before, b, after, hsplit, hp⟩)
    · exact ⟨[], x, rest, rfl, hp⟩
    · exact ⟨x :: before, b, after, by rw [hsplit, List.cons_append], hp⟩

theorem exists_first {p : α → Bool} {l : List α} (h : ∃ x ∈ l, p x = true) :
    ∃ before x after, l = before ++ x :: after ∧ p x = true ∧ ∀ y ∈ before, p y = false := by
  have hsome : (l.find? p).isSome = true := by
    rw [List.find?_isSome]
    exact h
  obtain ⟨x, hx⟩ := Option.isSome_iff_exists.mp hsome
  rw [List.find?_eq_some_iff_append] at hx
  obtain ⟨hp, before, after, hsplit, hbefore⟩ := hx
  exact ⟨before, x, after, hsplit, hp, fun y hy => by simpa using hbefore y hy⟩

end

/-! ## Slugs -/

section

variable {existing claimed : List JsString} {created : List ImportBookmark}

/-- Whether a slug is held, is claimed or is that of an earlier bookmark. -/
def Taken (existing claimed : List JsString) (before : List ImportBookmark) (slug : JsString) : Prop :=
  slug ∈ existing ∨ slug ∈ claimed ∨ ∃ b ∈ before, b.slug = .valid slug

theorem taken_cons {first : ImportBookmark} {before : List ImportBookmark} {slug : JsString} :
    Taken existing claimed (first :: before) slug ↔ first.slug = .valid slug ∨ Taken existing claimed before slug := by
  simp only [Taken, List.exists_mem_cons_iff]
  tauto

theorem taken_claim {before : List ImportBookmark} {slug other : JsString} :
    Taken existing (slug :: claimed) before other ↔ other = slug ∨ Taken existing claimed before other := by
  simp only [Taken, List.mem_cons]
  tauto

/-- **A slug is kept by the first bookmark that has it**, unless it is held already. -/
theorem mem_kept {p : ℕ × JsString} : p ∈ (planSlugs existing claimed created).kept ↔
    ∃ before b after, created = before ++ b :: after ∧ b.slug = .valid p.2 ∧ b.position = p.1 ∧
      ¬ Taken existing claimed before p.2 := by
  induction created generalizing claimed with
  | nil => simp [planSlugs]
  | cons first rest ih =>
    rw [exists_split_cons, planSlugs]
    cases hslug : first.slug with
    | none =>
      simp only [ih, taken_cons, hslug, reduceCtorEq, false_and, false_or]
    | invalid text =>
      simp only [ih, taken_cons, hslug, reduceCtorEq, false_and, false_or]
    | valid slug =>
      simp only [taken_cons, hslug, FileSlug.valid.injEq]
      split_ifs with htaken
      · rw [Bool.or_eq_true, List.contains_iff_mem, List.contains_iff_mem] at htaken
        rw [ih]
        constructor
        · rintro ⟨before, b, after, hsplit, hb, hposition, hfree⟩
          refine .inr ⟨before, b, after, hsplit, hb, hposition, ?_⟩
          rintro (rfl | hbefore)
          · exact hfree (htaken.elim .inl fun h => .inr (.inl h))
          · exact hfree hbefore
        · rintro (⟨rfl, -, hfree⟩ | ⟨before, b, after, hsplit, hb, hposition, hfree⟩)
          · exact absurd (htaken.elim .inl fun h => .inr (.inl h)) hfree
          · exact ⟨before, b, after, hsplit, hb, hposition, fun h => hfree (.inr h)⟩
      · rw [Bool.or_eq_true, List.contains_iff_mem, List.contains_iff_mem, not_or] at htaken
        rw [List.mem_cons, ih]
        simp only [taken_claim]
        refine or_congr ?_ ?_
        · constructor
          · rintro rfl
            refine ⟨rfl, rfl, ?_⟩
            rintro (h | h | ⟨b, hb, -⟩)
            · exact htaken.1 h
            · exact htaken.2 h
            · cases hb
          · rintro ⟨rfl, hposition, -⟩
            exact Prod.ext hposition.symm rfl
        · simp only [eq_comm]

/-- **A slug is dropped for a reason**: it is outside the grammar, or it is held, or an earlier bookmark has it. -/
theorem mem_dropped {d : DroppedSlug} : d ∈ (planSlugs existing claimed created).dropped ↔
    ∃ before b after, created = before ++ b :: after ∧
      ((∃ text, b.slug = .invalid text ∧ d = ⟨b.entry, text, .slugInvalid⟩) ∨
        ∃ slug, b.slug = .valid slug ∧ d = ⟨b.entry, slug, .slugConflict⟩ ∧ Taken existing claimed before slug) := by
  induction created generalizing claimed with
  | nil => simp [planSlugs]
  | cons first rest ih =>
    rw [exists_split_cons, planSlugs]
    cases hslug : first.slug with
    | none =>
      simp only [ih, taken_cons, hslug, reduceCtorEq, false_and, exists_false, false_or]
    | invalid text =>
      simp only [List.mem_cons, ih, taken_cons, hslug, reduceCtorEq, false_and, exists_false, false_or, or_false,
        FileSlug.invalid.injEq, exists_eq_left']
    | valid slug =>
      simp only [taken_cons, hslug, FileSlug.valid.injEq, reduceCtorEq, false_and, exists_false, false_or, exists_eq_left']
      split_ifs with htaken
      · rw [Bool.or_eq_true, List.contains_iff_mem, List.contains_iff_mem] at htaken
        have htaken' : ∀ before, Taken existing claimed before slug :=
          fun _ => htaken.elim .inl fun h => .inr (.inl h)
        have hsame : ∀ before other, Taken existing claimed before other ↔ slug = other ∨ Taken existing claimed before other :=
          fun before other => ⟨.inr, fun h => h.elim (fun heq => heq ▸ htaken' before) id⟩
        simp only [List.mem_cons, ih, htaken' [], and_true]
        refine or_congr Iff.rfl ?_
        simp only [← hsame]
      · rw [Bool.or_eq_true, List.contains_iff_mem, List.contains_iff_mem, not_or] at htaken
        have hfree : ¬ Taken existing claimed [] slug := by
          rintro (h | h | ⟨b, hb, -⟩)
          · exact htaken.1 h
          · exact htaken.2 h
          · cases hb
        simp only [ih, taken_claim, hfree, and_false, false_or]
        simp only [eq_comm]

theorem kept_of_valid {b : ImportBookmark} {slug : JsString} (hb : b ∈ created) (hslug : b.slug = .valid slug)
    (hnew : slug ∉ existing) : ∃ before first after, created = before ++ first :: after ∧ first.slug = .valid slug ∧
      (∀ b ∈ before, b.slug ≠ .valid slug) ∧ (first.position, slug) ∈ (planSlugs existing [] created).kept := by
  obtain ⟨before, first, after, hsplit, hfirst, hbefore⟩ :=
    exists_first (p := fun b : ImportBookmark => decide (b.slug = .valid slug)) ⟨b, hb, decide_eq_true hslug⟩
  have hnone : ∀ b ∈ before, b.slug ≠ .valid slug := fun b hb => of_decide_eq_false (hbefore b hb)
  refine ⟨before, first, after, hsplit, of_decide_eq_true hfirst, hnone, mem_kept.mpr ?_⟩
  refine ⟨before, first, after, hsplit, of_decide_eq_true hfirst, rfl, ?_⟩
  rintro (h | h | ⟨b, hb, hb'⟩)
  · exact hnew h
  · cases h
  · exact hnone b hb hb'

end

/-! ## Names -/

section

variable {α : Type} [DecidableEq α]

theorem find?_unique (p : α → Bool) (l : List α) : (unique l).find? p = l.find? p := by
  induction l with
  | nil => rfl
  | cons x rest ih =>
    rw [unique, distinctOn, List.find?_cons, List.find?_cons, List.find?_filter]
    cases hx : p x with
    | true => rfl
    | false =>
      dsimp only
      rw [← ih, unique]
      congr 1
      funext y
      by_cases hy : y = x
      · simp [hy, hx]
      · simp [hy]

end

variable {rt : Runtime}

/-- **The wanted spelling of a name is the first that is met**, of those that are listed and those that are used. -/
theorem nameSet_first {listed used rest : List JsString} {s : NameSet} (h : nameSet rt listed used rest = .ok s) {w : JsString}
    (hw : w ∈ s.wanted) : (listed ++ used).find? (fun n => decide (rt.citext n = rt.citext w)) = some w := by
  obtain ⟨wantedSpellings, hwanted⟩ : ∃ l, l = unique (listed ++ used) := ⟨_, rfl⟩
  obtain ⟨spellings, hspellings⟩ : ∃ l, l = unique (wantedSpellings ++ rest) := ⟨_, rfl⟩
  simp only [nameSet, ← hwanted, ← hspellings, isFirstSame_firstPlaces, Bool.not_true, Bool.false_eq_true, if_false] at h
  split_ifs at h with hnil
  · cases h
    cases hw
  · cases h
    simp only [List.mem_map, List.mem_filter, decide_eq_true_eq, Prod.exists, mem_numbered] at hw
    obtain ⟨n, p, i, ⟨⟨⟨hn, rfl⟩, hlt⟩, hplace⟩, rfl⟩ := hw
    obtain ⟨t, ht⟩ : wantedSpellings <+: spellings :=
      hspellings ▸ prefix_unique_append (hwanted ▸ unique_nodup _) rest
    rw [← find?_unique, ← hwanted]
    have hget : wantedSpellings[firstPlace rt.citext spellings n]? = some n := by
      have hfirst := @List.getElem?_append_left _ wantedSpellings t _ hlt
      rw [← hfirst, ht, hplace]
      exact hn
    refine List.find?_eq_some_iff_getElem.mpr ⟨decide_eq_true rfl, firstPlace rt.citext spellings n, ?_, ?_, ?_⟩
    · exact hlt
    · exact Option.some.inj ((List.getElem?_eq_getElem _).symm.trans hget)
    · intro j hj
      have hj' : j < spellings.length := by
        rw [← ht, List.length_append]
        omega
      have hno : ¬ decide (rt.citext spellings[j] = rt.citext n) = true := by
        simpa using List.not_of_lt_findIdx hj
      have hwanted' : j < wantedSpellings.length := hj.trans hlt
      have hsame : spellings[j] = wantedSpellings[j] := by
        simp only [← ht, List.getElem_append_left hwanted']
      rw [← hsame]
      simpa using hno

/-! ## The plans -/

/-- What the slugs of an import promise: those that are kept are distinct and new, each kept by the first bookmark that has
it, and one is dropped that is outside the grammar, that is held, or that an earlier bookmark keeps. -/
structure SlugPlan.Sound (existing : List JsString) (created : List ImportBookmark) (plan : SlugPlan) : Prop where
  distinct : (plan.kept.map (·.2)).Nodup
  new : ∀ p ∈ plan.kept, p.2 ∉ existing
  kept : ∀ p, p ∈ plan.kept ↔ ∃ before b after, created = before ++ b :: after ∧ b.slug = .valid p.2 ∧ b.position = p.1 ∧
    p.2 ∉ existing ∧ ∀ earlier ∈ before, earlier.slug ≠ .valid p.2
  dropped : ∀ d, d ∈ plan.dropped ↔ ∃ before b after, created = before ++ b :: after ∧
    ((∃ text, b.slug = .invalid text ∧ d = ⟨b.entry, text, .slugInvalid⟩) ∨
      ∃ slug, b.slug = .valid slug ∧ d = ⟨b.entry, slug, .slugConflict⟩ ∧
        (slug ∈ existing ∨ ∃ first ∈ before, first.slug = .valid slug ∧ (first.position, slug) ∈ plan.kept))

/-- What the names of one kind promise: each spelling, listed or of a created bookmark, stands for a wanted name that is the
same name, no two wanted names are one, each is the first spelling that is met, and those the import creates are those that
no row has. -/
structure NamesSound (rt : Runtime) (listed used wanted : List JsString) (spelledAs : List (JsString × JsString)) : Prop where
  resolved : ∀ n ∈ listed ++ used, ∃ w ∈ wanted, spelledAs.lookup n = some w ∧ rt.citext w = rt.citext n
  distinct : wanted.Pairwise fun m n => rt.citext m ≠ rt.citext n
  first : ∀ w ∈ wanted, ∃ before after, listed ++ used = before ++ w :: after ∧ ∀ n ∈ before, rt.citext n ≠ rt.citext w
  missing : ∀ rows w, w ∈ missingIn rt rows wanted ↔ w ∈ wanted ∧ ∀ row ∈ rows, rt.citext row.name ≠ rt.citext w

theorem planSlugs_sound (existing : List JsString) (created : List ImportBookmark) :
    (planSlugs existing [] created).Sound existing created := by
  have hkept : ∀ p, p ∈ (planSlugs existing [] created).kept ↔ ∃ before b after, created = before ++ b :: after ∧
      b.slug = .valid p.2 ∧ b.position = p.1 ∧ p.2 ∉ existing ∧ ∀ earlier ∈ before, earlier.slug ≠ .valid p.2 := by
    intro p
    rw [mem_kept]
    simp only [Taken, List.not_mem_nil, false_or, not_or, not_exists, not_and]
  refine ⟨(planSlugs_kept existing [] created).1, fun p hp => ((planSlugs_kept existing [] created).2.1 p hp).1, hkept, ?_⟩
  intro d
  rw [mem_dropped]
  simp only [Taken, List.not_mem_nil, false_or]
  constructor
  · rintro ⟨before, b, after, hsplit, hinvalid | ⟨slug, hslug, hd, htaken⟩⟩
    · exact ⟨before, b, after, hsplit, .inl hinvalid⟩
    · refine ⟨before, b, after, hsplit, .inr ⟨slug, hslug, hd, ?_⟩⟩
      by_cases hnew : slug ∈ existing
      · exact .inl hnew
      · obtain ⟨other, hother, hotherSlug⟩ := htaken.resolve_left hnew
        obtain ⟨earlier, first, later, hfirst, hfirstSlug, hnone, -⟩ := kept_of_valid hother hotherSlug hnew
        refine .inr ⟨first, ?_, hfirstSlug, (hkept _).mpr ⟨earlier, first, later ++ b :: after, ?_, hfirstSlug, rfl, hnew, hnone⟩⟩
        · rw [hfirst]
          exact List.mem_append_right _ List.mem_cons_self
        · rw [hsplit, hfirst, List.append_assoc, List.cons_append]
  · rintro ⟨before, b, after, hsplit, hinvalid | ⟨slug, hslug, hd, htaken⟩⟩
    · exact ⟨before, b, after, hsplit, .inl hinvalid⟩
    · exact ⟨before, b, after, hsplit, .inr ⟨slug, hslug, hd, htaken.imp id fun ⟨first, hmem, hfirst, _⟩ => ⟨first, hmem, hfirst⟩⟩⟩

theorem namesSound_of_covers {listed used rest : List JsString} {s : NameSet} (h : nameSet rt listed used rest = .ok s)
    (hcovers : s.Covers rt (listed ++ used)) : NamesSound rt listed used s.wanted s.spelledAs := by
  refine ⟨hcovers.spelled, hcovers.distinct, fun w hw => ?_, fun rows w => ?_⟩
  · have hfirst := nameSet_first h hw
    rw [List.find?_eq_some_iff_append] at hfirst
    obtain ⟨-, before, after, hsplit, hbefore⟩ := hfirst
    exact ⟨before, after, hsplit, fun n hn => by simpa using hbefore n hn⟩
  · rw [missingIn_eq, List.mem_filter, Bool.not_eq_true', List.any_eq_false]
    simp only [beq_iff_eq]

/-- **The plans of an import are sound**, for every file, every list of created bookmarks, every set of slugs that are held
and every store. -/
theorem plans_sound (rt : Runtime) (file : ImportRequest) (existing : List JsString) (created : List ImportBookmark) :
    (planSlugs existing [] created).Sound existing created ∧
    ∃ plan, planNames rt file created = .ok plan ∧
      NamesSound rt (file.wantedFolders.map (·.name)) (created.flatMap (·.folders)) (plan.folders.map (·.name)) plan.folderOf ∧
      NamesSound rt file.wantedTags (created.flatMap (·.tags)) plan.tags plan.tagOf := by
  refine ⟨planSlugs_sound existing created, ?_⟩
  obtain ⟨folders, hfolders, hfolderNames⟩ := nameSet_ok rt (file.wantedFolders.map (·.name)) (created.flatMap (·.folders))
    (file.bookmarksOfFile.flatMap fun entry => cleanNames entry.folders folderNameMaxLength)
  obtain ⟨tags, htags, htagNames⟩ := nameSet_ok rt file.wantedTags (created.flatMap (·.tags))
    (file.bookmarksOfFile.flatMap fun entry => cleanNames entry.tags tagNameMaxLength)
  obtain ⟨plan, hplan, hcovers⟩ := planNames_ok rt file created
  refine ⟨plan, hplan, ?_, ?_⟩
  · have hsound := namesSound_of_covers hfolders hfolderNames
    rw [planNames, hfolders, htags] at hplan
    cases hplan
    rw [names_wantedFolders]
    exact hsound
  · have hsound := namesSound_of_covers htags htagNames
    rw [planNames, hfolders, htags] at hplan
    cases hplan
    exact hsound

/-- A document that lists one folder. -/
def oneFolder : ImportRequest := ⟨some { folders := some [{ name := js "F" }] }, [], by decide⟩

/-- A bookmark whose slug is outside the grammar. -/
def slugOutside : ImportBookmark := ⟨1, js "http://a/", js "http://a/", js "a", js "a", none, false, .invalid (js "?"), false, [], []⟩

theorem plans_wantExisting :
    (∃ plan, planNames plainRuntime oneFolder [] = .ok plan ∧ plan.folders.map (·.name) = [js "F"] ∧
      existingNames plainRuntime [⟨1, js "f"⟩] (plan.folders.map (·.name)) = [js "F"]) ∧
    (planSlugs [] [] [slugOutside]).dropped.map (·.reason) = [.slugInvalid] :=
  ⟨⟨_, rfl, rfl, rfl⟩, rfl⟩

end SlugBase.Import
