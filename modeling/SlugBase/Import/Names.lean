import SlugBase.Import.Store

/-!
# The folders and tags an import makes sure of

Which spellings are one name is the database's to say: the names of a file are never folded here.

* `nameSet`, `planNames`: one wanted name for each name the database tells apart, the first spelling
  standing, and the wanted spelling of every spelling;
* **`nameSet_ok`**: the names to make sure of are distinct names, each of a listed or a used spelling, and
  every listed or used spelling stands for one of them;
* `planNames`: the plan of a file and the bookmarks that are created; **`planNames_ok`**;
* `missingNames`, `overNewNames`, `overLinks`: what the plan would create, against its limits.
-/

namespace SlugBase.Import

open JavaScript Relational

/-! ## The names of one kind -/

/-- The names of one kind that the import deals with. -/
structure NameSet where
  wanted : List JsString
  spelledAs : List (JsString × JsString)
  distinct : ℕ
  deriving DecidableEq, Repr

/-- Whether an answer to `firstSameNames` is one: places of earlier names that are their own first. -/
def isFirstSame (first : List ℕ) (n : ℕ) : Bool :=
  first.length == n && first.zipIdx.all fun p => p.1 ≤ p.2 && first[p.1]? == some p.1

/-- Asks the database which of the file's spellings are one name. -/
def nameSet (rt : Runtime) (listed used rest : List JsString) : Except String NameSet :=
  let wantedSpellings := unique (listed ++ used)
  let spellings := unique (wantedSpellings ++ rest)
  if spellings = [] then .ok ⟨[], [], 0⟩
  else
    let first := firstPlaces rt.citext spellings
    if !isFirstSame first spellings.length then .error "the store did not answer which names are the same"
    else
      let named := (spellings.zip first).zipIdx.filter fun p => p.1.2 < wantedSpellings.length
      .ok
        { wanted := (named.filter fun p => p.1.2 = p.2).map (·.1.1)
          spelledAs := named.map fun p => (p.1.1, spellings.getD p.1.2 p.1.1)
          distinct := (first.zipIdx.filter fun p => p.1 = p.2).length }

/-- The wanted names are distinct names of the asked spellings, and every spelling stands for one. -/
structure NameSet.Covers (rt : Runtime) (s : NameSet) (spellings : List JsString) : Prop where
  distinct : s.wanted.Pairwise fun m n => rt.citext m ≠ rt.citext n
  asked : ∀ n ∈ s.wanted, n ∈ spellings
  spelled : ∀ n ∈ spellings, ∃ m ∈ s.wanted, s.spelledAs.lookup n = some m ∧ rt.citext m = rt.citext n

section

variable {rt : Runtime}

theorem firstPlaces_getElem? {l : List JsString} {i p : ℕ} (h : (firstPlaces rt.citext l)[i]? = some p) :
    ∃ x, l[i]? = some x ∧ p = firstPlace rt.citext l x := by
  simp only [firstPlaces, List.getElem?_map, Option.map_eq_some_iff] at h
  obtain ⟨x, hx, rfl⟩ := h
  exact ⟨x, hx, rfl⟩

theorem isFirstSame_firstPlaces (l : List JsString) : isFirstSame (firstPlaces rt.citext l) l.length = true := by
  have hlength : (firstPlaces rt.citext l).length = l.length := List.length_map _
  simp only [isFirstSame, hlength, BEq.rfl, Bool.true_and, List.all_eq_true, Bool.and_eq_true,
    decide_eq_true_eq, beq_iff_eq, Prod.forall]
  intro p i hp
  obtain ⟨x, hx, rfl⟩ := firstPlaces_getElem? (List.mem_zipIdx_iff_getElem?.mp hp)
  have hspec : ∃ y, l[firstPlace rt.citext l x]? = some y ∧ rt.citext y = rt.citext x ∧
      firstPlace rt.citext l y = firstPlace rt.citext l x := firstPlace_spec (List.mem_of_getElem? hx)
  obtain ⟨y, hy, -, hplace⟩ := hspec
  refine ⟨firstPlace_le hx, ?_⟩
  rw [firstPlaces, List.getElem?_map, hy, Option.map_some, hplace]

theorem mem_numbered {l : List JsString} {n : JsString} {p i : ℕ} :
    ((n, p), i) ∈ (l.zip (firstPlaces rt.citext l)).zipIdx ↔ l[i]? = some n ∧ p = firstPlace rt.citext l n := by
  rw [List.mem_zipIdx_iff_getElem?, List.getElem?_zip_eq_some]
  constructor
  · rintro ⟨hn, hp⟩
    obtain ⟨x, hx, hplace⟩ := firstPlaces_getElem? hp
    have hxn : n = x := Option.some.inj (hn.symm.trans hx)
    exact ⟨hn, hxn ▸ hplace⟩
  · rintro ⟨hn, rfl⟩
    exact ⟨hn, by rw [firstPlaces, List.getElem?_map, hn, Option.map_some]⟩

theorem numbered_sublist (l : List JsString) (q : (JsString × ℕ) × ℕ → Bool) :
    ((((l.zip (firstPlaces rt.citext l)).zipIdx).filter q).map (·.1.1)).Sublist l := by
  have hall : ((l.zip (firstPlaces rt.citext l)).zipIdx).map (·.1.1) = l := by
    have hcomp : (fun p : (JsString × ℕ) × ℕ => p.1.1) = Prod.fst ∘ Prod.fst := rfl
    rw [hcomp, ← List.map_map, List.zipIdx_map_fst, List.map_fst_zip]
    rw [firstPlaces, List.length_map]
  calc ((((l.zip (firstPlaces rt.citext l)).zipIdx).filter q).map (·.1.1)).Sublist
        (((l.zip (firstPlaces rt.citext l)).zipIdx).map (·.1.1)) := List.filter_sublist.map _
    _ = l := hall

/-- **The plan of one kind of names** is made of whatever names, and covers the listed and the used ones. -/
theorem nameSet_ok (rt : Runtime) (listed used rest : List JsString) :
    ∃ s, nameSet rt listed used rest = .ok s ∧ s.Covers rt (listed ++ used) := by
  obtain ⟨wantedSpellings, hw⟩ : ∃ l, l = unique (listed ++ used) := ⟨_, rfl⟩
  obtain ⟨spellings, hs⟩ : ∃ l, l = unique (wantedSpellings ++ rest) := ⟨_, rfl⟩
  have hmem : ∀ n, n ∈ wantedSpellings ↔ n ∈ listed ++ used := fun n => hw ▸ mem_unique
  have hnodup : spellings.Nodup := hs ▸ unique_nodup _
  have hfront : ∀ i n, i < wantedSpellings.length → (spellings[i]? = some n ↔ wantedSpellings[i]? = some n) := by
    obtain ⟨t, ht⟩ : wantedSpellings <+: spellings := hs ▸ prefix_unique_append (hw ▸ unique_nodup _) rest
    intro i n hi
    rw [← ht, List.getElem?_append_left hi]
  simp only [nameSet, ← hw, ← hs, isFirstSame_firstPlaces, Bool.not_true, Bool.false_eq_true, if_false]
  by_cases hnil : spellings = []
  · rw [if_pos hnil]
    refine ⟨_, rfl, List.Pairwise.nil, fun n hn => absurd hn List.not_mem_nil, fun n hn => ?_⟩
    obtain ⟨i, hi, hin⟩ := List.mem_iff_getElem.mp ((hmem n).mpr hn)
    have hget := (hfront i n hi).mpr (hin ▸ List.getElem?_eq_getElem hi)
    rw [hnil] at hget
    cases hget
  rw [if_neg hnil]
  refine ⟨_, rfl, ?_, ?_, ?_⟩
  · -- two wanted spellings of one name have one first place
    refine List.Nodup.pairwise_of_forall_ne ?_ ?_
    · rw [List.filter_filter]
      exact (numbered_sublist spellings _).nodup hnodup
    · intro m hm n hn hne hfold
      simp only [List.mem_map, List.mem_filter, decide_eq_true_eq, Prod.exists, mem_numbered] at hm hn
      obtain ⟨m, p, i, ⟨⟨⟨hm, rfl⟩, -⟩, rfl⟩, rfl⟩ := hm
      obtain ⟨n, q, j, ⟨⟨⟨hn, rfl⟩, -⟩, rfl⟩, rfl⟩ := hn
      rw [firstPlace_congr hfold] at hm
      exact hne (Option.some.inj (hm.symm.trans hn))
  · intro n hn
    simp only [List.mem_map, List.mem_filter, decide_eq_true_eq, Prod.exists, mem_numbered] at hn
    obtain ⟨n, p, i, ⟨⟨⟨hn, rfl⟩, hlt⟩, rfl⟩, rfl⟩ := hn
    exact (hmem n).mp (List.mem_of_getElem? ((hfront _ n hlt).mp hn))
  · intro n hn
    obtain ⟨i, hi, hin⟩ := List.mem_iff_getElem.mp ((hmem n).mpr hn)
    have hget := (hfront i n hi).mpr (hin ▸ List.getElem?_eq_getElem hi)
    have hlt : firstPlace rt.citext spellings n < wantedSpellings.length :=
      Nat.lt_of_le_of_lt (firstPlace_le hget) hi
    have hspec : ∃ y, spellings[firstPlace rt.citext spellings n]? = some y ∧ rt.citext y = rt.citext n ∧
        firstPlace rt.citext spellings y = firstPlace rt.citext spellings n :=
      firstPlace_spec (List.mem_of_getElem? hget)
    obtain ⟨m, hm, hfold, hplace⟩ := hspec
    refine ⟨m, ?_, ?_, hfold⟩
    · simp only [List.mem_map, List.mem_filter, decide_eq_true_eq, Prod.exists, mem_numbered]
      exact ⟨m, _, _, ⟨⟨⟨hm, hplace.symm⟩, hlt⟩, rfl⟩, rfl⟩
    · refine lookup_of_mem ?_ ?_
      · rw [List.map_map]
        exact (numbered_sublist spellings _).nodup hnodup
      · simp only [List.mem_map, List.mem_filter, decide_eq_true_eq, Prod.exists, mem_numbered]
        refine ⟨n, _, i, ⟨⟨hget, rfl⟩, hlt⟩, ?_⟩
        rw [List.getD_eq_getElem?_getD, hm, Option.getD_some]

end

/-! ## The plan -/

/-- A folder the import makes sure the account has. -/
structure WantedFolder where
  name : JsString
  icon : JsString
  color : ℤ
  deriving DecidableEq, Repr

def iconOf (icon : Option JsString) : JsString :=
  match icon with
  | some i => if i ∈ folderIcons then i else folderDefaultIcon
  | none => folderDefaultIcon

def colorOf (color : Option ℤ) : ℤ :=
  match color with
  | some c => if folderColorMin ≤ c ∧ c ≤ folderColorMax then c else folderDefaultColor
  | none => folderDefaultColor

/-- What the import does with the names of the file's folders and tags. -/
structure NamePlan where
  folders : List WantedFolder
  tags : List JsString
  folderOf : List (JsString × JsString)
  tagOf : List (JsString × JsString)
  detectedFolders : ℕ
  detectedTags : ℕ
  deriving DecidableEq, Repr

namespace ImportRequest

variable (file : ImportRequest)

/-- The folders the document lists, the first of each spelling. -/
def wantedFolders : List WantedFolder :=
  distinctOn WantedFolder.name
    ((file.listedFolders.map fun f => ⟨cleanText f.name folderNameMaxLength, iconOf f.icon, colorOf f.color⟩).filter
      (·.name ≠ []))

/-- The tags the document lists, each spelling once. -/
def wantedTags : List JsString :=
  unique ((file.listedTags.map (cleanText · tagNameMaxLength)).filter (· ≠ []))

end ImportRequest

/-- The folders and tags the import makes sure the account has: those the file lists, then those of the
bookmarks that are created. -/
def planNames (rt : Runtime) (file : ImportRequest) (created : List ImportBookmark) : Except String NamePlan := do
  let listed := file.wantedFolders
  let folders ← nameSet rt (listed.map (·.name)) (created.flatMap (·.folders))
    (file.bookmarksOfFile.flatMap fun entry => cleanNames entry.folders folderNameMaxLength)
  let tags ← nameSet rt file.wantedTags (created.flatMap (·.tags))
    (file.bookmarksOfFile.flatMap fun entry => cleanNames entry.tags tagNameMaxLength)
  return {
    folders := folders.wanted.map fun name =>
      (listed.find? (·.name == name)).getD ⟨name, folderDefaultIcon, folderDefaultColor⟩
    tags := tags.wanted
    folderOf := folders.spelledAs
    tagOf := tags.spelledAs
    detectedFolders := folders.distinct
    detectedTags := tags.distinct }

/-- How many of the wanted folders and tags the account does not have: the ones the import creates. -/
structure MissingNames where
  folders : ℕ
  tags : ℕ
  deriving DecidableEq, Repr

/-- The wanted names that `rows` do not hold. -/
def missingIn (rt : Runtime) (rows : List NamedRow) (names : List JsString) : List JsString :=
  names.filter fun n => !(existingNames rt rows names).contains n

def missingNames (rt : Runtime) (folders tags : List NamedRow) (names : NamePlan) : MissingNames :=
  ⟨(missingIn rt folders (names.folders.map (·.name))).length, (missingIn rt tags names.tags).length⟩

/-- The new folders and tags together when they are more than one import may create. -/
def overNewNames (missing : MissingNames) : Option ℕ :=
  let total := missing.folders + missing.tags
  if total > importMaxNewNames then some total else none

/-- The names of one kind that a bookmark is linked by, spellings of one name once. -/
def linkedNames (spelledAs : List (JsString × JsString)) (names : List JsString) : List JsString :=
  unique (names.map fun name => (spelledAs.lookup name).getD name)

/-- The links of `created` to folders and tags. -/
def linksOf (created : List ImportBookmark) (names : NamePlan) : ℕ :=
  total (fun b => (linkedNames names.folderOf b.folders).length + (linkedNames names.tagOf b.tags).length) created

/-- The folder and tag links together when `created` would make more than one import may. -/
def overLinks (created : List ImportBookmark) (names : NamePlan) : Option ℕ :=
  if linksOf created names > importMaxLinks then some (linksOf created names) else none

/-- A plan covers `created`: its folders and its tags are the names of the document's lists and of these
bookmarks, each name once, and it has a name for every spelling. -/
structure NamePlan.Covers (rt : Runtime) (file : ImportRequest) (created : List ImportBookmark) (plan : NamePlan) :
    Prop where
  folders : (⟨plan.folders.map (·.name), plan.folderOf, plan.detectedFolders⟩ : NameSet).Covers rt
    (file.wantedFolders.map (·.name) ++ created.flatMap (·.folders))
  tags : (⟨plan.tags, plan.tagOf, plan.detectedTags⟩ : NameSet).Covers rt
    (file.wantedTags ++ created.flatMap (·.tags))

theorem names_wantedFolders (file : ImportRequest) (names : List JsString) :
    (names.map fun name => (file.wantedFolders.find? (·.name == name)).getD
      ⟨name, folderDefaultIcon, folderDefaultColor⟩).map (·.name) = names := by
  rw [List.map_map]
  refine (List.map_congr_left fun name _ => ?_).trans (List.map_id names)
  rw [Function.comp_apply, id_eq]
  cases hfind : file.wantedFolders.find? (·.name == name) with
  | none => rfl
  | some f => simpa using List.find?_some hfind

/-- **The plan of the names** is made of whatever file, and covers the bookmarks it is made for. -/
theorem planNames_ok (rt : Runtime) (file : ImportRequest) (created : List ImportBookmark) :
    ∃ plan, planNames rt file created = .ok plan ∧ plan.Covers rt file created := by
  obtain ⟨folders, hf, hfolders⟩ := nameSet_ok rt (file.wantedFolders.map (·.name))
    (created.flatMap (·.folders)) (file.bookmarksOfFile.flatMap fun e => cleanNames e.folders folderNameMaxLength)
  obtain ⟨tags, ht, htags⟩ := nameSet_ok rt file.wantedTags (created.flatMap (·.tags))
    (file.bookmarksOfFile.flatMap fun e => cleanNames e.tags tagNameMaxLength)
  refine ⟨_, by simp only [planNames, hf, ht]; rfl, ⟨?_, htags⟩⟩
  rw [names_wantedFolders]
  exact hfolders

theorem missingIn_eq (rt : Runtime) (rows : List NamedRow) (names : List JsString) :
    missingIn rt rows names = names.filter fun n => !rows.any fun row => rt.citext row.name == rt.citext n := by
  refine List.filter_congr fun n hn => ?_
  rw [Bool.not_inj_iff, Bool.eq_iff_iff, List.contains_iff_mem, existingNames, List.mem_filter]
  exact and_iff_right hn

end SlugBase.Import
