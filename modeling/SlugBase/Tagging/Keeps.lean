import SlugBase.Tagging.Deeds
import Mathlib.Data.List.Dedup
import Mathlib.Data.List.ProdSigma

/-!
# The requests keep their promise

Each list of statements by induction on the list, then each request from its first statement to its answer.

* `guard`: what a merge needs at every copy of a link;
* `keeps_lockEach`, `keeps_resolveTagNames`, `keeps_dropEach`: the parts that the requests share;
* **`keeps_program`**: every request keeps the contract, and finds what its statements need.
-/

namespace SlugBase.Tagging

open ReadCommitted Contract

/-- Both tags of a merge are locked `FOR UPDATE`, and every bookmark of the source's links is locked. -/
structure MergeLocked (source target : Uuid) (db : Rows) (x : Local) : Prop where
  sourceTag : (.tag source, .update) ∈ x.locks
  targetTag : (.tag target, .update) ∈ x.locks
  bookmarks : ∀ b, Linked db b source → (.bookmark b, .keyShare) ∈ x.locks

/-- What a statement needs when it runs. -/
def guard : Statement → Rows → Local → Prop
  | .copyLink source target _, db, x => MergeLocked source target db x
  | _, _, _ => True

/-- From `F` on, the program keeps the contract and finds what its statements need. -/
abbrev Keeps (sameName : String → String → Bool) (F : Rows → Local → Prop) (p : Program) : Prop :=
  (contract sameName).Upholds guard F p

variable {sameName : String → String → Bool} {names : Names} {F G : Rows → Local → Prop} {rest : Program} {w a b t : Uuid}

/-! ## What stays through statements -/

/-- It stays through locks. -/
def ThroughLocks (G : Rows → Local → Prop) : Prop := ∀ {db x key mode}, G db x → G db (x.locking key mode)

/-- It stays through inserts of tags. -/
def ThroughTags (G : Rows → Local → Prop) : Prop :=
  ∀ {db x t row}, G db x → (x.view db).lookup (.tag t) = none → G db (x.writing (.tag t) .update (some (some row)))

/-- These rows are locked and there. -/
def AllLocked (key : Uuid → Key) (mode : LockMode) (ids : List Uuid) (db : Rows) (x : Local) : Prop :=
  ∀ id ∈ ids, (key id, mode) ∈ x.locks ∧ Live (x.view db) (key id)

section

variable {key : Uuid → Key} {mode : LockMode} {ids : List Uuid} {answer : Answer} {pending : Uuid → Uuid → Prop} {db : Rows}
  {x : Local}

theorem stable_allLocked : (contract sameName).Stable (AllLocked key mode ids) := by
  intro db x answer y hdb hx hy hlocked hapart hdisjoint id hid
  obtain ⟨hlock, hlive⟩ := hx id hid
  exact ⟨hlock, (stable_holding (key id) db x answer y hdb ⟨⟨_, hlock⟩, hlive⟩ hy hlocked hapart hdisjoint).2⟩

theorem throughLocks_allLocked : ThroughLocks (AllLocked key mode ids) := fun h id hid =>
  ⟨List.mem_cons_of_mem _ (h id hid).1, (h id hid).2⟩

theorem AllLocked.writing (h : AllLocked key mode ids db x) {k : Key} {mode' : LockMode} {row : Option (Row k)}
    (hne : ∀ id ∈ ids, key id ≠ k) : AllLocked key mode ids db (x.writing k mode' row) := fun id hid =>
  ⟨List.mem_cons_of_mem _ (h id hid).1, (h id hid).2.writing (hne id hid)⟩

theorem ne_of_live {t' : Uuid} (h : Live (x.view db) (.tag t')) (hnone : (x.view db).lookup (.tag t) = none) :
    Key.tag t' ≠ .tag t := by
  intro heq
  obtain ⟨row, hrow⟩ := heq ▸ h
  rw [hnone] at hrow
  cases hrow

theorem throughTags_allLocked : ThroughTags (AllLocked .tag mode ids) := fun h hnone =>
  h.writing fun id hid => ne_of_live (h id hid).2 hnone

theorem ThroughTags.and (hF : ThroughTags F) (hG : ThroughTags G) : ThroughTags fun db x => F db x ∧ G db x :=
  fun h hnone => ⟨hF h.1 hnone, hG h.2 hnone⟩

theorem Carries.locking (h : Carries b t db x) (key : Key) (mode : LockMode) : Carries b t db (x.locking key mode) :=
  ⟨List.mem_cons_of_mem _ h.bookmark, fun hw => (h.tag hw).cons, h.linked⟩

theorem Carries.writing_tag (h : Carries b t db x) {t' : Uuid} (hnone : (x.view db).lookup (.tag t') = none)
    (row : Option (Option TagRow)) : Carries b t db (x.writing (.tag t') .update row) := by
  refine ⟨List.mem_cons_of_mem _ h.bookmark, fun hw => ?_, ?_⟩
  · rcases Held.mem_written_writing.mp hw with hw | heq
    · exact (h.tag hw).cons
    · rw [heq]
      exact .head
  · rw [Linked, link_writing_ne Key.noConfusion]
    refine h.linked.imp_right fun hgone => ?_
    have hne : Key.tag t ≠ .tag t' := by
      intro heq
      cases heq
      rw [Gone, hnone] at hgone
      cases hgone
    exact (Held.lookup_writing_ne hne).trans hgone

theorem Carries.writing_link (h : Carries b t db x) {t' : Uuid} (hne : t ≠ t') (row : Option LinkRow) :
    Carries b t db (x.writing (.link b t') .update row) := by
  refine ⟨List.mem_cons_of_mem _ h.bookmark,
    fun hw => (h.tag ((Held.mem_written_writing.mp hw).resolve_right Key.noConfusion)).cons, ?_⟩
  rw [Linked, link_writing_ne fun heq => hne (Key.link.inj heq).2]
  exact h.linked.imp_right (Held.lookup_writing_ne Key.noConfusion).trans

end

theorem mem_distinctIdentifiers {ids : List Uuid} : t ∈ distinctIdentifiers ids ↔ t ∈ ids := by
  rw [distinctIdentifiers, List.mem_insertionSort, List.mem_dedup]

/-! ## Locks -/

theorem keeps_lockEach {key : Uuid → Key} {mode : LockMode} {wanted : (id : Uuid) → Option (Row (key id)) → Bool}
    {next : List Uuid → Program} (hstable : (contract sameName).Stable G) (hG : ThroughLocks G)
    (hwanted : ∀ {db : Rows} {id}, wanted id (db.lookup (key id)) = true → Live db (key id)) (ids locked : List Uuid)
    (hnext : ∀ picked, List.Sublist picked ids → Keeps sameName
      (fun db x => G db x ∧ AllLocked key mode (picked.reverse ++ locked) db x) (next (picked.reverse ++ locked))) :
    Keeps sameName (fun db x => G db x ∧ AllLocked key mode locked db x) (lockEach key mode wanted ids locked next) := by
  induction ids generalizing locked with
  | nil => exact hnext [] .slnil
  | cons id ids ih =>
    refine .lock (hstable.and stable_allLocked) (fun {db x} hdb hF _ => ?_) (fun {db x} hdb hF hfound => ?_)
    · exact ih locked (fun picked hpicked => hnext picked (hpicked.cons id)) db x hdb hF
    · have hnext' (picked : List Uuid) (hpicked : List.Sublist picked ids) : Keeps sameName
          (fun db x => G db x ∧ AllLocked key mode (picked.reverse ++ id :: locked) db x) (next (picked.reverse ++ id :: locked)) := by
        have h := hnext (id :: picked) (hpicked.cons_cons id)
        rw [List.reverse_cons, List.append_assoc, List.singleton_append] at h
        exact h
      refine ih (id :: locked) hnext' db _ hdb ⟨hG hF.1, fun id' hid' => ?_⟩
      rcases List.mem_cons.mp hid' with rfl | hid'
      · exact ⟨List.mem_cons_self, hwanted hfound⟩
      · exact throughLocks_allLocked hF.2 id' hid'

theorem keeps_lockAll {key : Uuid → Key} {mode : LockMode} {wanted : (id : Uuid) → Option (Row (key id)) → Bool}
    {next : List Uuid → Program} (hstable : (contract sameName).Stable G) (hG : ThroughLocks G)
    (hwanted : ∀ {db : Rows} {id}, wanted id (db.lookup (key id)) = true → Live db (key id)) (ids : List Uuid)
    (hnext : ∀ locked, Keeps sameName (fun db x => G db x ∧ AllLocked key mode locked db x) (next locked)) :
    Keeps sameName G (lockEach key mode wanted ids [] next) :=
  (keeps_lockEach hstable hG hwanted ids [] fun _ _ => hnext _).of_imp fun _ hg => ⟨hg, fun _ h => absurd h List.not_mem_nil⟩

theorem keeps_lockTaggingTags {tagging : BookmarkTagSelection} {next : Bool → Program}
    (hstable : (contract sameName).Stable G) (hG : ThroughLocks G) (hgone : Keeps sameName G (next false))
    (hnext : Keeps sameName (fun db x => G db x ∧ AllLocked .tag .keyShare tagging.ids db x) (next true)) :
    Keeps sameName G (lockTaggingTags names w a tagging next) := by
  refine .read hstable fun {db x} hdb hg => keeps_lockAll hstable hG (fun hwanted => ?_) _ (fun locked => ?_) db x hdb hg
  · obtain ⟨row, hrow, -⟩ := exists_of_any hwanted
    exact ⟨row, hrow⟩
  · cases hall : tagging.ids.all fun t => decide (t ∈ locked) with
    | false => exact hgone.of_imp fun _ hF => hF.1
    | true =>
      refine hnext.of_imp fun _ hF => ⟨hF.1, fun t ht => hF.2 t ?_⟩
      exact of_decide_eq_true (List.all_eq_true.mp hall t ht)

/-! ## Names -/

theorem keeps_tagsByName {wanted : List (String × Uuid)} {next : List (Option Uuid) → Program}
    (hstable : (contract sameName).Stable G) (hG : ThroughLocks G)
    (hnext : ∀ found : List (Option Uuid), Keeps sameName
      (fun db x => G db x ∧ AllLocked .tag .keyShare (found.filterMap fun t => t) db x) (next found)) :
    Keeps sameName G (tagsByName names w a wanted next) := by
  refine .read hstable fun {db x} hdb hg => keeps_lockAll hstable hG (fun hwanted => ?_) _ (fun locked => ?_) db x hdb hg
  · obtain ⟨row, hrow, -⟩ := exists_of_any hwanted
    exact ⟨row, hrow⟩
  · refine .read (hstable.and stable_allLocked) fun {db x} hdb hF => hnext _ db x hdb ⟨hF.1, fun t ht => hF.2 t ?_⟩
    obtain ⟨o, ho, heq⟩ := List.mem_filterMap.mp ht
    obtain ⟨name, -, hfind⟩ := List.mem_map.mp ho
    exact List.mem_of_find?_eq_some (hfind.trans heq)

theorem keeps_insertTags (hstable : (contract sameName).Stable G) (hG : ThroughTags G) {qs : List Statement}
    (hqs : ∀ q ∈ qs, ∃ t row, q = .insertTag t row) (hrest : Keeps sameName G rest) :
    Keeps sameName G (writeEach qs rest) := by
  let F (qs : List Statement) (db : Rows) (x : Local) : Prop := (∀ q ∈ qs, ∃ t row, q = .insertTag t row) ∧ G db x
  have hkeeps : Keeps sameName (F qs) (writeEach qs rest) := by
    refine .writeEach (fun qs => (Stable.own fun _ => ∀ q ∈ qs, ∃ t row, q = .insertTag t row).and hstable)
      (fun {q qs db x} hdb hF => ?_) (fun {q qs db x} hdb hF _ => ?_) (fun {q qs db x row} hdb hF hchange => ?_)
      (hrest.of_imp fun _ hF => hF.2) _
    · obtain ⟨t, row, rfl⟩ := hF.1 q List.mem_cons_self
      trivial
    · exact ⟨fun q' hq' => hF.1 q' (List.mem_cons_of_mem _ hq'), hF.2⟩
    · obtain ⟨t, new, rfl⟩ := hF.1 q List.mem_cons_self
      obtain ⟨hnone, rfl⟩ := insertTag_becomes hchange
      exact ⟨fun q' hq' => hF.1 q' (List.mem_cons_of_mem _ hq'), hG hF.2 hnone⟩
  exact hkeeps.of_imp fun _ hg => ⟨hqs, hg⟩

theorem keeps_resolveTagNames {wanted : List (String × Uuid)} {next : List Uuid → Program}
    (hstable : (contract sameName).Stable G) (hG : ThroughLocks G) (hG' : ThroughTags G)
    (hnext : ∀ found, Keeps sameName (fun db x => G db x ∧ AllLocked .tag .keyShare found db x) (next found)) :
    Keeps sameName G (resolveTagNames names w a wanted next) := by
  have hfound (found : List Uuid) : Keeps sameName (fun db x => G db x ∧ AllLocked .tag .keyShare found db x)
      (next (distinctIdentifiers found)) :=
    (hnext _).of_imp fun _ hF => ⟨hF.1, fun t ht => hF.2 t (mem_distinctIdentifiers.mp ht)⟩
  unfold resolveTagNames
  split
  · exact (hnext []).of_imp fun _ hg => ⟨hg, fun _ h => absurd h List.not_mem_nil⟩
  · refine keeps_tagsByName hstable hG fun found => ?_
    dsimp only
    split
    · exact hfound _
    · refine (keeps_insertTags (hstable.and stable_allLocked) (hG'.and throughTags_allLocked) (fun q hq => ?_)
        ((keeps_tagsByName hstable hG fun found' => ?_).of_imp fun _ hF => hF.1))
      · obtain ⟨name, -, rfl⟩ := List.mem_map.mp hq
        exact ⟨_, _, rfl⟩
      · split
        · exact .raise
        · exact hfound _

theorem keeps_tagIdsOf {tagging : BookmarkTagSelection} {next : List Uuid → Program}
    (hstable : (contract sameName).Stable G) (hG : ThroughLocks G) (hG' : ThroughTags G)
    (hids : ∀ {db x}, G db x → AllLocked .tag .keyShare tagging.ids db x)
    (hnext : ∀ wanted, Keeps sameName (fun db x => G db x ∧ AllLocked .tag .keyShare wanted db x) (next wanted)) :
    Keeps sameName G (tagIdsOf names w a tagging next) := by
  refine keeps_resolveTagNames hstable hG hG' fun found => (hnext _).of_imp fun _ hF => ⟨hF.1, fun t ht => ?_⟩
  rcases List.mem_append.mp (mem_distinctIdentifiers.mp ht) with ht | ht
  · exact hids hF.1 t ht
  · exact hF.2 t ht

/-! ## Links -/

/-- The links that go with a bookmark or a tag. -/
theorem keeps_dropEach {answer : Answer} {P : Uuid → Uuid → Prop} (hstable : (contract sameName).Stable G)
    (hgone : ∀ {b t db x}, P b t → G db x → (answer.removes (.bookmark b) = true ∧ (.bookmark b, .update) ∈ x.locks) ∨
      answer.removes (.tag t) = true ∧ (.tag t, .update) ∈ x.locks)
    (hG : ∀ {b t db x row}, P b t → G db x → G db (x.writing (.link b t) .update row)) {qs : List Statement}
    (hqs : ∀ q ∈ qs, ∃ b t, P b t ∧ q = .dropLink b t)
    (hrest : Keeps sameName (fun db x => Within answer (fun _ _ => False) db x ∧ G db x) rest) :
    Keeps sameName (fun db x => Within answer (fun b t => .dropLink b t ∈ qs) db x ∧ G db x) (writeEach qs rest) := by
  let F (qs : List Statement) (db : Rows) (x : Local) : Prop :=
    (∀ q ∈ qs, ∃ b t, P b t ∧ q = .dropLink b t) ∧ Within answer (fun b t => .dropLink b t ∈ qs) db x ∧ G db x
  have hend : Keeps sameName (F []) rest := by
    refine hrest.of_imp fun _ hF => ⟨hF.2.1.mono (fun _ _ h => h) (fun _ h => h) fun b t _ hp => ?_, hF.2.2⟩
    exact List.not_mem_nil hp
  have hF (qs : List Statement) : (contract sameName).Stable (F qs) :=
    (Stable.own fun _ => ∀ q ∈ qs, ∃ b t, P b t ∧ q = .dropLink b t).and ((stable_within _ _).and hstable)
  have hkeeps : Keeps sameName (F qs) (writeEach qs rest) := by
    refine .writeEach hF (fun {q qs db x} hdb hF => ?_) (fun {q qs db x} hdb hF hchange => ?_)
      (fun {q qs db x row} hdb hF hchange => ?_) hend _
    · obtain ⟨b, t, -, rfl⟩ := hF.1 q List.mem_cons_self
      trivial
    · obtain ⟨b, t, -, rfl⟩ := hF.1 q List.mem_cons_self
      have hnot := dropLink_nothing hchange
      refine ⟨fun q' hq' => hF.1 q' (List.mem_cons_of_mem _ hq'),
        hF.2.1.mono (fun _ _ h => h) (fun _ h => h) fun b' t' hlinked hp => ?_, hF.2.2⟩
      refine (List.mem_cons.mp hp).resolve_left fun heq => ?_
      cases heq
      exact hnot hlinked
    · obtain ⟨b, t, hP, rfl⟩ := hF.1 q List.mem_cons_self
      obtain rfl := dropLink_becomes hchange
      refine ⟨fun q' hq' => hF.1 q' (List.mem_cons_of_mem _ hq'),
        hF.2.1.dropped (hgone hP hF.2.2) fun b' t' hne hp => ?_, hG hP hF.2.2⟩
      refine (List.mem_cons.mp hp).resolve_left fun heq => ?_
      cases heq
      exact hne rfl
  exact hkeeps.of_imp fun _ hF => ⟨hqs, hF⟩

theorem keeps_dropLinksOf {answer : Answer} (hstable : (contract sameName).Stable G)
    (htold : answer.removes (.tag t) = true) (hlock : ∀ {db x}, G db x → (.tag t, .update) ∈ x.locks)
    (hG : ∀ {b db x row}, G db x → G db (x.writing (.link b t) .update row))
    (hrest : Keeps sameName (fun db x => Within answer (fun _ _ => False) db x ∧ G db x) rest) :
    Keeps sameName (fun db x => Within answer (fun _ t' => t' = t) db x ∧ G db x) (dropLinksOf t rest) := by
  refine .read ((stable_within _ _).and hstable) fun {db x} hdb hF => ?_
  refine keeps_dropEach (P := fun _ t' => t' = t) hstable ?_ ?_ (fun q hq => ?_) hrest db x hdb
    ⟨hF.1.mono (fun _ _ h => h) (fun _ h => h) fun b t' hlinked hp => ?_, hF.2⟩
  · rintro b t' db x rfl hg
    exact .inr ⟨htold, hlock hg⟩
  · rintro b t' db x row rfl hg
    exact hG hg
  · obtain ⟨b, -, rfl⟩ := List.mem_map.mp hq
    exact ⟨b, t, rfl, rfl⟩
  · subst hp
    exact List.mem_map.mpr ⟨b, Rows.mem_bookmarksOf.mpr hlinked, rfl⟩

/-! ## Answers -/

/-- The transaction has written nothing. -/
def Unwritten (_ : Rows) (x : Local) : Prop := x.written = []

theorem stable_unwritten : (contract sameName).Stable Unwritten := .own fun x => x.written = []

theorem throughLocks_unwritten : ThroughLocks Unwritten := fun h => h

theorem keeps_refused : Keeps sameName Unwritten (.done .refused) :=
  .done stable_unwritten fun hdb h => ⟨within_of_unwritten hdb h, h⟩

theorem keeps_again : Keeps sameName Unwritten (.done .again) :=
  .done stable_unwritten fun hdb h => ⟨within_of_unwritten hdb h, h⟩

/-! ## Taggings of one bookmark -/

/-- What is done to the tags of a bookmark that is locked `FOR UPDATE`. -/
structure Retagging (b : Uuid) (detached wanted : List Uuid) (db : Rows) (x : Local) : Prop where
  within : Within (.saved b detached wanted) (fun _ _ => False) db x
  bookmark : (.bookmark b, .update) ∈ x.locks
  tags : AllLocked .tag .keyShare wanted db x

section

variable {detached wanted : List Uuid} {db : Rows} {x : Local}

theorem stable_retagging : (contract sameName).Stable (Retagging b detached wanted) := by
  intro db x answer y hdb hx hy hlocked hapart hdisjoint
  exact ⟨stable_within _ _ db x answer y hdb hx.within hy hlocked hapart hdisjoint, hx.bookmark,
    stable_allLocked db x answer y hdb hx.tags hy hlocked hapart hdisjoint⟩

theorem stable_forall {P : Uuid → Prop} {Q : Uuid → Rows → Local → Prop} (hQ : ∀ t, (contract sameName).Stable (Q t)) :
    (contract sameName).Stable fun db x => ∀ t, P t → Q t db x := fun db x answer y hdb hx hy hlocked hapart hdisjoint t ht =>
  hQ t db x answer y hdb (hx t ht) hy hlocked hapart hdisjoint

/-- The wanted tags that the bookmark does not carry are put on it. -/
theorem keeps_insertLinks (qs : List Statement) (hqs : ∀ q ∈ qs, ∃ t ∈ wanted, q = .insertLink b t) :
    Keeps sameName (fun db x => Retagging b detached wanted db x ∧
      ∀ t, t ∈ wanted → Carries b t db x ∨ .insertLink b t ∈ qs) (writeEach qs (.done (.saved b detached wanted))) := by
  let F (qs : List Statement) (db : Rows) (x : Local) : Prop := (∀ q ∈ qs, ∃ t ∈ wanted, q = .insertLink b t) ∧
    Retagging b detached wanted db x ∧ ∀ t, t ∈ wanted → Carries b t db x ∨ .insertLink b t ∈ qs
  have hstable (qs : List Statement) : (contract sameName).Stable (F qs) :=
    (Stable.own fun _ => ∀ q ∈ qs, ∃ t ∈ wanted, q = .insertLink b t).and
      (stable_retagging.and (stable_forall fun t => (stable_carries b t).or (.own fun _ => .insertLink b t ∈ qs)))
  have hend : Keeps sameName (F []) (.done (.saved b detached wanted)) := by
    refine .done (hstable []) fun {db x} hdb hF => ⟨hF.2.1.within, fun t ht => ?_⟩
    have hcarries := (hF.2.2 t ht).resolve_right List.not_mem_nil
    refine hcarries.linked.resolve_right fun hgone => ?_
    obtain ⟨row, hrow⟩ := (hF.2.1.tags t ht).2
    rw [Gone, hrow] at hgone
    cases hgone
  have hkeeps : Keeps sameName (F qs) (writeEach qs (.done (.saved b detached wanted))) := by
    refine .writeEach hstable (fun {q qs db x} hdb hF => ?_) (fun {q qs db x} hdb hF hchange => ?_)
      (fun {q qs db x row} hdb hF hchange => ?_) hend _
    · obtain ⟨t, -, rfl⟩ := hF.1 q List.mem_cons_self
      trivial
    · obtain ⟨t, ht, rfl⟩ := hF.1 q List.mem_cons_self
      refine ⟨fun q' hq' => hF.1 q' (List.mem_cons_of_mem _ hq'), hF.2.1, fun t' ht' => ?_⟩
      rcases hF.2.2 t' ht' with hcarries | hmem
      · exact .inl hcarries
      · rcases List.mem_cons.mp hmem with heq | hmem
        · cases heq
          exact .inl ⟨hF.2.1.bookmark, fun _ => ⟨_, (hF.2.1.tags t ht).1⟩, .inl (linked_nothing hchange)⟩
        · exact .inr hmem
    · obtain ⟨t, ht, rfl⟩ := hF.1 q List.mem_cons_self
      obtain ⟨hplaced, rfl⟩ := linked_becomes hchange
      have htag : Has x.locks (.tag t) := ⟨_, (hF.2.1.tags t ht).1⟩
      refine ⟨fun q' hq' => hF.1 q' (List.mem_cons_of_mem _ hq'),
        ⟨hF.2.1.within.linked hplaced ⟨_, hF.2.1.bookmark⟩ htag, List.mem_cons_of_mem _ hF.2.1.bookmark,
          hF.2.1.tags.writing fun _ _ => Key.noConfusion⟩, fun t' ht' => ?_⟩
      by_cases heq : t' = t
      · subst heq
        refine .inl ⟨List.mem_cons_of_mem _ hF.2.1.bookmark, fun _ => htag.cons, .inl ?_⟩
        exact congrArg LinkRow.present link_writing_self
      · refine (hF.2.2 t' ht').imp (fun hcarries => hcarries.writing_link heq _) fun hmem => ?_
        exact (List.mem_cons.mp hmem).resolve_left fun h => heq (Statement.insertLink.inj h).2
  exact hkeeps.of_imp fun _ hF => ⟨hqs, hF⟩

/-- The tags that are not wanted are taken from the bookmark. -/
theorem keeps_deleteLinks {carried : List Uuid} (qs : List Statement)
    (hqs : ∀ q ∈ qs, ∃ t ∈ detached, t ∉ wanted ∧ q = .deleteLink b t)
    (hrest : Keeps sameName (fun db x => Retagging b detached wanted db x ∧
      ∀ t, t ∈ wanted ∧ t ∈ carried → Carries b t db x) rest) :
    Keeps sameName (fun db x => Retagging b detached wanted db x ∧
      ∀ t, t ∈ wanted ∧ t ∈ carried → Carries b t db x) (writeEach qs rest) := by
  let F (qs : List Statement) (db : Rows) (x : Local) : Prop :=
    (∀ q ∈ qs, ∃ t ∈ detached, t ∉ wanted ∧ q = .deleteLink b t) ∧ Retagging b detached wanted db x ∧
      ∀ t, t ∈ wanted ∧ t ∈ carried → Carries b t db x
  have hstable (qs : List Statement) : (contract sameName).Stable (F qs) :=
    (Stable.own fun _ => ∀ q ∈ qs, ∃ t ∈ detached, t ∉ wanted ∧ q = .deleteLink b t).and
      (stable_retagging.and (stable_forall fun t => stable_carries b t))
  have hkeeps : Keeps sameName (F qs) (writeEach qs rest) := by
    refine .writeEach hstable (fun {q qs db x} hdb hF => ?_) (fun {q qs db x} hdb hF hchange => ?_)
      (fun {q qs db x row} hdb hF hchange => ?_) (hrest.of_imp fun _ hF => hF.2) _
    · obtain ⟨t, -, -, rfl⟩ := hF.1 q List.mem_cons_self
      trivial
    · exact ⟨fun q' hq' => hF.1 q' (List.mem_cons_of_mem _ hq'), hF.2⟩
    · obtain ⟨t, ht, hnot, rfl⟩ := hF.1 q List.mem_cons_self
      obtain rfl := deleteLink_becomes hchange
      have htold : (Answer.saved b detached wanted).untags b t = true :=
        Bool.and_eq_true_iff.mpr ⟨decide_eq_true rfl, decide_eq_true ht⟩
      refine ⟨fun q' hq' => hF.1 q' (List.mem_cons_of_mem _ hq'),
        ⟨hF.2.1.within.unlinked htold ⟨_, hF.2.1.bookmark⟩ (.inl hF.2.1.bookmark), List.mem_cons_of_mem _ hF.2.1.bookmark,
          hF.2.1.tags.writing fun _ _ => Key.noConfusion⟩, fun t' ht' => (hF.2.2 t' ht').writing_link ?_ _⟩
      rintro rfl
      exact hnot ht'.1
  exact hkeeps.of_imp fun _ hF => ⟨hqs, hF⟩

end

/-- What is known before the names of a request are resolved. -/
structure Preparing (b : Uuid) (ids carried : List Uuid) (db : Rows) (x : Local) : Prop where
  within : Within .refused (fun _ _ => False) db x
  bookmark : (.bookmark b, .update) ∈ x.locks
  tags : AllLocked .tag .keyShare ids db x
  carries : ∀ t ∈ carried, Carries b t db x

section

variable {ids carried : List Uuid}

theorem stable_preparing : (contract sameName).Stable (Preparing b ids carried) := by
  intro db x answer y hdb hx hy hlocked hapart hdisjoint
  exact ⟨stable_within _ _ db x answer y hdb hx.within hy hlocked hapart hdisjoint, hx.bookmark,
    stable_allLocked db x answer y hdb hx.tags hy hlocked hapart hdisjoint, fun t ht =>
      stable_carries b t db x answer y hdb (hx.carries t ht) hy hlocked hapart hdisjoint⟩

theorem throughLocks_preparing : ThroughLocks (Preparing b ids carried) := fun h =>
  ⟨h.within.locking _ _, List.mem_cons_of_mem _ h.bookmark, throughLocks_allLocked h.tags,
    fun t ht => (h.carries t ht).locking _ _⟩

theorem throughTags_preparing : ThroughTags (Preparing b ids carried) := fun h hnone =>
  ⟨h.within.tagAdded hnone _, List.mem_cons_of_mem _ h.bookmark, throughTags_allLocked h.tags hnone,
    fun t ht => (h.carries t ht).writing_tag hnone _⟩

end

theorem keeps_retagFrom {tagging : BookmarkTagSelection} (carried : List Uuid) {next : List Uuid → Program}
    (hnext : ∀ wanted, next wanted =
      writeEach ((carried.filter fun t => decide (t ∉ wanted)).map fun t => .deleteLink b t)
        (writeEach ((wanted.filter fun t => decide (t ∉ carried)).map fun t => .insertLink b t)
          (.done (.saved b (carried.filter fun t => decide (t ∉ wanted)) wanted)))) :
    Keeps sameName (Preparing b tagging.ids carried) (tagIdsOf names w a tagging next) := by
  refine keeps_tagIdsOf stable_preparing throughLocks_preparing throughTags_preparing (fun h => h.tags) fun wanted => ?_
  have hinsert : Keeps sameName
      (fun db x => Retagging b (carried.filter fun t => decide (t ∉ wanted)) wanted db x ∧
        ∀ t, t ∈ wanted ∧ t ∈ carried → Carries b t db x)
      (writeEach ((wanted.filter fun t => decide (t ∉ carried)).map fun t => .insertLink b t)
        (.done (.saved b (carried.filter fun t => decide (t ∉ wanted)) wanted))) := by
    refine (keeps_insertLinks _ fun q hq => ?_).of_imp fun _ hF => ⟨hF.1, fun t ht => ?_⟩
    · obtain ⟨t, ht, rfl⟩ := List.mem_map.mp hq
      exact ⟨t, (List.mem_filter.mp ht).1, rfl⟩
    · by_cases hcarried : t ∈ carried
      · exact .inl (hF.2 t ⟨ht, hcarried⟩)
      · exact .inr (List.mem_map.mpr ⟨t, List.mem_filter.mpr ⟨ht, decide_eq_true hcarried⟩, rfl⟩)
  rw [hnext]
  refine (keeps_deleteLinks _ (fun q hq => ?_) hinsert).of_imp fun _ hF =>
    ⟨⟨hF.1.within.of_refused, hF.1.bookmark, hF.2⟩, fun t ht => hF.1.carries t ht.2⟩
  obtain ⟨t, ht, rfl⟩ := List.mem_map.mp hq
  exact ⟨t, ht, of_decide_eq_true (List.mem_filter.mp ht).2, rfl⟩

theorem keeps_retag (tagging : BookmarkTagSelection) :
    Keeps sameName (fun db x => (Unwritten db x ∧ (.bookmark b, .update) ∈ x.locks) ∧
      AllLocked .tag .keyShare tagging.ids db x) (retag names w a b tagging) := by
  have hlock : (contract sameName).Stable fun _ x => (Key.bookmark b, LockMode.update) ∈ x.locks :=
    .own fun x => (Key.bookmark b, LockMode.update) ∈ x.locks
  unfold retag
  refine .read ((stable_unwritten.and hlock).and stable_allLocked) fun {db x} hdb hF => ?_
  have hunwritten : x.written = [] := hF.1.1
  dsimp only
  have hkeeps : Keeps sameName (Preparing b tagging.ids _) (tagIdsOf names w a tagging _) :=
    keeps_retagFrom ((Rows.tagsOf (x.view db) b).filter fun t => ownsTag w a ((x.view db).lookup (.tag t))) fun _ => rfl
  refine hkeeps db x hdb ⟨within_of_unwritten hdb hunwritten, hF.1.2, hF.2, fun t ht => ⟨hF.1.2, fun hw => ?_, .inl ?_⟩⟩
  · rw [hunwritten] at hw
    cases hw
  · exact Rows.mem_tagsOf.mp (List.mem_filter.mp ht).1

theorem keeps_updateTags (tagging : BookmarkTagSelection) : Keeps sameName Unwritten (updateTags names w a b tagging) := by
  have hlock : (contract sameName).Stable fun _ x => (Key.bookmark b, LockMode.update) ∈ x.locks :=
    .own fun x => (Key.bookmark b, LockMode.update) ∈ x.locks
  have htags {next : Bool → Program} (hfalse : next false = .done .refused) (htrue : next true = retag names w a b tagging) :
      Keeps sameName (fun db x => Unwritten db x ∧ (Key.bookmark b, LockMode.update) ∈ x.locks)
        (lockTaggingTags names w a tagging next) := by
    refine keeps_lockTaggingTags (stable_unwritten.and hlock)
      (fun h => ⟨throughLocks_unwritten h.1, List.mem_cons_of_mem _ h.2⟩) ?_ ?_
    · rw [hfalse]
      exact keeps_refused.of_imp fun _ hF => hF.1
    · rw [htrue]
      exact keeps_retag tagging
  refine .lock stable_unwritten (fun {db x} hdb hF _ => keeps_refused db x hdb hF) fun {db x} hdb hF _ => ?_
  exact htags rfl rfl db _ hdb ⟨hF, List.mem_cons_self⟩

theorem keeps_update (tagging : BookmarkTagSelection) : Keeps sameName Unwritten (update names w a b tagging) := by
  have hupdate : Keeps sameName Unwritten (updateTags names w a b tagging) := keeps_updateTags tagging
  unfold update
  split
  · exact hupdate
  · refine .lock stable_unwritten (fun {db x} hdb hF _ => keeps_refused db x hdb hF) fun {db x} hdb hF _ => ?_
    exact Upholds.lock stable_unwritten (fun {db x} hdb hF _ => keeps_refused db x hdb hF)
      (fun {db x} hdb hF _ => hupdate db (x.locking (.member w a) .keyShare) hdb hF) db _ hdb hF

theorem keeps_create (tagging : BookmarkTagSelection) : Keeps sameName Unwritten (create names w a b tagging) := by
  have hinsert (wanted : List Uuid) : Keeps sameName
      (fun db x => Preparing b tagging.ids [] db x ∧ AllLocked .tag .keyShare wanted db x)
      (writeEach (wanted.map fun t => .insertLink b t) (.done (.saved b [] wanted))) := by
    refine (keeps_insertLinks _ fun q hq => ?_).of_imp fun _ hF =>
      ⟨⟨hF.1.within.of_refused, hF.1.bookmark, hF.2⟩, fun t ht => .inr (List.mem_map_of_mem ht)⟩
    obtain ⟨t, ht, rfl⟩ := List.mem_map.mp hq
    exact ⟨t, ht, rfl⟩
  have hids : Keeps sameName (Preparing b tagging.ids []) (tagIdsOf names w a tagging fun wanted =>
      writeEach (wanted.map fun t => .insertLink b t) (.done (.saved b [] wanted))) :=
    keeps_tagIdsOf stable_preparing throughLocks_preparing throughTags_preparing (fun h => h.tags) hinsert
  have htags {next : Bool → Program} (hfalse : next false = .raise) (htrue : next true = tagIdsOf names w a tagging
      fun wanted => writeEach (wanted.map fun t => .insertLink b t) (.done (.saved b [] wanted))) :
      Keeps sameName (Preparing b [] []) (lockTaggingTags names w a tagging next) := by
    refine keeps_lockTaggingTags stable_preparing throughLocks_preparing ?_ ?_
    · rw [hfalse]
      exact .raise
    · rw [htrue]
      exact hids.of_imp fun _ hF => ⟨hF.1.within, hF.1.bookmark, hF.2, hF.1.carries⟩
  refine .read stable_unwritten fun {db x} hdb hF => ?_
  split
  · refine Upholds.lock stable_unwritten (fun {db x} hdb hF _ => keeps_refused db x hdb hF) (fun {db x} hdb hF _ => ?_)
      db x hdb hF
    refine Upholds.write stable_unwritten (fun _ _ => trivial) (fun {db x} _ _ hchange => ?_)
      (fun {db x row} hdb hF hchange => ?_) db (x.locking (.workspace w) .noKeyUpdate) hdb hF
    · exact absurd hchange insertBookmark_not_nothing
    · obtain ⟨hnone, rfl⟩ := insertBookmark_becomes hchange
      have hwithin : Within .refused (fun _ _ => False) db x := within_of_unwritten hdb hF
      have hpreparing : Preparing b [] [] db (x.writing (.bookmark b) .update (some (some ⟨w, a, false⟩))) :=
        ⟨hwithin.bookmarkAdded hnone _, List.mem_cons_self, fun _ h => absurd h List.not_mem_nil,
          fun _ h => absurd h List.not_mem_nil⟩
      refine Upholds.lock stable_preparing (fun {db x} _ _ _ => ?_) (fun {db x} hdb hF _ => ?_) db _ hdb hpreparing
      · trivial
      · exact htags rfl rfl db _ hdb (throughLocks_preparing hF)
  · exact keeps_refused db x hdb hF

/-! ## Taggings of many bookmarks -/

/-- The bookmarks and the tags of these pairs are locked. -/
def PairsLocked (pairs : List (Uuid × Uuid)) (_ : Rows) (x : Local) : Prop :=
  ∀ p ∈ pairs, Has x.locks (.bookmark p.1) ∧ Has x.locks (.tag p.2)

theorem stable_pairsLocked (pairs : List (Uuid × Uuid)) : (contract sameName).Stable (PairsLocked pairs) :=
  .own fun x => ∀ p ∈ pairs, Has x.locks (.bookmark p.1) ∧ Has x.locks (.tag p.2)

/-- The bookmark and the tag are locked, and the pair has been untagged so often at least. -/
structure Counted (n : ℕ) (b t : Uuid) (db : Rows) (x : Local) : Prop where
  bookmark : Has x.locks (.bookmark b)
  tag : Has x.locks (.tag t)
  grows : n ≤ (Rows.link (x.view db) b t).untagged

section

variable {n : ℕ} {b' t' : Uuid} {db : Rows} {x : Local}

theorem stable_counted : (contract sameName).Stable (Counted n b t) := fun _ x _ _ _ hx hy _ _ _ =>
  ⟨hx.bookmark, hx.tag, hx.grows.trans (link_meanwhile hy.1 x b t).grows⟩

theorem link_inserted : (Rows.link ((x.writing (.link b' t') .update
      (some ⟨true, (Rows.link (x.view db) b' t').untagged⟩)).view db) b t).untagged = (Rows.link (x.view db) b t).untagged ∧
    (Linked (x.view db) b t → Linked ((x.writing (.link b' t') .update
      (some ⟨true, (Rows.link (x.view db) b' t').untagged⟩)).view db) b t) := by
  by_cases heq : Key.link b t = .link b' t'
  · cases heq
    rw [Linked, Linked, link_writing_self]
    exact ⟨rfl, fun _ => rfl⟩
  · rw [Linked, Linked, link_writing_ne heq]
    exact ⟨rfl, fun h => h⟩

theorem Counted.inserted (h : Counted n b t db x) : Counted n b t db
    (x.writing (.link b' t') .update (some ⟨true, (Rows.link (x.view db) b' t').untagged⟩)) :=
  ⟨h.bookmark.cons, h.tag.cons, by rw [link_inserted.1]; exact h.grows⟩

theorem Tagged.inserted (h : Tagged n b t db x) : Tagged n b t db
    (x.writing (.link b' t') .update (some ⟨true, (Rows.link (x.view db) b' t').untagged⟩)) :=
  ⟨h.bookmark.cons, h.tag.cons, by rw [link_inserted.1]; exact h.grows,
    by rw [link_inserted.1]; exact h.linked.imp_left link_inserted.2⟩

end

/-- The pairs are linked; `untagged` is how often each had been untagged before. -/
theorem keeps_tagAll (pairs : List (Uuid × Uuid)) (untagged : Uuid × Uuid → ℕ) :
    Keeps sameName (fun db x => Within .refused (fun _ _ => False) db x ∧ ∀ p ∈ pairs, Counted (untagged p) p.1 p.2 db x)
      (writeEach (pairs.map fun p => .insertLink p.1 p.2)
        (.done (.tagged (pairs.map fun p => (p.1, p.2, untagged p))))) := by
  let answer : Answer := .tagged (pairs.map fun p => (p.1, p.2, untagged p))
  let F (qs : List Statement) (db : Rows) (x : Local) : Prop := (∀ q ∈ qs, ∃ p ∈ pairs, q = .insertLink p.1 p.2) ∧
    Within answer (fun _ _ => False) db x ∧ ∀ p ∈ pairs, Counted (untagged p) p.1 p.2 db x ∧
      (Tagged (untagged p) p.1 p.2 db x ∨ .insertLink p.1 p.2 ∈ qs)
  have hpair (qs : List Statement) : (contract sameName).Stable fun db x => ∀ p ∈ pairs,
      Counted (untagged p) p.1 p.2 db x ∧ (Tagged (untagged p) p.1 p.2 db x ∨ .insertLink p.1 p.2 ∈ qs) := by
    intro db x answer y hdb hx hy hlocked hapart hdisjoint p hp
    exact (stable_counted.and ((stable_tagged _ _ _).or (.own fun _ => .insertLink p.1 p.2 ∈ qs))) db x answer y hdb
      (hx p hp) hy hlocked hapart hdisjoint
  have hstable (qs : List Statement) : (contract sameName).Stable (F qs) :=
    (Stable.own fun _ => ∀ q ∈ qs, ∃ p ∈ pairs, q = .insertLink p.1 p.2).and ((stable_within _ _).and (hpair qs))
  have hend : Keeps sameName (F []) (.done answer) := by
    refine .done (hstable []) fun {db x} hdb hF => ⟨hF.2.1, fun e he => ?_⟩
    obtain ⟨p, hp, rfl⟩ := List.mem_map.mp he
    exact ((hF.2.2 p hp).2.resolve_right List.not_mem_nil).linked
  have hkeeps (qs : List Statement) : Keeps sameName (F qs) (writeEach qs (.done answer)) := by
    refine .writeEach hstable (fun {q qs db x} hdb hF => ?_) (fun {q qs db x} hdb hF hchange => ?_)
      (fun {q qs db x row} hdb hF hchange => ?_) hend _
    · obtain ⟨p, -, rfl⟩ := hF.1 q List.mem_cons_self
      trivial
    · obtain ⟨p, hp, rfl⟩ := hF.1 q List.mem_cons_self
      refine ⟨fun q' hq' => hF.1 q' (List.mem_cons_of_mem _ hq'), hF.2.1, fun p' hp' => ?_⟩
      obtain ⟨hcounted, htagged | hmem⟩ := hF.2.2 p' hp'
      · exact ⟨hcounted, .inl htagged⟩
      · rcases List.mem_cons.mp hmem with heq | hmem
        · obtain ⟨hb, ht⟩ := Statement.insertLink.inj heq
          have hlinked : Linked (x.view db) p'.1 p'.2 := by
            rw [hb, ht]
            exact linked_nothing hchange
          exact ⟨hcounted, .inl ⟨hcounted.bookmark, hcounted.tag, hcounted.grows, .inl hlinked⟩⟩
        · exact ⟨hcounted, .inr hmem⟩
    · obtain ⟨p, hp, rfl⟩ := hF.1 q List.mem_cons_self
      obtain ⟨hplaced, rfl⟩ := linked_becomes hchange
      have hp' := (hF.2.2 p hp).1
      refine ⟨fun q' hq' => hF.1 q' (List.mem_cons_of_mem _ hq'), hF.2.1.linked hplaced hp'.bookmark hp'.tag,
        fun p' hp' => ?_⟩
      obtain ⟨hcounted, htagged | hmem⟩ := hF.2.2 p' hp'
      · exact ⟨hcounted.inserted, .inl htagged.inserted⟩
      · rcases List.mem_cons.mp hmem with heq | hmem
        · obtain ⟨hb, ht⟩ := Statement.insertLink.inj heq
          refine ⟨hcounted.inserted, .inl ⟨hcounted.bookmark.cons, hcounted.tag.cons, hcounted.inserted.grows, .inl ?_⟩⟩
          rw [hb, ht]
          exact congrArg LinkRow.present link_writing_self
        · exact ⟨hcounted.inserted, .inr hmem⟩
  refine (hkeeps _).of_imp fun _ hF => ⟨fun q hq => ?_, hF.1.of_refused,
    fun p hp => ⟨hF.2 p hp, .inr (List.mem_map_of_mem hp)⟩⟩
  obtain ⟨p, hp, rfl⟩ := List.mem_map.mp hq
  exact ⟨p, hp, rfl⟩

theorem keeps_untagAll (pairs : List (Uuid × Uuid)) :
    Keeps sameName (fun db x => Within .refused (fun _ _ => False) db x ∧ PairsLocked pairs db x)
      (writeEach (pairs.map fun p => .deleteLink p.1 p.2) (.done (.untagged pairs))) := by
  let F (qs : List Statement) (db : Rows) (x : Local) : Prop := (∀ q ∈ qs, ∃ p ∈ pairs, q = .deleteLink p.1 p.2) ∧
    Within (.untagged pairs) (fun _ _ => False) db x ∧ PairsLocked pairs db x
  have hstable (qs : List Statement) : (contract sameName).Stable (F qs) :=
    (Stable.own fun _ => ∀ q ∈ qs, ∃ p ∈ pairs, q = .deleteLink p.1 p.2).and
      ((stable_within _ _).and (stable_pairsLocked pairs))
  have hend : Keeps sameName (F []) (.done (.untagged pairs)) := .done (hstable []) fun _ hF => ⟨hF.2.1, trivial⟩
  have hkeeps (qs : List Statement) : Keeps sameName (F qs) (writeEach qs (.done (.untagged pairs))) := by
    refine .writeEach hstable (fun {q qs db x} hdb hF => ?_) (fun {q qs db x} hdb hF hchange => ?_)
      (fun {q qs db x row} hdb hF hchange => ?_) hend _
    · obtain ⟨p, -, rfl⟩ := hF.1 q List.mem_cons_self
      trivial
    · exact ⟨fun q' hq' => hF.1 q' (List.mem_cons_of_mem _ hq'), hF.2⟩
    · obtain ⟨p, hp, rfl⟩ := hF.1 q List.mem_cons_self
      obtain rfl := deleteLink_becomes hchange
      obtain ⟨hbookmark, htag⟩ := hF.2.2 p hp
      exact ⟨fun q' hq' => hF.1 q' (List.mem_cons_of_mem _ hq'),
        hF.2.1.unlinked (decide_eq_true hp) hbookmark (.inr htag),
        fun p' hp' => (hF.2.2 p' hp').imp Has.cons Has.cons⟩
  refine (hkeeps _).of_imp fun _ hF => ⟨fun q hq => ?_, hF.1.of_refused, hF.2⟩
  obtain ⟨p, hp, rfl⟩ := List.mem_map.mp hq
  exact ⟨p, hp, rfl⟩

theorem keeps_tag (bookmarkIds tagIds : List Uuid) (add : Bool) :
    Keeps sameName Unwritten (tag names w a bookmarkIds tagIds add) := by
  have hpairs (owned : List Uuid) : Keeps sameName
      (fun db x => (Unwritten db x ∧ AllLocked .bookmark .keyShare owned db x) ∧ AllLocked .tag .keyShare tagIds db x)
      (.read fun (db : Rows) =>
        let pairs := owned.product (distinctIdentifiers tagIds)
        if add then
          writeEach (pairs.map fun p => .insertLink p.1 p.2) <|
            .done (.tagged (pairs.map fun p => (p.1, p.2, (db.link p.1 p.2).untagged)))
        else writeEach (pairs.map fun p => .deleteLink p.1 p.2) (.done (.untagged pairs))) := by
    refine .read ((stable_unwritten.and stable_allLocked).and stable_allLocked) fun {db x} hdb hF => ?_
    have hwithin : Within .refused (fun _ _ => False) db x := within_of_unwritten hdb hF.1.1
    have hlocked : PairsLocked (owned.product (distinctIdentifiers tagIds)) db x := by
      rintro ⟨b, t⟩ hp
      obtain ⟨hb, ht⟩ := List.mem_product.mp hp
      exact ⟨⟨_, (hF.1.2 b hb).1⟩, _, (hF.2 t (mem_distinctIdentifiers.mp ht)).1⟩
    dsimp only
    split
    · exact keeps_tagAll _ _ db x hdb ⟨hwithin, fun p hp => ⟨(hlocked p hp).1, (hlocked p hp).2, le_rfl⟩⟩
    · exact keeps_untagAll _ db x hdb ⟨hwithin, hlocked⟩
  refine .read stable_unwritten fun {db x} hdb hF => ?_
  refine keeps_lockAll stable_unwritten throughLocks_unwritten (fun hwanted => ?_) _ (fun owned => ?_) db x hdb hF
  · obtain ⟨row, hrow, -⟩ := exists_of_any (Bool.and_eq_true_iff.mp hwanted).1
    exact ⟨row, hrow⟩
  · have hstable : (contract sameName).Stable fun db x => Unwritten db x ∧ AllLocked .bookmark .keyShare owned db x :=
      stable_unwritten.and stable_allLocked
    exact keeps_lockTaggingTags hstable (fun h => ⟨throughLocks_unwritten h.1, throughLocks_allLocked h.2⟩)
      (keeps_refused.of_imp fun _ hF => hF.1) (hpairs owned)

/-! ## Merges -/

section

variable {source target : Uuid} {db : Rows} {x : Local}

theorem stable_mergeLocked : (contract sameName).Stable (MergeLocked source target) := by
  intro db x answer y hdb hx hy hlocked hapart hdisjoint
  have hsource : (contract sameName).Stable fun db x => (.tag source, .update) ∈ x.locks ∧
      ∀ b, Linked db b source → (.bookmark b, .keyShare) ∈ x.locks :=
    stable_source (fun b => .own fun x => (.bookmark b, .keyShare) ∈ x.locks) source
  exact ⟨hx.sourceTag, hx.targetTag,
    (hsource db x answer y hdb ⟨hx.sourceTag, hx.bookmarks⟩ hy hlocked hapart hdisjoint).2⟩

/-- Every bookmark of the source carries the target, and its link stays. -/
def Copied (source target : Uuid) (db : Rows) (x : Local) : Prop :=
  (.tag source, .update) ∈ x.locks ∧ ∀ b, Linked db b source → Fixed b target db x

theorem stable_copied : (contract sameName).Stable (Copied source target) := stable_source (fun b => stable_fixed b target) source

theorem Fixed.writing (h : Fixed b t db x) {key : Key} {mode : LockMode} {row : Option (Row key)} (hne : .link b t ≠ key) :
    Fixed b t db (x.writing key mode row) :=
  ⟨h.bookmark.cons, h.tag.cons, h.update.imp (List.mem_cons_of_mem _) (List.mem_cons_of_mem _), by
    rw [Linked, link_writing_ne hne]
    exact h.linked⟩

theorem Fixed.inserted (h : Fixed b t db x) {b' t' : Uuid} : Fixed b t db
    (x.writing (.link b' t') .update (some ⟨true, (Rows.link (x.view db) b' t').untagged⟩)) :=
  ⟨h.bookmark.cons, h.tag.cons, h.update.imp (List.mem_cons_of_mem _) (List.mem_cons_of_mem _), link_inserted.2 h.linked⟩

theorem Copied.writing (h : Copied source target db x) {key : Key} {mode : LockMode} {row : Option (Row key)}
    (hne : ∀ b, .link b target ≠ key) : Copied source target db (x.writing key mode row) :=
  ⟨List.mem_cons_of_mem _ h.1, fun b hlinked => (h.2 b hlinked).writing (hne b)⟩

/-- The links of the source are copied. -/
theorem keeps_copyLinks (qs : List Statement)
    (hrest : Keeps sameName (fun db x => Within (.merged source target) (fun _ _ => False) db x ∧ Copied source target db x) rest) :
    Keeps sameName (fun db x => Within (.merged source target) (fun _ _ => False) db x ∧ MergeLocked source target db x ∧
      (∀ q ∈ qs, ∃ b, q = .copyLink source target b ∧ (.bookmark b, .keyShare) ∈ x.locks) ∧
      ∀ b, Linked db b source → .copyLink source target b ∈ qs) (writeEach qs rest) := by
  let F (qs : List Statement) (db : Rows) (x : Local) : Prop := Within (.merged source target) (fun _ _ => False) db x ∧
    MergeLocked source target db x ∧ (∀ q ∈ qs, ∃ b, q = .copyLink source target b ∧ (.bookmark b, .keyShare) ∈ x.locks) ∧
    (.tag source, .update) ∈ x.locks ∧ ∀ b, Linked db b source → Fixed b target db x ∨ .copyLink source target b ∈ qs
  have hstable (qs : List Statement) : (contract sameName).Stable (F qs) :=
    (stable_within _ _).and (stable_mergeLocked.and
      ((Stable.own fun x => ∀ q ∈ qs, ∃ b, q = .copyLink source target b ∧ (.bookmark b, .keyShare) ∈ x.locks).and
        (stable_source (fun b => (stable_fixed b target).or (.own fun _ => .copyLink source target b ∈ qs)) source)))
  have hend : Keeps sameName (F []) rest :=
    hrest.of_imp fun _ hF => ⟨hF.1, hF.2.2.2.1, fun b hlinked => (hF.2.2.2.2 b hlinked).resolve_right List.not_mem_nil⟩
  have hkeeps (qs : List Statement) : Keeps sameName (F qs) (writeEach qs rest) := by
    refine .writeEach hstable (fun {q qs db x} hdb hF => ?_) (fun {q qs db x} hdb hF hchange => ?_)
      (fun {q qs db x row} hdb hF hchange => ?_) hend _
    · obtain ⟨b, rfl, -⟩ := hF.2.2.1 q List.mem_cons_self
      exact hF.2.1
    · obtain ⟨b, rfl, hlock⟩ := hF.2.2.1 q List.mem_cons_self
      refine ⟨hF.1, hF.2.1, fun q' hq' => hF.2.2.1 q' (List.mem_cons_of_mem _ hq'), hF.2.2.2.1, fun b' hlinked => ?_⟩
      rcases hF.2.2.2.2 b' hlinked with hfixed | hmem
      · exact .inl hfixed
      · rcases List.mem_cons.mp hmem with heq | hmem
        · cases heq
          exact .inl ⟨⟨_, hlock⟩, ⟨_, hF.2.1.targetTag⟩, .inr hF.2.1.targetTag, linked_nothing hchange⟩
        · exact .inr hmem
    · obtain ⟨b, rfl, hlock⟩ := hF.2.2.1 q List.mem_cons_self
      obtain ⟨hplaced, rfl⟩ := linked_becomes hchange
      refine ⟨hF.1.linked hplaced ⟨_, hlock⟩ ⟨_, hF.2.1.targetTag⟩,
        ⟨List.mem_cons_of_mem _ hF.2.1.sourceTag, List.mem_cons_of_mem _ hF.2.1.targetTag,
          fun b' hlinked => List.mem_cons_of_mem _ (hF.2.1.bookmarks b' hlinked)⟩, fun q' hq' => ?_,
        List.mem_cons_of_mem _ hF.2.2.2.1, fun b' hlinked => ?_⟩
      · obtain ⟨b', heq, hlock'⟩ := hF.2.2.1 q' (List.mem_cons_of_mem _ hq')
        exact ⟨b', heq, List.mem_cons_of_mem _ hlock'⟩
      · rcases hF.2.2.2.2 b' hlinked with hfixed | hmem
        · exact .inl hfixed.inserted
        · rcases List.mem_cons.mp hmem with heq | hmem
          · cases heq
            have htarget : (Key.tag target, LockMode.update) ∈ (x.writing (.link b target) .update
                (some ⟨true, (Rows.link (x.view db) b target).untagged⟩)).locks := List.mem_cons_of_mem _ hF.2.1.targetTag
            refine .inl ⟨⟨_, List.mem_cons_of_mem _ hlock⟩, ⟨_, htarget⟩, .inr htarget, ?_⟩
            exact congrArg LinkRow.present link_writing_self
          · exact .inr hmem
  exact (hkeeps qs).of_imp fun _ hF => ⟨hF.1, hF.2.1, hF.2.2.1, hF.2.1.sourceTag, fun b hlinked => .inr (hF.2.2.2 b hlinked)⟩

theorem keeps_merged (hne : source ≠ target) :
    Keeps sameName (fun db x => Within (.merged source target) (fun _ _ => False) db x ∧ Copied source target db x ∧
      Gone (.tag source) db x) (.done (.merged source target)) := by
  refine .done ((stable_within _ _).and (stable_copied.and (stable_gone _))) fun {db x} hdb hF =>
    ⟨hF.1, hF.2.2, fun b hlinked => ?_⟩
  rcases hlinked with hlinked | hlinked
  · exact (hF.2.1.2 b hlinked).linked
  · by_contra hnot
    cases (hF.1.evolves (.link b target)).went hlinked (not_linked_iff.mp hnot) with
    | untagged told => cases told
    | bookmark told => cases told
    | tag told => exact hne (of_decide_eq_true told).symm

theorem keeps_mergeLocked (hne : source ≠ target) :
    Keeps sameName (fun db x => Unwritten db x ∧ MergeLocked source target db x) (mergeLocked w a source target) := by
  have hdone {read : Rows → Program} (hread : ∀ db, read db = .done (.merged source target) ∨ read db = .raise) :
      Keeps sameName (fun db x => Within (.merged source target) (fun _ _ => False) db x ∧ Copied source target db x ∧
        Gone (.tag source) db x) (.read read) := by
    refine .read ((stable_within _ _).and (stable_copied.and (stable_gone _))) fun {db x} hdb hF => ?_
    rcases hread (x.view db) with h | h
    · rw [h]
      exact keeps_merged hne db x hdb hF
    · rw [h]
      trivial
  have hdrop {read : Rows → Program} (hread : ∀ db, read db = .done (.merged source target) ∨ read db = .raise) :
      Keeps sameName (fun db x => Within (.merged source target) (fun _ t => t = source) db x ∧
        Copied source target db x ∧ Gone (.tag source) db x) (dropLinksOf source (.read read)) := by
    refine keeps_dropLinksOf (stable_copied.and (stable_gone _)) (decide_eq_true rfl) (fun hG => hG.1.1)
      (fun {b db x row} hG => ⟨hG.1.writing fun b' heq => hne (Key.link.inj heq).2.symm, ?_⟩) (hdone hread)
    exact (Held.lookup_writing_ne Key.noConfusion).trans hG.2
  have hdelete {next : Bool → Program} {read : Rows → Program} (hfalse : next false = .raise)
      (htrue : next true = dropLinksOf source (.read read))
      (hread : ∀ db, read db = .done (.merged source target) ∨ read db = .raise) :
      Keeps sameName (fun db x => Within (.merged source target) (fun _ _ => False) db x ∧ Copied source target db x)
        (.write (.deleteTag w a source) next) := by
    refine .write ((stable_within _ _).and stable_copied) (fun _ _ => trivial) (fun _ _ _ => ?_)
      (fun {db x row} hdb hF hchange => ?_)
    · rw [hfalse]
      trivial
    · obtain rfl := deleteTag_becomes hchange
      rw [htrue]
      refine hdrop hread db (x.writing (.tag source) .update (some none)) hdb
        ⟨(hF.1.tagGone (decide_eq_true rfl)).mono (fun _ _ h => h) (fun _ h => h) fun _ _ _ h => h.resolve_left fun h => h,
          hF.2.writing fun _ => Key.noConfusion, Held.lookup_writing_self⟩
  refine .read (stable_unwritten.and stable_mergeLocked) fun {db x} hdb hF => ?_
  have hview : x.view db = db := Held.view_of_written_nil hF.1 db
  refine keeps_copyLinks _ (hdelete rfl rfl fun db => ?_) db x hdb
    ⟨within_of_unwritten hdb hF.1, hF.2, fun q hq => ?_, fun b hlinked => ?_⟩
  · split
    · exact .inl rfl
    · exact .inr rfl
  · obtain ⟨b, hb, rfl⟩ := List.mem_map.mp hq
    have hlinked : Linked (x.view db) b source := Rows.mem_bookmarksOf.mp hb
    rw [hview] at hlinked
    exact ⟨b, rfl, hF.2.bookmarks b hlinked⟩
  · refine List.mem_map.mpr ⟨b, Rows.mem_bookmarksOf.mpr ?_, rfl⟩
    rw [hview]
    exact hlinked

theorem keeps_lockTags (round : ℕ) (held : List Uuid) :
    Keeps sameName (fun db x => Unwritten db x ∧ AllLocked .bookmark .keyShare held db x)
      (lockTags w a source target round held) := by
  have hstable : (contract sameName).Stable fun db x => Unwritten db x ∧ AllLocked .bookmark .keyShare held db x :=
    stable_unwritten.and stable_allLocked
  refine Upholds.of_imp (keeps_lockEach hstable (fun h => ⟨h.1, throughLocks_allLocked h.2⟩) (fun hwanted => ?_) _ []
    fun picked hpicked => ?_) fun _ hF => ⟨hF, fun _ h => absurd h List.not_mem_nil⟩
  · obtain ⟨row, hrow, -⟩ := exists_of_any hwanted
    exact ⟨row, hrow⟩
  · split
    · exact keeps_refused.of_imp fun _ hF => hF.1.1
    · rename_i hlength
      split
      · exact keeps_refused.of_imp fun _ hF => hF.1.1
      · rename_i hne
        -- both tags are locked
        have hall : picked = distinctIdentifiers [source, target] := by
          refine hpicked.eq_of_length ?_
          rw [List.append_nil, List.length_reverse] at hlength
          exact not_not.mp hlength
        have hmem {t : Uuid} (ht : t ∈ [source, target]) : t ∈ picked.reverse ++ [] := by
          rw [List.append_nil, List.mem_reverse, hall]
          exact mem_distinctIdentifiers.mpr ht
        refine .read (hstable.and stable_allLocked) fun {db x} hdb hF => ?_
        split
        · rename_i hheld
          refine keeps_mergeLocked hne db x hdb ⟨hF.1.1, (hF.2 source (hmem List.mem_cons_self)).1,
            (hF.2 target (hmem (List.mem_cons_of_mem _ List.mem_cons_self))).1, fun b hlinked => ?_⟩
          rw [← Held.view_of_written_nil hF.1.1 db] at hlinked
          have hb := List.all_eq_true.mp hheld b (Rows.mem_bookmarksOf.mpr hlinked)
          exact (hF.1.2 b (of_decide_eq_true hb)).1
        · split
          · exact keeps_again db x hdb hF.1.1
          · trivial

theorem keeps_merge (round : ℕ) : Keeps sameName Unwritten (merge w a source target round) := by
  unfold merge
  split
  · exact (keeps_lockTags round []).of_imp fun _ hF => ⟨hF, fun _ h => absurd h List.not_mem_nil⟩
  · refine .read stable_unwritten fun {db x} hdb hF => ?_
    refine keeps_lockAll stable_unwritten throughLocks_unwritten (fun hwanted => ?_) _ (fun held => keeps_lockTags round held)
      db x hdb hF
    obtain ⟨row, hrow, -⟩ := exists_of_any hwanted
    exact ⟨row, hrow⟩

end

/-! ## Deletions -/

theorem keeps_remove : Keeps sameName Unwritten (remove w a t) := by
  have hlock : (contract sameName).Stable fun _ x => (Key.tag t, LockMode.update) ∈ x.locks :=
    .own fun x => (Key.tag t, LockMode.update) ∈ x.locks
  have hdone : Keeps sameName (fun db x => Within (.tagRemoved t) (fun _ _ => False) db x ∧
      (.tag t, .update) ∈ x.locks ∧ Gone (.tag t) db x) (.done (.tagRemoved t)) :=
    .done ((stable_within _ _).and (hlock.and (stable_gone _))) fun _ hF => ⟨hF.1, hF.2.2⟩
  have hdrop : Keeps sameName (fun db x => Within (.tagRemoved t) (fun _ t' => t' = t) db x ∧
      (.tag t, .update) ∈ x.locks ∧ Gone (.tag t) db x) (dropLinksOf t (.done (.tagRemoved t))) :=
    keeps_dropLinksOf (hlock.and (stable_gone _)) (decide_eq_true rfl) (fun hG => hG.1)
      (fun hG => ⟨List.mem_cons_of_mem _ hG.1, (Held.lookup_writing_ne Key.noConfusion).trans hG.2⟩) hdone
  refine .write stable_unwritten (fun _ _ => trivial) (fun {db x} hdb hF _ => keeps_refused db x hdb hF)
    (fun {db x row} hdb hF hchange => ?_)
  obtain rfl := deleteTag_becomes hchange
  have hwithin : Within (.tagRemoved t) (fun _ _ => False) db x := within_of_unwritten hdb hF
  refine hdrop db (x.writing (.tag t) .update (some none)) hdb
    ⟨(hwithin.tagGone (decide_eq_true rfl)).mono (fun _ _ h => h) (fun _ h => h) fun _ _ _ h => h.resolve_left fun h => h,
      List.mem_cons_self, Held.lookup_writing_self⟩

/-- These bookmarks were deleted here. -/
def Dead (deleted : List Uuid) (db : Rows) (x : Local) : Prop :=
  ∀ b ∈ deleted, (.bookmark b, .update) ∈ x.locks ∧ Gone (.bookmark b) db x

theorem stable_dead (deleted : List Uuid) : (contract sameName).Stable (Dead deleted) :=
  fun db x answer y hdb hx hy hlocked hapart hdisjoint b hb =>
    ⟨(hx b hb).1, stable_gone (.bookmark b) db x answer y hdb (hx b hb).2 hy hlocked hapart hdisjoint⟩

theorem keeps_deleteBookmarks (ids deleted : List Uuid) {next : List Uuid → Program}
    (hnext : ∀ deleted, Keeps sameName
      (fun db x => Within (.bookmarksRemoved deleted) (fun b _ => b ∈ deleted) db x ∧ Dead deleted db x) (next deleted)) :
    Keeps sameName (fun db x => Within (.bookmarksRemoved deleted) (fun b _ => b ∈ deleted) db x ∧ Dead deleted db x)
      (deleteBookmarks w a ids deleted next) := by
  induction ids generalizing deleted with
  | nil => exact hnext deleted
  | cons b ids ih =>
    refine .write ((stable_within _ _).and (stable_dead deleted)) (fun _ _ => trivial)
      (fun {db x} hdb hF _ => ih deleted db x hdb hF) (fun {db x row} hdb hF hchange => ?_)
    obtain rfl := deleteBookmark_becomes hchange
    have hmore : Within (.bookmarksRemoved (b :: deleted)) (fun b _ => b ∈ deleted) db x := by
      refine hF.1.mono (fun _ _ h => by cases h) (fun k h => ?_) fun _ _ _ h => h
      cases k with
      | bookmark b' => exact decide_eq_true (List.mem_cons_of_mem _ (of_decide_eq_true h))
      | workspace | member | tag | link => cases h
    refine ih (b :: deleted) db (x.writing (.bookmark b) .update (some none)) hdb
      ⟨(hmore.bookmarkGone (decide_eq_true List.mem_cons_self)).mono (fun _ _ h => h) (fun _ h => h)
        fun b' _ _ h => List.mem_cons.mpr h.symm, fun b' hb' => ?_⟩
    by_cases heq : b' = b
    · subst heq
      exact ⟨List.mem_cons_self, Held.lookup_writing_self⟩
    · obtain ⟨hlock, hgone⟩ := hF.2 b' ((List.mem_cons.mp hb').resolve_left heq)
      exact ⟨List.mem_cons_of_mem _ hlock, (Held.lookup_writing_ne fun h => heq (Key.bookmark.inj h)).trans hgone⟩

theorem keeps_removeMany (bookmarkIds : List Uuid) : Keeps sameName Unwritten (removeMany w a bookmarkIds) := by
  have hdrop (deleted : List Uuid) : Keeps sameName
      (fun db x => Within (.bookmarksRemoved deleted) (fun b _ => b ∈ deleted) db x ∧ Dead deleted db x)
      (.read fun (db : Rows) => writeEach (deleted.flatMap fun b => (db.tagsOf b).map fun t => .dropLink b t)
        (.done (.bookmarksRemoved deleted))) := by
    have htold {b : Uuid} (hb : b ∈ deleted) : (Answer.bookmarksRemoved deleted).removes (.bookmark b) = true :=
      decide_eq_true hb
    have hdone : Keeps sameName (fun db x => Within (.bookmarksRemoved deleted) (fun _ _ => False) db x ∧ Dead deleted db x)
        (.done (.bookmarksRemoved deleted)) :=
      .done ((stable_within _ _).and (stable_dead deleted)) fun _ hF => ⟨hF.1, fun b hb => (hF.2 b hb).2⟩
    refine .read ((stable_within _ _).and (stable_dead deleted)) fun {db x} hdb hF => ?_
    refine keeps_dropEach (P := fun b _ => b ∈ deleted) (stable_dead deleted)
      (fun {b t db x} hb hG => .inl ⟨htold hb, (hG b hb).1⟩) (fun {b t db x row} _ hG b' hb' => ?_) (fun q hq => ?_) hdone
      db x hdb ⟨hF.1.mono (fun _ _ h => h) (fun _ h => h) fun b t hlinked hb => ?_, hF.2⟩
    · exact ⟨List.mem_cons_of_mem _ (hG b' hb').1, (Held.lookup_writing_ne Key.noConfusion).trans (hG b' hb').2⟩
    · obtain ⟨b, hb, hq⟩ := List.mem_flatMap.mp hq
      obtain ⟨t, -, rfl⟩ := List.mem_map.mp hq
      exact ⟨b, t, hb, rfl⟩
    · exact List.mem_flatMap.mpr ⟨b, hb, List.mem_map.mpr ⟨t, Rows.mem_tagsOf.mpr hlinked, rfl⟩⟩
  have hdelete : Keeps sameName Unwritten (deleteBookmarks w a (distinctIdentifiers bookmarkIds) [] fun deleted =>
      .read fun (db : Rows) => writeEach (deleted.flatMap fun b => (db.tagsOf b).map fun t => .dropLink b t)
        (.done (.bookmarksRemoved deleted))) :=
    (keeps_deleteBookmarks _ [] hdrop).of_imp fun hdb hF => ⟨within_of_unwritten hdb hF, fun _ h => absurd h List.not_mem_nil⟩
  refine .lock stable_unwritten (fun {db x} hdb hF _ => keeps_refused db x hdb hF) fun {db x} hdb hF _ => ?_
  refine keeps_lockAll stable_unwritten throughLocks_unwritten (fun hwanted => ?_) _
    (fun _ => hdelete.of_imp fun _ hF => hF.1) db (x.locking (.workspace w) .noKeyUpdate) hdb hF
  obtain ⟨row, hrow, -⟩ := exists_of_any hwanted
  exact ⟨row, hrow⟩

/-- **Every request keeps the contract, and finds what its statements need.** -/
theorem keeps_program (names : Names) (request : Request) :
    (contract sameName).Upholds guard (fun _ x => x = .empty) (program names request) := by
  have hunwritten {p : Program} (h : Keeps sameName Unwritten p) : (contract sameName).Upholds guard (fun _ x => x = .empty) p := by
    refine h.of_imp ?_
    rintro db x - rfl
    rfl
  cases request with
  | update w a b tagging => exact hunwritten (keeps_update tagging)
  | create w a b tagging => exact hunwritten (keeps_create tagging)
  | tag w a bookmarkIds tagIds add => exact hunwritten (keeps_tag bookmarkIds tagIds add)
  | merge w a source target round => exact hunwritten (keeps_merge round)
  | remove w a t => exact hunwritten keeps_remove
  | removeMany w a bookmarkIds => exact hunwritten (keeps_removeMany bookmarkIds)

end SlugBase.Tagging
