import SlugBase.Editing.Decision
import SlugBase.Lib.Transition
import Mathlib.Logic.Function.Basic

/-!
# Members changing bookmarks at once

Any number of changes run between one another's statements, and with whatever else writes to the rows.

* `Txn`, `State`, `State.step?`: the changes in flight, the rows they hold, and their answers (`Deed`);
* `Others`: what other transactions can commit past the locks, the triggers and the checks;
* `Goes`, `Ends`, **`statement_ends`**: every way a statement ends; `Stage.Sound`, **`Goes.sound`**: what it has read.
-/

namespace SlugBase.Editing

open Relational Transition

/-! ## The states of a run -/

/-- `BookmarkUpdateAsk`, in a workspace. -/
structure BookmarkUpdateAsk where
  workspaceId : Uuid
  bookmarkId : Uuid
  accountId : Uuid
  patch : BookmarkPatch
  expectedVersions : Option (List ℤ)
  deriving DecidableEq, Repr

/-- The request `updateBookmark` passes on. -/
def BookmarkUpdateAsk.request (ask : BookmarkUpdateAsk) (changes : BookmarkChanges) : BookmarkUpdateRequest where
  workspaceId := ask.workspaceId
  bookmarkId := ask.bookmarkId
  ownerId := ask.accountId
  changes := changes
  expectedVersions := ask.expectedVersions

/-- A change in flight, and the committed rows its statements have seen. -/
structure Txn where
  ask : BookmarkUpdateAsk
  changes : BookmarkChanges
  session : Session
  stage : Stage
  seen : List Content

/-- The request of a change. -/
def Txn.request (t : Txn) : BookmarkUpdateRequest := t.ask.request t.changes

/-- A change that was answered: the rows before and after its commit, and the time of its last statement. -/
structure Deed where
  ask : BookmarkUpdateAsk
  session : Session
  stage : Option Stage
  seen : List Content
  now : Timestamp
  answer : BookmarkUpdateResult
  before : Content
  after : Content

/-- The answer of a change that is in flight. -/
def Txn.deed (t : Txn) (c : Content) (now : Timestamp) (answer : BookmarkUpdateResult) (after : Content) : Deed where
  ask := t.ask
  session := t.session
  stage := some t.stage
  seen := c :: t.seen
  now := now
  answer := answer
  before := c
  after := after

/-- The answer to a patch that is refused before the store is asked. -/
def BookmarkUpdateAsk.turnedAway (ask : BookmarkUpdateAsk) (session : Session) (c : Content) (why : Refusal) : Deed where
  ask := ask
  session := session
  stage := none
  seen := []
  now := session.now
  answer := .refused why
  before := c
  after := c

/-- The committed rows, the changes in flight with the bookmarks they hold, the identifiers that were ever
given, and the answers so far, the last first. -/
structure State where
  content : Content
  running : ℕ → Option Txn
  locks : Uuid → Option ℕ
  known : List Uuid
  history : List Deed

inductive Label
  | ask (i : ℕ) (ask : BookmarkUpdateAsk) (session : Session)
  | run (i : ℕ) (now : Timestamp)
  | others (content : Content)

/-- The tags a statement has just made. -/
def Stage.makes : Stage → List BookmarkTagName
  | .tagsMade _ _ _ _ made => made
  | _ => []

/-- The identifiers of the bookmarks and the tags. -/
def givenIds (c : Content) : List Uuid := c.bookmarks.rows.map (·.id) ++ c.tags.rows.map (·.id)

namespace State

variable (names : Names) (checks : TextChecks) (s : State)

/-- Whether the next statement of a change waits: it locks a row that another change holds. -/
def waits (t : Txn) : Bool :=
  decide (t.stage = .ownerHeld) && ((lockedRow s.content t.request).map fun b => (s.locks b.id).isSome).getD false

/-- The change goes on. -/
def goOn (i : ℕ) (t : Txn) (stage : Stage) : State :=
  { s with
    running := Function.update s.running i (some { t with stage := stage, seen := s.content :: t.seen })
    locks := match stage with
      | .held current => Function.update s.locks current.id (some i)
      | _ => s.locks
    known := stage.makes.map (·.newId) ++ s.known }

/-- The change is answered, and lets go of its row. -/
def ended (i : ℕ) (t : Txn) (now : Timestamp) (answer : BookmarkUpdateResult) (after : Content) : State where
  content := after
  running := Function.update s.running i none
  locks id := if s.locks id = some i then none else s.locks id
  known := givenIds after ++ s.known
  history := t.deed s.content now answer after :: s.history

/-- A request arrives. -/
def asked (i : ℕ) (ask : BookmarkUpdateAsk) (session : Session) : Option State :=
  if (s.running i).isSome then none else
    match changesOf checks ask.patch with
    | .error why =>
      some { s with history := ask.turnedAway session s.content why :: s.history }
    | .ok changes =>
      let t : Txn := { ask := ask, changes := changes, session := session, stage := .asked, seen := [] }
      some { s with running := Function.update s.running i (some t) }

/-- The next statement of a change; an identifier it gives is one that was never given before. -/
def run (i : ℕ) (now : Timestamp) : Option State :=
  match s.running i with
  | none => none
  | some t =>
    if s.waits t then none else
      match statement names s.content t.request t.session now t.stage with
      | .go stage => if stage.makes.any fun tag => s.known.contains tag.newId then none else some (s.goOn i t stage)
      | .commit answer writes => some (s.ended i t now answer
          ((writes.map (applyWrites s.content t.request t.session)).getD s.content))
      | .rollback answer => some (s.ended i t now answer s.content)

/-- A step of the changes. -/
def step? : Label → Option State
  | .ask i ask session => s.asked checks i ask session
  | .run i now => s.run names i now
  | .others _ => none

end State

/-- **What other transactions can commit**: the rows that are held stay, an update of a bookmark runs the
trigger, a row obeys its checks, and a new row has an identifier that was never given. -/
structure Others (s : State) (content : Content) : Prop where
  held : ∀ b ∈ s.content.bookmarks, (s.locks b.id).isSome → b ∈ content.bookmarks
  kept : ∀ b ∈ s.content.bookmarks, ∀ b' ∈ content.bookmarks, b'.id = b.id →
    b.version ≤ b'.version
  checked : ∀ b ∈ content.bookmarks, b.forwarding = true → b.slug ≠ none
  fresh : ∀ b ∈ content.bookmarks, (∀ b' ∈ s.content.bookmarks, b'.id ≠ b.id) → b.id ∉ s.known

/-- **The runs of changes of bookmarks**, from rows that obey their checks. -/
def system (names : Names) (checks : TextChecks) : System State Label where
  init s := (∀ b ∈ s.content.bookmarks, b.forwarding = true → b.slug ≠ none) ∧
    (∀ id ∈ givenIds s.content, id ∈ s.known) ∧ s.running = (fun _ => none) ∧ s.locks = (fun _ => none) ∧
    s.history = []
  step s label s' := s.step? names checks label = some s' ∨ ∃ content, label = .others content ∧ Others s content ∧
    s' = { s with content := content, known := givenIds content ++ s.known }

/-! ## What a change has read -/

/-- The row is the one the request is about, of an accepted version, and forwards only with a slug. -/
structure Fits (r : BookmarkUpdateRequest) (current : Bookmark) : Prop where
  id : current.id = r.bookmarkId
  ownerId : current.ownerId = some r.ownerId
  expected : ∀ versions, r.expectedVersions = some versions → current.version ∈ versions
  forwarding : (r.changes.forwarding.getD current.forwarding && (r.changes.slug.getD current.slug).isNone) = false

section

variable (names : Names) (r : BookmarkUpdateRequest) (known : List Uuid) (seen : List Content)

/-- The folders and the tags of the bookmark are those that statements of the change have read. -/
def LinksRead (filed carried : List Uuid) : Prop :=
  (∃ c ∈ seen, filed = foldersOfBookmarks c r) ∧ ∃ c ∈ seen, carried = tagsOfBookmarks c r

/-- The tags wanted are those of the patch, as a statement of the change has read them. -/
def TagsWanted (made : List BookmarkTagName) (wantedTags : Option (List Uuid)) : Prop :=
  (r.changes.tags = none ∧ wantedTags = none) ∨
    ∃ tags wanted, r.changes.tags = some tags ∧ wantedTags = some wanted ∧
      ∃ c ∈ seen, tagIdsOf names c r made tags = some wanted

/-- **What holds of a stage.** -/
def Stage.Sound : Stage → Prop
  | .asked | .ownerHeld | .held _ | .slugJudged _ | .foldersHeld _ | .tagsHeld _ => True
  | .filedRead _ filed => ∃ c ∈ seen, filed = foldersOfBookmarks c r
  | .linksRead _ filed carried => LinksRead r seen filed carried ∧ ∀ id ∈ carried, id ∈ known
  | .namesRead _ filed carried tags missing => LinksRead r seen filed carried ∧ (∀ id ∈ carried, id ∈ known) ∧
      r.changes.tags = some tags ∧ ∀ tag ∈ missing, tag ∈ tags.names
  | .tagsMade _ filed carried tags made => LinksRead r seen filed carried ∧ (∀ tag ∈ made, tag.newId ∉ carried) ∧
      r.changes.tags = some tags ∧ ∀ tag ∈ made, tag ∈ tags.names
  | .tagsNamed _ filed carried made wantedTags => LinksRead r seen filed carried ∧
      TagsWanted names r seen made wantedTags ∧
        (made ≠ [] → ∃ wanted, wantedTags = some wanted ∧ ∃ id ∈ wanted, id ∉ carried)

end

section

variable {names : Names} {c : Content} {r : BookmarkUpdateRequest} {session : Session} {now : Timestamp}
  {known known' : List Uuid} {seen seen' : List Content} {stage stage' : Stage}

theorem LinksRead.mono {filed carried : List Uuid} (h : LinksRead r seen filed carried) (hseen : seen ⊆ seen') :
    LinksRead r seen' filed carried := by
  obtain ⟨⟨c, hc, hfiled⟩, c', hc', hcarried⟩ := h
  exact ⟨⟨c, hseen hc, hfiled⟩, c', hseen hc', hcarried⟩

/-- More given identifiers and more rows seen keep what holds of a stage. -/
theorem Stage.Sound.mono (h : stage.Sound names r known seen) (hknown : known ⊆ known') (hseen : seen ⊆ seen') :
    stage.Sound names r known' seen' := by
  cases stage with
  | asked | ownerHeld | held | slugJudged | foldersHeld | tagsHeld => trivial
  | filedRead =>
    obtain ⟨c, hc, hfiled⟩ := h
    exact ⟨c, hseen hc, hfiled⟩
  | linksRead => exact ⟨h.1.mono hseen, fun id hid => hknown (h.2 id hid)⟩
  | namesRead => exact ⟨h.1.mono hseen, fun id hid => hknown (h.2.1 id hid), h.2.2⟩
  | tagsMade => exact ⟨h.1.mono hseen, h.2⟩
  | tagsNamed =>
    refine ⟨h.1.mono hseen, ?_, h.2.2⟩
    rcases h.2.1 with hnone | ⟨tags, wanted, htags, hwanted, c, hc, hids⟩
    · exact .inl hnone
    · exact .inr ⟨tags, wanted, htags, hwanted, c, hseen hc, hids⟩

theorem lockedRow_some {current : Bookmark} (h : lockedRow c r = some current) :
    current ∈ c.bookmarks ∧ current.id = r.bookmarkId ∧ current.ownerId = some r.ownerId := by
  obtain ⟨hmem, hp⟩ := Table.find?_some h
  rw [decide_eq_true_eq] at hp
  exact ⟨hmem, hp.2.1, hp.2.2.1⟩

/-- **How a change goes on**: every way from one stage to the next. -/
inductive Goes (names : Names) (c : Content) (r : BookmarkUpdateRequest) : Stage → Stage → Prop
  | owner : Goes names c r .asked .ownerHeld
  | lock {current : Bookmark} : lockedRow c r = some current → Fits r current →
      Goes names c r .ownerHeld (.held current)
  | slug {current : Bookmark} : Goes names c r (.held current) (.slugJudged current)
  | folders {current : Bookmark} : Goes names c r (.slugJudged current) (.foldersHeld current)
  | tags {current : Bookmark} : Goes names c r (.foldersHeld current) (.tagsHeld current)
  | filed {current : Bookmark} : Goes names c r (.tagsHeld current) (.filedRead current (foldersOfBookmarks c r))
  | carried {current : Bookmark} {filed : List Uuid} :
      Goes names c r (.filedRead current filed) (.linksRead current filed (tagsOfBookmarks c r))
  | untagged {current : Bookmark} {filed carried : List Uuid} : r.changes.tags = none →
      Goes names c r (.linksRead current filed carried) (.tagsNamed current filed carried [] none)
  | found {current : Bookmark} {filed carried wanted : List Uuid} {tags : BookmarkTagSelection} :
      r.changes.tags = some tags → tagIdsOf names c r [] tags = some wanted →
      Goes names c r (.linksRead current filed carried) (.tagsNamed current filed carried [] (some wanted))
  | missing {current : Bookmark} {filed carried : List Uuid} {tags : BookmarkTagSelection} :
      r.changes.tags = some tags →
      Goes names c r (.linksRead current filed carried)
        (.namesRead current filed carried tags (missingNames names c r tags.names))
  | insert {current : Bookmark} {filed carried : List Uuid} {tags : BookmarkTagSelection}
      {missing : List BookmarkTagName} :
      Goes names c r (.namesRead current filed carried tags missing)
        (.tagsMade current filed carried tags (insertNames names c r missing))
  | readBack {current : Bookmark} {filed carried wanted : List Uuid} {tags : BookmarkTagSelection}
      {made : List BookmarkTagName} : tagIdsOf names c r made tags = some wanted →
      Goes names c r (.tagsMade current filed carried tags made) (.tagsNamed current filed carried made (some wanted))

/-- **How a statement ends**, with the rows that were committed when it started. -/
inductive Ends (names : Names) (c : Content) (r : BookmarkUpdateRequest) (session : Session) (now : Timestamp) :
    Stage → Outcome → Prop
  | goes {stage stage' : Stage} : Goes names c r stage stage' → Ends names c r session now stage (.go stage')
  | refuse {stage : Stage} {why : Refusal} : Ends names c r session now stage (.refuse why)
  | unchanged {current : Bookmark} {filed carried : List Uuid} {made : List BookmarkTagName}
      {wantedTags : Option (List Uuid)} : (decided r current filed carried made wantedTags now).nothing = true →
      Ends names c r session now (.tagsNamed current filed carried made wantedTags)
        (.commit (.unchanged ⟨current, filed, carried⟩) (some (decided r current filed carried made wantedTags now)))
  | updated {current : Bookmark} {filed carried : List Uuid} {made : List BookmarkTagName}
      {wantedTags : Option (List Uuid)} {bookmark : BookmarkRecord} :
      (decided r current filed carried made wantedTags now).nothing = false →
      bookmark.row = ((applyWrites c r session (decided r current filed carried made wantedTags now)).bookmarks.find?
        fun b => decide (b.id = r.bookmarkId)).getD current →
      Ends names c r session now (.tagsNamed current filed carried made wantedTags)
        (.commit (.updated bookmark) (some (decided r current filed carried made wantedTags now)))
  | taken {stage : Stage} {why : Refusal} : Ends names c r session now stage (.rollback (.refused why))

/-- **Every statement ends in one of these ways.** -/
theorem statement_ends (names : Names) (c : Content) (r : BookmarkUpdateRequest) (session : Session) (now : Timestamp)
    (stage : Stage) : Ends names c r session now stage (statement names c r session now stage) := by
  cases stage with
  | asked =>
    simp only [statement]
    cases r.changes.tags with
    | none => exact .goes .owner
    | some tags =>
      dsimp only
      split_ifs
      · exact .refuse
      · exact .goes .owner
  | ownerHeld =>
    simp only [statement]
    cases hrow : lockedRow c r with
    | none => exact .refuse
    | some current =>
      dsimp only
      split_ifs with hexpected hforwarding
      · exact .refuse
      · exact .refuse
      · obtain ⟨-, hid, howner⟩ := lockedRow_some hrow
        refine .goes (.lock hrow ⟨hid, howner, ?_, Bool.eq_false_iff.mpr hforwarding⟩)
        intro versions hversions
        rw [hversions] at hexpected
        simpa using hexpected
  | held current =>
    simp only [statement]
    rcases r.changes.slug with _ | _ | slug
    · exact .goes .slug
    · exact .goes .slug
    · dsimp only
      split_ifs
      · exact .refuse
      · exact .goes .slug
  | slugJudged current =>
    simp only [statement]
    cases r.changes.folderIds with
    | none => exact .goes .folders
    | some folderIds =>
      dsimp only
      split_ifs
      · exact .goes .folders
      · exact .refuse
  | foldersHeld current =>
    simp only [statement]
    cases r.changes.tags with
    | none => exact .goes .tags
    | some tags =>
      dsimp only
      split_ifs
      · exact .goes .tags
      · exact .refuse
  | tagsHeld current => exact .goes .filed
  | filedRead current filed => exact .goes .carried
  | linksRead current filed carried =>
    simp only [statement]
    cases htags : r.changes.tags with
    | none => exact .goes (.untagged htags)
    | some tags =>
      dsimp only
      cases hids : tagIdsOf names c r [] tags with
      | some wanted => exact .goes (.found htags hids)
      | none => exact .goes (.missing htags)
  | namesRead current filed carried tags missing => exact .goes .insert
  | tagsMade current filed carried tags made =>
    simp only [statement]
    cases hids : tagIdsOf names c r made tags with
    | none => exact .refuse
    | some wanted => exact .goes (.readBack hids)
  | tagsNamed current filed carried made wantedTags =>
    simp only [statement]
    split_ifs with hnothing
    · exact .unchanged hnothing
    · exact .taken
    · exact .updated (Bool.eq_false_iff.mpr hnothing) rfl

theorem Goes.row (h : Goes names c r stage stage') :
    (stage'.row = stage.row ∧ ∀ current, stage' ≠ .held current) ∨
      ∃ current, stage = .ownerHeld ∧ stage' = .held current ∧ lockedRow c r = some current ∧ Fits r current := by
  cases h with
  | lock hrow hfits => exact .inr ⟨_, rfl, rfl, hrow, hfits⟩
  | owner | slug | folders | tags | filed | carried | untagged | found | missing | insert | readBack =>
    exact .inl ⟨rfl, fun _ hheld => by cases hheld⟩

theorem mem_tagsOfBookmarks {id : Uuid} (h : id ∈ tagsOfBookmarks c r) : id ∈ givenIds c := by
  obtain ⟨l, hl, rfl⟩ := List.mem_map.mp h
  have howns := (Bool.and_eq_true _ _ ▸ (List.mem_filter.mp hl).2).2
  obtain ⟨t, ht, hid⟩ := Table.any_iff.mp howns
  rw [decide_eq_true_eq] at hid
  exact List.mem_append_right _ (List.mem_map.mpr ⟨t, ht, hid.2.2⟩)

/-- **What a change has read stays sound as it goes on.** -/
theorem Goes.sound (h : Goes names c r stage stage') (hgiven : givenIds c ⊆ known)
    (hsound : stage.Sound names r known seen) (hfresh : ∀ tag ∈ stage'.makes, tag.newId ∉ known) :
    stage'.Sound names r known (c :: seen) := by
  have hmono := hsound.mono (fun _ h => h) (List.subset_cons_self c seen)
  have hhere : c ∈ c :: seen := List.mem_cons_self
  cases h with
  | owner | lock | slug | folders | tags => trivial
  | filed => exact ⟨c, hhere, rfl⟩
  | carried => exact ⟨⟨hmono, c, hhere, rfl⟩, fun id hid => hgiven (mem_tagsOfBookmarks hid)⟩
  | untagged htags => exact ⟨hmono.1, .inl ⟨htags, rfl⟩, fun hne => absurd rfl hne⟩
  | found htags hids => exact ⟨hmono.1, .inr ⟨_, _, htags, rfl, c, hhere, hids⟩, fun hne => absurd rfl hne⟩
  | missing htags => exact ⟨hmono.1, hmono.2, htags, fun tag htag => missingNames_subset htag⟩
  | insert =>
    refine ⟨hmono.1, ?_, hmono.2.2.1, fun tag htag => hmono.2.2.2 tag (insertNames_subset htag)⟩
    intro tag htag hcarried
    exact hfresh tag htag (hmono.2.1 _ hcarried)
  | readBack hids =>
    refine ⟨hmono.1, .inr ⟨_, _, hmono.2.2.1, rfl, c, hhere, hids⟩, fun hne => ?_⟩
    obtain ⟨tag, htag, hwanted⟩ := made_wanted hids hne hmono.2.2.2
    exact ⟨_, rfl, tag.newId, hwanted, hmono.2.1 tag htag⟩

end

end SlugBase.Editing
