import SlugBase.Access.Grants
import SlugBase.Go.Slug
import Mathlib.Data.List.Sort
import Mathlib.Tactic.ByContra

/-!
# The resolution of a slug

The bookmarks of a workspace that have the slug and that the member can read, and the choice among them: the remembered
one, then the member's own, then the one that is shared, then the several that are.

* `candidatesStatement`, `summaries`, `forgetStale`: the statements of the store;
* `resolveInWorkspace`: the choice, and what becomes of a remembered choice that is none;
* `Offered`, `Resolves`, `ResolvedAs`: what may be named, and which of it is;
* **`resolveInWorkspace_resolvedAs`**: the resolution in every state of the workspace that each statement finds.

Every statement reads its own snapshot: other transactions commit between them.
-/

namespace SlugBase.Go

open JavaScript Relational

/-- Texts: `toLowerCase`, of slugs and of titles, `localeCompare` in English, and the text of an identifier. -/
structure GoTexts where
  toLowerCase : JsString → JsString
  lowerTitle : String → String
  localeCompare : String → String → Ordering
  uuidText : Uuid → String

/-! ## The statements -/

/-- `GoCandidate`. -/
structure GoCandidate where
  id : Uuid
  ownerId : Option Uuid
  url : String
  access : Access
deriving DecidableEq

/-- `GoCandidateSet`. -/
structure GoCandidateSet where
  candidates : List GoCandidate
  preferredId : Option Uuid
deriving DecidableEq

/-- `GoBookmarkSummary`. -/
structure GoBookmarkSummary where
  id : Uuid
  title : String
  host : String
  ownerId : Option Uuid
  ownerName : Option String
deriving DecidableEq

/-- The row has the slug in the workspace and forwards. -/
def forwards (w : Uuid) (slug : String) (b : Bookmark) : Bool :=
  decide (b.workspaceId = w) && sqlEq b.slug (some slug) && b.forwarding

/-- The columns of a candidate. -/
def candidateOf (b : Bookmark) (access : Access) : GoCandidate :=
  { id := b.id, ownerId := b.ownerId, url := b.url, access }

/-- `candidatesStatement`: a row that is readable has an access. -/
def candidatesStatement (c : Content) (w a : Uuid) (slug : String) : List GoCandidate :=
  (c.bookmarks.rows.filter fun b => forwards w slug b && b.planArchivedAt.isNone && bookmarkReadableBy c a b).filterMap
    fun b => (bookmarkAccessOf c a b).map (candidateOf b)

/-- The member's remembered choice for the slug. -/
def preferenceOf (c : Content) (w a : Uuid) (slug : String) : Option Uuid :=
  (c.slugPreferences.find? fun p => decide (p.key = (w, a, slug))).map SlugPreference.bookmarkId

/-- `candidates`: with no candidate the remembered choice is read by a statement of its own. -/
def candidates (scan remembered : Content) (w a : Uuid) (slug : String) : GoCandidateSet :=
  { candidates := candidatesStatement scan w a slug
    preferredId := preferenceOf (if candidatesStatement scan w a slug = [] then remembered else scan) w a slug }

/-- The columns of a summary, with the display name that is joined. -/
def summaryOf (displayName : Uuid → Option String) (b : Bookmark) : GoBookmarkSummary :=
  { id := b.id, title := b.title, host := b.host, ownerId := b.ownerId, ownerName := b.ownerId.bind displayName }

/-- `summaries`. -/
def summaries (c : Content) (displayName : Uuid → Option String) (w a : Uuid) (ids : List Uuid) : List GoBookmarkSummary :=
  (c.bookmarks.rows.filter fun b =>
    decide (b.workspaceId = w) && decide (b.id ∈ ids) && bookmarkReadableBy c a b).map (summaryOf displayName)

/-- `forgetStale`: a bookmark that is only plan-archived keeps its choice. -/
def forgetStale (c : Content) (w a : Uuid) (slug : String) (bookmarkId : Uuid) : Content :=
  { c with
    slugPreferences := c.slugPreferences.deleteWhere fun p =>
      decide (p.key = (w, a, slug)) && decide (p.bookmarkId = bookmarkId) &&
        !c.bookmarks.any fun b => decide (b.id = bookmarkId) && forwards w slug b && bookmarkReadableBy c a b }

/-! ## The choice -/

/-- The owner of a bookmark that is shared with the member. -/
structure GoOwner where
  accountId : Uuid
  displayName : String
deriving DecidableEq

/-- `GoChoice`. -/
structure GoChoice where
  id : Uuid
  title : String
  host : String
  owner : Option GoOwner
  sharedVia : Option SharedVia
deriving DecidableEq

/-- `GoWorkspaceResolution`. -/
inductive GoWorkspaceResolution
  | none
  | preferred (bookmark : GoChoice)
  | single (bookmark : GoChoice)
  | multiple (candidates : List GoChoice)
deriving DecidableEq

/-- `sharedVia` of a choice: null for the member's own. -/
def Access.via : Access → Option SharedVia
  | .owner => none
  | .shared via => some via

/-- `choiceOf`. -/
def choiceOf (candidate : GoCandidate) (summary : GoBookmarkSummary) : GoChoice :=
  { id := summary.id
    title := summary.title
    host := summary.host
    owner := if candidate.access = .owner then none
      else summary.ownerId.bind fun accountId => summary.ownerName.map fun displayName => { accountId, displayName }
    sharedVia := Access.via candidate.access }

section

variable (texts : GoTexts)

/-- `byTitle`. -/
def byTitle : GoChoice → GoChoice → Ordering :=
  compareLex (fun a b => texts.localeCompare (texts.lowerTitle a.title) (texts.lowerTitle b.title))
    (fun a b => texts.localeCompare (texts.uuidText a.id) (texts.uuidText b.id))

/-- A choice is not after another one. -/
def NotAfter (a b : GoChoice) : Prop := (byTitle texts a b).isLE = true

instance : DecidableRel (NotAfter texts) := fun a b => inferInstanceAs (Decidable ((byTitle texts a b).isLE = true))

/-- What the statements of one resolution find. -/
structure Moments where
  scan : Content
  remembered : Content
  summaries : Content
  displayName : Uuid → Option String
  forget : Content

/-- The text of a slug, which is ASCII. -/
def slugText (slug : JsString) : String := String.ofList (slug.map fun u => Char.ofNat u.toNat)

/-- The candidates that still exist, with their choices. -/
def choicesOf (found : List GoCandidate) (summaries : List GoBookmarkSummary) : List (GoCandidate × GoChoice) :=
  found.filterMap fun candidate =>
    (summaries.find? fun summary => decide (summary.id = candidate.id)).map fun summary => (candidate, choiceOf candidate summary)

/-- The choice among what is the member's own and what is shared. -/
def chooseUnpreferred (a : Uuid) (choices : List (GoCandidate × GoChoice)) : GoWorkspaceResolution :=
  let own := ((choices.filter fun e => decide (e.1.access = .owner) && decide (e.1.ownerId = some a)).map Prod.snd).insertionSort
    (NotAfter texts)
  match own with
  | first :: _ => .single first
  | [] =>
    let shared := (choices.filter fun e => !decide (e.1.access = .owner)).map Prod.snd
    match shared with
    | [] => .none
    | [only] => .single only
    | _ => .multiple (shared.insertionSort (NotAfter texts))

/-- `resolveInWorkspace`: the resolution, and the content that `forgetStale` leaves when it is called. -/
def resolveInWorkspace (m : Moments) (w a : Uuid) (ask : JsString) : GoWorkspaceResolution × Option Content :=
  match parseSlug texts.toLowerCase ask with
  | none => (.none, none)
  | some parsed =>
    let slug := slugText parsed
    let found := candidates m.scan m.remembered w a slug
    let forgotten := found.preferredId.map (forgetStale m.forget w a slug)
    if found.candidates = [] then (.none, forgotten)
    else
      let choices := choicesOf found.candidates
        (summaries m.summaries m.displayName w a (found.candidates.map GoCandidate.id))
      match choices.find? fun e => decide (found.preferredId = some e.2.id) with
      | some preferred => (.preferred preferred.2, none)
      | none => (chooseUnpreferred texts a choices, forgotten)

end

/-! ## What is resolved -/

/-- The bookmark has the slug in the workspace, forwards, is not plan-archived and can be read by the account. -/
structure IsCandidate (c : Content) (w a : Uuid) (slug : String) (b : Bookmark) : Prop where
  workspace : b.workspaceId = w
  slug : b.slug = some slug
  forwarding : b.forwarding = true
  live : b.planArchivedAt = none
  readable : CanRead c a b

/-- A choice that may be named: of a candidate that can still be read when it is summarised, and the member's own or not. -/
def Offered (m : Moments) (w a : Uuid) (slug : String) (own : Bool) (choice : GoChoice) : Prop :=
  ∃ b ∈ m.scan.bookmarks, IsCandidate m.scan w a slug b ∧ own = decide (b.ownerId = some a) ∧
    ∃ access, bookmarkAccessOf m.scan a b = some access ∧
      ∃ b' ∈ m.summaries.bookmarks, b'.workspaceId = w ∧ b'.id = b.id ∧ CanRead m.summaries a b' ∧
        choice = choiceOf (candidateOf b access) (summaryOf m.displayName b')

/-- **Which of the choices is answered**: the remembered one, then the first of the member's own, then the one that is shared,
then the several that are, sorted. -/
inductive Resolves (texts : GoTexts) (offered : Bool → GoChoice → Prop) (preferredId : Option Uuid) : GoWorkspaceResolution → Prop
  | none (h : ∀ own choice, ¬ offered own choice) : Resolves texts offered preferredId .none
  | preferred (own : Bool) (choice : GoChoice) (h : offered own choice) (hpreferred : preferredId = some choice.id) :
    Resolves texts offered preferredId (.preferred choice)
  | own (choice : GoChoice) (hno : ∀ own other, offered own other → preferredId ≠ some other.id) (h : offered true choice)
    (hfirst : ∀ other, offered true other → NotAfter texts choice other) : Resolves texts offered preferredId (.single choice)
  | shared (choice : GoChoice) (hno : ∀ own other, offered own other → preferredId ≠ some other.id)
    (hown : ∀ other, ¬ offered true other) (h : ∀ other, offered false other ↔ other = choice) :
    Resolves texts offered preferredId (.single choice)
  | several (choices : List GoChoice) (hno : ∀ own other, offered own other → preferredId ≠ some other.id)
    (hown : ∀ other, ¬ offered true other) (h : ∀ other, offered false other ↔ other ∈ choices) (hnodup : choices.Nodup)
    (hsorted : choices.Pairwise (NotAfter texts)) (hseveral : 2 ≤ choices.length) :
    Resolves texts offered preferredId (.multiple choices)

/-- The bookmark of a remembered choice has another slug, forwards no longer or can no longer be read. -/
def Stale (c : Content) (w a : Uuid) (slug : String) (bookmarkId : Uuid) : Prop :=
  ∀ b ∈ c.bookmarks, b.id = bookmarkId → b.workspaceId = w → b.slug = some slug → b.forwarding = true → ¬ CanRead c a b

/-- A resolution, and a remembered choice that is looked at again exactly when it names no choice, and deleted exactly when
it still names its bookmark and this is stale. -/
structure ResolvedAs (texts : GoTexts) (m : Moments) (w a : Uuid) (slug : String) (preferredId : Option Uuid)
    (resolution : GoWorkspaceResolution) (after : Option Content) : Prop where
  resolves : Resolves texts (Offered m w a slug) preferredId resolution
  kept : after = none ↔ ∀ id, preferredId = some id → ∃ own choice, Offered m w a slug own choice ∧ choice.id = id
  forgotten : ∀ c id, after = some c → preferredId = some id →
    (∀ p, p ∈ c.slugPreferences ↔
      p ∈ m.forget.slugPreferences ∧ ¬ (p.key = (w, a, slug) ∧ p.bookmarkId = id ∧ Stale m.forget w a slug id)) ∧
    c = { m.forget with slugPreferences := c.slugPreferences }

/-! ## The order of the titles -/

section

variable (texts : GoTexts) [Std.TransCmp texts.localeCompare]

instance : Std.TransCmp (byTitle texts) := by
  have hkey : ∀ key : GoChoice → String, Std.TransCmp fun a b => texts.localeCompare (key a) (key b) := fun key =>
    { eq_swap := @fun a b => @Std.OrientedCmp.eq_swap _ texts.localeCompare _ (key a) (key b)
      isLE_trans := @fun a b c => @Std.TransCmp.isLE_trans _ texts.localeCompare _ (key a) (key b) (key c) }
  have htitle := hkey fun c => texts.lowerTitle c.title
  have hid := hkey fun c => texts.uuidText c.id
  unfold byTitle
  infer_instance

instance : Std.Total (NotAfter texts) where
  total a b := by
    show (byTitle texts a b).isLE = true ∨ (byTitle texts b a).isLE = true
    rw [@Std.OrientedCmp.eq_swap _ (byTitle texts) _ b a]
    cases byTitle texts a b <;> simp

instance : IsTrans GoChoice (NotAfter texts) where
  trans a b c := @Std.TransCmp.isLE_trans _ (byTitle texts) _ a b c

end

/-! ## The candidates and their choices -/

variable {c : Content} {w a : Uuid} {slug : String}

theorem access_owner_iff {b : Bookmark} {access : Access} (h : bookmarkAccessOf c a b = some access) :
    access = .owner ↔ b.ownerId = some a := by
  unfold bookmarkAccessOf at h
  rw [sqlEq_some] at h
  by_cases hown : b.ownerId = some a
  · rw [if_pos (decide_eq_true hown)] at h
    exact ⟨fun _ => hown, fun _ => (Option.some.inj h).symm⟩
  · rw [if_neg (by simpa using hown)] at h
    obtain ⟨g, -, hg⟩ := Option.map_eq_some_iff.mp h
    subst hg
    exact ⟨fun hfalse => (by cases hfalse), fun hfalse => absurd hfalse hown⟩

theorem forwards_iff {b : Bookmark} :
    forwards w slug b = true ↔ b.workspaceId = w ∧ b.slug = some slug ∧ b.forwarding = true := by
  simp [forwards, and_assoc]

theorem mem_candidatesStatement {candidate : GoCandidate} :
    candidate ∈ candidatesStatement c w a slug ↔
      ∃ b ∈ c.bookmarks, IsCandidate c w a slug b ∧
        ∃ access, bookmarkAccessOf c a b = some access ∧ candidate = candidateOf b access := by
  simp only [candidatesStatement, List.mem_filterMap, List.mem_filter, Bool.and_eq_true, forwards_iff,
    Option.isNone_iff_eq_none, bookmarkReadableBy_iff, Option.map_eq_some_iff]
  constructor
  · rintro ⟨b, ⟨hb, ⟨⟨hw, hslug, hforwarding⟩, hlive⟩, hread⟩, access, haccess, rfl⟩
    exact ⟨b, hb, ⟨hw, hslug, hforwarding, hlive, hread⟩, access, haccess, rfl⟩
  · rintro ⟨b, hb, h, access, haccess, rfl⟩
    exact ⟨b, ⟨hb, ⟨⟨h.workspace, h.slug, h.forwarding⟩, h.live⟩, h.readable⟩, access, haccess, rfl⟩

theorem candidatesStatement_ids : (candidatesStatement c w a slug).Pairwise fun x y => x.id ≠ y.id := by
  have hrows : c.bookmarks.rows.Pairwise fun b b' => b.id ≠ b'.id := List.pairwise_map.mp c.bookmarks.keyed
  unfold candidatesStatement
  rw [List.pairwise_filterMap]
  refine (hrows.filter _).imp ?_
  intro b b' hne x hx y hy
  obtain ⟨_, -, rfl⟩ := Option.map_eq_some_iff.mp hx
  obtain ⟨_, -, rfl⟩ := Option.map_eq_some_iff.mp hy
  exact hne

theorem mem_summaries {displayName : Uuid → Option String} {ids : List Uuid} {summary : GoBookmarkSummary} :
    summary ∈ summaries c displayName w a ids ↔
      ∃ b ∈ c.bookmarks, b.workspaceId = w ∧ b.id ∈ ids ∧ CanRead c a b ∧ summary = summaryOf displayName b := by
  simp only [summaries, List.mem_map, List.mem_filter, Bool.and_eq_true, decide_eq_true_eq, bookmarkReadableBy_iff]
  constructor
  · rintro ⟨b, ⟨hb, ⟨hw, hid⟩, hread⟩, rfl⟩
    exact ⟨b, hb, hw, hid, hread, rfl⟩
  · rintro ⟨b, hb, hw, hid, hread, rfl⟩
    exact ⟨b, ⟨hb, ⟨hw, hid⟩, hread⟩, rfl⟩

/-- A candidate has the choice of its summary. -/
theorem mem_choicesOf {found : List GoCandidate} {displayName : Uuid → Option String} {ids : List Uuid} {candidate : GoCandidate}
    {choice : GoChoice} :
    (candidate, choice) ∈ choicesOf found (summaries c displayName w a ids) ↔
      candidate ∈ found ∧ ∃ b ∈ c.bookmarks, b.workspaceId = w ∧ b.id ∈ ids ∧ CanRead c a b ∧ b.id = candidate.id ∧
        choice = choiceOf candidate (summaryOf displayName b) := by
  simp only [choicesOf, List.mem_filterMap, Option.map_eq_some_iff, Prod.mk.injEq]
  constructor
  · rintro ⟨_, hfound, summary, hsummary, rfl, rfl⟩
    obtain ⟨b, hb, hw, hid, hread, rfl⟩ := mem_summaries.mp (List.mem_of_find?_eq_some hsummary)
    have hsame := List.find?_some hsummary
    exact ⟨hfound, b, hb, hw, hid, hread, of_decide_eq_true hsame, rfl⟩
  · rintro ⟨hfound, b, hb, hw, hid, hread, hsame, rfl⟩
    have hmem : summaryOf displayName b ∈ summaries c displayName w a ids := mem_summaries.mpr ⟨b, hb, hw, hid, hread, rfl⟩
    cases hfind : (summaries c displayName w a ids).find? fun summary => decide (summary.id = candidate.id) with
    | none => exact absurd (decide_eq_true hsame) (List.find?_eq_none.mp hfind _ hmem)
    | some summary =>
      obtain ⟨b', hb', -, -, -, rfl⟩ := mem_summaries.mp (List.mem_of_find?_eq_some hfind)
      have hfound' := List.find?_some hfind
      have hsame' : b'.id = candidate.id := of_decide_eq_true hfound'
      have heq : b' = b := c.bookmarks.eq_of_key hb' hb (hsame'.trans hsame.symm)
      exact ⟨candidate, hfound, _, hfind, rfl, by rw [heq]⟩

/-- The choices are those that may be named. -/
theorem offered_iff {m : Moments} {own : Bool} {choice : GoChoice} :
    Offered m w a slug own choice ↔
      ∃ candidate, (candidate, choice) ∈ choicesOf (candidatesStatement m.scan w a slug)
        (summaries m.summaries m.displayName w a ((candidatesStatement m.scan w a slug).map GoCandidate.id)) ∧
        own = decide (candidate.access = .owner) := by
  simp only [Offered, mem_choicesOf]
  constructor
  · rintro ⟨b, hb, hcandidate, rfl, access, haccess, b', hb', hw, hid, hread, rfl⟩
    have hmem : candidateOf b access ∈ candidatesStatement m.scan w a slug :=
      mem_candidatesStatement.mpr ⟨b, hb, hcandidate, access, haccess, rfl⟩
    refine ⟨candidateOf b access, ⟨hmem, b', hb', hw, List.mem_map.mpr ⟨_, hmem, hid.symm⟩, hread, hid, rfl⟩, ?_⟩
    exact decide_eq_decide.mpr (access_owner_iff haccess).symm
  · rintro ⟨candidate, ⟨hmem, b', hb', hw, -, hread, hid, rfl⟩, rfl⟩
    obtain ⟨b, hb, hcandidate, access, haccess, rfl⟩ := mem_candidatesStatement.mp hmem
    exact ⟨b, hb, hcandidate, decide_eq_decide.mpr (access_owner_iff haccess), access, haccess, b', hb', hw, hid, hread, rfl⟩

/-- No choice is named twice. -/
theorem choicesOf_ids {found : List GoCandidate} {found' : List GoBookmarkSummary}
    (h : found.Pairwise fun x y => x.id ≠ y.id) : (choicesOf found found').Pairwise fun x y => x.2.id ≠ y.2.id := by
  unfold choicesOf
  rw [List.pairwise_filterMap]
  refine h.imp ?_
  intro candidate candidate' hne x hx y hy
  obtain ⟨summary, hsummary, rfl⟩ := Option.map_eq_some_iff.mp hx
  obtain ⟨summary', hsummary', rfl⟩ := Option.map_eq_some_iff.mp hy
  have hfound := List.find?_some hsummary
  have hfound' := List.find?_some hsummary'
  have hid : summary.id = candidate.id := of_decide_eq_true hfound
  have hid' : summary'.id = candidate'.id := of_decide_eq_true hfound'
  show summary.id ≠ summary'.id
  rw [hid, hid']
  exact hne

/-! ## The choice, resolved -/

section

variable (texts : GoTexts) [Std.TransCmp texts.localeCompare]

/-- Without a remembered choice, the member's own comes before what is shared. -/
theorem chooseUnpreferred_resolves {choices : List (GoCandidate × GoChoice)} {offered : Bool → GoChoice → Prop}
    {preferredId : Option Uuid}
    (hoffered : ∀ own choice, offered own choice ↔
      ∃ candidate, (candidate, choice) ∈ choices ∧ own = decide (candidate.access = .owner))
    (howner : ∀ e ∈ choices, e.1.access = .owner → e.1.ownerId = some a) (hids : choices.Pairwise fun x y => x.2.id ≠ y.2.id)
    (hno : ∀ own other, offered own other → preferredId ≠ some other.id) :
    Resolves texts offered preferredId (chooseUnpreferred texts a choices) := by
  have hown : ∀ choice, choice ∈ ((choices.filter fun e =>
      decide (e.1.access = .owner) && decide (e.1.ownerId = some a)).map Prod.snd).insertionSort (NotAfter texts) ↔
      offered true choice := by
    intro choice
    simp only [List.mem_insertionSort, List.mem_map, List.mem_filter, Bool.and_eq_true, decide_eq_true_eq, hoffered]
    constructor
    · rintro ⟨e, ⟨he, haccess, -⟩, rfl⟩
      exact ⟨e.1, he, (decide_eq_true haccess).symm⟩
    · rintro ⟨candidate, hmem, haccess⟩
      have haccess' := of_decide_eq_true haccess.symm
      exact ⟨(candidate, choice), ⟨hmem, haccess', howner _ hmem haccess'⟩, rfl⟩
  have hshared : ∀ choice, choice ∈ (choices.filter fun e => !decide (e.1.access = .owner)).map Prod.snd ↔
      offered false choice := by
    intro choice
    simp only [List.mem_map, List.mem_filter, Bool.not_eq_true', decide_eq_false_iff_not, hoffered]
    constructor
    · rintro ⟨e, ⟨he, haccess⟩, rfl⟩
      exact ⟨e.1, he, (decide_eq_false haccess).symm⟩
    · rintro ⟨candidate, hmem, haccess⟩
      exact ⟨(candidate, choice), ⟨hmem, of_decide_eq_false haccess.symm⟩, rfl⟩
  have hnodup : ((choices.filter fun e => !decide (e.1.access = .owner)).map Prod.snd).Nodup :=
    List.pairwise_map.mpr ((hids.filter _).imp fun hne heq => hne (congrArg GoChoice.id heq))
  have hsorted := List.pairwise_insertionSort (NotAfter texts) ((choices.filter fun e =>
    decide (e.1.access = .owner) && decide (e.1.ownerId = some a)).map Prod.snd)
  unfold chooseUnpreferred
  cases hownList : ((choices.filter fun e =>
      decide (e.1.access = .owner) && decide (e.1.ownerId = some a)).map Prod.snd).insertionSort (NotAfter texts) with
  | cons first rest =>
    rw [hownList] at hsorted hown
    refine .own first hno ((hown first).mp List.mem_cons_self) fun other hother => ?_
    rcases List.mem_cons.mp ((hown other).mpr hother) with rfl | hrest
    · exact (Std.Total.total other other).elim id id
    · exact List.rel_of_pairwise_cons hsorted hrest
  | nil =>
    rw [hownList] at hown
    have hnone : ∀ other, ¬ offered true other := fun other hother => List.not_mem_nil ((hown other).mpr hother)
    cases hsharedList : (choices.filter fun e => !decide (e.1.access = .owner)).map Prod.snd with
    | nil =>
      rw [hsharedList] at hshared
      refine .none fun own choice hchoice => ?_
      cases own with
      | true => exact hnone choice hchoice
      | false => exact List.not_mem_nil ((hshared choice).mpr hchoice)
    | cons first rest =>
      rw [hsharedList] at hshared hnodup
      cases rest with
      | nil => exact .shared first hno hnone fun other => by rw [← hshared other, List.mem_singleton]
      | cons second rest =>
        refine .several _ hno hnone (fun other => ?_) ?_ (List.pairwise_insertionSort (NotAfter texts) _) ?_
        · rw [List.mem_insertionSort, hshared]
        · exact (List.perm_insertionSort (NotAfter texts) _).nodup_iff.mpr hnodup
        · rw [List.length_insertionSort]
          simp only [List.length_cons]
          omega

theorem mem_forgetStale {id : Uuid} {p : SlugPreference} :
    p ∈ (forgetStale c w a slug id).slugPreferences ↔
      p ∈ c.slugPreferences ∧ ¬ (p.key = (w, a, slug) ∧ p.bookmarkId = id ∧ Stale c w a slug id) := by
  have hstale : (c.bookmarks.any fun b => decide (b.id = id) && forwards w slug b && bookmarkReadableBy c a b) = false ↔
      Stale c w a slug id := by
    rw [← Bool.not_eq_true, Table.any_iff]
    simp only [Bool.and_eq_true, decide_eq_true_eq, forwards_iff, bookmarkReadableBy_iff, Stale]
    grind
  simp only [forgetStale, Table.mem_deleteWhere, Bool.and_eq_false_iff, decide_eq_false_iff_not, Bool.not_eq_false']
  refine and_congr_right fun _ => ?_
  rw [← hstale]
  grind

theorem map_eq_none_iff_found {found : Uuid → Prop} {preferredId : Option Uuid} (f : Uuid → Content)
    (hnot : ∀ id, found id → preferredId ≠ some id) :
    preferredId.map f = none ↔ ∀ id, preferredId = some id → found id := by
  rw [Option.map_eq_none_iff]
  constructor
  · rintro rfl id hid
    cases hid
  · intro h
    by_contra hsome
    obtain ⟨id, hid⟩ := Option.ne_none_iff_exists'.mp hsome
    exact hnot id (h id hid) hid

/-- **The resolution of a slug, in every state of the workspace that each statement finds.** -/
theorem resolveInWorkspace_resolvedAs (m : Moments) (w a : Uuid) (ask : JsString) :
    (parseSlug texts.toLowerCase ask = none → resolveInWorkspace texts m w a ask = (.none, none)) ∧
    ∀ slug, parseSlug texts.toLowerCase ask = some slug →
      ResolvedAs texts m w a (slugText slug) (candidates m.scan m.remembered w a (slugText slug)).preferredId
        (resolveInWorkspace texts m w a ask).1 (resolveInWorkspace texts m w a ask).2 := by
  refine ⟨fun hparse => by simp [resolveInWorkspace, hparse], fun parsed hparse => ?_⟩
  generalize hslug : slugText parsed = slug
  generalize hpreferred : (candidates m.scan m.remembered w a slug).preferredId = preferredId
  -- what a call of `forgetStale` leaves
  have hforgotten : ∀ c id, preferredId.map (forgetStale m.forget w a slug) = some c → preferredId = some id →
      (∀ p, p ∈ c.slugPreferences ↔
        p ∈ m.forget.slugPreferences ∧ ¬ (p.key = (w, a, slug) ∧ p.bookmarkId = id ∧ Stale m.forget w a slug id)) ∧
      c = { m.forget with slugPreferences := c.slugPreferences } := by
    rintro c id hc rfl
    obtain rfl := Option.some.inj hc
    exact ⟨fun p => mem_forgetStale, rfl⟩
  by_cases hempty : candidatesStatement m.scan w a slug = []
  · have hnothing : ∀ own choice, ¬ Offered m w a slug own choice := by
      intro own choice hchoice
      obtain ⟨candidate, hmem, -⟩ := offered_iff.mp hchoice
      rw [hempty] at hmem
      cases hmem
    have heq : resolveInWorkspace texts m w a ask = (.none, preferredId.map (forgetStale m.forget w a slug)) := by
      simp [resolveInWorkspace, hparse, hslug, candidates, hempty, ← hpreferred]
    rw [heq]
    refine ⟨.none hnothing, ?_, hforgotten⟩
    refine map_eq_none_iff_found _ ?_
    rintro id ⟨own, choice, hchoice, -⟩ -
    exact hnothing own choice hchoice
  · generalize hchoices : choicesOf (candidatesStatement m.scan w a slug)
      (summaries m.summaries m.displayName w a ((candidatesStatement m.scan w a slug).map GoCandidate.id)) = choices
    have hoffered : ∀ own choice, Offered m w a slug own choice ↔
        ∃ candidate, (candidate, choice) ∈ choices ∧ own = decide (candidate.access = .owner) := by
      intro own choice
      rw [offered_iff, hchoices]
    have heq : resolveInWorkspace texts m w a ask =
        match choices.find? fun e => decide (preferredId = some e.2.id) with
        | some preferred => (.preferred preferred.2, none)
        | none => (chooseUnpreferred texts a choices, preferredId.map (forgetStale m.forget w a slug)) := by
      have hfound : (candidates m.scan m.remembered w a slug).candidates = candidatesStatement m.scan w a slug := rfl
      simp only [resolveInWorkspace, hparse, hslug, hpreferred, hfound, if_neg hempty, hchoices]
    cases hfind : choices.find? fun e => decide (preferredId = some e.2.id) with
    | some preferred =>
      rw [heq, hfind]
      have hmem := List.mem_of_find?_eq_some hfind
      have hsame := List.find?_some hfind
      have hid : preferredId = some preferred.2.id := of_decide_eq_true hsame
      have hchoice : Offered m w a slug (decide (preferred.1.access = .owner)) preferred.2 :=
        (hoffered _ _).mpr ⟨preferred.1, hmem, rfl⟩
      refine ⟨.preferred _ _ hchoice hid, ?_, fun c id hc => (by cases hc)⟩
      simp only [true_iff]
      intro id hid'
      exact ⟨_, _, hchoice, Option.some.inj (hid.symm.trans hid')⟩
    | none =>
      rw [heq, hfind]
      have hno : ∀ own other, Offered m w a slug own other → preferredId ≠ some other.id := by
        intro own other hother hid
        obtain ⟨candidate, hmem, -⟩ := (hoffered _ _).mp hother
        exact List.find?_eq_none.mp hfind _ hmem (decide_eq_true hid)
      refine ⟨chooseUnpreferred_resolves texts hoffered ?_ ?_ hno, ?_, hforgotten⟩
      · intro e he haccess
        have hcandidate := hchoices ▸ he
        obtain ⟨hfound, -⟩ := mem_choicesOf.mp hcandidate
        obtain ⟨b, -, -, access, hb, hbe⟩ := mem_candidatesStatement.mp hfound
        rw [hbe] at haccess ⊢
        exact (access_owner_iff hb).mp haccess
      · exact hchoices ▸ choicesOf_ids candidatesStatement_ids
      · refine map_eq_none_iff_found _ ?_
        rintro id ⟨own, choice, hchoice, rfl⟩
        exact hno own choice hchoice

end

/-! ## A choice that is kept -/

/-- Texts in lower case, which the language compares letter by letter. -/
def plainTexts : GoTexts where
  toLowerCase := id
  lowerTitle := id
  localeCompare := compare
  uuidText := toString

/-- Account 7 has chosen its bookmark 10 for `example`, which the plan has archived since. -/
def archivedChoice : Content where
  workspaces := ⟨[⟨3, 1, none⟩], by decide⟩
  members := ⟨[⟨3, 7, .owner⟩], by decide⟩
  bookmarks := ⟨[⟨10, 3, some 7, none, none, none, "https://example.org/", "https://example.org/", "example.org",
    "example", none, some "example", true, none, some 5, 0, none, 1, 0, 0⟩], by decide⟩
  slugPreferences := ⟨[⟨3, 7, "example", 10⟩], by decide⟩

/-- Nothing changes between the statements. -/
def archivedMoments : Moments where
  scan := archivedChoice
  remembered := archivedChoice
  summaries := archivedChoice
  displayName := fun _ => none
  forget := archivedChoice

theorem resolveInWorkspace_resolvedAs_archived :
    ResolvedAs plainTexts archivedMoments 3 7 (slugText (js "example")) (some 10) .none
      (some (forgetStale archivedChoice 3 7 (slugText (js "example")) 10)) :=
  haveI : Std.TransCmp plainTexts.localeCompare := inferInstanceAs (Std.TransCmp (compare : String → String → Ordering))
  (resolveInWorkspace_resolvedAs plainTexts archivedMoments 3 7 (js "example")).2 (js "example") (by decide)

/-- A choice that names no candidate is not always forgotten. -/
theorem forgetStale_archived :
    ¬ ∀ (m : Moments) (w a : Uuid) (ask slug : JsString) (p : SlugPreference) (c : Content),
      parseSlug plainTexts.toLowerCase ask = some slug → p ∈ m.forget.slugPreferences → p.key = (w, a, slugText slug) →
      (candidates m.scan m.remembered w a (slugText slug)).preferredId = some p.bookmarkId →
      (∀ b ∈ m.scan.bookmarks, IsCandidate m.scan w a (slugText slug) b → b.id ≠ p.bookmarkId) →
      (resolveInWorkspace plainTexts m w a ask).2 = some c → p ∉ c.slugPreferences := by
  intro h
  refine h archivedMoments 3 7 (js "example") (js "example") ⟨3, 7, "example", 10⟩
    (forgetStale archivedChoice 3 7 (slugText (js "example")) 10) (by decide) List.mem_cons_self (by decide) (by decide) ?_
    rfl ?_
  · intro b hb hcandidate
    obtain rfl := List.mem_singleton.mp hb
    exact absurd hcandidate.live (by decide)
  · show _ ∈ (forgetStale archivedChoice 3 7 (slugText (js "example")) 10).slugPreferences.rows
    decide

end SlugBase.Go
