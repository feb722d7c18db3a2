import SlugBase.Lib.Transition
import SlugBase.Bookmark.Creation
import SlugBase.Departure

/-!
# The bookmark counter over whole runs

The operations that change a workspace's bookmarks or its counter as one transition system, each step
one transaction under the lock of the workspace's row, by any member and in any order.

* `Op`, `Op.run`, `contentSystem`: the steps; the batches that purge a workspace being deleted, which
  ends with the workspace itself, are not among them;
* `Answer.refused`, `Op.namesNone`: what a step that must change nothing answers or names;
* **`bookmarkCount_exact_and_bounded`**: in every reachable state the counter is the number of live
  bookmarks, a step that raised it under a ceiling left it below, and a refusal changes nothing.
-/

namespace SlugBase

open Relational Transition

/-! ## The steps -/

/-- `sys_create_workspace`: a workspace with its owner. -/
def sysCreateWorkspace (w owner : Uuid) (c : Content) : Except SqlError Content :=
  match c.workspaces.insert? ⟨w, 0, none⟩, c.members.insert? ⟨w, owner, .owner⟩ with
  | some workspaces, some members => .ok { c with workspaces := workspaces, members := members }
  | none, _ => .error (.uniqueViolation "workspaces_pkey")
  | _, none => .error (.uniqueViolation "workspace_members_pkey")

/-- `INSERT INTO workspace_members`. -/
def insertMember (m : Member) (c : Content) : Except SqlError Content :=
  if !c.workspaces.any fun r => decide (r.id = m.workspaceId) then
    .error (.foreignKeyViolation "workspace_members_workspace_id_fkey")
  else match c.members.insert? m with
    | some members => .ok { c with members := members }
    | none => .error (.uniqueViolation "workspace_members_pkey")

/-- The row of a workspace whose deletion is requested. -/
def Workspace.marked (s : Session) (r : Workspace) : Workspace := { r with deletingAt := some s.now }

/-- The write of `sys_workspace_mark_deleting`. -/
def markDeleting (s : Session) (w : Uuid) (c : Content) : Content :=
  { c with
    workspaces := c.workspaces.updateWhere (fun r => decide (r.id = w) && r.deletingAt.isNone)
      (·.marked s) fun _ => rfl }

/-- A step: an operation on bookmarks, or a change of the workspaces and members they need. -/
inductive Op
  | create (request : CreationRequest)
  | delete (pWorkspaceId pBookmarkId : Option Uuid)
  | deleteMany (pWorkspaceId : Option Uuid) (pBookmarkIds : Option (List (Option Uuid)))
  | archiveSet (pWorkspaceId : Option Uuid) (pBookmarkIds : Option (List (Option Uuid)))
      (pArchive : Option Bool)
  | importMany (ceiling : Option ℤ) (bookmarks : List NewBookmark) (refusal : Option String)
  | departureApply (pWorkspaceId pDepartureId : Option Uuid) (pContent : Option String)
      (pRecipient : Option Uuid)
  | endMembership (workspaceId accountId : Uuid)
  | createWorkspace (workspaceId owner : Uuid)
  | join (member : Member)
  | markDeleting (workspaceId : Uuid)
  deriving DecidableEq, Repr

/-- What a step answers. -/
inductive Answer
  | creation (creation : Creation)
  | deleted (deleted : Bool)
  | deletedMany (deleted : Option ℕ)
  | archived (changed : Option ℕ)
  | imported (imported : Imported)
  | applied (applied : DepartureApplied)
  | done
  deriving DecidableEq, Repr

/-- Whether the answer says that nothing was done. -/
def Answer.refused : Outcome Answer → Bool
  | .error _ => true
  | .ok (.creation (.created _)) => false
  | .ok (.creation _) => true
  | .ok (.deleted found) => !found
  | .ok (.deletedMany k) => k.getD 0 == 0
  | .ok (.archived k) => k.getD 0 == 0
  | .ok (.imported (.imported n _)) => n == 0
  | .ok (.imported .unavailable) => true
  | .ok (.applied a) => a == {}
  | .ok .done => false

section

variable (lower : String → String)

/-- The transaction of a step. -/
def Op.body (s : Session) (c : Content) : Op → Except SqlError (Answer × Content)
  | .create r => do
    let (a, c') ← createBookmark s r c
    .ok (.creation a, c')
  | .delete pw pid => do
    let (a, c') ← sysBookmarkDelete s pw pid c
    .ok (.deleted a, c')
  | .deleteMany pw pids => do
    let (a, c') ← sysBookmarkDeleteMany s pw pids c
    .ok (.deletedMany a, c')
  | .archiveSet pw pids pa => do
    let (a, c') ← sysBookmarkArchiveSet s pw pids pa c
    .ok (.archived a, c')
  | .importMany ceiling bookmarks refusal => do
    let (a, c') ← importBookmarks s ceiling bookmarks refusal c
    .ok (.imported a, c')
  | .departureApply pw pd pc pr => do
    let (a, c') ← sysMemberDepartureApply lower s pw pd pc pr c
    .ok (.applied a, c')
  | .endMembership w a => .ok (.done, c.deleteMember lower s w a)
  | .createWorkspace w owner => do
    let c' ← sysCreateWorkspace w owner c
    .ok (.done, c')
  | .join m => do
    let c' ← insertMember m c
    .ok (.done, c')
  | .markDeleting w => .ok (.done, SlugBase.markDeleting s w c)

/-- A step as a transaction: an error undoes it. -/
def Op.run (s : Session) (op : Op) (c : Content) : Outcome Answer × Content :=
  atomically (fun c => op.body lower s c) c

/-- **The runs**: from a database without content, any operation of any session after any other. -/
def contentSystem : System Content (Session × Op) where
  init c := c = {}
  step c l c' := (l.2.run lower l.1 c).2 = c'

end

/-- The ceiling a step was given. -/
def Op.ceiling : Op → Option ℤ
  | .create r => r.ceiling
  | .importMany ceiling _ _ => ceiling
  | _ => none

/-- Whether a step on existing bookmarks names none of the workspace it acts on. -/
def Op.namesNone (c : Content) : Op → Prop
  | .delete pw pid => ∀ b ∈ c.bookmarks, some b.workspaceId = pw → some b.id ≠ pid
  | .deleteMany pw pids => ∀ b ∈ c.bookmarks, some b.workspaceId = pw → ∀ ids, pids = some ids → some b.id ∉ ids
  | .archiveSet pw pids _ => ∀ b ∈ c.bookmarks, some b.workspaceId = pw → ∀ ids, pids = some ids → some b.id ∉ ids
  | .departureApply pw pd _ _ => ∀ b ∈ c.bookmarks, ∀ w departure, pw = some w → pd = some departure →
      b.releasedBy w departure = false
  | .endMembership w a => ∀ b ∈ c.bookmarks, ¬(b.workspaceId = w ∧ b.ownerId = some a)
  | .importMany _ bookmarks _ => bookmarks = []
  | _ => False

/-- Whether a step changes workspaces or members and no bookmark. -/
def Op.administrative : Op → Bool
  | .createWorkspace .. => true
  | .join _ => true
  | .markDeleting _ => true
  | _ => false

/-! ## One step -/

/-- What a step on bookmarks does: it moves the counter and the live bookmarks of one workspace
together, below the ceiling where it raises them, and a step that did or named nothing moved nothing. -/
structure Op.Effect (op : Op) (c c' : Content) (refused : Bool) : Prop where
  moves : ∃ w n, c.Moves c' w n ∧
    ∀ m, op.ceiling = some m → 0 < n → ∀ r ∈ c.workspaces, r.id = w → r.bookmarkCount + n ≤ m
  unchanged : refused = true ∨ op.namesNone c → c'.bookmarks = c.bookmarks ∧ c'.workspaces = c.workspaces

theorem Op.Effect.refl (op : Op) (c : Content) (refused : Bool) : op.Effect c c refused :=
  ⟨⟨0, 0, .refl c 0, fun _ _ h => absurd h (lt_irrefl 0)⟩, fun _ => ⟨rfl, rfl⟩⟩

theorem Op.Effect.of_moves {op : Op} {c c' : Content} {refused : Bool} {w : Uuid} {n : ℤ}
    (hm : c.Moves c' w n) (hceiling : op.ceiling = none)
    (hu : refused = true ∨ op.namesNone c → c'.bookmarks = c.bookmarks ∧ c'.workspaces = c.workspaces) :
    op.Effect c c' refused :=
  ⟨⟨w, n, hm, fun _ h => by rw [hceiling] at h; cases h⟩, hu⟩

variable {lower : String → String}

/-- **Every operation on bookmarks has an effect of this kind.** -/
theorem Op.effect {s : Session} {op : Op} {c c' : Content} {answer : Outcome Answer}
    (hop : op.administrative = false) (h : op.run lower s c = (answer, c')) :
    op.Effect c c' (Answer.refused answer) := by
  rcases atomically_cases h with ⟨a, rfl, hbody⟩ | ⟨e, rfl, rfl⟩
  swap
  · exact .refl op c' _
  cases op with
  | create r =>
    obtain ⟨⟨x, c₁⟩, hx, hbody⟩ := ok_of_bind hbody
    cases hbody
    rcases createBookmark_ok hx with ⟨rfl, _⟩ | ⟨w, row, rfl, hrow, hm, hmax⟩
    · exact .refl _ _ _
    · refine ⟨⟨w, 1, hm, fun m hc _ r hr hid => ?_⟩, ?_⟩
      · obtain rfl : r = row := Table.eq_of_key hr (Content.liveWorkspace_some hrow).1
          (hid.trans (Content.liveWorkspace_some hrow).2.1.symm)
        exact hmax m hc
      · rintro (h | h) <;> cases h
  | delete pw pid =>
    obtain ⟨⟨x, c₁⟩, hx, hbody⟩ := ok_of_bind hbody
    cases hbody
    rcases sysBookmarkDelete_ok hx with ⟨rfl, _⟩ | ⟨w, n, rfl, rfl, ⟨b, hb, hw, hid⟩, hm⟩
    · exact .refl _ _ _
    · refine .of_moves hm rfl ?_
      rintro (h | h)
      · cases h
      · exact absurd hid.symm (h b hb (congrArg some hw))
  | deleteMany pw pids =>
    obtain ⟨⟨x, c₁⟩, hx, hbody⟩ := ok_of_bind hbody
    cases hbody
    rcases sysBookmarkDeleteMany_ok hx with ⟨rfl, _⟩ | ⟨w, ids, k, n, rfl, rfl, rfl, hm, hnone, hzero⟩
    · exact .refl _ _ _
    · refine .of_moves hm rfl fun hu => ?_
      have hk : k = 0 := by
        rcases hu with h | h
        · simpa [Answer.refused] using h
        · exact hnone fun b hb hw => h b hb (congrArg some hw) ids rfl
      rw [hzero hk]
      exact ⟨rfl, rfl⟩
  | archiveSet pw pids pa =>
    obtain ⟨⟨x, c₁⟩, hx, hbody⟩ := ok_of_bind hbody
    cases hbody
    rcases sysBookmarkArchiveSet_ok hx with ⟨rfl, _⟩ | ⟨w, ids, k, n, rfl, rfl, rfl, hm, hnone, hzero⟩
    · exact .refl _ _ _
    · refine .of_moves hm rfl fun hu => ?_
      have hk : k = 0 := by
        rcases hu with h | h
        · simpa [Answer.refused] using h
        · exact hnone fun b hb hw => h b hb (congrArg some hw) ids rfl
      rw [hzero hk]
      exact ⟨rfl, rfl⟩
  | importMany ceiling bookmarks refusal =>
    obtain ⟨⟨x, c₁⟩, hx, hbody⟩ := ok_of_bind hbody
    cases hbody
    rcases importBookmarks_ok hx with ⟨rfl, _⟩ | ⟨w, row, n, rfl, hle, hrow, hm, hzero, hmax⟩
    · exact .refl _ _ _
    · refine ⟨⟨w, n, hm, fun m hc hpos r hr hid => ?_⟩, fun hu => ?_⟩
      · obtain rfl : r = row := Table.eq_of_key hr (Content.liveWorkspace_some hrow).1
          (hid.trans (Content.liveWorkspace_some hrow).2.1.symm)
        exact hmax m hc (by exact_mod_cast hpos)
      · have hn : n = 0 := by
          rcases hu with h | h
          · simpa [Answer.refused] using h
          · have hb : bookmarks = [] := h
            rw [hb] at hle
            exact Nat.le_zero.mp hle
        rw [hzero hn]
        exact ⟨rfl, rfl⟩
  | departureApply pw pd pc pr =>
    obtain ⟨⟨x, c₁⟩, hx, hbody⟩ := ok_of_bind hbody
    cases hbody
    rcases sysMemberDepartureApply_ok hx with rfl | ⟨w, departure, n, rfl, rfl, hm, hempty, hnone⟩
    · exact .refl _ _ _
    · refine .of_moves hm rfl fun hu => hnone ?_
      rcases hu with h | h
      · exact hempty (by simpa [Answer.refused] using h)
      · exact fun b hb => h b hb w departure rfl rfl
  | endMembership w a =>
    cases hbody
    have hs : c.SameCounted (c.deleteMember lower s w a) := Content.deleteMember_sameCounted c w a
    refine .of_moves (hs.moves w) rfl ?_
    rintro (h | h)
    · cases h
    · exact ⟨Content.bookmarks_deleteMember_of_none h, hs.workspaces⟩
  | createWorkspace w owner => cases hop
  | join m => cases hop
  | markDeleting w => cases hop

/-- A change of workspaces and members keeps the counters exact. -/
theorem Op.administrative_exact {s : Session} {op : Op} {c c' : Content} {answer : Outcome Answer}
    (hop : op.administrative = true) (h : op.run lower s c = (answer, c')) (he : c.Exact)
    (hp : c.Placed) : c'.Exact ∧ c'.Placed := by
  rcases atomically_cases h with ⟨a, rfl, hbody⟩ | ⟨e, rfl, rfl⟩
  swap
  · exact ⟨he, hp⟩
  cases op with
  | createWorkspace w owner =>
    obtain ⟨c₁, hx, hbody⟩ := ok_of_bind hbody
    cases hbody
    unfold sysCreateWorkspace at hx
    split at hx
    · rename_i t _ ht _
      cases hx
      constructor
      · intro r hr
        rcases (Table.mem_insert? ht).mp hr with hr | rfl
        · exact he r hr
        · -- no bookmark is in a workspace that was not there
          have hnone : c.live w = 0 := Table.count_eq_zero.mpr fun b hb => by
            obtain ⟨r, hr, hid⟩ := hp b hb
            have hne : b.workspaceId ≠ w := hid ▸ Table.key_fresh_of_insert? ht hr
            simp [Bookmark.countedIn, hne]
          exact (congrArg Nat.cast hnone).symm
      · intro b hb
        obtain ⟨r, hr, hid⟩ := hp b hb
        exact ⟨r, (Table.mem_insert? ht).mpr (.inl hr), hid⟩
    · cases hx
    · cases hx
  | join m =>
    obtain ⟨c₁, hx, hbody⟩ := ok_of_bind hbody
    cases hbody
    unfold insertMember at hx
    split_ifs at hx
    split at hx
    · cases hx
      exact ⟨he, hp⟩
    · cases hx
  | markDeleting w =>
    cases hbody
    constructor
    · intro r hr
      obtain ⟨r₀, hr₀, rfl⟩ := (Table.mem_updateWhere (f := Workspace.marked s) (p := _) (h := fun _ => rfl)).mp hr
      have h₀ := he r₀ hr₀
      split_ifs
      · exact h₀
      · exact h₀
    · intro b hb
      obtain ⟨r, hr, hid⟩ := hp b hb
      refine ⟨_, Table.updated_mem (f := Workspace.marked s) (fun _ => rfl) hr, ?_⟩
      split_ifs
      · exact hid
      · exact hid
  | _ => cases hop

/-! ## Every run -/

theorem exact_of_reachable {c : Content} (h : (contentSystem lower).Reachable c) : c.Exact ∧ c.Placed := by
  refine h.invariant (I := fun c => c.Exact ∧ c.Placed) ?_ ?_
  · rintro _ rfl
    exact ⟨fun r hr => absurd hr (Table.not_mem_empty r), fun b hb => absurd hb (Table.not_mem_empty b)⟩
  · rintro c ⟨s, op⟩ c' ⟨he, hp⟩ rfl
    cases hop : op.administrative with
    | true => exact Op.administrative_exact hop rfl he hp
    | false =>
      obtain ⟨w, n, hm, _⟩ := (Op.effect hop rfl).moves
      exact ⟨he.moves hm, hp.moves hm⟩

/-- **The counter is the number of live bookmarks, bounded by every ceiling it was raised under, and
untouched by a step that is refused or names no row.** -/
theorem bookmarkCount_exact_and_bounded {c : Content} (h : (contentSystem lower).Reachable c) :
    (∀ r ∈ c.workspaces, r.bookmarkCount = c.live r.id ∧ 0 ≤ r.bookmarkCount) ∧
      ∀ (s : Session) (op : Op) (answer : Outcome Answer) (c' : Content),
        op.administrative = false → op.run lower s c = (answer, c') →
        (∀ m, op.ceiling = some m → ∀ r ∈ c.workspaces, ∀ r' ∈ c'.workspaces, r'.id = r.id →
          r.bookmarkCount < r'.bookmarkCount → r'.bookmarkCount ≤ m) ∧
        (Answer.refused answer = true ∨ op.namesNone c →
          c'.bookmarks = c.bookmarks ∧ c'.workspaces = c.workspaces) := by
  constructor
  · intro r hr
    have he := (exact_of_reachable h).1 r hr
    refine ⟨he, ?_⟩
    rw [he]
    exact Int.natCast_nonneg _
  · intro s op answer c' hop hrun
    obtain ⟨⟨w, n, hm, hmax⟩, hu⟩ := Op.effect hop hrun
    refine ⟨fun m hc r hr r' hr' hid hlt => ?_, hu⟩
    obtain ⟨r₀, hr₀, hid₀, hcount⟩ := hm.count_eq hr'
    obtain rfl : r₀ = r := Table.eq_of_key hr₀ hr (hid₀.trans hid)
    split_ifs at hcount with hw
    · rw [hcount]
      exact hmax m hc (by omega) r₀ hr₀ (hid₀.trans hw)
    · omega

/-- A workspace at its ceiling: its owner created one bookmark under a ceiling of one. -/
def fullWorkspace : Content :=
  let s : Session := { appAccountId := some 7, appWorkspaceId := some 1 }
  let bookmark : NewBookmark :=
    ⟨10, 7, "https://example.org/", "https://example.org/", "example.org", "Example", none, false,
      some "example", true⟩
  ((Op.create { bookmark := bookmark, ceiling := some 1 }).run id s ((Op.createWorkspace 1 7).run id s {}).2).2

theorem fullWorkspace_reachable : (contentSystem id).Reachable fullWorkspace :=
  .step (a := (_, .create _)) (.step (a := (_, .createWorkspace 1 7)) (.init rfl) rfl) rfl

theorem bookmarkCount_exact_in_fullWorkspace :
    (∀ r ∈ fullWorkspace.workspaces, r.bookmarkCount = fullWorkspace.live r.id ∧ 0 ≤ r.bookmarkCount) ∧
      fullWorkspace.workspaces.rows = [⟨1, 1, none⟩] :=
  ⟨(bookmarkCount_exact_and_bounded fullWorkspace_reachable).1, by decide⟩

end SlugBase
