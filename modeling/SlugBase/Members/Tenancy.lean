import SlugBase.Schema
import SlugBase.Lib.ReadCommitted

/-!
# Workspaces, their members and accounts under concurrent transactions

The rows that decide who owns a workspace, the statements that write them and the rule that is checked when a
transaction commits.

* `Key`, `Row`: the rows of `workspaces`, `workspace_members` and `accounts`, and the key of the advisory lock;
* `Statement`, `change`: what an `INSERT`, an `UPDATE` or a `DELETE` of one row does;
* `workspaceMembersCheckOwner`: the deferred constraint trigger `workspace_members_owner_required`;
* **`change_workspace`**, **`change_member`**: a workspace's row is never deleted nor its deletion taken back, and
  a membership is only inserted where the workspace is.
-/

namespace SlugBase.Members

open ReadCommitted

/-! ## Rows -/

/-- A row of `workspaces`. -/
structure WorkspaceRow where
  createdBy : Option Uuid
  selfCreated : Bool
  deletingAt : Option Timestamp
  deriving DecidableEq, Repr

/-- A row of `workspace_members`. -/
structure MemberRow where
  role : MemberRole
  joinedAt : Timestamp
  deriving DecidableEq, Repr

/-- A row of `accounts`. -/
structure AccountRow where
  emailVerifiedAt : Option Timestamp
  disabledAt : Option Timestamp
  mfaEnabledAt : Option Timestamp
  isInstanceAdmin : Bool
  accessMode : AccessMode
  deriving DecidableEq, Repr

/-- The rows' keys, and the key of the advisory lock of the set of instance admins. -/
inductive Key
  | workspace (id : Uuid)
  | member (workspaceId accountId : Uuid)
  | account (id : Uuid)
  | instanceAdmins
  deriving DecidableEq, Repr

/-- The row of a key. -/
@[reducible] def Row : Key → Type
  | .workspace _ => WorkspaceRow
  | .member _ _ => MemberRow
  | .account _ => AccountRow
  | .instanceAdmins => Unit

/-- The rows of a database. -/
abbrev Rows := AList Row

namespace Rows

variable (db : Rows)

/-- The row of a workspace. -/
abbrev workspace (id : Uuid) : Option WorkspaceRow := db.lookup (.workspace id)

/-- The row of a membership. -/
abbrev member (workspaceId accountId : Uuid) : Option MemberRow := db.lookup (.member workspaceId accountId)

/-- The row of an account. -/
abbrev account (id : Uuid) : Option AccountRow := db.lookup (.account id)

/-- The rows of `workspaces`. -/
def workspaces : List (Uuid × WorkspaceRow) :=
  db.entries.filterMap fun
    | ⟨.workspace w, row⟩ => some (w, row)
    | _ => none

/-- The rows of `workspace_members`, each with the workspace and the account. -/
def members : List (Uuid × Uuid × MemberRow) :=
  db.entries.filterMap fun
    | ⟨.member w a, row⟩ => some (w, a, row)
    | _ => none

/-- The rows of `accounts`. -/
def accounts : List (Uuid × AccountRow) :=
  db.entries.filterMap fun
    | ⟨.account a, row⟩ => some (a, row)
    | _ => none

variable {db}

theorem mem_members {w a : Uuid} {m : MemberRow} : (w, a, m) ∈ members db ↔ db.member w a = some m := by
  rw [members, List.mem_filterMap]
  constructor
  · rintro ⟨⟨k, row⟩, hmem, heq⟩
    cases k with
    | member w' a' =>
      cases heq
      exact AList.mem_lookup_iff.mpr hmem
    | workspace | account | instanceAdmins => cases heq
  · intro h
    exact ⟨⟨.member w a, m⟩, AList.mem_lookup_iff.mp h, rfl⟩

/-- Whether the workspace has a member with the owner role. -/
def hasOwner (db : Rows) (w : Uuid) : Bool :=
  (members db).any fun m => decide (m.1 = w ∧ m.2.2.role = .owner)

/-- The workspace has a member with the owner role. -/
def Owned (db : Rows) (w : Uuid) : Prop := ∃ a m, db.member w a = some m ∧ m.role = .owner

theorem hasOwner_iff {w : Uuid} : hasOwner db w = true ↔ Owned db w := by
  rw [hasOwner, List.any_eq_true]
  constructor
  · rintro ⟨⟨w', a, m⟩, hmem, hm⟩
    obtain ⟨rfl, hrole⟩ := of_decide_eq_true hm
    exact ⟨a, m, mem_members.mp hmem, hrole⟩
  · rintro ⟨a, m, hlookup, hrole⟩
    exact ⟨(w, a, m), mem_members.mpr hlookup, decide_eq_true ⟨rfl, hrole⟩⟩

/-- The workspace exists and is not being deleted. -/
def Live (db : Rows) (w : Uuid) : Prop := ∃ r, db.workspace w = some r ∧ r.deletingAt = none

/-- The workspace exists and is being deleted. -/
def Deleting (db : Rows) (w : Uuid) : Prop := ∃ r, db.workspace w = some r ∧ r.deletingAt ≠ none

theorem Deleting.not_live {w : Uuid} (h : Deleting db w) : ¬ Live db w := by
  rintro ⟨r', hr', hlive⟩
  obtain ⟨r, hr, hdeleting⟩ := h
  rw [hr] at hr'
  exact hdeleting (Option.some.inj hr' ▸ hlive)

end Rows

/-- `deleting_at IS NULL`, of a row that is there. -/
def live : Option WorkspaceRow → Bool
  | some row => row.deletingAt.isNone
  | none => false

theorem live_iff {db : Rows} {w : Uuid} : live (db.workspace w) = true ↔ Rows.Live db w := by
  constructor
  · intro h
    cases hr : db.workspace w with
    | none => rw [hr] at h; cases h
    | some r =>
      rw [hr, live, Option.isNone_iff_eq_none] at h
      exact ⟨r, hr, h⟩
  · rintro ⟨r, hr, hlive⟩
    rw [hr, live, hlive]
    rfl

/-! ## Statements -/

/-- The statements that write one row. -/
inductive Statement
  | insertAccount (id : Uuid) (row : AccountRow)
  | setEmailVerified (id : Uuid) (now : Timestamp)
  | deleteAccount (id : Uuid)
  | insertWorkspace (id : Uuid) (row : WorkspaceRow)
  | setDeleting (id : Uuid) (now : Timestamp)
  | clearCreatedBy (id accountId : Uuid)
  | insertMember (workspaceId accountId : Uuid) (row : MemberRow)
  | setRole (workspaceId accountId : Uuid) (role : MemberRole)
  | deleteMember (workspaceId accountId : Uuid)
  deriving DecidableEq, Repr

/-- The row a statement writes. -/
@[reducible] def Statement.target : Statement → Key
  | .insertAccount id _ | .setEmailVerified id _ | .deleteAccount id => .account id
  | .insertWorkspace id _ | .setDeleting id _ | .clearCreatedBy id _ => .workspace id
  | .insertMember w a _ | .setRole w a _ | .deleteMember w a => .member w a

/-- The lock a statement takes: `FOR UPDATE` when a row comes or goes, `FOR NO KEY UPDATE` when it changes. -/
def Statement.mode : Statement → LockMode
  | .insertAccount _ _ | .deleteAccount _ | .insertWorkspace _ _ | .insertMember _ _ _ | .deleteMember _ _ => .update
  | .setEmailVerified _ _ | .setDeleting _ _ | .clearCreatedBy _ _ | .setRole _ _ _ => .noKeyUpdate

/-- What a statement makes of its row. An `INSERT` raises when the key is taken (`sys_create_account` catches it),
and a membership also when the workspace or the account it refers to is not there; an `UPDATE` or a `DELETE` of no
row does nothing. -/
def Statement.change (db : Rows) : (q : Statement) → Change (Row q.target)
  | .insertAccount id row =>
    match db.account id with
    | none => .becomes (some row)
    | some _ => .nothing
  | .setEmailVerified id now =>
    match db.account id with
    | none => .nothing
    | some row => .becomes (some { row with emailVerifiedAt := some now })
  | .deleteAccount id =>
    match db.account id with
    | none => .nothing
    | some _ => .becomes none
  | .insertWorkspace id row =>
    match db.workspace id with
    | none => .becomes (some row)
    | some _ => .raises
  | .setDeleting id now =>
    match db.workspace id with
    | none => .nothing
    | some row => .becomes (some { row with deletingAt := some now })
  | .clearCreatedBy id accountId =>
    match db.workspace id with
    | none => .nothing
    | some row =>
      if row.createdBy = some accountId then .becomes (some { row with createdBy := none }) else .nothing
  | .insertMember workspaceId accountId row =>
    match db.member workspaceId accountId, db.workspace workspaceId, db.account accountId with
    | none, some _, some _ => .becomes (some row)
    | _, _, _ => .raises
  | .setRole workspaceId accountId role =>
    match db.member workspaceId accountId with
    | none => .nothing
    | some row => .becomes (some { row with role := role })
  | .deleteMember workspaceId accountId =>
    match db.member workspaceId accountId with
    | none => .nothing
    | some _ => .becomes none

/-- The workspaces of one database are in another, and those that were being deleted still are. -/
def Rows.Keeps (db db' : Rows) : Prop :=
  ∀ w r, db.workspace w = some r → ∃ r', db'.workspace w = some r' ∧ (r.deletingAt ≠ none → r'.deletingAt ≠ none)

theorem Rows.Keeps.refl (db : Rows) : db.Keeps db := fun _ r hr => ⟨r, hr, id⟩

theorem Rows.Keeps.trans {db₁ db₂ db₃ : Rows} (h : db₁.Keeps db₂) (h' : db₂.Keeps db₃) : db₁.Keeps db₃ := by
  intro w r hr
  obtain ⟨r₂, hr₂, hd₂⟩ := h w r hr
  obtain ⟨r₃, hr₃, hd₃⟩ := h' w r₂ hr₂
  exact ⟨r₃, hr₃, fun hd => hd₃ (hd₂ hd)⟩

namespace Statement

variable {db : Rows} {q : Statement} {row : Option (Row q.target)}

/-- **No statement deletes a workspace or takes its deletion back.** -/
theorem keeps_of_becomes (h : q.change db = .becomes row) : db.Keeps (put db q.target row) := by
  intro w r hr
  by_cases hq : Key.workspace w = q.target
  · cases q with
    | insertAccount | setEmailVerified | deleteAccount | insertMember | setRole | deleteMember => cases hq
    | insertWorkspace id new =>
      cases hq
      simp only [change, hr] at h
      cases h
    | setDeleting id now =>
      cases hq
      simp only [change, hr] at h
      cases h
      exact ⟨_, lookup_put_self _ _ _, fun _ => Option.some_ne_none now⟩
    | clearCreatedBy id accountId =>
      cases hq
      simp only [change, hr] at h
      split at h
      · cases h
        exact ⟨_, lookup_put_self _ _ _, id⟩
      · cases h
  · exact ⟨r, (lookup_put_ne _ _ hq).trans hr, id⟩

/-- **A membership is only inserted into a workspace that is there.** -/
theorem workspace_of_member (h : q.change db = .becomes row) {w a : Uuid} {m : MemberRow}
    (hm : Rows.member (put db q.target row) w a = some m) :
    (∃ m', db.member w a = some m') ∨ ∃ r, db.workspace w = some r := by
  by_cases hq : Key.member w a = q.target
  · cases q with
    | insertAccount | setEmailVerified | deleteAccount | insertWorkspace | setDeleting | clearCreatedBy => cases hq
    | insertMember workspaceId accountId new =>
      cases hq
      simp only [change] at h
      split at h
      · rename_i hr _
        exact .inr ⟨_, hr⟩
      · cases h
    | setRole workspaceId accountId role | deleteMember workspaceId accountId =>
      cases hq
      simp only [change] at h
      split at h
      · cases h
      · rename_i hold
        exact .inl ⟨_, hold⟩
  · exact .inl ⟨m, (lookup_put_ne _ _ hq).symm.trans hm⟩

end Statement

/-! ## The owner rule -/

/-- `OLD` and `NEW` of a row of `workspace_members` that was updated or deleted. -/
structure MemberChange where
  workspaceId : Uuid
  old : MemberRow
  new : Option MemberRow
  deriving DecidableEq, Repr

/-- Whether the row was an owner's and is not any more. -/
def MemberChange.losesOwner (e : MemberChange) : Bool :=
  match e.new with
  | none => decide (e.old.role = .owner)
  | some new => decide (e.old.role = .owner ∧ new.role ≠ .owner)

/-- `workspace_members_owner_required`, `AFTER DELETE OR UPDATE ON workspace_members … INITIALLY DEFERRED`. -/
def workspaceMembersOwnerRequired : (k : Key) → Option (Row k) → Option (Row k) → List MemberChange
  | .member w _, some old, new => [⟨w, old, new⟩]
  | _, _, _ => []

variable {α : Type}

/-- The count of `workspace_members_check_owner`, a statement of its own under the lock. -/
def countOwners (w : Uuid) (rest : Prog Row Statement α) : Prog Row Statement α :=
  .read fun db => if Rows.hasOwner db w then rest else .raise

/-- The lock `workspace_members_check_owner` takes before it counts. -/
def lockOwned (w : Uuid) (rest : Prog Row Statement α) : Prog Row Statement α :=
  .lock (.workspace w) .noKeyUpdate live fun found => if found then countOwners w rest else rest

/-- `workspace_members_check_owner()`. -/
def workspaceMembersCheckOwner (e : MemberChange) (rest : Prog Row Statement α) : Prog Row Statement α :=
  if e.losesOwner then lockOwned e.workspaceId rest else rest

/-- **The statements and the trigger of the tenancy tables.** -/
def rules (α : Type) : Rules Row Statement MemberChange α where
  target := Statement.target
  mode := Statement.mode
  change q db := q.change db
  queue := workspaceMembersOwnerRequired
  handler := workspaceMembersCheckOwner
  exclusive q q' := by cases q <;> cases q' <;> rfl

end SlugBase.Members
