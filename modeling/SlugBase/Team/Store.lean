import SlugBase.Lib.RelyGuarantee
import SlugBase.Schema
import Mathlib.Data.List.Sort

/-!
# Teams, their members and the members of a workspace

* `Key`, `Row`: the rows; the row of a team that was deleted is kept as `none`, since its identifier is not drawn again;
* `TeamRow.bumped`: the trigger `teams_bump_version`, the only one that moves a version;
* `Statement`, `rules`: the statements that write one row;
* `Answer`: what a transaction answers, with the teams it moved.
-/

namespace SlugBase.Team

open ReadCommitted

/-! ## Rows -/

/-- A row of `teams`. -/
structure TeamRow where
  workspaceId : Uuid
  name : String
  description : String
  version : ℤ
  membersVersion : ℤ
  deriving DecidableEq, Repr

/-- The rows' keys. -/
inductive Key
  | workspace (id : Uuid)
  | member (workspaceId accountId : Uuid)
  | team (id : Uuid)
  | teamMember (workspaceId teamId accountId : Uuid)
  deriving DecidableEq, Repr

/-- The row of a key: of a workspace the time it is being deleted since. -/
@[reducible] def Row : Key → Type
  | .workspace _ => Option Timestamp
  | .member _ _ => MemberRole
  | .team _ => Option TeamRow
  | .teamMember _ _ _ => Unit

/-- The rows of a database. -/
abbrev Rows := AList Row

/-- The rows a transaction has written and the locks it holds. -/
abbrev Local := Held Row

namespace Rows

variable (db : Rows)

/-- The role of a member. -/
abbrev member (w a : Uuid) : Option MemberRole := db.lookup (.member w a)

/-- The row of a team. -/
abbrev team (t : Uuid) : Option TeamRow := (db.lookup (.team t)).join

/-- The row of a team membership. -/
abbrev teamMember (w t a : Uuid) : Option Unit := db.lookup (.teamMember w t a)

/-- The teams of a workspace, in the order of their identifiers. -/
def teamsOf (w : Uuid) : List Uuid :=
  (db.entries.filterMap fun
    | ⟨.team t, some row⟩ => if row.workspaceId = w then some t else none
    | _ => none).insertionSort (· ≤ ·)

/-- The members of a team. -/
def membersOf (w t : Uuid) : List Uuid :=
  db.keys.filterMap fun
    | .teamMember w' t' a => if w' = w ∧ t' = t then some a else none
    | _ => none

/-- The teams that a member is in. -/
def teamsOfMember (w a : Uuid) : List Uuid :=
  db.keys.filterMap fun
    | .teamMember w' t a' => if w' = w ∧ a' = a then some t else none
    | _ => none

/-- The memberships of a team, with their workspaces. -/
def membershipsOf (t : Uuid) : List (Uuid × Uuid) :=
  db.keys.filterMap fun
    | .teamMember w t' a => if t' = t then some (w, a) else none
    | _ => none

variable {db} {w t a : Uuid}

theorem mem_teamsOf : t ∈ teamsOf db w ↔ ∃ row, db.team t = some row ∧ row.workspaceId = w := by
  rw [teamsOf, List.mem_insertionSort, List.mem_filterMap, Rows.team]
  constructor
  · rintro ⟨⟨k, row⟩, hmem, heq⟩
    have hlookup := AList.mem_lookup_iff.mpr hmem
    cases k with
    | workspace | member | teamMember => cases heq
    | team t' =>
      cases row with
      | none => cases heq
      | some row =>
        obtain ⟨hw, ht⟩ := Option.ite_none_right_eq_some.mp heq
        obtain rfl := Option.some.inj ht
        exact ⟨row, by rw [Option.mem_def.mp hlookup]; rfl, hw⟩
  · rintro ⟨row, hrow, hw⟩
    obtain hlookup := Option.join_eq_some_iff.mp hrow
    exact ⟨⟨.team t, some row⟩, AList.mem_lookup_iff.mp hlookup, if_pos hw⟩

theorem teamsOf_nodup : (teamsOf db w).Nodup := by
  refine (List.perm_insertionSort _ _).nodup_iff.mpr (List.pairwise_filterMap.mpr ?_)
  have hkeys := List.pairwise_map.mp db.nodupKeys
  refine hkeys.imp fun {e e'} hne => ?_
  rintro t ht t' ht' rfl
  obtain ⟨k, row⟩ := e
  obtain ⟨k', row'⟩ := e'
  cases k with
  | workspace | member | teamMember => cases ht
  | team u =>
    cases k' with
    | workspace | member | teamMember => cases ht'
    | team u' =>
      cases row with
      | none => cases ht
      | some row =>
        cases row' with
        | none => cases ht'
        | some row' =>
          obtain ⟨-, hu⟩ := Option.ite_none_right_eq_some.mp ht
          obtain ⟨-, hu'⟩ := Option.ite_none_right_eq_some.mp ht'
          exact hne (by rw [Option.some.inj hu, Option.some.inj hu'])

theorem mem_teamsOfMember : t ∈ teamsOfMember db w a ↔ db.teamMember w t a ≠ none := by
  rw [teamsOfMember, List.mem_filterMap, Rows.teamMember, Option.ne_none_iff_isSome, AList.lookup_isSome]
  constructor
  · rintro ⟨k, hk, heq⟩
    cases k with
    | workspace | member | team => cases heq
    | teamMember w' t' a' =>
      obtain ⟨⟨hw, ha⟩, ht⟩ := Option.ite_none_right_eq_some.mp heq
      rw [← hw, ← ha, ← Option.some.inj ht]
      exact hk
  · intro h
    exact ⟨.teamMember w t a, h, if_pos ⟨rfl, rfl⟩⟩

theorem mem_membershipsOf : (w, a) ∈ membershipsOf db t ↔ db.teamMember w t a ≠ none := by
  rw [membershipsOf, List.mem_filterMap, Rows.teamMember, Option.ne_none_iff_isSome, AList.lookup_isSome]
  constructor
  · rintro ⟨k, hk, heq⟩
    cases k with
    | workspace | member | team => cases heq
    | teamMember w' t' a' =>
      obtain ⟨ht, hwa⟩ := Option.ite_none_right_eq_some.mp heq
      obtain ⟨hw, ha⟩ := Prod.mk.inj (Option.some.inj hwa)
      rw [← hw, ← ha, ← ht]
      exact hk
  · intro h
    exact ⟨.teamMember w t a, h, if_pos rfl⟩

end Rows

/-! ## Statements -/

/-- The `SET` of an `UPDATE teams`. -/
inductive TeamSet
  | details (name description : String)
  | membersVersion
  deriving DecidableEq, Repr

/-- The trigger `teams_bump_version` on an update. -/
def TeamRow.bumped (row : TeamRow) : TeamSet → TeamRow
  | .membersVersion => { row with membersVersion := row.membersVersion + 1, version := row.version + 1 }
  | .details name description =>
    if (name, description) ≠ (row.name, row.description) then
      { row with name := name, description := description, version := row.version + 1 }
    else row

/-- The statements that write one row. An insert of a membership may leave one that is there (`ON CONFLICT DO NOTHING`). -/
inductive Statement
  | insertMember (w a : Uuid) (role : MemberRole)
  | deleteMember (w a : Uuid)
  | insertTeam (t : Uuid) (row : TeamRow)
  | updateTeam (t : Uuid) (set : TeamSet)
  | deleteTeam (w t : Uuid)
  | insertTeamMember (w t a : Uuid) (leave : Bool)
  | deleteTeamMember (w t a : Uuid)
  deriving DecidableEq, Repr

/-- The row a statement writes. -/
@[reducible] def Statement.target : Statement → Key
  | .insertMember w a _ | .deleteMember w a => .member w a
  | .insertTeam t _ | .updateTeam t _ | .deleteTeam _ t => .team t
  | .insertTeamMember w t a _ | .deleteTeamMember w t a => .teamMember w t a

/-- The lock a statement takes: `FOR UPDATE` when a row comes or goes, `FOR NO KEY UPDATE` when it changes. -/
def Statement.mode : Statement → LockMode
  | .updateTeam .. => .noKeyUpdate
  | _ => .update

/-- The foreign keys of a membership: its team is one of the workspace, and its account a member. -/
def Rows.placed (db : Rows) (w t a : Uuid) : Bool :=
  ((db.team t).any fun row => decide (row.workspaceId = w)) && (db.member w a).isSome

/-- What a statement makes of its row. -/
def Statement.change (db : Rows) : (q : Statement) → Change (Row q.target)
  | .insertMember w a role =>
    match db.member w a with
    | none => .becomes (some role)
    | some _ => .raises
  | .deleteMember w a =>
    match db.member w a with
    | none => .nothing
    | some _ => .becomes none
  | .insertTeam t row =>
    match db.lookup (.team t) with
    | none => .becomes (some (some { row with version := 1, membersVersion := 0 }))
    | some _ => .raises
  | .updateTeam t set =>
    match db.team t with
    | none => .nothing
    | some row => .becomes (some (some (row.bumped set)))
  | .deleteTeam w t =>
    match db.team t with
    | none => .nothing
    | some row => if row.workspaceId = w then .becomes (some none) else .nothing
  | .insertTeamMember w t a leave =>
    match db.teamMember w t a, leave with
    | some _, true => .nothing
    | some _, false => .raises
    | none, _ => if Rows.placed db w t a then .becomes (some ()) else .raises
  | .deleteTeamMember w t a =>
    match db.teamMember w t a with
    | none => .nothing
    | some _ => .becomes none

/-! ## Answers -/

/-- What a transaction answers: a change of a team with the versions it accepts, and a join with the teams of the workspace
that were there when it began and the teams it moved. -/
inductive Answer
  | replaced (t : Uuid) (expected : Option (List ℤ))
  | unchanged (t : Uuid) (expected : Option (List ℤ))
  | updated (t : Uuid) (expected : Option (List ℤ))
  | joined (w a : Uuid) (known touched : List Uuid)
  | left (w a : Uuid)
  | removed (t : Uuid)
  | created (t : Uuid)
  | refused
  deriving DecidableEq, Repr

namespace Answer

/-- The transaction replaced the member set of the team with another one. -/
def replaces (t : Uuid) : Answer → Bool
  | .replaced t' _ => decide (t' = t)
  | _ => false

/-- The transaction replaced the member set of the team, or joined an account to the workspace and moved the team. -/
def gains (t : Uuid) : Answer → Bool
  | .joined _ _ _ touched => decide (t ∈ touched)
  | answer => answer.replaces t

/-- The transaction moved the version of the team: it did that, or changed the name or the description. -/
def moves (t : Uuid) : Answer → Bool
  | .updated t' _ => decide (t' = t)
  | answer => answer.gains t

theorem moves_of_gains {t : Uuid} {answer : Answer} (h : answer.gains t = true) : answer.moves t = true := by
  cases answer with
  | updated => cases h
  | replaced | unchanged | joined | left | removed | created | refused => exact h

/-- The team whose version was compared with the versions of the request, and these. -/
def accepted : Answer → Option (Uuid × List ℤ)
  | .replaced t (some versions) | .unchanged t (some versions) | .updated t (some versions) => some (t, versions)
  | _ => none

end Answer

/-- What the statements do; no trigger is deferred. -/
def rules : Rules Row Statement Empty Answer where
  target := Statement.target
  mode := Statement.mode
  change q db := q.change db
  queue _ _ _ := []
  handler e := e.elim
  exclusive q q' := by
    cases q <;> cases q' <;> rfl

/-- What a transaction does. -/
abbrev Program := Prog Row Statement Answer

end SlugBase.Team
