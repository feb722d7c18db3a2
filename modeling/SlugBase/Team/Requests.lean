import SlugBase.Team.Store

/-!
# What changes teams and their members

Each request is one transaction, statement by statement.

* `replaceMembers`, `update`, `remove`, `create`: the repository of the teams;
* `sysInvitationAccept`, `sysInstanceAddMembership`: the two ways into a workspace;
* `removeMember`: a departure, whose memberships of teams go by foreign key.
-/

namespace SlugBase.Team

open ReadCommitted

/-- The rows of `team_members` are deleted one after the other. -/
def deleteTeamMembers : List (Uuid × Uuid × Uuid) → Program → Program
  | [], rest => rest
  | (w, t, a) :: links, rest => .write (.deleteTeamMember w t a) fun _ => deleteTeamMembers links rest

/-! ## Teams -/

/-- `distinctIdentifiers`. -/
def distinctIdentifiers (ids : List Uuid) : List Uuid := ids.dedup.insertionSort (· ≤ ·)

/-- The memberships of these accounts are locked `FOR KEY SHARE`; `held` tells whether there was one of each. -/
def lockMembers (w : Uuid) : List Uuid → Bool → (Bool → Program) → Program
  | [], held, next => next held
  | a :: accounts, held, next =>
    .lock (.member w a) .keyShare Option.isSome fun found => lockMembers w accounts (held && found) next

/-- The rows of `team_members` are inserted one after the other, but for those that are there. -/
def insertTeamMembers (w t : Uuid) : List Uuid → Program → Program
  | [], rest => rest
  | a :: accounts, rest => .write (.insertTeamMember w t a true) fun _ => insertTeamMembers w t accounts rest

/-- The team's row is locked `FOR UPDATE` and its version compared with the versions of the request. -/
def lockTeam (w t : Uuid) (expected : Option (List ℤ)) (next : TeamRow → Program) : Program :=
  .lock (.team t) .update (fun row => row.join.any fun row => decide (row.workspaceId = w)) fun
    | false => .done .refused
    | true => .read fun (db : Rows) =>
      match db.team t with
      | none => .raise
      | some row =>
        if expected.all fun versions => decide (row.version ∈ versions) then next row else .done .refused

/-- `replaceMembers`, from the memberships that it read. -/
def replaceWith (w t : Uuid) (wanted present : List Uuid) (expected : Option (List ℤ)) : Program :=
  let toRemove := present.filter fun a => decide (a ∉ wanted)
  let toAdd := wanted.filter fun a => decide (a ∉ present)
  deleteTeamMembers (toRemove.map fun a => (w, t, a)) <|
    insertTeamMembers w t toAdd <|
      if toRemove.length + toAdd.length = 0 then .done (.unchanged t expected)
      else .write (.updateTeam t .membersVersion) fun _ => .done (.replaced t expected)

/-- `replaceMembers`. -/
def replaceMembers (w t : Uuid) (accountIds : List Uuid) (expected : Option (List ℤ)) : Program :=
  let wanted := distinctIdentifiers accountIds
  lockTeam w t expected fun _ => .read fun (db : Rows) =>
    lockMembers w (wanted.filter fun a => (db.member w a).isSome) (wanted.all fun a => (db.member w a).isSome) fun
      | false => .done .refused
      | true => .read fun (db : Rows) => replaceWith w t wanted (db.membersOf w t) expected

/-- `update`: a new name that another team of the workspace has is refused. -/
def update (sameName : String → String → Bool) (w t : Uuid) (name description : Option String)
    (expected : Option (List ℤ)) : Program :=
  lockTeam w t expected fun row =>
    let name' := name.getD row.name
    let description' := description.getD row.description
    if (name', description') = (row.name, row.description) then .done (.unchanged t expected)
    else .read fun (db : Rows) =>
      if name' ≠ row.name ∧ ((db.teamsOf w).any fun other =>
          decide (other ≠ t) && (db.team other).any fun row => sameName row.name name') then .done .refused
      else .write (.updateTeam t (.details name' description')) fun
        | false => .raise
        | true => .done (.updated t expected)

/-- `remove`: the memberships go by foreign key. -/
def remove (w t : Uuid) : Program :=
  .write (.deleteTeam w t) fun
    | false => .done .refused
    | true => .read fun (db : Rows) =>
      deleteTeamMembers ((db.membershipsOf t).map fun link => (link.1, t, link.2)) (.done (.removed t))

/-- `create`: a name that a team of the workspace has is refused. -/
def create (sameName : String → String → Bool) (w t : Uuid) (name description : String) : Program :=
  .read fun (db : Rows) =>
    if (db.teamsOf w).any fun other => (db.team other).any fun row => sameName row.name name then .done .refused
    else .write (.insertTeam t ⟨w, name, description, 1, 0⟩) fun _ =>
      .lock (.workspace w) .keyShare Option.isSome fun
        | false => .raise
        | true => .done (.created t)

/-! ## Joins -/

/-- The teams of a workspace are locked `FOR NO KEY UPDATE`, in the order of their identifiers. -/
def lockTeams : List Uuid → Program → Program
  | [], rest => rest
  | t :: teams, rest => .lock (.team t) .noKeyUpdate (fun row => row.join.isSome) fun _ => lockTeams teams rest

/-- The member revision of each of these teams is moved; the teams that were there are collected. -/
def moveTeams : List Uuid → List Uuid → (List Uuid → Program) → Program
  | [], touched, next => next touched
  | t :: teams, touched, next =>
    .write (.updateTeam t .membersVersion) fun found => moveTeams teams (if found then t :: touched else touched) next

/-- The `UPDATE` of every team of a workspace. -/
def moveTeamsOf (w : Uuid) (next : List Uuid → Program) : Program :=
  .read fun (db : Rows) => moveTeams (db.teamsOf w) [] next

/-- The account becomes a member of each of these teams, whose rows are locked `FOR KEY SHARE`. -/
def joinTeams (w a : Uuid) : List Uuid → Program → Program
  | [], rest => rest
  | t :: teams, rest =>
    .lock (.team t) .keyShare (fun row => row.join.any fun row => decide (row.workspaceId = w)) fun
      | false => joinTeams w a teams rest
      | true => .write (.insertTeamMember w t a false) fun _ => joinTeams w a teams rest

/-- A standing workspace is locked `FOR NO KEY UPDATE`; an account that is a member of it already is refused. -/
def lockWorkspace (w a : Uuid) (rest : Program) : Program :=
  .lock (.workspace w) .noKeyUpdate (fun row => decide (row = some none)) fun
    | false => .done .refused
    | true => .read fun (db : Rows) => if (db.member w a).isSome then .done .refused else rest

/-- `sys_invitation_accept`, for an invitation that names these teams, with its trigger `workspace_invitations_touch_teams`. -/
def sysInvitationAccept (w a : Uuid) (role : MemberRole) (teamIds : List Uuid) : Program :=
  .read fun (start : Rows) => lockWorkspace w a <|
    .write (.insertMember w a role) fun _ => .read fun (db : Rows) =>
      joinTeams w a ((db.teamsOf w).filter fun t => decide (t ∈ teamIds)) <|
        .read fun (db : Rows) => lockTeams (db.teamsOf w) <|
          moveTeamsOf w fun touched => .done (.joined w a (start.teamsOf w) touched)

/-- `sys_instance_add_membership`. -/
def sysInstanceAddMembership (w a : Uuid) : Program :=
  .read fun (start : Rows) => lockWorkspace w a <|
    .read fun (db : Rows) => lockTeams (db.teamsOf w) <|
      .write (.insertMember w a .member) fun _ =>
        moveTeamsOf w fun touched => .done (.joined w a (start.teamsOf w) touched)

/-! ## Departures -/

/-- A member leaves the workspace or is removed from it; the memberships of teams go by foreign key. -/
def removeMember (w a : Uuid) : Program :=
  .lock (.workspace w) .noKeyUpdate (fun row => decide (row = some none)) fun
    | false => .done .refused
    | true => .write (.deleteMember w a) fun
      | false => .done .refused
      | true => .read fun (db : Rows) =>
        deleteTeamMembers ((db.teamsOfMember w a).map fun t => (w, t, a)) (.done (.left w a))

/-! ## Requests -/

/-- The requests of any number of callers. -/
inductive Request
  | replaceMembers (w t : Uuid) (accountIds : List Uuid) (expected : Option (List ℤ))
  | update (w t : Uuid) (name description : Option String) (expected : Option (List ℤ))
  | remove (w t : Uuid)
  | create (w t : Uuid) (name description : String)
  | sysInvitationAccept (w a : Uuid) (role : MemberRole) (teamIds : List Uuid)
  | sysInstanceAddMembership (w a : Uuid)
  | removeMember (w a : Uuid)
  deriving DecidableEq, Repr

/-- The transaction of a request. -/
def program (sameName : String → String → Bool) : Request → Program
  | .replaceMembers w t accountIds expected => replaceMembers w t accountIds expected
  | .update w t name description expected => update sameName w t name description expected
  | .remove w t => remove w t
  | .create w t name description => create sameName w t name description
  | .sysInvitationAccept w a role teamIds => sysInvitationAccept w a role teamIds
  | .sysInstanceAddMembership w a => sysInstanceAddMembership w a
  | .removeMember w a => removeMember w a

end SlugBase.Team
