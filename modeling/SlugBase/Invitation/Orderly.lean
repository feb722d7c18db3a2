import SlugBase.Invitation.Kept

/-!
# The requests that accept nothing

* `Orderly.mono`, `orderly_writeAll`, `orderly_lockWorkspaces`: the programs they are put together from;
* **`Request.orderly`**: every request but the three acceptances accepts nothing.
-/

namespace SlugBase.Invitation

open ReadCommitted Auth

variable {held held' : List Uuid} {p rest : Program}

theorem Statement.Orderly.mono {q : Statement} (h : q.Orderly held) (hsub : held ⊆ held') : q.Orderly held' := by
  cases q with
  | insertMember w a role => exact hsub h
  | _ => exact h

theorem Statement.keeps_subset (q : Statement) (hsub : held ⊆ held') : q.keeps held ⊆ q.keeps held' := by
  cases q with
  | insertWorkspace w => exact List.cons_subset_cons w hsub
  | _ => exact hsub

theorem subset_keeps (q : Statement) (held : List Uuid) : held ⊆ q.keeps held := by
  cases q with
  | insertWorkspace w => exact List.subset_cons_self _ _
  | _ => exact List.Subset.refl _

theorem keeping_subset (key : Key) (mode : LockMode) (hsub : held ⊆ held') : keeping held key mode ⊆ keeping held' key mode := by
  cases key with
  | workspace w =>
    simp only [keeping]
    split
    · exact List.cons_subset_cons w hsub
    · exact hsub
  | _ => exact hsub

theorem subset_keeping (held : List Uuid) (key : Key) (mode : LockMode) : held ⊆ keeping held key mode := by
  cases key with
  | workspace w =>
    simp only [keeping]
    split
    · exact List.subset_cons_self _ _
    · exact List.Subset.refl _
  | _ => exact List.Subset.refl _

theorem Orderly.mono (h : Orderly held p) (hsub : held ⊆ held') : Orderly held' p := by
  induction p generalizing held held' with
  | done answer => exact h
  | raise => trivial
  | read next ih => exact fun db => ih db (h db) hsub
  | lock key mode wanted next ih => exact ⟨ih false h.1 hsub, ih true h.2 (keeping_subset key mode hsub)⟩
  | write q next ih => exact ⟨h.1.mono hsub, ih false h.2.1 hsub, ih true h.2.2 (q.keeps_subset hsub)⟩

theorem orderly_finished (held : List Uuid) : Orderly held finished := rfl

theorem orderly_writeAll {statements : List Statement} (h : ∀ q ∈ statements, q.Orderly held) (hrest : Orderly held rest) :
    Orderly held (writeAll statements rest) := by
  induction statements with
  | nil => exact hrest
  | cons q statements ih =>
    have htail : Orderly held (writeAll statements rest) := ih fun q' hq' => h q' (List.mem_cons_of_mem _ hq')
    exact ⟨h q List.mem_cons_self, htail, htail.mono (subset_keeps q held)⟩

theorem orderly_writeOne {q : Statement} (h : q.Orderly held) : Orderly held (writeAll [q] finished) :=
  orderly_writeAll (fun _ hq => List.mem_singleton.mp hq ▸ h) (orderly_finished held)

theorem orderly_lock {key : Key} {mode : LockMode} {wanted : Option (Row key) → Bool} {next : Bool → Program}
    (hmissed : Orderly held (next false)) (hlocked : Orderly held (next true)) : Orderly held (.lock key mode wanted next) :=
  ⟨hmissed, hlocked.mono (subset_keeping held key mode)⟩

theorem orderly_managing (w a : Uuid) (hrest : Orderly held rest) : Orderly held (managing w a rest) := by
  intro db
  simp only
  split
  · exact hrest
  · exact orderly_finished held

theorem orderly_lockWorkspaces (ws : List Uuid) (hrest : Orderly held rest) : Orderly held (lockWorkspaces ws rest) := by
  induction ws with
  | nil => exact hrest
  | cons w ws ih => exact orderly_lock ih ih

/-- The deletions of the rows that go with another. -/
inductive Deletes : Statement → Prop
  | teamMember (w t a : Uuid) : Deletes (.deleteTeamMember w t a)
  | member (w a : Uuid) : Deletes (.deleteMember w a)
  | team (t : Uuid) : Deletes (.deleteTeam t)
  | identity (provider subject : String) : Deletes (.deleteIdentity provider subject)
  | invitation (i : Uuid) : Deletes (.deleteInvitation i)

theorem Deletes.orderly {q : Statement} (h : Deletes q) (held : List Uuid) : q.Orderly held := by
  cases h <;> trivial

section

variable {db : Rows} {q : Statement}

theorem deletes_deleteTeamMembers {f : Uuid → Uuid → Uuid → Bool} (h : q ∈ Rows.deleteTeamMembers db f) : Deletes q := by
  obtain ⟨k, -, hk⟩ := List.mem_filterMap.mp h
  split at hk
  · split at hk <;> cases hk
    exact .teamMember _ _ _
  · cases hk

theorem deletes_deleteMembers {f : Uuid → Uuid → Bool} (h : q ∈ Rows.deleteMembers db f) : Deletes q := by
  obtain ⟨k, -, hk⟩ := List.mem_filterMap.mp h
  split at hk
  · split at hk <;> cases hk
    exact .member _ _
  · cases hk

theorem deletes_deleteTeams {f : Uuid → Bool} (h : q ∈ Rows.deleteTeams db f) : Deletes q := by
  obtain ⟨k, -, hk⟩ := List.mem_filterMap.mp h
  split at hk
  · split at hk <;> cases hk
    exact .team _
  · cases hk

theorem deletes_deleteIdentities {a : Uuid} (h : q ∈ Rows.deleteIdentities db a) : Deletes q := by
  obtain ⟨k, -, hk⟩ := List.mem_filterMap.mp h
  split at hk
  · split at hk <;> cases hk
    exact .identity _ _
  · cases hk

theorem deletes_deleteInvitations {f : InvitationRow → Bool} (h : q ∈ Rows.deleteInvitations db f) : Deletes q := by
  obtain ⟨i, -, rfl⟩ := List.mem_map.mp h
  exact .invitation _

end

theorem orderly_deleteAll {statements : List Statement} (h : ∀ {q}, q ∈ statements → Deletes q) (hrest : Orderly held rest) :
    Orderly held (writeAll statements rest) :=
  orderly_writeAll (fun _ hq => (h hq).orderly held) hrest

theorem orderly_sysCreateAccount (a : Uuid) (email : Address) (emailVerified : Bool) (now : Timestamp) :
    Orderly held (sysCreateAccount a email emailVerified now fun _ => finished) := by
  intro db
  simp only
  split
  · exact orderly_finished held
  · exact orderly_lock ⟨trivial, orderly_finished held, trivial, orderly_finished _, orderly_finished _⟩
      ⟨trivial, orderly_finished held, trivial, orderly_finished _, orderly_finished _⟩

theorem orderly_inviteMember (new : NewInvitation) (keepTokenHash : Bool) (mailTicket : Uuid) :
    Orderly held (inviteMember new keepTokenHash mailTicket) := by
  refine orderly_managing _ _ fun db => ?_
  have hinsert : Orderly held (writeAll [.insertInvitation new.id new.row] finished) := orderly_writeOne rfl
  simp only
  split
  · split
    · exact orderly_finished held
    · intro db
      simp only
      split
      · exact hinsert
      · exact ⟨fun _ _ h => (by cases h), hinsert, orderly_finished held⟩
  · exact orderly_finished held

theorem orderly_sysInstanceReissueOwnerInvitation (new : NewInvitation) (now : Timestamp) :
    Orderly held (sysInstanceReissueOwnerInvitation new now) := by
  refine orderly_lock (orderly_finished held) fun db => ?_
  simp only
  split
  · exact orderly_finished held
  · refine orderly_writeAll (fun q hq => ?_) (orderly_writeOne rfl)
    obtain ⟨i, -, rfl⟩ := List.mem_map.mp hq
    exact fun _ _ h => by cases h

theorem orderly_verifyEmail (a : Uuid) (sole : List Uuid) (now : Timestamp) : Orderly held (verifyEmail a sole now) := by
  refine orderly_lock (orderly_finished held) fun db => orderly_deleteAll deletes_deleteIdentities ?_
  refine orderly_writeAll (fun _ hq => List.mem_singleton.mp hq ▸ trivial) (orderly_lockWorkspaces sole fun db => ?_)
  refine orderly_deleteAll deletes_deleteInvitations (orderly_deleteAll deletes_deleteTeamMembers
    (orderly_deleteAll deletes_deleteTeams (orderly_deleteAll deletes_deleteMembers ?_)))
  refine orderly_writeAll (fun q hq => ?_) (orderly_finished held)
  obtain ⟨w, -, rfl⟩ := List.mem_map.mp hq
  trivial

theorem orderly_deleteAccount (a : Uuid) (sole : List Uuid) (now : Timestamp) : Orderly held (deleteAccount a sole now) := by
  refine orderly_lockWorkspaces sole (orderly_lock (orderly_finished held) fun db => ?_)
  refine orderly_writeAll (fun q hq => ?_) (orderly_deleteAll deletes_deleteTeamMembers
    (orderly_deleteAll deletes_deleteMembers (orderly_deleteAll deletes_deleteIdentities
      (orderly_writeAll (fun q hq => ?_) (orderly_writeAll (fun q hq => ?_) (orderly_finished held))))))
  · obtain ⟨w, -, rfl⟩ := List.mem_map.mp hq
    trivial
  · obtain ⟨i, -, hq⟩ := List.mem_flatMap.mp hq
    rcases List.mem_pair.mp hq with rfl | rfl <;> exact fun _ _ h => by cases h
  · rcases List.mem_append.mp hq with hq | hq
    · obtain ⟨email, -, rfl⟩ := List.mem_map.mp hq
      trivial
    · exact List.mem_singleton.mp hq ▸ trivial

/-- The requests that accept an invitation. -/
def Request.accepts : Request → Bool
  | .accept .. | .acceptNewAccount .. | .acceptWithIdentity .. => true
  | _ => false

/-- **Every other request accepts nothing.** -/
theorem Request.orderly {request : Request} (h : request.accepts = false) : Orderly [] request.program := by
  cases request with
  | accept | acceptNewAccount | acceptWithIdentity => cases h
  | inviteMember new keepTokenHash mailTicket => exact orderly_inviteMember new keepTokenHash mailTicket
  | renewInvitation | revokeInvitation =>
    exact orderly_managing _ _ (orderly_writeOne fun _ _ h => by cases h)
  | issueToken =>
    intro db
    simp only
    split
    · exact orderly_writeOne fun _ _ h => by cases h
    · rfl
  | reissueOwnerInvitation new now => exact orderly_sysInstanceReissueOwnerInvitation new now
  | purgeInvitations => exact fun db => orderly_deleteAll deletes_deleteInvitations rfl
  | createWorkspace w a =>
    refine orderly_lock rfl ⟨trivial, trivial, ?_⟩
    exact orderly_writeOne List.mem_cons_self
  | createWorkspaceFor new =>
    refine orderly_writeAll (fun q hq => ?_) rfl
    rcases List.mem_pair.mp hq with rfl | rfl
    · trivial
    · rfl
  | addMembership w a =>
    refine ⟨rfl, trivial, fun db => ?_⟩
    simp only
    split
    · rfl
    · exact orderly_writeOne List.mem_cons_self
  | changeMember w a role =>
    refine orderly_lock rfl ?_
    cases role with
    | some role => exact orderly_writeOne trivial
    | none =>
      intro db
      refine orderly_writeAll (fun q hq => ?_) rfl
      rcases List.mem_cons.mp hq with rfl | hq
      · trivial
      · exact (deletes_deleteTeamMembers hq).orderly _
  | deleteTeam w t =>
    refine orderly_lock rfl fun db => orderly_writeAll (fun q hq => ?_) rfl
    rcases List.mem_cons.mp hq with rfl | hq
    · trivial
    · exact (deletes_deleteTeamMembers hq).orderly _
  | markDeleting w a now =>
    refine orderly_lock rfl fun db => ?_
    simp only
    split
    · exact orderly_writeOne trivial
    · rfl
  | purgeWorkspace w table =>
    intro db
    simp only
    split
    · cases table with
      | teamMembers => exact orderly_deleteAll deletes_deleteTeamMembers rfl
      | teams => exact orderly_deleteAll deletes_deleteTeams rfl
      | workspaceInvitations => exact orderly_deleteAll deletes_deleteInvitations rfl
      | workspaceMembers => exact orderly_deleteAll deletes_deleteMembers rfl
    · rfl
  | createAccount a email emailVerified now => exact orderly_sysCreateAccount a email emailVerified now
  | changeEmail a email =>
    refine orderly_lock rfl fun db => ?_
    simp only
    split
    · rfl
    · refine orderly_writeAll (fun q hq => ?_) rfl
      simp only [List.mem_cons, List.not_mem_nil, or_false] at hq
      rcases hq with rfl | rfl | rfl <;> trivial
  | verifyEmail a sole now => exact orderly_verifyEmail a sole now
  | deleteAccount a sole now => exact orderly_deleteAccount a sole now
  | createTeam | addTeamMember | removeTeamMember | finishDeletion | reserveAddress | freeAddress | setDisabled
  | setAccessMode | linkIdentity | unlinkIdentity => exact orderly_writeOne trivial

end SlugBase.Invitation
