import SlugBase.Auth.Store

/-!
# An invitation

* `InvitationRow`: a row of `workspace_invitations`;
* `trackLinkIssued`: the trigger of every update of one;
* `InvitationSet`: what the updates set, with the conditions on the row they find; `InvitationRow.update`: the row then.
-/

namespace SlugBase.Invitation

open Auth

/-- The column `status`. -/
inductive InvitationStatus
  | pending
  | accepted
  | revoked
  deriving DecidableEq, Repr

/-- A row of `workspace_invitations`. -/
structure InvitationRow where
  workspaceId : Uuid
  email : Address
  role : MemberRole
  instanceIssued : Bool
  teamIds : List Uuid
  tokenHash : TokenHash
  mailTicket : Option Uuid
  linkIssued : Bool
  invitedBy : Option Uuid
  status : InvitationStatus
  expiresAt : Timestamp
  acceptedBy : Option Uuid
  closedAt : Option Timestamp
  deriving DecidableEq, Repr

/-- `status = 'pending' AND expires_at > …`. -/
def InvitationRow.live (row : InvitationRow) (now : Timestamp) : Bool :=
  decide (row.status = .pending ∧ now < row.expiresAt)

/-- `workspace_invitations_track_link_issued`: a token hash that is replaced without a mail ticket is a link's. -/
def trackLinkIssued (old new : InvitationRow) : InvitationRow :=
  { new with
    linkIssued := if new.tokenHash = old.tokenHash then old.linkIssued else new.mailTicket.isNone }

/-- An `UPDATE workspace_invitations`, of the row it names. -/
inductive InvitationSet
  | rewritten (role : MemberRole) (teamIds : List Uuid) (tokenHash : TokenHash) (keepTokenHash : Bool) (mailTicket : Uuid)
      (invitedBy : Uuid) (expiresAt : Timestamp)
  | renewed (workspaceId : Uuid) (tokenHash : TokenHash) (mailTicket : Option Uuid) (invitedBy : Uuid)
      (expiresAt : Timestamp)
  | issued (workspaceId : Uuid) (mailTicket : Uuid) (tokenHash : TokenHash) (now : Timestamp)
  | revoked (workspaceId : Uuid) (now : Timestamp)
  | accepted (acceptedBy : Uuid) (now : Timestamp)
  | inviterDeleted (accountId : Uuid)
  | accepterDeleted (accountId : Uuid)
  deriving DecidableEq, Repr

/-- The `WHERE` of the update. -/
def InvitationSet.finds (row : InvitationRow) : InvitationSet → Bool
  | .rewritten .. => decide (row.status = .pending)
  | .renewed workspaceId .. | .revoked workspaceId _ => decide (row.workspaceId = workspaceId ∧ row.status = .pending)
  | .issued workspaceId mailTicket _ now =>
    decide (row.workspaceId = workspaceId ∧ row.mailTicket = some mailTicket) && row.live now
  | .accepted .. => true
  | .inviterDeleted accountId => decide (row.invitedBy = some accountId)
  | .accepterDeleted accountId => decide (row.acceptedBy = some accountId)

/-- The `SET` of the update. -/
def InvitationSet.apply (row : InvitationRow) : InvitationSet → InvitationRow
  | .rewritten role teamIds tokenHash keepTokenHash mailTicket invitedBy expiresAt =>
    { row with
      role := role
      teamIds := teamIds
      tokenHash := if keepTokenHash then row.tokenHash else tokenHash
      mailTicket := some mailTicket
      invitedBy := some invitedBy
      expiresAt := expiresAt }
  | .renewed _ tokenHash mailTicket invitedBy expiresAt =>
    { row with tokenHash := tokenHash, mailTicket := mailTicket, invitedBy := some invitedBy, expiresAt := expiresAt }
  | .issued _ _ tokenHash _ => { row with tokenHash := tokenHash }
  | .revoked _ now => { row with status := .revoked, closedAt := some now }
  | .accepted acceptedBy now => { row with status := .accepted, acceptedBy := some acceptedBy, closedAt := some now }
  | .inviterDeleted _ => { row with invitedBy := none }
  | .accepterDeleted _ => { row with acceptedBy := none }

/-- The row after the update, through the trigger. -/
def InvitationRow.update (row : InvitationRow) (set : InvitationSet) : InvitationRow := trackLinkIssued row (set.apply row)

@[simp] theorem status_trackLinkIssued (old new : InvitationRow) : (trackLinkIssued old new).status = new.status := rfl

theorem InvitationRow.status_update (row : InvitationRow) (set : InvitationSet) :
    (row.update set).status = row.status ∨
      (∃ now workspaceId, set = .revoked workspaceId now ∧ (row.update set).status = .revoked) ∨
      ∃ a now, set = .accepted a now ∧ (row.update set).status = .accepted := by
  cases set with
  | rewritten | renewed | issued | inviterDeleted | accepterDeleted => exact .inl rfl
  | revoked workspaceId now => exact .inr (.inl ⟨now, workspaceId, rfl, rfl⟩)
  | accepted a now => exact .inr (.inr ⟨a, now, rfl, rfl⟩)

end SlugBase.Invitation
