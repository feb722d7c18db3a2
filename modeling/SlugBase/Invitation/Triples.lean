import SlugBase.Invitation.Joined

/-!
# The acceptance functions keep their promise

One rule for each part of an acceptance, from its last write back to its first lock.

* `triple_join`, `triple_joinTeams`: the writes; `triple_lockWorkspace`, `triple_lockInvitation`: the locks;
* **`triple_sysInvitationAccept`**, **`triple_sysInvitationAcceptNewAccount`**, **`triple_acceptWithIdentity`**: the
  functions.
-/

namespace SlugBase.Invitation

open ReadCommitted Auth

variable {c : Acceptance} {row : InvitationRow} {rest : Program}

/-! ## More locks and writes -/

section

variable {db : Rows} {x : Local}

theorem Admitted.locking (h : Admitted c row db x) (key : Key) (mode : LockMode) :
    Admitted c row db (x.locking key mode) := by
  rcases h with ⟨a, hlock, hrest⟩ | ⟨hlock, hrest⟩
  · exact .inl ⟨a, List.mem_cons_of_mem _ hlock, hrest⟩
  · exact .inr ⟨List.mem_cons_of_mem _ hlock, hrest⟩

theorem Holding.locking (h : Holding c row db x) (key : Key) (mode : LockMode) : Holding c row db (x.locking key mode) :=
  { h with workspace := List.mem_cons_of_mem _ h.workspace, locked := List.mem_cons_of_mem _ h.locked }

theorem Joined.locking (h : Joined c row db x) (key : Key) (mode : LockMode) : Joined c row db (x.locking key mode) where
  toHolding := h.toHolding.locking key mode
  account := h.account.locking key mode
  seats := h.seats
  touches k hk := (h.touches k hk).mono (List.subset_cons_self _ _)
  absent := h.absent
  wroteMember := h.wroteMember
  member := h.member

theorem mem_written_writing {k key : Key} {mode : LockMode} {new : Option (Row key)} (h : k ∈ x.written) :
    k ∈ (x.writing key mode new).written := by
  rw [Held.written_writing]
  exact List.mem_append_left _ h

theorem wrote_writing (x : Local) (key : Key) (mode : LockMode) (new : Option (Row key)) :
    key ∈ (x.writing key mode new).written := by
  rw [Held.written_writing]
  exact List.mem_append_right _ List.mem_cons_self

theorem lookup_writing {k key : Key} {mode : LockMode} {new : Option (Row key)} (hne : k ≠ key) :
    ((x.writing key mode new).view db).lookup k = (x.view db).lookup k := by
  rw [Held.view_writing, lookup_put_ne _ _ hne]

theorem lookup_wrote {key : Key} {mode : LockMode} {new : Option (Row key)} :
    ((x.writing key mode new).view db).lookup key = new := by
  rw [Held.view_writing, lookup_put_self]

/-- The acceptance writes one more row; its account keeps the address. -/
theorem Admitting.writing (h : Admitting c row db x) {key : Key} {mode : LockMode} {new : Option (Row key)}
    (htouches : Touches c row db ((key, mode) :: x.locks) key)
    (hemail : ∀ a, Rows.account (x.view db) c.accountId = some a →
      ∃ a', Rows.account ((x.writing key mode new).view db) c.accountId = some a' ∧ a'.email = a.email) :
    Admitting c row db (x.writing key mode new) where
  workspace := List.mem_cons_of_mem _ h.workspace
  locked := List.mem_cons_of_mem _ h.locked
  invitation := h.invitation
  pending := h.pending
  of := h.of
  account := by
    rcases h.account with ⟨a, hlock, hrest⟩ | ⟨hlock, hnone, hwritten, a, ha, hinvited⟩
    · exact .inl ⟨a, List.mem_cons_of_mem _ hlock, hrest⟩
    · obtain ⟨a', ha', hsame⟩ := hemail a ha
      exact .inr ⟨List.mem_cons_of_mem _ hlock, hnone, mem_written_writing hwritten, a', ha', hsame.trans hinvited⟩
  seats := h.seats
  touches k hk := by
    rw [Held.written_writing] at hk
    rcases List.mem_append.mp hk with hold | hnew
    · exact (h.touches k hold).mono (List.subset_cons_self _ _)
    · exact List.mem_singleton.mp hnew ▸ htouches

theorem account_writing {a : Uuid} {key : Key} {mode : LockMode} {new : Option (Row key)} (hne : Key.account a ≠ key)
    (account : AccountRow) (h : Rows.account (x.view db) a = some account) :
    ∃ a', Rows.account ((x.writing key mode new).view db) a = some a' ∧ a'.email = account.email :=
  ⟨account, (lookup_writing hne).trans h, rfl⟩

theorem Joined.writing (h : Joined c row db x) {key : Key} {mode : LockMode} {new : Option (Row key)}
    (hadmitting : Admitting c row db (x.writing key mode new)) (hne : Key.member c.workspaceId c.accountId ≠ key) :
    Joined c row db (x.writing key mode new) where
  toAdmitting := hadmitting
  absent := h.absent
  wroteMember := mem_written_writing h.wroteMember
  member := (lookup_writing hne).trans h.member

theorem Accepting.writing (h : Accepting c row db x) {key : Key} {mode : LockMode} {new : Option (Row key)}
    (hjoined : Joined c row db (x.writing key mode new)) (hne : Key.invitation c.invitationId ≠ key) :
    Accepting c row db (x.writing key mode new) where
  toJoined := hjoined
  wroteInvitation := mem_written_writing h.wroteInvitation
  accepted := by
    obtain ⟨now, haccepted⟩ := h.accepted
    exact ⟨now, (lookup_writing hne).trans haccepted⟩

end

/-! ## The writes -/

/-- The acceptance has still to write its invitation. -/
def Waiting (c : Acceptance) (x : Local) : Prop := Key.invitation c.invitationId ∉ x.written

theorem Waiting.writing {x : Local} (h : Waiting c x) {key : Key} {mode : LockMode} {new : Option (Row key)}
    (hne : Key.invitation c.invitationId ≠ key) : Waiting c (x.writing key mode new) := by
  rw [Waiting, Held.written_writing, List.mem_append, not_or]
  exact ⟨h, fun hmem => hne (List.mem_singleton.mp hmem)⟩

theorem Holding.view_invitation {db : Rows} {x : Local} (h : Holding c row db x) (hwaiting : Waiting c x) :
    Rows.invitation (x.view db) c.invitationId = some row :=
  invitation_eq_some.mpr ((Held.lookup_view_of_notMem hwaiting db).trans h.invitation)

theorem stable_joining : contract.Stable fun db x => Joined c row db x ∧ Waiting c x :=
  stable_joined.and (.own (Waiting c))

/-- The account joins the teams it is invited to. -/
theorem triple_joinTeams (teams : List Uuid) (hteams : ∀ t ∈ teams, t ∈ row.teamIds)
    (hrest : contract.Triple (fun db x => Joined c row db x ∧ Waiting c x) rest) :
    contract.Triple (fun db x => Joined c row db x ∧ Waiting c x)
      (joinTeams c.workspaceId c.accountId teams rest) := by
  induction teams with
  | nil => exact hrest
  | cons t teams ih =>
    have ih := ih fun t' ht' => hteams t' (List.mem_cons_of_mem _ ht')
    refine .lock stable_joining (fun hdb h _ => ih _ _ hdb h) fun {db x} hdb h hteam => ?_
    have hteam : Rows.team db t = some c.workspaceId :=
      (h.1.view_eq (k := .team t) fun h => h).symm.trans (of_decide_eq_true hteam)
    -- The team stays locked until the membership in it is written.
    have hstable : contract.Stable fun db x => (Joined c row db x ∧ Waiting c x) ∧
        (Key.team t, LockMode.keyShare) ∈ x.locks ∧ Rows.team db t = some c.workspaceId := by
      intro db x answer y hdb h hy hlocked hapart hdisjoint
      exact ⟨stable_joining db x answer y hdb h.1 hy hlocked hapart hdisjoint, h.2.1,
        (team_of_locked h.2.1 hy hapart).trans h.2.2⟩
    refine Contract.Triple.write hstable (fun hdb h _ => ih _ _ hdb h.1) (fun {db x new} hdb h _ => ih _ _ hdb ?_) db _ hdb
      ⟨⟨h.1.locking _ _, h.2⟩, List.mem_cons_self, hteam⟩
    obtain ⟨⟨hjoined, hwaiting⟩, hlock, hteam⟩ := h
    refine ⟨hjoined.writing (hjoined.toAdmitting.writing ⟨rfl, rfl, hteams t List.mem_cons_self, hteam, ?_⟩
      (account_writing fun h => by cases h)) fun h => (by cases h), hwaiting.writing fun h => by cases h⟩
    exact List.mem_cons_of_mem _ hlock

/-- The invitation is accepted last. -/
theorem triple_acceptInvitation (now : Timestamp) (hrest : contract.Triple (Accepting c row) rest) :
    contract.Triple (fun db x => Joined c row db x ∧ Waiting c x)
      (.write (.updateInvitation c.invitationId (.accepted c.accountId now)) fun _ => rest) := by
  have hchange {db : Rows} {x : Local} (h : Joined c row db x ∧ Waiting c x) :
      Statement.change (x.view db) (.updateInvitation c.invitationId (.accepted c.accountId now)) =
        .becomes (some (some (row.update (.accepted c.accountId now)))) := by
    rw [Statement.change, h.1.view_invitation h.2]
    rfl
  refine .write stable_joining (fun {db x} hdb h hnothing => ?_) fun {db x new} hdb h hbecomes => hrest _ _ hdb ?_
  · cases (hchange h).symm.trans hnothing
  · cases (hchange h).symm.trans hbecomes
    have hadmitting : Admitting c row db (x.writing (.invitation c.invitationId) .noKeyUpdate
        (some (some (row.update (.accepted c.accountId now))))) :=
      h.1.toAdmitting.writing rfl (account_writing fun h => by cases h)
    exact ⟨h.1.writing hadmitting fun h => (by cases h), wrote_writing _ _ _ _, now, lookup_wrote⟩

/-- The acceptance has written neither its membership nor its invitation. -/
def Untouched (c : Acceptance) (x : Local) : Prop := Key.member c.workspaceId c.accountId ∉ x.written ∧ Waiting c x

/-- **The membership, the teams and the invitation.** -/
theorem triple_join (now : Timestamp) (hrest : contract.Triple (Accepting c row) rest) :
    contract.Triple (fun db x => Admitting c row db x ∧ Untouched c x)
      (join c.workspaceId c.accountId c.invitationId row now rest) := by
  have hteams : contract.Triple (fun db x => Joined c row db x ∧ Waiting c x) (.read fun db =>
      joinTeams c.workspaceId c.accountId (Rows.teamsOf db c.workspaceId row.teamIds) <|
        .write (.updateInvitation c.invitationId (.accepted c.accountId now)) fun _ => rest) := by
    refine .read stable_joining fun {db x} hdb h =>
      triple_joinTeams _ (fun t ht => ?_) (triple_acceptInvitation now hrest) _ _ hdb h
    exact List.mem_dedup.mp (List.mem_filter.mp ((List.mem_insertionSort _).mp ht)).1
  refine .write (stable_admitting.and (.own (Untouched c))) (fun {db x} hdb h hnothing => ?_)
    fun {db x new} hdb h hbecomes => hteams _ _ hdb ?_
  · simp only [rules, Statement.change, inserted] at hnothing
    split at hnothing
    · split at hnothing <;> cases hnothing
    · cases hnothing
  · obtain ⟨hadmitting, huntouched, hwaiting⟩ := h
    simp only [rules, Statement.change, inserted] at hbecomes
    split at hbecomes
    · split at hbecomes
      · rename_i hnone
        cases hbecomes
        have habsent : Rows.member db c.workspaceId c.accountId = none :=
          (Held.lookup_view_of_notMem huntouched db).symm.trans hnone
        have hwriting : Admitting c row db (x.writing (.member c.workspaceId c.accountId) .update (some row.role)) :=
          hadmitting.writing ⟨rfl, rfl⟩ (account_writing fun h => by cases h)
        refine ⟨⟨hwriting, habsent, wrote_writing _ _ _ _, ?_⟩, hwaiting.writing fun h => by cases h⟩
        exact lookup_wrote.trans (congrArg some hadmitting.of.2)
      · cases hbecomes
    · cases hbecomes

/-! ## The locks -/

/-- Nothing is written. -/
def Idle (x : Local) : Prop := x.written = []

/-- Nothing is written and the workspace is locked. -/
def Entered (w : Uuid) (x : Local) : Prop := Idle x ∧ (Key.workspace w, LockMode.noKeyUpdate) ∈ x.locks

theorem triple_refuse {F : Rows → Local → Prop} (hidle : ∀ {db x}, F db x → Idle x) (outcome : Refusal) :
    contract.Triple F (refuse outcome) :=
  .of_imp (.done (.own Idle) fun _ h => h) fun _ h => hidle h

section

variable {ask : AcceptAsk} {refused : Refusal → Program}

theorem triple_lockWorkspace {next : Uuid → Program} (hrefused : ∀ outcome, contract.Triple (fun _ x => Idle x) (refused outcome))
    (hnext : ∀ w, contract.Triple (fun _ x => Entered w x) (next w)) :
    contract.Triple (fun _ x => Idle x) (lockWorkspace ask refused next) := by
  refine .read (.own Idle) fun {db x} hdb h => ?_
  split
  · exact hrefused _ _ _ hdb h
  · refine Contract.Triple.lock (.own Idle) (fun hdb h _ => hrefused _ _ _ hdb h) (fun hdb h _ => hnext _ _ _ hdb ?_) _ _ hdb h
    exact ⟨h, List.mem_cons_self⟩

theorem awaiting_iff {tokenHash : TokenHash} {w : Uuid} {now : Timestamp} {slot : Option (Option InvitationRow)}
    (h : awaiting tokenHash w now slot = true) :
    ∃ row, slot = some (some row) ∧ row.workspaceId = w ∧ row.status = .pending := by
  cases slot with
  | none => cases h
  | some row =>
    cases row with
    | none => cases h
    | some row =>
      obtain ⟨hfound, hlive⟩ := Bool.and_eq_true_iff.mp h
      exact ⟨row, rfl, (of_decide_eq_true hfound).2, (of_decide_eq_true hlive).1⟩

/-- What the acceptance of an invitation by this account answers. -/
def acceptanceOf (ask : AcceptAsk) (w a i : Uuid) (row : InvitationRow) : Acceptance := ⟨w, i, row.role, a, ask.seatLimit⟩

/-- **The invitation, locked**: `G` is what was found and locked before. -/
theorem triple_lockInvitation {w : Uuid} (a : Uuid) {G : Rows → Local → Prop} {next : Uuid → InvitationRow → Program}
    (hG : contract.Stable G) (hlocking : ∀ {db x} key mode, G db x → G db (x.locking key mode))
    (hrefused : ∀ outcome, contract.Triple (fun _ x => Idle x) (refused outcome))
    (hnext : ∀ i row, contract.Triple (fun db x => (Holding (acceptanceOf ask w a i row) row db x ∧ Idle x) ∧ G db x)
      (next i row)) :
    contract.Triple (fun db x => Entered w x ∧ G db x) (lockInvitation ask refused w next) := by
  have hstable : contract.Stable fun db x => Entered w x ∧ G db x := (Contract.Stable.own (Entered w)).and hG
  refine .read hstable fun {db x} hdb h => ?_
  split
  · exact hrefused _ _ _ hdb h.1.1
  rename_i i row₀ _
  refine Contract.Triple.lock hstable (fun hdb h _ => hrefused _ _ _ hdb h.1.1) (fun {db x} hdb h hawaiting => ?_) _ _ hdb h
  obtain ⟨⟨hidle, hworkspace⟩, hg⟩ := h
  have hview : x.view db = db := Held.view_of_written_nil hidle db
  rw [hview] at hawaiting
  obtain ⟨row, hrow, hw, hpending⟩ := awaiting_iff hawaiting
  have hholding : Holding (acceptanceOf ask w a i row) row db (x.locking (.invitation i) .update) :=
    ⟨List.mem_cons_of_mem _ hworkspace, List.mem_cons_self, hrow, hpending, hw, rfl⟩
  refine Contract.Triple.read ((stable_holding.and (.own Idle)).and hG) (fun {db x} hdb h => ?_) _ _ hdb
    ⟨⟨hholding, hidle⟩, hlocking _ _ hg⟩
  have hfound : Rows.invitation (x.view db) i = some row := by
    rw [Held.view_of_written_nil h.1.2 db]
    exact invitation_eq_some.mpr h.1.1.invitation
  rw [hfound]
  exact hnext i row _ _ hdb h

theorem seats_of_not_taken {db : Rows} {w : Uuid} {seatLimit : Option ℕ} (h : ¬ seatsTaken db w seatLimit = true) (limit : ℕ)
    (hlimit : seatLimit = some limit) : (Rows.memberIds db w).length < limit := by
  subst hlimit
  exact not_le.mp fun hle => h (decide_eq_true hle)

/-! ## The functions -/

/-- The account that accepts, locked and as it was found. -/
def Found (a : Uuid) (account : AccountRow) (db : Rows) (x : Local) : Prop :=
  (Key.account a, LockMode.share) ∈ x.locks ∧ db.lookup (.account a) = some account

theorem stable_found (a : Uuid) (account : AccountRow) : contract.Stable (Found a account) :=
  Contract.Stable.row (k := .account a) blocks_share (some account)

/-- **`sys_invitation_accept`.** -/
theorem triple_sysInvitationAccept (accountId : Uuid) {accepted : Acceptance → Program}
    (hrefused : ∀ outcome, contract.Triple (fun _ x => Idle x) (refused outcome))
    (haccepted : ∀ c row, c.accountId = accountId → contract.Triple (Accepting c row) (accepted c)) :
    contract.Triple (fun _ x => Idle x) (sysInvitationAccept ask refused accountId accepted) := by
  unfold sysInvitationAccept
  split
  · exact hrefused _
  refine triple_lockWorkspace hrefused fun w => ?_
  refine .lock (.own (Entered w)) (fun hdb h _ => hrefused _ _ _ hdb h.1) fun {db x} hdb h hwanted => ?_
  rw [Held.view_of_written_nil h.1 db] at hwanted
  cases haccount : db.lookup (.account accountId) with
  | none =>
    rw [haccount] at hwanted
    cases hwanted
  | some account =>
    rw [haccount] at hwanted
    refine Contract.Triple.read ((Contract.Stable.own (Entered w)).and (stable_found accountId account))
      (fun {db x} hdb h => ?_) _ _ hdb ⟨⟨h.1, List.mem_cons_of_mem _ h.2⟩, List.mem_cons_self, haccount⟩
    have hview : Rows.account (x.view db) accountId = some account := by
      rw [Held.view_of_written_nil h.1.1 db]
      exact h.2.2
    rw [hview]
    refine triple_lockInvitation accountId (stable_found accountId account)
      (fun _ _ h => ⟨List.mem_cons_of_mem _ h.1, h.2⟩) hrefused (fun i row => ?_) _ _ hdb h
    split
    · exact .of_imp (hrefused _) fun _ h => h.1.2
    rename_i hmatches
    have hstable : contract.Stable fun db x => Holding (acceptanceOf ask w accountId i row) row db x ∧ Idle x :=
      stable_holding.and (.own Idle)
    refine .read (hstable.and (stable_found accountId account)) fun {db x} hdb h => ?_
    rw [Held.view_of_written_nil h.1.2 db]
    split
    · exact hrefused _ _ _ hdb h.1.2
    split
    · exact hrefused _ _ _ hdb h.1.2
    rename_i hseats
    refine triple_join (c := acceptanceOf ask w accountId i row) ask.closedAt (haccepted _ _ rfl) _ _ hdb ⟨?_, ?_⟩
    · refine ⟨h.1.1, .inl ⟨account, h.2.1, h.2.2, fun hnone => hmatches (.inl hnone), ?_, hwanted⟩,
        seats_of_not_taken hseats, fun k hk => ?_⟩
      · by_contra hne
        exact hmatches (.inr hne)
      · rw [h.1.2] at hk
        cases hk
    · rw [Untouched, Waiting, h.1.2]
      exact ⟨List.not_mem_nil, List.not_mem_nil⟩

/-- There are seats left. -/
def Seated (c : Acceptance) (db : Rows) : Prop :=
  ∀ limit, c.seatLimit = some limit → (Rows.memberIds db c.workspaceId).length < limit

theorem stable_seated : contract.Stable fun db x => (Holding c row db x ∧ Seated c db) ∧ Idle x := by
  intro db x answer y hdb h hy hlocked hapart hdisjoint
  refine ⟨⟨stable_holding db x answer y hdb h.1.1 hy hlocked hapart hdisjoint, fun limit hlimit => ?_⟩, h.2⟩
  exact (Rows.length_memberIds_le fun a ha => member_of_workspace h.1.1.workspace hy hapart ha).trans_lt (h.1.2 limit hlimit)

/-- A new account of the invited address may accept. -/
theorem admitting_insertAccount {db : Rows} {x : Local} (h : (Holding c row db x ∧ Seated c db) ∧ Idle x)
    (hnone : Rows.account db c.accountId = none) {account : AccountRow} (hemail : account.email = row.email) :
    Admitting c row db (x.writing (.account c.accountId) .update (some account)) ∧
      Untouched c (x.writing (.account c.accountId) .update (some account)) := by
  obtain ⟨⟨hholding, hseated⟩, hidle⟩ := h
  have hwritten : (x.writing (.account c.accountId) .update (some account)).written = [.account c.accountId] := by
    rw [Held.written_writing, show x.written = [] from hidle, List.nil_append]
  refine ⟨⟨⟨List.mem_cons_of_mem _ hholding.workspace, List.mem_cons_of_mem _ hholding.locked, hholding.invitation,
    hholding.pending, hholding.of⟩, .inr ⟨List.mem_cons_self, hnone, wrote_writing _ _ _ _, account, lookup_wrote, hemail⟩,
    hseated, fun k hk => ?_⟩, ?_⟩
  · rw [hwritten] at hk
    rw [List.mem_singleton.mp hk]
    rfl
  · rw [Untouched, Waiting, hwritten]
    exact ⟨fun hmem => (by cases List.mem_singleton.mp hmem), fun hmem => (by cases List.mem_singleton.mp hmem)⟩

/-- **`sys_create_account`**, for the invited address. -/
theorem triple_sysCreateAccount (emailVerified : Bool) (now : Timestamp) {next : Bool → Program}
    (hrefused : contract.Triple (fun _ x => Idle x) (next false))
    (hnext : contract.Triple (fun db x => Admitting c row db x ∧ Untouched c x) (next true)) :
    contract.Triple (fun db x => (Holding c row db x ∧ Seated c db) ∧ Idle x)
      (sysCreateAccount c.accountId row.email emailVerified now next) := by
  have haddress : contract.Triple (fun db x => Admitting c row db x ∧ Untouched c x)
      (.write (.insertAddress row.email c.accountId) fun _ => next true) := by
    refine .write (stable_admitting.and (.own (Untouched c))) (fun hdb h _ => hnext _ _ hdb h)
      fun {db x new} hdb h _ => hnext _ _ hdb ?_
    obtain ⟨hadmitting, huntouched⟩ := h
    refine ⟨hadmitting.writing trivial (account_writing fun h => by cases h), ?_, huntouched.2.writing fun h => by cases h⟩
    rw [Held.written_writing, List.mem_append, not_or]
    exact ⟨huntouched.1, fun hmem => by cases List.mem_singleton.mp hmem⟩
  have hinsert {created : Bool → Program} (hfalse : contract.Triple (fun _ x => Idle x) (created false))
      (htrue : contract.Triple (fun db x => Admitting c row db x ∧ Untouched c x) (created true)) :
      contract.Triple (fun db x => (Holding c row db x ∧ Seated c db) ∧ Idle x)
        (.write (.insertAccount c.accountId ⟨row.email, if emailVerified then some now else none, none, .full⟩) created) := by
    refine .write stable_seated (fun hdb h _ => hfalse _ _ hdb h.2) fun {db x new} hdb h hbecomes => htrue _ _ hdb ?_
    simp only [rules, Statement.change] at hbecomes
    split at hbecomes
    · rename_i hnone _
      cases hbecomes
      refine admitting_insertAccount h ?_ rfl
      rw [← Held.view_of_written_nil h.2 db]
      exact hnone
    · cases hbecomes
  refine .read stable_seated fun {db x} hdb h => ?_
  split
  · exact hrefused _ _ hdb h.2
  · refine Contract.Triple.lock stable_seated (fun hdb h _ => ?_) (fun hdb h _ => ?_) _ _ hdb h
    · refine hinsert ?_ ?_ _ _ hdb h
      · exact hrefused
      · exact haddress
    · refine hinsert ?_ ?_ _ _ hdb ⟨⟨h.1.1.locking _ _, h.1.2⟩, h.2⟩
      · exact hrefused
      · exact haddress

/-- **`sys_invitation_accept_new_account`.** -/
theorem triple_sysInvitationAcceptNewAccount (accountId : Uuid) {accepted : Acceptance → Program}
    (hrefused : ∀ outcome, contract.Triple (fun _ x => Idle x) (refused outcome))
    (haccepted : ∀ c row, c.accountId = accountId → contract.Triple (Accepting c row) (accepted c)) :
    contract.Triple (fun _ x => Idle x) (sysInvitationAcceptNewAccount ask refused accountId accepted) := by
  unfold sysInvitationAcceptNewAccount
  split
  · exact hrefused _
  refine triple_lockWorkspace hrefused fun w => ?_
  refine .of_imp (triple_lockInvitation accountId (.own fun _ => True) (fun _ _ _ => trivial) hrefused fun i row => ?_)
    fun _ h => ⟨h, trivial⟩
  have hstable : contract.Stable fun db x => Holding (acceptanceOf ask w accountId i row) row db x ∧ Idle x :=
    stable_holding.and (.own Idle)
  refine .read (hstable.and (.own fun _ => True)) fun {db x} hdb h => ?_
  rw [Held.view_of_written_nil h.1.2 db]
  split
  · exact hrefused _ _ _ hdb h.1.2
  rename_i hseats
  refine triple_sysCreateAccount (c := acceptanceOf ask w accountId i row) (!row.linkIssued) ask.closedAt
    (hrefused _) (triple_join ask.closedAt (haccepted _ _ rfl)) _ _ hdb ⟨⟨h.1.1, seats_of_not_taken hseats⟩, h.1.2⟩

end

theorem triple_accepted (c : Acceptance) (row : InvitationRow) : contract.Triple (Accepting c row) (.done (.accepted c)) :=
  .done stable_accepting fun _ h => h.promise

theorem triple_sysIdentityLink (ask : IdentityAsk) (accountId : Uuid) (hrest : contract.Triple (Accepting c row) rest) :
    contract.Triple (Accepting c row) (sysIdentityLink ask accountId rest) := by
  refine .write stable_accepting (fun hdb h _ => hrest _ _ hdb h) fun {db x new} hdb h _ => hrest _ _ hdb ?_
  exact h.writing (h.toJoined.writing (h.toAdmitting.writing trivial (account_writing fun h => by cases h))
    fun h => by cases h) fun h => by cases h

/-- **`sys_invitation_accept_with_identity`.** -/
theorem triple_sysInvitationAcceptWithIdentity (ask : IdentityAsk) :
    contract.Triple (fun _ x => Idle x) (sysInvitationAcceptWithIdentity ask) := by
  have hrefused (outcome : Refusal) : contract.Triple (fun _ x => Idle x) (refuse outcome) := triple_refuse id outcome
  unfold sysInvitationAcceptWithIdentity
  split
  · exact hrefused _
  refine .read (.own Idle) fun {db x} hdb h => ?_
  split
  · exact hrefused _ _ _ hdb h
  split
  · exact hrefused _ _ _ hdb h
  refine Contract.Triple.read (.own Idle) (fun {db x} hdb h => ?_) _ _ hdb h
  split
  · exact hrefused _ _ _ hdb h
  · rename_i accountId linked _
    refine Contract.Triple.lock (.own Idle) (fun hdb h _ => hrefused _ _ _ hdb h) (fun {db x} hdb h _ => ?_) _ _ hdb h
    refine Contract.Triple.lock (.own Idle) (fun hdb h _ => hrefused _ _ _ hdb h) (fun {db x} hdb h _ => ?_) _ _ hdb h
    refine triple_sysInvitationAccept accountId hrefused (fun c row _ => ?_) _ _ hdb h
    split
    · exact triple_accepted c row
    · exact triple_sysIdentityLink ask accountId (triple_accepted c row)
  · refine Contract.Triple.lock (.own Idle) (fun hdb h _ => hrefused _ _ _ hdb h) (fun {db x} hdb h _ => ?_) _ _ hdb h
    refine triple_sysInvitationAcceptNewAccount ask.accountId hrefused (fun c row haccount => ?_) _ _ hdb h
    have hlink : contract.Triple (Accepting c row) (sysIdentityLink ask ask.accountId (.done (.accepted c))) :=
      triple_sysIdentityLink ask ask.accountId (triple_accepted c row)
    refine .write stable_accepting (fun hdb h _ => hlink _ _ hdb h) fun {db x new} hdb h hbecomes => hlink _ _ hdb ?_
    simp only [rules, Statement.change, updated] at hbecomes
    split at hbecomes
    · cases hbecomes
    · rename_i old hold
      cases hbecomes
      have hadmitting : Admitting c row db (x.writing (.account ask.accountId) .noKeyUpdate
          (some ((AccountSet.emailVerifiedAt ask.closedAt).apply old))) := by
        refine h.toAdmitting.writing haccount.symm fun a ha => ?_
        rw [haccount] at ha ⊢
        refine ⟨_, lookup_wrote, ?_⟩
        rw [show Rows.account (x.view db) ask.accountId = some old from hold] at ha
        cases ha
        rfl
      exact h.writing (h.toJoined.writing hadmitting fun h => by cases h) fun h => by cases h

end SlugBase.Invitation
