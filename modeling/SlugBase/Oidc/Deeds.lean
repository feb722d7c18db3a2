import SlugBase.Oidc.Requests

/-!
# What a step does

* `Writes`: what a transaction does to the identities, the handshakes and what has been done;
* `Justified`: why a step does what it does, from the world before it;
* **`next_justified`**: a step does nothing that is not justified.
-/

namespace SlugBase.Oidc

/-! ## Transactions -/

/-- The provider and the subject of every identity. -/
def Db.identityKeys (db : Db) : List (String × String) := db.identities.map fun x => (x.provider, x.subject)

/-- The numbers of the records that have been consumed, one for each time. -/
def Db.consumedSerials (db : Db) : List ℕ :=
  db.deeds.filterMap fun
    | .consumed record _ _ => some record.serial
    | _ => none

/-- Where a session row comes from: it was there before, or a sign-in made it, or a re-authentication marked a row. -/
inductive SessionFrom (G : Deed → Prop) (db db' : Db) (x : Session) : Prop
  | kept : x ∈ db.sessions → SessionFrom G db db' x
  | signedIn : Deed.signedIn x ∈ db'.deeds → G (.signedIn x) → SessionFrom G db db' x
  | reauthenticated (before : Session) (identity : Identity) (record : LoginState) (owner : Owner) (claims : Claims)
      (reauthAt : Timestamp) : Deed.reauthenticated before identity record owner claims reauthAt ∈ db'.deeds →
      G (.reauthenticated before identity record owner claims reauthAt) →
      x = { before with reauthAt := some reauthAt } → SessionFrom G db db' x

/-- Where an identity comes from: it was there before, or a link added it. -/
def IdentityFrom (G : Deed → Prop) (db db' : Db) (x : Identity) : Prop :=
  x ∈ db.identities ∨ ∃ link, Deed.linked link ∈ db'.deeds ∧ G (.linked link) ∧ link.identity = x

/-- A transaction that leaves the handshakes alone: what it does meets `G`, no identity gets a second account, and an
identity or a session that was not there before comes with its deed, or meets `S`. -/
structure Writes (G : Deed → Prop) (S : Session → Prop) (db db' : Db) : Prop where
  deeds : ∀ d ∈ db'.deeds, d ∈ db.deeds ∨ G d
  kept : ∀ d ∈ db.deeds, d ∈ db'.deeds
  consumed : db'.consumedSerials = db.consumedSerials
  loginStates : db'.loginStates = db.loginStates
  serials : db'.serials = db.serials
  keys : db.identityKeys.Nodup → db'.identityKeys.Nodup
  identities : ∀ x ∈ db'.identities, IdentityFrom G db db' x
  sessions : ∀ x ∈ db'.sessions, S x ∨ SessionFrom G db db' x
  admins : db.AdminsFull → db'.AdminsFull

variable {G : Deed → Prop} {S : Session → Prop} {db db' db'' : Db}

theorem Writes.refl (G : Deed → Prop) (S : Session → Prop) (db : Db) : Writes G S db db :=
  ⟨fun _ h => Or.inl h, fun _ h => h, rfl, rfl, rfl, fun h => h, fun _ h => Or.inl h, fun _ h => Or.inr (.kept h), fun h => h⟩

theorem Writes.trans (h : Writes G S db db') (h' : Writes G S db' db'') : Writes G S db db'' where
  deeds d hd := by
    rcases h'.deeds d hd with hd | hd
    · exact h.deeds d hd
    · exact Or.inr hd
  kept d hd := h'.kept d (h.kept d hd)
  consumed := h'.consumed.trans h.consumed
  loginStates := h'.loginStates.trans h.loginStates
  serials := h'.serials.trans h.serials
  keys hkeys := h'.keys (h.keys hkeys)
  identities x hx := by
    rcases h'.identities x hx with hold | hnew
    · exact (h.identities x hold).imp_right fun ⟨link, hlink, hrest⟩ => ⟨link, h'.kept _ hlink, hrest⟩
    · exact Or.inr hnew
  sessions x hx := by
    rcases h'.sessions x hx with hS | hold | ⟨hdeed, hG⟩ | ⟨before, identity, record, owner, claims, reauthAt, hdeed, hG, rfl⟩
    · exact Or.inl hS
    · rcases h.sessions x hold with hS | hfirst | ⟨hdeed, hG⟩ |
        ⟨before, identity, record, owner, claims, reauthAt, hdeed, hG, rfl⟩
      · exact Or.inl hS
      · exact Or.inr (.kept hfirst)
      · exact Or.inr (.signedIn (h'.kept _ hdeed) hG)
      · exact Or.inr (.reauthenticated before identity record owner claims reauthAt (h'.kept _ hdeed) hG rfl)
    · exact Or.inr (.signedIn hdeed hG)
    · exact Or.inr (.reauthenticated before identity record owner claims reauthAt hdeed hG rfl)
  admins hadmins := h'.admins (h.admins hadmins)

theorem Writes.silent (hdeeds : db'.deeds = db.deeds) (hstates : db'.loginStates = db.loginStates)
    (hserials : db'.serials = db.serials) (hidentities : db'.identities.Sublist db.identities)
    (hsessions : ∀ x ∈ db'.sessions, S x ∨ x ∈ db.sessions) (hadmins : db.AdminsFull → db'.AdminsFull) :
    Writes G S db db' where
  deeds _ hd := Or.inl (hdeeds ▸ hd)
  kept _ hd := hdeeds.symm ▸ hd
  consumed := by rw [Db.consumedSerials, hdeeds, Db.consumedSerials]
  loginStates := hstates
  serials := hserials
  keys hkeys := hkeys.sublist (hidentities.map _)
  identities _ hx := Or.inl (hidentities.subset hx)
  sessions x hx := (hsessions x hx).imp_right .kept
  admins := hadmins

theorem Writes.did {d : Deed} (hG : G d) (hconsumed : (db.did d).consumedSerials = db.consumedSerials) :
    Writes G S db (db.did d) := by
  refine ⟨fun d' hd => ?_, fun d' hd => List.mem_cons_of_mem _ hd, hconsumed, rfl, rfl, fun hkeys => hkeys,
    fun x hx => Or.inl hx, fun x hx => Or.inr (.kept hx), fun hadmins => hadmins⟩
  rcases List.mem_cons.mp hd with rfl | hd
  · exact Or.inr hG
  · exact Or.inl hd

theorem adminsFull_writeAccount {id : Uuid} {write : Account → Account}
    (hwrite : ∀ a, (a.isInstanceAdmin = true → a.mode.isExportOnly = false) →
      (write a).isInstanceAdmin = true → (write a).mode.isExportOnly = false)
    (h : db.AdminsFull) : (db.writeAccount id write).AdminsFull := by
  intro a ha hadmin
  obtain ⟨b, hb, rfl⟩ := List.mem_map.mp ha
  split_ifs at hadmin ⊢
  · exact hwrite b (h b hb) hadmin
  · exact h b hb hadmin

theorem applyMode_full {a : Account} {now : Timestamp} {mode : AccessMode}
    (h : a.isInstanceAdmin = true → a.mode.isExportOnly = false) (hadmin : (a.applyMode now mode).isInstanceAdmin = true) :
    (a.applyMode now mode).mode.isExportOnly = false := by
  cases mode with
  | full => rfl
  | exportOnly exportOnlyUntil endAction =>
    unfold Account.applyMode at hadmin ⊢
    dsimp only at hadmin ⊢
    split_ifs at hadmin ⊢ with hrefused
    · exact h hadmin
    · exact absurd (by rw [show a.isInstanceAdmin = true from hadmin]; simp) hrefused

theorem rewritten_full {a : Account} {email : Address} {verified disabled isInstanceAdmin : Bool}
    (h : a.isInstanceAdmin = true → a.mode.isExportOnly = false)
    (hadmin : (a.rewritten email verified disabled isInstanceAdmin).isInstanceAdmin = true) :
    (a.rewritten email verified disabled isInstanceAdmin).mode.isExportOnly = false := by
  simp only [Account.rewritten, Bool.and_eq_true, Bool.or_eq_true, Bool.not_eq_true'] at hadmin ⊢
  exact hadmin.2.elim h fun hmode => hmode

/-- An identity that is added is nobody's before. -/
theorem sysIdentityLink_writes {account : Account} {created : Bool} {record : LoginState} {owner : Option Owner}
    {claims : Claims} (h : db.sysIdentityLink account created record owner claims = some db')
    (hG : account.disabled = false → db.identity record.provider claims.subject = none →
      G (.linked ⟨⟨record.provider, claims.subject, account.id⟩, account, created, record, owner, claims⟩)) :
    Writes G S db db' := by
  rw [Db.sysIdentityLink] at h
  split_ifs at h with hdisabled hlinked
  cases h
  have hnone : db.identity record.provider claims.subject = none := by simpa using hlinked
  have hdeed := hG (by simpa using hdisabled) hnone
  refine ⟨fun d hd => ?_, fun d hd => List.mem_cons_of_mem _ hd, rfl, rfl, rfl, fun hkeys => ?_, fun x hx => ?_,
    fun x hx => Or.inr (.kept hx), fun hadmins => hadmins⟩
  · rcases List.mem_cons.mp hd with rfl | hd
    · exact Or.inr hdeed
    · exact Or.inl hd
  · refine List.nodup_cons.mpr ⟨fun hmem => ?_, hkeys⟩
    obtain ⟨identity, hidentity, hkey⟩ := List.mem_map.mp hmem
    have hno := List.find?_eq_none.mp hnone identity hidentity
    rw [Prod.mk.injEq] at hkey
    exact hno (by simp [hkey.1, hkey.2])
  · rcases List.mem_cons.mp hx with rfl | hx
    · exact Or.inr ⟨_, List.mem_cons_self, hdeed, rfl⟩
    · exact Or.inl hx

theorem signIn_writes {session : Session} (hG : G (.signedIn session)) : Writes G S db (db.signIn session) := by
  refine ⟨fun d hd => ?_, fun d hd => List.mem_cons_of_mem _ hd, rfl, rfl, rfl, fun hkeys => hkeys, fun x hx => Or.inl hx,
    fun x hx => ?_, fun hadmins => hadmins⟩
  · rcases List.mem_cons.mp hd with rfl | hd
    · exact Or.inr hG
    · exact Or.inl hd
  · rcases List.mem_cons.mp hx with rfl | hx
    · exact Or.inr (.signedIn List.mem_cons_self hG)
    · exact Or.inr (.kept hx)

theorem sysIdentitySignIn_writes {provider subject : String} {sessionId : Uuid}
    (h : db.sysIdentitySignIn provider subject sessionId = some db')
    (hG : ∀ accountId, G (.signedIn ⟨sessionId, accountId, true, none⟩)) : Writes G S db db' := by
  obtain ⟨identity, -, h⟩ := Option.bind_eq_some_iff.mp h
  obtain ⟨account, -, h⟩ := Option.bind_eq_some_iff.mp h
  split_ifs at h
  cases h
  exact signIn_writes (hG account.id)

theorem sysCreateAccount_writes {id : Uuid} {email : Address} {verified : Bool} {account : Account}
    (h : db.sysCreateAccount id email verified = some (db', account)) :
    account = ⟨id, email, verified, false, false, .full⟩ ∧ Writes G S db db' := by
  rw [Db.sysCreateAccount] at h
  split_ifs at h
  cases h
  refine ⟨rfl, Writes.silent rfl rfl rfl (List.Sublist.refl _) (fun x hx => Or.inr hx) fun hadmins a ha => ?_⟩
  rcases List.mem_cons.mp ha with rfl | ha
  · exact fun hadmin => Bool.noConfusion hadmin
  · exact hadmins a ha

theorem enter_writes {workspaceId : Uuid} {account : Account} {owner : Bool} (hG : G (.joined workspaceId account)) :
    Writes G S db (db.enter workspaceId account owner) := by
  refine ⟨fun d hd => ?_, fun d hd => List.mem_cons_of_mem _ hd, rfl, rfl, rfl, fun hkeys => hkeys, fun x hx => Or.inl hx,
    fun x hx => Or.inr (.kept hx), fun hadmins => hadmins⟩
  rcases List.mem_cons.mp hd with rfl | hd
  · exact Or.inr hG
  · exact Or.inl hd

theorem join_writes (invitation : Invitation) (account : Account)
    (hG : G (.joined invitation.workspaceId account)) : Writes G S db (db.join invitation account) := by
  rw [Db.join]
  refine Writes.trans ?_ (enter_writes hG)
  exact Writes.silent rfl rfl rfl (List.Sublist.refl _) (fun x hx => Or.inr hx) fun hadmins => hadmins

theorem sysInvitationAccept_writes {tokenHash : ℕ} {accountId : Uuid} {seatLimit : Option ℕ} {account : Account}
    (h : db.sysInvitationAccept tokenHash accountId seatLimit = some (db', account))
    (hG : ∀ workspaceId, account.mode = .full → G (.joined workspaceId account)) :
    (∃ invitation, db.invitation tokenHash = some invitation ∧ account.email = invitation.email) ∧
      account.emailVerified = true ∧ account.mode = .full ∧ account.id = accountId ∧ Writes G S db db' := by
  obtain ⟨invitation, hinvitation, h⟩ := Option.bind_eq_some_iff.mp h
  obtain ⟨found, hfound, h⟩ := Option.bind_eq_some_iff.mp h
  split_ifs at h with hmay
  cases h
  obtain ⟨-, -, hmode, hverified, hemail, -, -⟩ := hmay
  refine ⟨⟨invitation, hinvitation, hemail⟩, hverified, hmode, ?_, join_writes _ _ (hG _ hmode)⟩
  simpa using List.find?_some hfound

theorem sysInvitationAcceptNewAccount_writes {tokenHash : ℕ} {accountId : Uuid} {seatLimit : Option ℕ} {account : Account}
    (h : db.sysInvitationAcceptNewAccount tokenHash accountId seatLimit = some (db', account))
    (hG : ∀ workspaceId, account.mode = .full → G (.joined workspaceId account)) :
    (∃ invitation, db.invitation tokenHash = some invitation ∧ account.email = invitation.email) ∧
      account.mode = .full ∧ Writes G S db db' := by
  obtain ⟨invitation, hinvitation, h⟩ := Option.bind_eq_some_iff.mp h
  split_ifs at h with hmay
  obtain ⟨⟨created, account'⟩, hcreated, hpair⟩ := Option.map_eq_some_iff.mp h
  obtain ⟨rfl, rfl⟩ := Prod.mk.inj hpair
  have hrow := (sysCreateAccount_writes (G := G) (S := S) hcreated).1
  have hmode : account'.mode = .full := by rw [hrow]
  refine ⟨⟨invitation, hinvitation, by rw [hrow]⟩, hmode, ?_⟩
  exact (sysCreateAccount_writes hcreated).2.trans (join_writes _ _ (hG _ hmode))

/-! ### Workspaces -/

theorem sysCreateWorkspaceLimited_writes {accountId workspaceId : Uuid} {ownedMax : Option ℕ}
    (h : db.sysCreateWorkspaceLimited accountId workspaceId ownedMax = some db')
    (hG : ∀ account, db.account accountId = some account → account.disabled = false → db.mayOwn accountId ownedMax = true →
      G (.joined workspaceId account)) : Writes G S db db' := by
  obtain ⟨account, haccount, h⟩ := Option.bind_eq_some_iff.mp h
  split_ifs at h with hmay
  cases h
  exact enter_writes (hG account haccount hmay.1 hmay.2)

theorem sysCompleteSetup_writes {accountId workspaceId : Uuid} {email : Address}
    (h : db.sysCompleteSetup accountId email workspaceId = some db')
    (hG : ∀ account, account.mode = .full → G (.joined workspaceId account)) : Writes G S db db' := by
  rw [Db.sysCompleteSetup] at h
  split_ifs at h with hempty
  obtain ⟨⟨db₁, account⟩, hcreated, rfl⟩ := Option.map_eq_some_iff.mp h
  obtain ⟨rfl, hwrites⟩ := sysCreateAccount_writes (G := G) (S := S) hcreated
  have hfull : ∀ a ∈ db₁.accounts, a.mode = .full := by
    rw [Db.sysCreateAccount, hempty] at hcreated
    split_ifs at hcreated
    cases hcreated
    intro a ha
    obtain rfl := List.mem_singleton.mp ha
    rfl
  have hadmin : Writes G S db₁ (db₁.writeAccount accountId fun a => { a with isInstanceAdmin := true }) := by
    refine Writes.silent rfl rfl rfl (List.Sublist.refl _) (fun x hx => Or.inr hx) fun _ a ha _ => ?_
    obtain ⟨b, hb, rfl⟩ := List.mem_map.mp ha
    split_ifs <;> exact congrArg AccessMode.isExportOnly (hfull b hb)
  exact (hwrites.trans hadmin).trans (enter_writes (hG _ rfl))

theorem sysInstanceCreateWorkspace_writes {callerId workspaceId ownerAccountId : Uuid}
    (h : db.sysInstanceCreateWorkspace callerId workspaceId ownerAccountId = some db')
    (hG : ∀ account, account.mode = .full → G (.joined workspaceId account)) : Writes G S db db' := by
  obtain ⟨caller, -, h⟩ := Option.bind_eq_some_iff.mp h
  obtain ⟨account, -, h⟩ := Option.bind_eq_some_iff.mp h
  split_ifs at h with hmay
  cases h
  exact enter_writes (hG account hmay.2)

theorem sysInstanceAddMembership_writes {callerId workspaceId : Uuid}
    (h : db.sysInstanceAddMembership callerId workspaceId = some db')
    (hG : ∀ account ∈ db.accounts, account.isInstanceAdmin = true → G (.joined workspaceId account)) : Writes G S db db' := by
  obtain ⟨account, hadmin, h⟩ := Option.bind_eq_some_iff.mp h
  obtain ⟨hfound, hflag⟩ := Option.filter_eq_some_iff.mp hadmin
  split_ifs at h
  cases h
  rw [Bool.and_eq_true] at hflag
  exact enter_writes (hG account (List.mem_of_find?_eq_some hfound) hflag.1)

/-! ## Justifications -/

/-- It is the turn of this request. -/
def Turn (w : World) (event : Event) (process : Process) : Prop :=
  ∃ i, event.process = some i ∧ w.processes[i]? = some process

/-- The step makes the account the owner of a new workspace: a request to create one comes to its write, or the personal
workspace of the account is created, and the account may own one more. -/
inductive Founding (w : World) (event : Event) (accountId : Uuid) : Prop
  | request (i : ℕ) (limit : Option ℕ) (principal : Option Principal) (workspaceId : Uuid) (owner : Owner) :
      event = .handle i limit → w.processes[i]? = some (.admitted principal (.createWorkspace workspaceId)) →
      signedInSession principal w.db.now = some owner → owner.accountId = accountId → w.db.mayOwn accountId limit = true →
      Founding w event accountId
  | personal (workspaceId : Uuid) (ownedMax : Option ℕ) :
      event = .createPersonalWorkspace accountId workspaceId ownedMax → w.db.ownsNone accountId = true →
      w.db.mayOwn accountId ownedMax = true → Founding w event accountId

/-- Why an identity is added, from the world before: a link for the account that its handshake names, by its row as it
stands; a sign-in or an invitation for the holder of the asserted address, or for a new account of it. The accounts of
invitations have full access. -/
inductive LinkJustified (server : Server) (w : World) (event : Event) : Link → Prop
  | link {record : LoginState} {owner : Owner} {claims : Claims} {account : Account} :
      record.intent = .link → Turn w event (.exchanged record (some owner) claims) →
      w.db.account owner.accountId = some account → account.disabled = false →
      w.db.identity record.provider claims.subject = none →
      LinkJustified server w event
        ⟨⟨record.provider, claims.subject, account.id⟩, account, false, record, some owner, claims⟩
  | address {record : LoginState} {claims : Claims} {email : Address} {create : Bool} {account : Account} :
      Turn w event (.signingIn record claims email create) → w.db.holder email = some account →
      w.db.identity record.provider claims.subject = none →
      LinkJustified server w event
        ⟨⟨record.provider, claims.subject, account.id⟩, account, false, record, none, claims⟩
  | firstLogin {record : LoginState} {claims : Claims} {email : Address} {create : Bool} (accountId : Uuid) :
      Turn w event (.signingIn record claims email create) →
      LinkJustified server w event
        ⟨⟨record.provider, claims.subject, accountId⟩, ⟨accountId, email, true, false, false, .full⟩, true, record, none,
          claims⟩
  | invite {record : LoginState} {claims : Claims} {email : Address} {account : Account} (created : Bool) :
      record.intent = .invite → Turn w event (.exchanged record none claims) →
      server.assertedEmail claims = some email → account.email = email → account.emailVerified = true →
      account.mode = .full →
      LinkJustified server w event
        ⟨⟨record.provider, claims.subject, account.id⟩, account, created, record, none, claims⟩

/-- Why something is done, from the world before. -/
inductive Justified (server : Server) (w : World) (event : Event) : Deed → Prop
  | carried {session : Session} : session ∈ w.db.sessions → Justified server w event (.carried session)
  | reached {principal : Principal} {operationId : String} :
      principal.mayCall operationId = true ∨ w.db.refuseExportOnly principal.accountId = false →
      Justified server w event (.reached principal operationId (w.db.account principal.accountId))
  | started {record : LoginState} {start : Start} :
      Turn w event (.starting start record.starter) → record.intent = start.intent →
      record.linkAccountId = record.starter.map (·.accountId) → Justified server w event (.started record)
  | consumed {record : LoginState} {state cookie : String} :
      record ∈ w.db.loginStates → server.hashOidcState state = some record.stateHash →
      server.oidcStateIsBound state cookie = true → Justified server w event (.consumed record state cookie)
  | linked {link : Link} : LinkJustified server w event link → Justified server w event (.linked link)
  | joined {account : Account} (workspaceId : Uuid) : account.mode = .full →
      Justified server w event (.joined workspaceId account)
  | founded {account : Account} {accountId : Uuid} (workspaceId : Uuid) : Founding w event accountId →
      w.db.account accountId = some account → account.disabled = false →
      Justified server w event (.joined workspaceId account)
  | admitted {account : Account} (workspaceId : Uuid) : account ∈ w.db.accounts → account.isInstanceAdmin = true →
      Justified server w event (.joined workspaceId account)
  | signedIn {session : Session} (record : LoginState) (claims : Claims) :
      (Turn w event (.exchanged record none claims) ∨ ∃ email create, Turn w event (.signingIn record claims email create)) →
      session.full = true → session.reauthAt = none → Justified server w event (.signedIn session)
  | reauthenticated {session : Session} {identity : Identity} {record : LoginState} {owner : Owner} {claims : Claims} :
      record.intent = .reauth → Turn w event (.exchanged record (some owner) claims) → session ∈ w.db.sessions →
      session.id = owner.sessionId → session.accountId = owner.accountId → session.full = true →
      w.db.identity record.provider claims.subject = some identity → identity.accountId = owner.accountId →
      Justified server w event (.reauthenticated session identity record owner claims w.db.now)

variable {server : Server} {w w' : World} {event : Event}

theorem sysIdentityReauth_writes {record : LoginState} {owner : Owner} {claims : Claims}
    (hintent : record.intent = .reauth) (hprocess : Turn w event (.exchanged record (some owner) claims))
    (h : w.db.sysIdentityReauth record owner claims = some db') : Writes (Justified server w event) S w.db db' := by
  obtain ⟨identity, hidentity, h⟩ := Option.bind_eq_some_iff.mp h
  obtain ⟨account, -, h⟩ := Option.bind_eq_some_iff.mp h
  split_ifs at h with hheld
  rw [Bool.and_eq_true, decide_eq_true_eq] at hheld
  dsimp only at h
  split_ifs at h
  cases h
  have hmarked {x : Session} (hx : x ∈ w.db.sessions) (hmarks : owner.marks x = true) :
      Justified server w event (.reauthenticated x identity record owner claims w.db.now) := by
    simp only [Owner.marks, Bool.and_eq_true, decide_eq_true_eq] at hmarks
    exact .reauthenticated hintent hprocess hx hmarks.1.1 hmarks.1.2 hmarks.2 hidentity hheld.1
  refine ⟨fun d hd => ?_, fun d hd => List.mem_append_right _ hd, ?_, rfl, rfl, fun hkeys => hkeys, fun x hx => Or.inl hx,
    fun x hx => Or.inr ?_, fun hadmins => hadmins⟩
  · rcases List.mem_append.mp hd with hnew | hold
    · obtain ⟨x, hx, rfl⟩ := List.mem_map.mp hnew
      obtain ⟨hx, hmarks⟩ := List.mem_filter.mp hx
      exact Or.inr (hmarked hx hmarks)
    · exact Or.inl hold
  · simp [Db.consumedSerials, List.filterMap_append, List.filterMap_map]
  · obtain ⟨y, hy, rfl⟩ := List.mem_map.mp hx
    split_ifs with hmarks
    · exact .reauthenticated y identity record owner claims w.db.now
        (List.mem_append_left _ (List.mem_map.mpr ⟨y, List.mem_filter.mpr ⟨hy, hmarks⟩, rfl⟩)) (hmarked hy hmarks) rfl
    · exact .kept hy

theorem sysInvitationAcceptWithIdentity_writes {record : LoginState} {claims : Claims} {email : Address}
    {newAccountId sessionId accepting : Uuid} {mayCreate : Bool} {seatLimit : Option ℕ}
    (hintent : record.intent = .invite) (hprocess : Turn w event (.exchanged record none claims))
    (hemail : server.assertedEmail claims = some email)
    (h : w.db.sysInvitationAcceptWithIdentity email record claims newAccountId sessionId mayCreate seatLimit =
      some (db', accepting)) : Writes (Justified server w event) S w.db db' := by
  obtain ⟨tokenHash, -, h⟩ := Option.bind_eq_some_iff.mp h
  obtain ⟨invitation, hinvitation, h⟩ := Option.bind_eq_some_iff.mp h
  have hinvited : invitation.email = email := by
    by_contra hno
    rw [if_pos hno] at h
    cases h
  rw [if_neg (not_not.mpr hinvited)] at h
  have hjoined : ∀ (account : Account) (workspaceId : Uuid), account.mode = .full →
      Justified server w event (.joined workspaceId account) := fun _ workspaceId hmode => .joined workspaceId hmode
  have hsigns : ∀ accountId, Justified server w event (.signedIn ⟨sessionId, accountId, true, none⟩) :=
    fun _ => .signedIn record claims (Or.inl hprocess) rfl rfl
  cases hidentity : w.db.identity record.provider claims.subject with
  | some identity =>
    rw [hidentity] at h
    obtain ⟨⟨db₁, account⟩, haccepted, h⟩ := Option.bind_eq_some_iff.mp h
    obtain ⟨db₂, hsigned, hpair⟩ := Option.map_eq_some_iff.mp h
    cases hpair
    exact (sysInvitationAccept_writes haccepted (hjoined account)).2.2.2.2.trans (sysIdentitySignIn_writes hsigned hsigns)
  | none =>
    rw [hidentity] at h
    dsimp only at h
    cases hholder : w.db.holder invitation.email with
    | some holder =>
      rw [hholder] at h
      obtain ⟨⟨db₁, account⟩, haccepted, h⟩ := Option.bind_eq_some_iff.mp h
      obtain ⟨db₂, hlinked, h⟩ := Option.bind_eq_some_iff.mp h
      obtain ⟨db₃, hsigned, hpair⟩ := Option.map_eq_some_iff.mp h
      cases hpair
      obtain ⟨⟨again, hagain, haddress⟩, hverified, hmode, -, hwrites⟩ :=
        sysInvitationAccept_writes haccepted (hjoined account)
      obtain rfl : invitation = again := Option.some.inj (hinvitation.symm.trans hagain)
      exact (hwrites.trans (sysIdentityLink_writes hlinked fun _ _ =>
        .linked (.invite false hintent hprocess hemail (haddress.trans hinvited) hverified hmode))).trans
        (sysIdentitySignIn_writes hsigned hsigns)
    | none =>
      rw [hholder] at h
      dsimp only at h
      split_ifs at h
      obtain ⟨⟨db₁, account⟩, haccepted, h⟩ := Option.bind_eq_some_iff.mp h
      obtain ⟨db₂, hlinked, hpair⟩ := Option.map_eq_some_iff.mp h
      cases hpair
      obtain ⟨⟨again, hagain, haddress⟩, hmode, hwrites⟩ :=
        sysInvitationAcceptNewAccount_writes haccepted (hjoined account)
      obtain rfl : invitation = again := Option.some.inj (hinvitation.symm.trans hagain)
      have hverified : Writes (Justified server w event) S db₁
          (db₁.writeAccount newAccountId fun a => { a with emailVerified := true }) :=
        Writes.silent rfl rfl rfl (List.Sublist.refl _) (fun x hx => Or.inr hx)
          (adminsFull_writeAccount fun a ha hadmin => ha hadmin)
      refine ((hwrites.trans hverified).trans (sysIdentityLink_writes hlinked fun _ _ =>
        .linked (.invite true hintent hprocess hemail (haddress.trans hinvited) rfl hmode))).trans ?_
      exact signIn_writes (hsigns newAccountId)

theorem firstLogin_writes {record : LoginState} {claims : Claims} {email : Address} {create : Bool}
    {accountId sessionId : Uuid} (hprocess : Turn w event (.signingIn record claims email create))
    (h : w.db.firstLogin record claims email create accountId sessionId = some db') :
    Writes (Justified server w event) S w.db db' := by
  have hsigns : ∀ accountId, Justified server w event (.signedIn ⟨sessionId, accountId, true, none⟩) :=
    fun _ => .signedIn record claims (Or.inr ⟨email, create, hprocess⟩) rfl rfl
  rw [Db.firstLogin] at h
  cases hsigned : w.db.sysIdentitySignIn record.provider claims.subject sessionId with
  | some signedIn =>
    rw [hsigned] at h
    cases h
    exact sysIdentitySignIn_writes hsigned hsigns
  | none =>
    rw [hsigned] at h
    dsimp only at h
    cases hholder : w.db.holder email with
    | some holder =>
      rw [hholder] at h
      obtain ⟨db₁, hlinked, hsigned⟩ := Option.bind_eq_some_iff.mp h
      obtain ⟨account, haccount, hlinked⟩ := Option.bind_eq_some_iff.mp hlinked
      exact (sysIdentityLink_writes hlinked fun _ hnone => .linked (.address hprocess haccount hnone)).trans
        (sysIdentitySignIn_writes hsigned hsigns)
    | none =>
      rw [hholder] at h
      dsimp only at h
      split_ifs at h
      obtain ⟨⟨db₁, account⟩, hcreated, h⟩ := Option.bind_eq_some_iff.mp h
      obtain ⟨db₂, hlinked, hsigned⟩ := Option.bind_eq_some_iff.mp h
      obtain ⟨rfl, hwrites⟩ := sysCreateAccount_writes (G := Justified server w event) (S := S) hcreated
      exact (hwrites.trans (sysIdentityLink_writes hlinked fun _ _ => .linked (.firstLogin accountId hprocess))).trans
        (sysIdentitySignIn_writes hsigned hsigns)

end SlugBase.Oidc
