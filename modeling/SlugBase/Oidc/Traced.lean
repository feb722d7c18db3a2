import SlugBase.Oidc.Deeds

/-!
# Where requests come from

What a request on its way carries goes back to sessions that were authenticated and to handshakes that were started.

* `RecordTraced`, `CallbackTraced`, `ProcessTraced`: where a record, the session of a callback and a request come from;
* `Effect`: all that a step can do to the world;
* **`next_effect`**: every step is one of these.
-/

namespace SlugBase.Oidc

/-! ## Traces -/

/-- The intent of a handshake that a session starts. -/
def OidcIntent.ofSession (intent : OidcIntent) : Prop := intent = .link ∨ intent = .reauth

instance (intent : OidcIntent) : Decidable intent.ofSession := by unfold OidcIntent.ofSession; infer_instance

/-- The session was authenticated and is complete. -/
def Owner.Traced (deeds : List Deed) (owner : Owner) : Prop :=
  ∃ session, Deed.carried session ∈ deeds ∧ session.id = owner.sessionId ∧ session.accountId = owner.accountId ∧
    session.full = true ∧ session.reauthAt = owner.reauthAt

/-- The session of a handshake: one that was authenticated, of recent re-authentication for a link; none for a sign-in and
an invitation. -/
structure OwnerTraced (deeds : List Deed) (intent : OidcIntent) (owner : Option Owner) : Prop where
  ofSession : intent.ofSession → ∃ o, owner = some o ∧ o.Traced deeds ∧ (intent = .link → o.recent = true)
  otherwise : ¬ intent.ofSession → owner = none

/-- A record was started, by the session it names. -/
structure RecordTraced (deeds : List Deed) (record : LoginState) : Prop where
  started : Deed.started record ∈ deeds
  starter : OwnerTraced deeds record.intent record.starter
  account : record.linkAccountId = record.starter.map (·.accountId)

/-- A callback carries a session of the account that started its handshake. -/
structure CallbackTraced (deeds : List Deed) (record : LoginState) (owner : Option Owner) : Prop where
  handshake : RecordTraced deeds record
  carried : OwnerTraced deeds record.intent owner
  account : record.intent.ofSession → owner.map (·.accountId) = record.linkAccountId

/-- A request's session was authenticated. -/
def PrincipalTraced (deeds : List Deed) (principal : Option Principal) : Prop :=
  ∀ sessionId accountId mfaPending reauthAt, principal = some (.session sessionId accountId mfaPending reauthAt) →
    ∃ session, Deed.carried session ∈ deeds ∧ session.id = sessionId ∧ session.accountId = accountId ∧
      session.full = !mfaPending ∧ session.reauthAt = reauthAt

/-- Where a request on its way comes from. -/
def ProcessTraced (server : Server) (deeds : List Deed) : Process → Prop
  | .authenticated principal _ => PrincipalTraced deeds principal
  | .admitted principal _ => PrincipalTraced deeds principal
  | .starting start owner => OwnerTraced deeds start.intent owner
  | .holding record owner _ => CallbackTraced deeds record owner
  | .judged record owner => CallbackTraced deeds record owner
  | .exchanged record owner _ => CallbackTraced deeds record owner
  | .signingIn record claims email _ =>
    RecordTraced deeds record ∧ record.intent = .login ∧ server.assertedEmail claims = some email
  | .done => True

section

variable {deeds deeds' : List Deed} (hsub : ∀ d ∈ deeds, d ∈ deeds') {server : Server}
include hsub

theorem Owner.Traced.mono {owner : Owner} (h : owner.Traced deeds) : owner.Traced deeds' := by
  obtain ⟨session, hcarried, hrest⟩ := h
  exact ⟨session, hsub _ hcarried, hrest⟩

theorem OwnerTraced.mono {intent : OidcIntent} {owner : Option Owner} (h : OwnerTraced deeds intent owner) :
    OwnerTraced deeds' intent owner := by
  refine ⟨fun hintent => ?_, h.otherwise⟩
  obtain ⟨o, ho, htraced, hrecent⟩ := h.ofSession hintent
  exact ⟨o, ho, htraced.mono hsub, hrecent⟩

theorem RecordTraced.mono {record : LoginState} (h : RecordTraced deeds record) : RecordTraced deeds' record :=
  ⟨hsub _ h.started, h.starter.mono hsub, h.account⟩

theorem CallbackTraced.mono {record : LoginState} {owner : Option Owner} (h : CallbackTraced deeds record owner) :
    CallbackTraced deeds' record owner :=
  ⟨h.handshake.mono hsub, h.carried.mono hsub, h.account⟩

theorem PrincipalTraced.mono {principal : Option Principal} (h : PrincipalTraced deeds principal) :
    PrincipalTraced deeds' principal := by
  intro sessionId accountId mfaPending reauthAt hprincipal
  obtain ⟨session, hcarried, hrest⟩ := h sessionId accountId mfaPending reauthAt hprincipal
  exact ⟨session, hsub _ hcarried, hrest⟩

theorem ProcessTraced.mono {process : Process} (h : ProcessTraced server deeds process) :
    ProcessTraced server deeds' process := by
  cases process with
  | authenticated | admitted => exact PrincipalTraced.mono hsub h
  | starting => exact OwnerTraced.mono hsub h
  | holding | judged | exchanged => exact CallbackTraced.mono hsub h
  | signingIn => exact ⟨h.1.mono hsub, h.2⟩
  | done => trivial

end

/-! ## Effects -/

/-- All that a step can do: rows of other requests are written (sessions too), a request arrives, a request goes on within
one transaction, the record of a handshake is stored, or consumed. -/
inductive Effect (server : Server) (w : World) (event : Event) : World → Prop
  | elsewhere {db : Db} : event.process = none → Writes (Justified server w event) (fun _ => True) w.db db →
      Effect server w event ⟨db, w.processes⟩
  | arrives {db : Db} {principal : Option Principal} (operation : Operation) : event.process = none →
      Writes (Justified server w event) (fun _ => False) w.db db → PrincipalTraced db.deeds principal →
      Effect server w event ⟨db, w.processes ++ [.authenticated principal operation]⟩
  | moves {db : Db} {i : ℕ} {process process' : Process} :
      w.processes[i]? = some process → Writes (Justified server w event) (fun _ => False) w.db db →
      (ProcessTraced server w.db.deeds process → ProcessTraced server db.deeds process') →
      Effect server w event ⟨db, w.processes.set i process'⟩
  | starts {db : Db} {i : ℕ} {start : Start} {owner : Option Owner} {stateHash : String}
      {invitationTokenHash : Option ℕ} :
      w.processes[i]? = some (.starting start owner) → Turn w event (.starting start owner) →
      w.db.sysOidcStateCreate stateHash start.provider start.intent (owner.map (·.accountId)) invitationTokenHash owner =
        some db →
      Effect server w event ⟨db, w.processes.set i .done⟩
  | takes {db : Db} {i : ℕ} {principal : Option Principal} {operation : Operation} {stateHash provider state cookie : String}
      {record : LoginState} {process' : Process} :
      w.processes[i]? = some (.admitted principal operation) →
      server.hashOidcState state = some stateHash → server.oidcStateIsBound state cookie = true →
      w.db.sysOidcStateTake stateHash provider state cookie = some (db, record) →
      (PrincipalTraced db.deeds principal → RecordTraced db.deeds record → ProcessTraced server db.deeds process') →
      Effect server w event ⟨db, w.processes.set i process'⟩

variable {server : Server} {w w' : World} {event : Event}

theorem elsewhere_effect (hevent : event.process = none) (h : w.elsewhere event = some w') : Effect server w event w' := by
  have hsilent : ∀ {db : Db}, db.deeds = w.db.deeds → db.loginStates = w.db.loginStates → db.serials = w.db.serials →
      db.identities.Sublist w.db.identities → (w.db.AdminsFull → db.AdminsFull) →
      Effect server w event ⟨db, w.processes⟩ := fun hdeeds hstates hserials hidentities hadmins =>
    .elsewhere hevent (Writes.silent hdeeds hstates hserials hidentities (fun _ _ => Or.inl trivial) hadmins)
  cases event with
  | tick | writeSessions | leave | invite | close =>
    cases h
    exact hsilent rfl rfl rfl (List.Sublist.refl _) fun hadmins => hadmins
  | setAccessMode accountId mode =>
    cases h
    refine hsilent rfl rfl rfl (List.Sublist.refl _) (adminsFull_writeAccount fun a ha hadmin => ?_)
    exact applyMode_full ha hadmin
  | writeAccount =>
    cases h
    refine hsilent rfl rfl rfl (List.Sublist.refl _) (adminsFull_writeAccount fun a ha hadmin => ?_)
    exact rewritten_full ha hadmin
  | endAccessMode accountId action =>
    obtain ⟨db, hended, rfl⟩ := Option.map_eq_some_iff.mp h
    obtain ⟨account, -, hended⟩ := Option.bind_eq_some_iff.mp hended
    obtain ⟨endAction, -, hended⟩ := Option.bind_eq_some_iff.mp hended
    cases action with
    | disable =>
      cases hended
      exact hsilent rfl rfl rfl (List.Sublist.refl _) (adminsFull_writeAccount fun a _ _ => rfl)
    | delete =>
      dsimp only at hended
      split_ifs at hended
      cases hended
      exact hsilent rfl rfl rfl List.filter_sublist fun hadmins a ha => hadmins a (List.mem_of_mem_filter ha)
  | addAccount id email verified =>
    obtain ⟨⟨db, account⟩, hcreated, rfl⟩ := Option.map_eq_some_iff.mp h
    exact .elsewhere hevent (sysCreateAccount_writes hcreated).2
  | completeSetup accountId email workspaceId =>
    obtain ⟨db, hcompleted, rfl⟩ := Option.map_eq_some_iff.mp h
    exact .elsewhere hevent (sysCompleteSetup_writes hcompleted fun _ hmode => .joined workspaceId hmode)
  | createPersonalWorkspace accountId workspaceId ownedMax =>
    obtain ⟨db, hcreated, rfl⟩ := Option.map_eq_some_iff.mp h
    rw [Db.sysCreatePersonalWorkspaceLimited] at hcreated
    split_ifs at hcreated with hnone
    exact .elsewhere hevent (sysCreateWorkspaceLimited_writes hcreated fun _ haccount henabled hmay =>
      .founded workspaceId (.personal workspaceId ownedMax rfl hnone hmay) haccount henabled)
  | unlink =>
    cases h
    exact hsilent rfl rfl rfl List.filter_sublist fun hadmins => hadmins
  | arrive credential operation =>
    cases h
    cases credential with
    | none => exact .arrives operation rfl (Writes.refl _ _ _) fun _ _ _ _ h => by cases h
    | apiToken => exact .arrives operation rfl (Writes.refl _ _ _) fun _ _ _ _ h => by cases h
    | session id =>
      rw [Db.authenticated]
      cases hfound : w.db.sessions.find? fun x => x.id = id with
      | none => exact .arrives operation rfl (Writes.refl _ _ _) fun _ _ _ _ h => by cases h
      | some session =>
        refine .arrives operation rfl (Writes.did (.carried (List.mem_of_find?_eq_some hfound)) rfl) ?_
        intro sessionId accountId mfaPending reauthAt hprincipal
        cases hprincipal
        exact ⟨session, List.mem_cons_self, rfl, rfl, by simp, rfl⟩
  | check | handle | store | judge | exchange | write => cases h

/-! ## Requests -/

section

variable {i : ℕ} {process : Process}

theorem goesOn_effect {process' : Option Process} (hi : w.processes[i]? = some process)
    (h : ∀ p, process' = some p → ProcessTraced server w.db.deeds process → ProcessTraced server w.db.deeds p) :
    Effect server w event (w.goesOn i process') := by
  refine .moves hi (Writes.refl _ _ _) fun htraced => ?_
  cases process' with
  | none => trivial
  | some p => exact h p rfl htraced

theorem ends_effect {db : Option Db} (hi : w.processes[i]? = some process)
    (h : ∀ db', db = some db' → Writes (Justified server w event) (fun _ => False) w.db db') :
    Effect server w event (w.ends i db) := by
  cases db with
  | none => exact .moves hi (Writes.refl _ _ _) fun _ => trivial
  | some db' => exact .moves hi (h db' rfl) fun _ => trivial

theorem checked_effect {principal : Option Principal} {operation : Operation}
    (hi : w.processes[i]? = some (.authenticated principal operation)) :
    Effect server w event (w.checked i principal operation) := by
  cases principal with
  | none => exact goesOn_effect hi fun p hp htraced => by cases hp; exact htraced
  | some p =>
    rw [World.checked]
    split
    case isTrue hpass =>
      refine .moves hi (Writes.did (.reached ?_) rfl) fun htraced =>
        PrincipalTraced.mono (fun d hd => List.mem_cons_of_mem _ hd) htraced
      simpa using hpass
    case isFalse => exact goesOn_effect hi fun p hp => by cases hp

theorem signedInSession_traced {deeds : List Deed} {principal : Option Principal} {now : Timestamp} {owner : Owner}
    (hprincipal : PrincipalTraced deeds principal) (h : signedInSession principal now = some owner) :
    owner.Traced deeds := by
  cases principal with
  | none => cases h
  | some p =>
    cases p with
    | apiToken => cases h
    | session sessionId accountId mfaPending reauthAt =>
      rw [signedInSession] at h
      split_ifs at h with hpending
      cases h
      obtain ⟨session, hcarried, hid, haccount, hfull, hreauth⟩ := hprincipal _ _ _ _ rfl
      refine ⟨session, hcarried, hid, haccount, ?_, hreauth⟩
      rw [hfull]
      simpa using hpending

/-- The start of a link or a re-authentication carries a session, of recent re-authentication for a link. -/
theorem startJudged_traced {deeds : List Deed} {principal : Option Principal} {start : Start} {process' : Process}
    (hprincipal : PrincipalTraced deeds principal) (h : w.startJudged principal start = some process') :
    ProcessTraced server deeds process' := by
  rw [World.startJudged] at h
  cases hintent : start.intent with
  | login =>
    rw [hintent] at h
    cases h
    refine ⟨fun hof => ?_, fun _ => rfl⟩
    rw [hintent] at hof
    rcases hof with hof | hof <;> cases hof
  | invite =>
    rw [hintent] at h
    dsimp only at h
    split_ifs at h
    cases h
    refine ⟨fun hof => ?_, fun _ => rfl⟩
    rw [hintent] at hof
    rcases hof with hof | hof <;> cases hof
  | link =>
    rw [hintent] at h
    obtain ⟨owner, howner, h⟩ := Option.bind_eq_some_iff.mp h
    split_ifs at h with hmay
    cases h
    refine ⟨fun _ => ⟨owner, rfl, signedInSession_traced hprincipal howner, fun _ => ?_⟩, fun hno => ?_⟩
    · simp only [Bool.and_eq_true] at hmay
      exact hmay.2
    · exact absurd (Or.inl hintent) hno
  | reauth =>
    rw [hintent] at h
    obtain ⟨owner, howner, h⟩ := Option.bind_eq_some_iff.mp h
    split_ifs at h with hmay
    cases h
    refine ⟨fun _ => ⟨owner, rfl, signedInSession_traced hprincipal howner, fun hlink => ?_⟩, fun hno => ?_⟩
    · rw [hintent] at hlink
      cases hlink
    · exact absurd (Or.inr hintent) hno

/-- A callback consumes the record of a state only with the cookie of that state, and goes on with a session of the account
that started a link or a re-authentication. -/
theorem called_effect {principal : Option Principal} {operation : Operation} {callback : Callback}
    (hi : w.processes[i]? = some (.admitted principal operation)) :
    Effect server w event (w.called server i principal callback) := by
  have hends : Effect server w event (w.goesOn i none) := goesOn_effect hi fun p hp => by cases hp
  rw [World.called]
  cases callback.state with
  | none => exact hends
  | some state =>
    cases callback.cookie with
    | none => exact hends
    | some cookie =>
      dsimp only
      cases hhash : server.hashOidcState state with
      | none => exact hends
      | some stateHash =>
        dsimp only
        split
        case isFalse => exact hends
        case isTrue hbound =>
          cases htake : w.db.sysOidcStateTake stateHash callback.provider state cookie with
          | none => exact hends
          | some taken =>
            refine .takes hi hhash hbound htake fun hprincipal hrecord => ?_
            split
            case isTrue hof =>
              cases howner : signedInSession principal w.db.now with
              | none => trivial
              | some owner =>
                rw [Option.bind_some]
                split
                case isFalse => trivial
                case isTrue hmatch =>
                  refine ⟨hrecord, ⟨fun _ => ⟨owner, rfl, signedInSession_traced hprincipal howner, hmatch.2⟩,
                    fun hno => absurd hof hno⟩, fun _ => hmatch.1⟩
            case isFalse hno => exact ⟨hrecord, ⟨fun hof => absurd hof hno, fun _ => rfl⟩, fun hof => absurd hof hno⟩

theorem handled_effect {principal : Option Principal} {operation : Operation} {limit : Option ℕ}
    (hi : w.processes[i]? = some (.admitted principal operation)) (hevent : event = .handle i limit) :
    Effect server w event (w.handled server i principal limit operation) := by
  cases operation with
  | startOidcSignIn start => exact goesOn_effect hi fun p hp htraced => startJudged_traced htraced hp
  | completeOidcSignIn callback => exact called_effect hi
  | acceptInvitation tokenHash newAccountId =>
    cases newAccountId with
    | some newAccountId =>
      refine ends_effect hi fun db' h => ?_
      obtain ⟨⟨db, account⟩, haccepted, rfl⟩ := Option.map_eq_some_iff.mp h
      exact (sysInvitationAcceptNewAccount_writes haccepted fun workspaceId hmode => .joined workspaceId hmode).2.2
    | none =>
      refine ends_effect hi fun db' h => ?_
      obtain ⟨owner, -, h⟩ := Option.bind_eq_some_iff.mp h
      obtain ⟨⟨db, account⟩, haccepted, rfl⟩ := Option.map_eq_some_iff.mp h
      exact (sysInvitationAccept_writes haccepted fun workspaceId hmode => .joined workspaceId hmode).2.2.2.2
  | createWorkspace workspaceId =>
    refine ends_effect hi fun db' h => ?_
    obtain ⟨owner, howner, h⟩ := Option.bind_eq_some_iff.mp h
    exact sysCreateWorkspaceLimited_writes h fun _ haccount henabled hmay =>
      .founded workspaceId (.request i limit principal workspaceId owner hevent hi howner rfl hmay) haccount henabled
  | createInstanceWorkspace workspaceId ownerAccountId =>
    refine ends_effect hi fun db' h => ?_
    obtain ⟨owner, -, h⟩ := Option.bind_eq_some_iff.mp h
    exact sysInstanceCreateWorkspace_writes h fun _ hmode => .joined workspaceId hmode
  | addInstanceAdminMembership workspaceId =>
    refine ends_effect hi fun db' h => ?_
    obtain ⟨owner, -, h⟩ := Option.bind_eq_some_iff.mp h
    exact sysInstanceAddMembership_writes h fun _ haccount hadmin => .admitted workspaceId haccount hadmin
  | other operationId => exact goesOn_effect hi fun p hp => by cases hp

theorem stored_effect {start : Start} {owner : Option Owner} {stateHash : String}
    (hi : w.processes[i]? = some (.starting start owner)) (hevent : event.process = some i) :
    Effect server w event (w.stored i start owner stateHash) := by
  rw [World.stored]
  cases hcreate : w.db.sysOidcStateCreate stateHash start.provider start.intent (owner.map (·.accountId))
      (if start.intent = .invite then start.invitationTokenHash else none) owner with
  | none => exact ends_effect hi fun db' h => by cases h
  | some db => exact .starts hi ⟨i, hevent, hi⟩ hcreate

theorem finished_effect {record : LoginState} {owner : Option Owner} {claims : Claims} {accountId sessionId : Uuid}
    {mayCreate : Bool} {seatLimit : Option ℕ} {expected : Uuid}
    (hi : w.processes[i]? = some (.exchanged record owner claims)) (hevent : event.process = some i) :
    Effect server w event
      (w.finished server i record owner claims accountId sessionId mayCreate seatLimit expected) := by
  have hturn : Turn w event (.exchanged record owner claims) := ⟨i, hevent, hi⟩
  have hends : Effect server w event (w.goesOn i none) := goesOn_effect hi fun p hp => by cases hp
  rw [World.finished.eq_def]
  cases hintent : record.intent with
  | link =>
    cases owner with
    | none => exact hends
    | some owner =>
      refine ends_effect hi fun db' h => ?_
      obtain ⟨account, haccount, hlinked⟩ := Option.bind_eq_some_iff.mp h
      exact sysIdentityLink_writes hlinked fun henabled hnone =>
        .linked (.link hintent hturn haccount henabled hnone)
  | reauth =>
    cases owner with
    | none => exact hends
    | some owner => exact ends_effect hi fun db' h => sysIdentityReauth_writes hintent hturn h
  | invite =>
    cases owner with
    | some owner => exact hends
    | none =>
      refine ends_effect hi fun db' h => ?_
      obtain ⟨email, hemail, h⟩ := Option.bind_eq_some_iff.mp h
      obtain ⟨⟨db, accepting⟩, haccepted, h⟩ := Option.bind_eq_some_iff.mp h
      split_ifs at h
      cases h
      exact sysInvitationAcceptWithIdentity_writes hintent hturn hemail haccepted
  | login =>
    cases owner with
    | some owner => exact hends
    | none =>
      dsimp only
      cases hsigned : w.db.sysIdentitySignIn record.provider claims.subject sessionId with
      | some db =>
        refine ends_effect hi fun db' h => ?_
        cases h
        exact sysIdentitySignIn_writes hsigned fun _ => .signedIn record claims (Or.inl hturn) rfl rfl
      | none =>
        refine goesOn_effect hi fun p hp htraced => ?_
        obtain ⟨email, hemail, rfl⟩ := Option.map_eq_some_iff.mp hp
        exact ⟨htraced.handshake, hintent, hemail⟩

theorem firstSignedIn_effect {record : LoginState} {claims : Claims} {email : Address} {create : Bool}
    {accountId sessionId : Uuid} {mayCreate : Bool}
    (hi : w.processes[i]? = some (.signingIn record claims email create)) (hevent : event.process = some i) :
    Effect server w event (w.firstSignedIn i record claims email create accountId sessionId mayCreate) := by
  rw [World.firstSignedIn]
  cases hlogin : w.db.firstLogin record claims email create accountId sessionId with
  | some db => exact ends_effect hi fun db' h => by cases h; exact firstLogin_writes ⟨i, hevent, hi⟩ hlogin
  | none =>
    dsimp only
    split
    · exact goesOn_effect hi fun p hp htraced => by cases hp; exact htraced
    · exact goesOn_effect hi fun p hp => by cases hp

theorem advance_effect (hi : w.processes[i]? = some process) (hevent : event.process = some i)
    (h : w.advance server i event process = some w') : Effect server w event w' := by
  cases event with
  | check =>
    cases process with
    | authenticated principal operation => cases h; exact checked_effect hi
    | _ => cases h
  | handle =>
    cases process with
    | admitted principal operation =>
      cases hevent
      cases h
      exact handled_effect hi rfl
    | _ => cases h
  | store =>
    cases process with
    | starting start owner => cases h; exact stored_effect hi hevent
    | _ => cases h
  | judge =>
    cases process with
    | holding record owner hasCode =>
      cases h
      refine goesOn_effect hi fun p hp htraced => ?_
      rw [World.judgedAgain] at hp
      split_ifs at hp
      cases hp
      exact htraced
    | _ => cases h
  | exchange i' claims =>
    cases process with
    | judged record owner =>
      cases h
      refine goesOn_effect hi fun p hp htraced => ?_
      obtain ⟨claims, -, hp⟩ := Option.bind_eq_some_iff.mp hp
      split_ifs at hp
      cases hp
      exact htraced
    | _ => cases h
  | write =>
    cases process with
    | exchanged record owner claims => cases h; exact finished_effect hi hevent
    | signingIn record claims email create => cases h; exact firstSignedIn_effect hi hevent
    | _ => cases h
  | _ => cases hevent

end

/-- **Every step has one of the effects.** -/
theorem next_effect (h : w.next server event = some w') : Effect server w event w' := by
  rw [World.next] at h
  cases hevent : event.process with
  | none =>
    rw [hevent] at h
    exact elsewhere_effect hevent h
  | some i =>
    rw [hevent] at h
    obtain ⟨process, hi, hstep⟩ := Option.bind_eq_some_iff.mp h
    exact advance_effect hi hevent hstep

end SlugBase.Oidc
