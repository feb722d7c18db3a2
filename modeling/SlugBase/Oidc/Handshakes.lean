import SlugBase.Oidc.Traced

/-!
# The handshake with an identity provider

Browsers start handshakes and come back from the provider in any order, with any state, code and cookie. What the records,
the sessions and the identities have to do with each other is kept by every step.

* `Proper`: what has been done was done by the sessions and to the accounts that it may be;
* `Kept`: what every step keeps;
* **`handshakes_proper`**: every record is consumed at most once, with the cookie of its state, and every identity and every
  re-authentication is proper.
-/

namespace SlugBase.Oidc

open Transition

/-- A link is proper: by the link intent for the account whose complete session, of recent re-authentication, started the
handshake and whose complete session, of recent re-authentication, is carried at the callback; by a sign-in or an invitation
for an account that holds the asserted address verified. -/
inductive Link.Proper (server : Server) (deeds : List Deed) (link : Link) : Prop
  | session (starter owner : Owner) : link.record.intent = .link → Deed.started link.record ∈ deeds →
      link.record.starter = some starter → link.owner = some owner → starter.Traced deeds → owner.Traced deeds →
      starter.recent = true → owner.recent = true → starter.accountId = link.account.id →
      owner.accountId = link.account.id → Link.Proper server deeds link
  | address (email : Address) : link.record.intent = .login ∨ link.record.intent = .invite →
      server.assertedEmail link.claims = some email → link.account.email = email → link.account.emailVerified = true →
      Link.Proper server deeds link

/-- What has been done is proper. -/
def Deed.Proper (server : Server) (deeds : List Deed) : Deed → Prop
  | .consumed record state cookie =>
    Deed.started record ∈ deeds ∧ server.hashOidcState state = some record.stateHash ∧
      server.oidcStateIsBound state cookie = true
  | .linked link =>
    link.identity.accountId = link.account.id ∧ link.identity.subject = link.claims.subject ∧ link.Proper server deeds
  | .reauthenticated session identity record owner claims _ =>
    Deed.started record ∈ deeds ∧ record.intent = .reauth ∧ session.full = true ∧ session.id = owner.sessionId ∧
      (∃ starter, record.starter = some starter ∧ starter.Traced deeds ∧ starter.accountId = session.accountId) ∧
      identity.accountId = session.accountId ∧ identity.provider = record.provider ∧ identity.subject = claims.subject
  | _ => True

/-- **What every step keeps.** -/
structure Kept (server : Server) (w : World) : Prop where
  processes : ∀ process ∈ w.processes, ProcessTraced server w.db.deeds process
  records : ∀ record ∈ w.db.loginStates, RecordTraced w.db.deeds record
  serials : ∀ record ∈ w.db.loginStates, record.serial < w.db.serials
  distinct : (w.db.loginStates.map (·.serial)).Nodup
  waiting : ∀ record ∈ w.db.loginStates, record.serial ∉ w.db.consumedSerials
  spent : ∀ serial ∈ w.db.consumedSerials, serial < w.db.serials
  once : w.db.consumedSerials.Nodup
  keys : w.db.identityKeys.Nodup
  deeds : ∀ d ∈ w.db.deeds, d.Proper server w.db.deeds

variable {server : Server} {w w' : World} {event : Event}

section

variable {deeds deeds' : List Deed} (hsub : ∀ d ∈ deeds, d ∈ deeds')
include hsub

theorem Link.Proper.mono {link : Link} (h : link.Proper server deeds) : link.Proper server deeds' := by
  cases h with
  | session starter owner hintent hstarted hstarter howner hs ho hsrecent horecent hsaccount hoaccount =>
    exact .session starter owner hintent (hsub _ hstarted) hstarter howner (hs.mono hsub) (ho.mono hsub) hsrecent
      horecent hsaccount hoaccount
  | address email hintent hemail haccount hverified => exact .address email hintent hemail haccount hverified

theorem Deed.Proper.mono {d : Deed} (h : d.Proper server deeds) : d.Proper server deeds' := by
  cases d with
  | consumed => exact ⟨hsub _ h.1, h.2⟩
  | linked => exact ⟨h.1, h.2.1, h.2.2.mono hsub⟩
  | reauthenticated =>
    obtain ⟨hstarted, hintent, hfull, hid, ⟨starter, hstarter, htraced, haccount⟩, hrest⟩ := h
    exact ⟨hsub _ hstarted, hintent, hfull, hid, ⟨starter, hstarter, htraced.mono hsub, haccount⟩, hrest⟩
  | _ => trivial

end

theorem Turn.traced (h : Kept server w) {process : Process} (hturn : Turn w event process) :
    ProcessTraced server w.db.deeds process := by
  obtain ⟨i, -, hi⟩ := hturn
  exact h.processes process (List.mem_of_getElem? hi)

theorem CallbackTraced.starter {deeds : List Deed} {record : LoginState} {owner : Owner}
    (h : CallbackTraced deeds record (some owner)) (hof : record.intent.ofSession) :
    ∃ starter, record.starter = some starter ∧ starter.Traced deeds ∧ starter.accountId = owner.accountId ∧
      (record.intent = .link → starter.recent = true) := by
  obtain ⟨starter, hstarter, htraced, hrecent⟩ := h.handshake.starter.ofSession hof
  refine ⟨starter, hstarter, htraced, ?_, hrecent⟩
  have haccount := h.account hof
  rw [h.handshake.account, hstarter] at haccount
  exact (Option.some.inj haccount).symm

theorem linkJustified_proper (h : Kept server w) {link : Link} (hlink : LinkJustified server w event link) :
    link.identity.accountId = link.account.id ∧ link.identity.subject = link.claims.subject ∧
      link.Proper server w.db.deeds := by
  cases hlink with
  | @link record owner claims account hintent hturn haccount henabled hnone =>
    refine ⟨rfl, rfl, ?_⟩
    have htraced : CallbackTraced w.db.deeds record (some owner) := hturn.traced h
    obtain ⟨starter, hstarter, hs, hsame, hsrecent⟩ := htraced.starter (Or.inl hintent)
    obtain ⟨o, ho, hotraced, horecent⟩ := htraced.carried.ofSession (Or.inl hintent)
    obtain rfl : owner = o := Option.some.inj ho
    have hid : account.id = owner.accountId := by simpa using List.find?_some haccount
    exact .session starter owner hintent htraced.handshake.started hstarter rfl hs hotraced (hsrecent hintent)
      (horecent hintent) (hsame.trans hid.symm) hid.symm
  | @address record claims email create account hturn hholder hnone =>
    obtain ⟨htraced, hintent, hemail⟩ := hturn.traced h
    have hfound := List.find?_some hholder
    simp only [Bool.and_eq_true, decide_eq_true_eq] at hfound
    exact ⟨rfl, rfl, .address email (Or.inl hintent) hemail hfound.1.1 hfound.1.2⟩
  | @firstLogin record claims email create accountId hturn =>
    obtain ⟨htraced, hintent, hemail⟩ := hturn.traced h
    exact ⟨rfl, rfl, .address email (Or.inl hintent) hemail rfl rfl⟩
  | invite created hintent hturn hemail haddress hverified hmode =>
    exact ⟨rfl, rfl, .address _ (Or.inr hintent) hemail haddress hverified⟩

theorem justified_proper (h : Kept server w) {d : Deed} (hd : Justified server w event d) :
    d.Proper server w.db.deeds := by
  cases hd with
  | carried | reached | started | joined | founded | admitted | signedIn => trivial
  | consumed hrecord hhash hbound => exact ⟨(h.records _ hrecord).started, hhash, hbound⟩
  | linked hlink => exact linkJustified_proper h hlink
  | @reauthenticated session identity record owner claims hintent hturn hsession hid haccount hfull hidentity hheld =>
    have htraced : CallbackTraced w.db.deeds record (some owner) := hturn.traced h
    obtain ⟨starter, hstarter, hs, hsame, -⟩ := htraced.starter (Or.inr hintent)
    have hkey := List.find?_some hidentity
    simp only [Bool.and_eq_true, decide_eq_true_eq] at hkey
    exact ⟨htraced.handshake.started, hintent, hfull, hid, ⟨starter, hstarter, hs, hsame.trans haccount.symm⟩,
      hheld.trans haccount.symm, hkey.1, hkey.2⟩

/-! ## Steps -/

/-- A transaction that leaves the handshakes alone keeps everything. -/
theorem Kept.write (h : Kept server w) {S : Session → Prop} {db : Db} (hw : Writes (Justified server w event) S w.db db)
    {processes : List Process} (hp : ∀ p ∈ processes, p ∈ w.processes ∨ ProcessTraced server db.deeds p) :
    Kept server ⟨db, processes⟩ where
  processes p hmem := by
    rcases hp p hmem with hold | hnew
    · exact (h.processes p hold).mono hw.kept
    · exact hnew
  records record hrecord := (h.records record (hw.loginStates ▸ hrecord)).mono hw.kept
  serials record hrecord := by
    change record.serial < db.serials
    rw [hw.serials]
    exact h.serials record (hw.loginStates ▸ hrecord)
  distinct := by
    change (db.loginStates.map _).Nodup
    rw [hw.loginStates]
    exact h.distinct
  waiting record hrecord := by
    change record.serial ∉ db.consumedSerials
    rw [hw.consumed]
    exact h.waiting record (hw.loginStates ▸ hrecord)
  spent serial hserial := by
    change serial < db.serials
    rw [hw.serials]
    exact h.spent serial (hw.consumed ▸ hserial)
  once := by
    change db.consumedSerials.Nodup
    rw [hw.consumed]
    exact h.once
  keys := hw.keys h.keys
  deeds d hd := by
    rcases hw.deeds d hd with hold | hnew
    · exact (h.deeds d hold).mono hw.kept
    · exact (justified_proper h hnew).mono hw.kept

theorem set_traced {processes : List Process} {i : ℕ} {process p : Process} {deeds : List Deed}
    (hprocess : ProcessTraced server deeds process) (hp : p ∈ processes.set i process) :
    p ∈ processes ∨ ProcessTraced server deeds p := by
  rcases List.mem_or_eq_of_mem_set hp with hold | rfl
  · exact Or.inl hold
  · exact Or.inr hprocess

/-- A handshake that starts is numbered anew and traced to the session that starts it. -/
theorem Kept.start (h : Kept server w) {db : Db} {i : ℕ} {start : Start} {owner : Option Owner} {stateHash : String}
    {invitationTokenHash : Option ℕ} (hturn : Turn w event (.starting start owner))
    (hcreate : w.db.sysOidcStateCreate stateHash start.provider start.intent (owner.map (·.accountId))
      invitationTokenHash owner = some db) : Kept server ⟨db, w.processes.set i .done⟩ := by
  rw [Db.sysOidcStateCreate] at hcreate
  split_ifs at hcreate
  cases hcreate
  have hsub : ∀ {new : Deed}, ∀ d ∈ w.db.deeds, d ∈ new :: w.db.deeds := fun d hd => List.mem_cons_of_mem _ hd
  have howner : OwnerTraced w.db.deeds start.intent owner := hturn.traced h
  have hdone : ProcessTraced server w.db.deeds .done := trivial
  refine ⟨fun p hp => ?_, fun record hrecord => ?_, fun record hrecord => ?_, ?_, fun record hrecord => ?_,
    fun serial hserial => ?_, h.once, h.keys, fun d hd => ?_⟩
  · rcases set_traced hdone hp with hold | hnew
    · exact (h.processes p hold).mono hsub
    · exact hnew.mono hsub
  · rcases List.mem_cons.mp hrecord with rfl | hold
    · exact ⟨List.mem_cons_self, howner.mono hsub, rfl⟩
    · exact (h.records record hold).mono hsub
  · rcases List.mem_cons.mp hrecord with rfl | hold
    · exact Nat.lt_succ_self _
    · exact Nat.lt_succ_of_lt (h.serials record hold)
  · refine List.nodup_cons.mpr ⟨fun hmem => ?_, h.distinct⟩
    obtain ⟨record, hrecord, hserial⟩ := List.mem_map.mp hmem
    exact absurd (h.serials record hrecord) (by rw [hserial]; exact Nat.lt_irrefl _)
  · rcases List.mem_cons.mp hrecord with rfl | hold
    · exact fun hmem => absurd (h.spent _ hmem) (Nat.lt_irrefl _)
    · exact h.waiting record hold
  · exact Nat.lt_succ_of_lt (h.spent serial hserial)
  · rcases List.mem_cons.mp hd with rfl | hold
    · trivial
    · exact (h.deeds d hold).mono hsub

/-- A record that is consumed is waiting no more. -/
theorem Kept.take (h : Kept server w) {db : Db} {i : ℕ} {principal : Option Principal} {operation : Operation}
    {stateHash provider state cookie : String} {record : LoginState} {process : Process}
    (hi : w.processes[i]? = some (.admitted principal operation)) (hhash : server.hashOidcState state = some stateHash)
    (hbound : server.oidcStateIsBound state cookie = true)
    (htake : w.db.sysOidcStateTake stateHash provider state cookie = some (db, record))
    (hprocess : PrincipalTraced db.deeds principal → RecordTraced db.deeds record →
      ProcessTraced server db.deeds process) : Kept server ⟨db, w.processes.set i process⟩ := by
  obtain ⟨found, hfound, hpair⟩ := Option.map_eq_some_iff.mp htake
  cases hpair
  have hrecord := List.mem_of_find?_eq_some hfound
  have hmatch := List.find?_some hfound
  simp only [Bool.and_eq_true, decide_eq_true_eq] at hmatch
  have hsub : ∀ d ∈ w.db.deeds, d ∈ Deed.consumed record state cookie :: w.db.deeds :=
    fun d hd => List.mem_cons_of_mem _ hd
  have hprincipal : PrincipalTraced w.db.deeds principal := h.processes _ (List.mem_of_getElem? hi)
  have hnew := hprocess (hprincipal.mono hsub) ((h.records record hrecord).mono hsub)
  have hother : ∀ r ∈ w.db.loginStates.filter fun r => r.stateHash ≠ stateHash, r ∈ w.db.loginStates ∧ r ≠ record := by
    intro r hr
    obtain ⟨hmem, hne⟩ := List.mem_filter.mp hr
    refine ⟨hmem, fun heq => ?_⟩
    rw [heq, hmatch.1.1] at hne
    simp at hne
  refine ⟨fun p hp => ?_, fun r hr => ?_, fun r hr => h.serials r (hother r hr).1, ?_, fun r hr hmem => ?_,
    fun serial hserial => ?_, ?_, h.keys, fun d hd => ?_⟩
  · rcases set_traced hnew hp with hold | htraced
    · exact (h.processes p hold).mono hsub
    · exact htraced
  · exact (h.records r (hother r hr).1).mono hsub
  · exact h.distinct.sublist (List.filter_sublist.map _)
  · rcases List.mem_cons.mp hmem with heq | hold
    · exact (hother r hr).2 (List.inj_on_of_nodup_map h.distinct (hother r hr).1 hrecord heq)
    · exact h.waiting r (hother r hr).1 hold
  · rcases List.mem_cons.mp hserial with rfl | hold
    · exact h.serials record hrecord
    · exact h.spent serial hold
  · exact List.nodup_cons.mpr ⟨h.waiting record hrecord, h.once⟩
  · rcases List.mem_cons.mp hd with rfl | hold
    · exact ⟨hsub _ (h.records record hrecord).started, hmatch.1.1 ▸ hhash, hbound⟩
    · exact (h.deeds d hold).mono hsub

/-- **The step lemma.** -/
theorem Kept.next (h : Kept server w) (hstep : w.next server event = some w') : Kept server w' := by
  cases next_effect hstep with
  | elsewhere _ hwrites => exact h.write hwrites fun p hp => Or.inl hp
  | arrives operation _ hwrites hprincipal =>
    refine h.write hwrites fun p hp => ?_
    rcases List.mem_append.mp hp with hold | hnew
    · exact Or.inl hold
    · obtain rfl := List.mem_singleton.mp hnew
      exact Or.inr hprincipal
  | moves hi hwrites htraced =>
    exact h.write hwrites fun p hp => set_traced (htraced (h.processes _ (List.mem_of_getElem? hi))) hp
  | starts hi hturn hcreate => exact h.start hturn hcreate
  | takes hi hhash hbound htake hprocess => exact h.take hi hhash hbound htake hprocess

theorem Quiet.kept (hw : w.Quiet) : Kept server w := by
  obtain ⟨hprocesses, hstates, hdeeds, hkeys, -⟩ := hw
  have hconsumed : w.db.consumedSerials = [] := by rw [Db.consumedSerials, hdeeds]; rfl
  refine ⟨?_, ?_, ?_, ?_, ?_, ?_, ?_, hkeys, ?_⟩
  · rw [hprocesses]; exact fun _ hp => (by cases hp)
  · rw [hstates]; exact fun _ hr => (by cases hr)
  · rw [hstates]; exact fun _ hr => (by cases hr)
  · rw [hstates]; exact List.nodup_nil
  · rw [hstates]; exact fun _ hr => (by cases hr)
  · rw [hconsumed]; exact fun _ hs => (by cases hs)
  · rw [hconsumed]; exact List.nodup_nil
  · rw [hdeeds]; exact fun _ hd => (by cases hd)

/-! ## Rows -/

namespace Finished

/-- An account with two sessions of recent re-authentication. -/
def start : World where
  db := ⟨1000, [⟨1, "ada", true, false, false, .full⟩], [⟨10, 1, true, some 900⟩, ⟨11, 1, true, some 950⟩], [], [], [],
    [], [], 0, []⟩
  processes := []

/-- One session starts the handshake and the other comes back with it. -/
def run : List Event :=
  [.arrive (.session 10) (.startOidcSignIn ⟨"idp", .link, true, none⟩), .check 0, .handle 0 none, .store 0 "s",
    .arrive (.session 11) (.completeOidcSignIn ⟨"idp", some "s", some "s", true⟩), .check 1, .handle 1 none, .judge 1,
    .exchange 1 (some ⟨"idp", "one", "ada", true⟩), .write 1 0 0 false none 0]

/-- The world after the run. -/
def after : World := (System.follow (World.next Server.plain) start run).getD start

/-- The identity that is added. -/
def link : Link :=
  ⟨⟨"idp", "one", 1⟩, ⟨1, "ada", true, false, false, .full⟩, false,
    ⟨0, "s", "idp", .link, some 1, none, 601000, some ⟨10, 1, false, some 900, 1000⟩⟩,
    some ⟨11, 1, false, some 950, 1000⟩, ⟨"idp", "one", "ada", true⟩⟩

theorem quiet : start.Quiet := ⟨rfl, rfl, rfl, by decide, by decide⟩

theorem runs : ((World.system Server.plain).startingAt start).Reachable after := by
  have hstart : ((World.system Server.plain).startingAt start).Reachable start := .init rfl
  exact hstart.follow (fun _ _ _ h => h) run start (by decide +kernel)

end Finished

end SlugBase.Oidc
