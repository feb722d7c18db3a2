import SlugBase.Mfa.Writes

/-!
# When a code of the second factor is replayed

`sys_mfa_accept_step` takes the step alone: it does not see which secret the code was verified against. Between the two a
second factor can be turned off and started again, and its last step then begins anew.

* `Grows`: a write forgets nothing, and makes nothing complete without a reason;
* `Unreplaced`: the steps of a run where no code of a replaced secret is presented;
* **`factors_accepted_once`**: what was done in a run of such steps is justified;
* `not_every_factor_accepted_once`: a run in which one code is accepted twice.
-/

namespace SlugBase.Mfa

open Relational Auth Transition

/-! ## What a transaction adds -/

section

variable {db db' : MfaDb}

/-- A write forgets nothing that was done, and what is complete after it was complete before or has a reason. -/
structure Grows (db db' : MfaDb) : Prop where
  log : db.log ⊆ db'.log
  complete : db.drawn.complete ⊆ db'.drawn.complete
  sessions : ∀ s' ∈ db'.sessions, s'.level = .full →
    (∃ s ∈ db.sessions, s.id = s'.id ∧ s.level = .full) ∨ Complete db' s'.id

namespace Grows

theorem same (hlog : db.log ⊆ db'.log) (hdrawn : db'.drawn = db.drawn) (hsessions : db'.sessions = db.sessions) :
    Grows db db' where
  log := hlog
  complete := hdrawn ▸ List.Subset.refl _
  sessions s hs hfull := .inl ⟨s, hsessions ▸ hs, rfl, hfull⟩

theorem refl (db : MfaDb) : Grows db db := .same (List.Subset.refl _) rfl rfl

theorem mono (h : Grows db db') {id : Uuid} (hid : Complete db id) : Complete db' id :=
  hid.imp (h.complete ·) fun ⟨s, now, hlog, hs⟩ => ⟨s, now, h.log hlog, hs⟩

theorem trans {db'' : MfaDb} (h : Grows db db') (h' : Grows db' db'') : Grows db db'' where
  log := List.Subset.trans h.log h'.log
  complete := List.Subset.trans h.complete h'.complete
  sessions s hs hfull := by
    rcases h'.sessions s hs hfull with ⟨s', hs', hid, hfull'⟩ | hcomplete
    · rcases h.sessions s' hs' hfull' with ⟨s'', hs'', hid', hfull''⟩ | hcomplete
      · exact .inl ⟨s'', hs'', hid'.trans hid, hfull''⟩
      · exact .inr (hid ▸ h'.mono hcomplete)
    · exact .inr hcomplete

theorem record (db : MfaDb) (e : Entry) : Grows db (db.record e) := .same (List.subset_cons_self _ _) rfl rfl

theorem deleteSessions (db : MfaDb) (p : Session → Bool) : Grows db (db.deleteSessions p) where
  log := List.Subset.refl _
  complete := List.Subset.refl _
  sessions s hs hfull := .inl ⟨s, (Table.mem_deleteWhere.mp hs).1, rfl, hfull⟩

theorem deleteCodes (db : MfaDb) (id : Uuid) : Grows db (db.deleteCodes id) := .same (List.Subset.refl _) rfl rfl

theorem updateAccount {i : Uuid} {p : Account → Bool} {f : Account → Account} {hf : ∀ a, (f a).id = a.id}
    (h : db.updateAccount i p f hf = some db') : Grows db db' := by
  obtain ⟨-, rfl⟩ := MfaDb.updateAccount_eq_some h
  exact .same (List.Subset.refl _) rfl rfl

theorem updateFullSession {id i : Uuid} {f : Session → Session} {hf : ∀ s, (f s).id = s.id}
    (h : updateFullSession db id i f hf = some db') : Grows db db' := by
  simp only [Mfa.updateFullSession] at h
  split at h <;> cases h
  refine { Grows.refl db with sessions := fun s' hs' hfull => .inl ?_ }
  simp only [Table.mem_updateWhere] at hs'
  obtain ⟨s, hs, rfl⟩ := hs'
  split at hfull
  · rename_i hown
    exact ⟨s, hs, by rw [if_pos hown, hf], (of_decide_eq_true hown).2.2⟩
  · rename_i hnot
    exact ⟨s, hs, by rw [if_neg hnot], hfull⟩

theorem replace {i : Uuid} {codes : List (Uuid × String)} (h : sysBackupCodesReplace db i codes = some db') :
    Grows db db' := by
  rw [sysBackupCodesReplace] at h
  split at h
  · cases h
  split at h
  · cases h
  obtain ⟨t, -, rfl⟩ := Option.map_eq_some_iff.mp h
  exact .same (List.Subset.refl _) rfl rfl

theorem acceptStep {i : Uuid} {step secret : ℕ} (h : sysMfaAcceptStep db i step secret = some db') : Grows db db' := by
  rw [sysMfaAcceptStep] at h
  split at h
  · cases h
  obtain ⟨db₁, hupdate, rfl⟩ := Option.map_eq_some_iff.mp h
  exact (updateAccount hupdate).trans (record _ _)

theorem activate {i : Uuid} {x : Sealed} {now : Timestamp} (h : sysMfaSetActivate db i x now = some db') : Grows db db' := by
  obtain ⟨db₁, hupdate, rfl⟩ := Option.map_eq_some_iff.mp h
  exact (updateAccount hupdate).trans (record _ _)

theorem acceptFactor {i : Uuid} {factor : SecondFactor} {secret : ℕ} {now : Timestamp}
    (h : acceptFactor db i factor secret now = some db') : Grows db db' := by
  cases factor with
  | totp step => exact acceptStep h
  | backup codeId =>
    simp only [Mfa.acceptFactor, sysBackupCodeConsume] at h
    split at h <;> cases h
    exact .same (List.subset_cons_self _ _) rfl rfl

/-- **A session promoted** is written down. -/
theorem promote {id i : Uuid} {now : Timestamp} (h : sysSessionPromote db id i now = some db') : Grows db db' := by
  obtain ⟨a, -, h⟩ := Option.bind_eq_some_iff.mp h
  obtain ⟨s, hfind, rfl⟩ := Option.map_eq_some_iff.mp h
  obtain ⟨hs, hown⟩ := Table.find?_some hfind
  refine ⟨List.subset_cons_self _ _, List.Subset.refl _, fun s' hs' hfull => ?_⟩
  obtain ⟨s₀, hs₀, rfl⟩ := Session.mem_promoted hs'
  split at hfull
  · rename_i hown₀
    simp only [Bool.and_eq_true, decide_eq_true_eq] at hown hown₀
    refine .inr (.inr ⟨s, now, List.mem_cons_self, ?_⟩)
    rw [if_pos (by simpa using hown₀)]
    exact hown.1.1.1.trans hown₀.1.1.1.symm
  · rename_i hnot
    exact .inl ⟨s₀, hs₀, by rw [if_neg hnot], hfull⟩

theorem failure (db : MfaDb) (id i : Uuid) : Grows db (sysSessionMfaFailure db id i).2 := by
  simp only [sysSessionMfaFailure]
  split
  · exact .refl db
  split
  · exact (deleteSessions _ _).trans (record _ _)
  · refine ⟨List.subset_cons_self _ _, List.Subset.refl _, fun s' hs' hfull => .inl ?_⟩
    simp only [MfaDb.record, Table.mem_updateWhere] at hs'
    obtain ⟨s₀, hs₀, rfl⟩ := hs'
    refine ⟨s₀, hs₀, ?_⟩
    split at hfull <;> exact ⟨by split <;> rfl, hfull⟩

theorem createSession {id i : Uuid} {level : SessionLevel} {remember : Bool} {now : Timestamp}
    (h : sysSessionCreate db id i level remember now = some db') : Grows db db' := by
  simp only [sysSessionCreate] at h
  split at h
  · obtain ⟨sessions, hinsert, rfl⟩ := Option.map_eq_some_iff.mp h
    refine ⟨List.Subset.refl _, ?_, fun r hr hfull => ?_⟩
    · split
      · exact List.subset_cons_self _ _
      · exact List.Subset.refl _
    · rcases (Table.mem_insert? hinsert).mp hr with hold | rfl
      · exact .inl ⟨r, hold, rfl, hfull⟩
      · exact .inr (.inl (by rw [if_pos hfull]; exact List.mem_cons_self))
  · cases h

/-- **What was done stays written down**, and what a transaction makes complete has a reason. -/
theorem transaction {c : Client} {codes : List (Uuid × String)} {now : Timestamp}
    (h : c.transaction db codes now = .ok db') : Grows db db' := by
  cases c with
  | confirm i session step x =>
    obtain ⟨db₁, haccept, h⟩ := bind_orRollBack_ok h
    obtain ⟨db₂, hactivate, h⟩ := bind_orRollBack_ok h
    obtain ⟨db₃, hreplace, h⟩ := bind_orRollBack_ok h
    exact (acceptStep haccept).trans
      ((activate hactivate).trans ((replace hreplace).trans (updateFullSession (orRollBack_ok h))))
  | signIn i session factor x =>
    obtain ⟨db₁, haccept, h⟩ := bind_orRollBack_ok h
    exact (acceptFactor haccept).trans (promote (orRollBack_ok h))
  | regenerate i step x =>
    obtain ⟨db₁, hlock, hrest⟩ := bind_orRollBack_ok h
    obtain ⟨db₂, haccept, hreplace⟩ := bind_orRollBack_ok hrest
    rw [sysMfaLock] at hlock
    split at hlock <;> cases hlock
    exact (acceptStep haccept).trans (replace (orRollBack_ok hreplace))
  | disable i session factor x =>
    obtain ⟨db₁, hlock, hrest⟩ := bind_orRollBack_ok h
    obtain ⟨db₂, haccept, hrest⟩ := bind_orRollBack_ok hrest
    obtain ⟨db₃, hdisable, hrotate⟩ := bind_orRollBack_ok hrest
    rw [sysMfaLock] at hlock
    split at hlock <;> cases hlock
    obtain ⟨db₄, hupdate, rfl⟩ := Option.map_eq_some_iff.mp hdisable
    exact (acceptFactor haccept).trans
      ((updateAccount hupdate).trans ((deleteCodes _ _).trans (updateFullSession (orRollBack_ok hrotate))))
  | reauthenticate i session step x =>
    obtain ⟨db₁, haccept, h⟩ := bind_orRollBack_ok h
    exact (acceptStep haccept).trans (updateFullSession (orRollBack_ok h))
  | refused i session =>
    cases h
    exact failure db session i

end Grows

/-- A session of an identifier that was not drawn before. -/
theorem Quiet.createSession {id i : Uuid} {level : SessionLevel} {remember : Bool} {now : Timestamp}
    (h : sysSessionCreate db id i level remember now = some db') (hdrawn : id ∈ db.drawn.sessions)
    (hrefused : Entry.refused id ∉ db.log) (hpromoted : ∀ s now, Entry.promoted s now ∈ db.log → s.id ≠ id) :
    Quiet db db' := by
  simp only [sysSessionCreate] at h
  split at h
  · obtain ⟨sessions, hinsert, rfl⟩ := Option.map_eq_some_iff.mp h
    refine { Quiet.refl _ with sessions := fun r hr => ?_ }
    rcases (Table.mem_insert? hinsert).mp hr with hold | rfl
    · exact .inl ⟨r, hold, rfl, fun h => ⟨h, le_rfl, fun h => h⟩⟩
    · exact .inr ⟨hdrawn, rfl, List.count_eq_zero.mpr hrefused, hpromoted⟩
  · cases h

theorem PromotedFor.grows (h : PromotedFor db) (hgrows : Grows db db') : PromotedFor db' := fun s hs hfull =>
  match hgrows.sessions s hs hfull with
  | .inl ⟨s₀, hs₀, hid, hfull₀⟩ => hid ▸ hgrows.mono (h s₀ hs₀ hfull₀)
  | .inr hcomplete => hcomplete

end

/-! ## The runs -/

/-- A step that presents no code of a secret the account has no longer: where the account could accept the time step, its
secret is the one the code was verified against. A confirmation compares the two itself. -/
def Unreplaced (s : Service) (e : Event × Timestamp) (_ : Service) : Prop :=
  match e.1 with
  | .finish client _ => ∀ c, s.clients[client]? = some c → (∀ i session step x, c ≠ .confirm i session step x) →
      ∀ i step x, c.presents = some (i, step, x) → Current s.db i step x
  | _ => True

/-- What a run keeps: the rows fit to the log, the complete sessions have their reasons, and the code of every request under
way was verified. -/
structure Kept (s : Service) : Prop where
  sound : Sound s.db
  promotedFor : PromotedFor s.db
  verified : ∀ c ∈ s.clients, ∀ i step x, c.presents = some (i, step, x) → Entry.verified i x step ∈ s.db.log

namespace Kept

variable {s : Service}

theorem write (h : Kept s) {db : Option MfaDb} (hdb : ∀ db', db = some db' → Sound db' ∧ Grows s.db db') :
    Kept (s.write db) := by
  cases db with
  | none => exact h
  | some db' =>
    obtain ⟨hsound, hgrows⟩ := hdb db' rfl
    exact ⟨hsound, h.promotedFor.grows hgrows, fun c hc i step x hp => hgrows.log (h.verified c hc i step x hp)⟩

theorem quiet (h : Kept s) {db : Option MfaDb} (hdb : ∀ db', db = some db' → Quiet s.db db' ∧ Grows s.db db') :
    Kept (s.write db) :=
  h.write fun db' hdb' => ⟨h.sound.quiet (hdb db' hdb').1, (hdb db' hdb').2⟩

theorem recorded (h : Kept s) (i : Uuid) (x : Sealed) (step : ℕ) : Kept (s.record (.verified i x step)) :=
  ⟨h.sound.record trivial trivial, h.promotedFor.grows (.record _ _), fun c hc i' step' x' hp => List.mem_cons_of_mem _ (h.verified c hc i' step' x' hp)⟩

theorem begun (h : Kept s) {c : Client}
    (hc : ∀ i step x, c.presents = some (i, step, x) → Entry.verified i x step ∈ s.db.log) : Kept (s.begin c) where
  sound := h.sound
  promotedFor := h.promotedFor
  verified c' hc' i step x hp := by
    rcases List.mem_cons.mp hc' with rfl | hold
    · exact hc i step x hp
    · exact h.verified c' hold i step x hp

theorem matched (h : Kept s) {i : Uuid} {factor : SecondFactor} {x : Sealed} {c : Client}
    (hc : ∀ i' step x', c.presents = some (i', step, x') → i' = i ∧ factor = .totp step ∧ x' = x) :
    Kept (s.matched i factor x c) := by
  cases factor with
  | totp step =>
    refine (h.recorded i x step).begun fun i' step' x' hp => ?_
    obtain ⟨rfl, hstep, rfl⟩ := hc i' step' x' hp
    cases hstep
    exact List.mem_cons_self
  | backup codeId =>
    refine h.begun fun i' step x' hp => ?_
    obtain ⟨-, hstep, -⟩ := hc i' step x' hp
    cases hstep

theorem ended (h : Kept s) {i : ℕ} {db : MfaDb} (hdb : Sound db) (hgrows : Grows s.db db) : Kept (s.ended i db) :=
  ⟨hdb, h.promotedFor.grows hgrows, fun c hc i' step x hp => hgrows.log (h.verified c (List.mem_of_mem_eraseIdx hc) i' step x hp)⟩

/-- Sealing a secret again. -/
theorem reseal (h : Kept s) (client sealing : ℕ) : Kept (s.reseal client sealing) := by
  rw [Service.reseal]
  split
  · exact h
  rename_i c hc
  split
  · exact h
  rename_i i x hsecret
  have hquiet : ∀ db, sysMfaSetReseal s.db i ⟨x.secret, sealing⟩ x = some db → Quiet s.db db ∧ Grows s.db db :=
    fun db hdb => ⟨.updateAccount hdb fun a _ _ hp =>
      .inr ⟨by rw [(of_decide_eq_true hp).2]; rfl, fun l hl => ⟨l, hl, le_rfl⟩, .inl⟩, .updateAccount hdb⟩
  split
  · rename_i session step _ db hdb
    obtain ⟨hsame, hgrows⟩ := hquiet db hdb
    refine ⟨(h.sound.quiet hsame).record trivial trivial, h.promotedFor.grows (hgrows.trans (.record _ _)), fun c' hc' i' step' x' hp => ?_⟩
    rcases List.mem_or_eq_of_mem_set hc' with hold | rfl
    · exact List.mem_cons_of_mem _ (hgrows.log (h.verified c' hold i' step' x' hp))
    · cases hp
      cases hsecret
      exact List.mem_cons_self
  · exact h.ended h.sound (.refl _)
  · rename_i db _ hdb
    have hkept : Kept (s.write (some db)) := h.quiet fun db' hdb' => by
      cases hdb'
      exact hquiet db hdb
    exact hkept
  · exact h

/-- The writing half of a request. -/
theorem finish (h : Kept s) {client : ℕ} {codes : List (Uuid × String)} {now : Timestamp} (hcodes : Unspent s.db codes)
    (hcurrent : ∀ c, s.clients[client]? = some c → (∀ i session step x, c ≠ .confirm i session step x) →
      ∀ i step x, c.presents = some (i, step, x) → Current s.db i step x) : Kept (s.finish client codes now) := by
  rw [Service.finish]
  split
  · exact h
  rename_i c hc
  have hv := h.verified c (List.mem_of_getElem? hc)
  have hcurrent := hcurrent c hc
  split
  · rename_i db hdb
    exact h.ended (h.sound.transaction hv hcurrent hcodes hdb) (.transaction hdb)
  · exact (h.ended h.sound (.refl _)).begun fun _ _ _ hp => by cases hp
  · exact h.ended h.sound (.refl _)

end Kept

theorem Kept.verifySecondFactor {s : Service} (h : Kept s) (i session : Uuid) (given : Option Given) :
    Kept (Mfa.verifySecondFactor s i session given) := by
  rw [Mfa.verifySecondFactor]
  split
  · exact h.begun fun _ _ _ hp => by cases hp
  · rename_i factor x _
    refine h.matched fun i' step x' hp => ?_
    cases factor <;> cases hp
    exact ⟨rfl, rfl, rfl⟩

theorem Kept.withStep {s : Service} (h : Kept s) (i : Uuid) (given : Given) {c : ℕ → Sealed → Client}
    (hc : ∀ step x, (c step x).presents = some (i, step, x)) : Kept (s.withStep i given c) := by
  rw [Service.withStep]
  split
  · refine h.matched fun i' step' x' hp => ?_
    rw [hc] at hp
    cases hp
    exact ⟨rfl, rfl, rfl⟩
  · exact h

theorem Kept.draw {s : Service} (h : Kept s) (drawn : Drawn) (hsecrets : s.db.drawn.secrets ⊆ drawn.secrets)
    (hcodes : s.db.drawn.codes ⊆ drawn.codes) (hsessions : s.db.drawn.sessions ⊆ drawn.sessions)
    (hcomplete : drawn.complete = s.db.drawn.complete) : Kept { s with db := { s.db with drawn := drawn } } :=
  ⟨h.sound.quiet {
    log := rfl, secrets := hsecrets, codeIds := hcodes, sessionIds := hsessions
    accounts := (Quiet.refl s.db).accounts
    codes := fun c hc => .inl ⟨c, hc, rfl, id⟩
    sessions := fun r hr => .inl ⟨r, hr, rfl, fun h => ⟨h, le_rfl, id⟩⟩ },
    fun r hr hfull => (h.promotedFor r hr hfull).imp_left (hcomplete ▸ ·), h.verified⟩

/-- **One step** keeps it. -/
theorem Kept.next {s s' : Service} {e : Event × Timestamp} (h : Kept s) (hnext : s.next e = some s')
    (hcond : Unreplaced s e s') : Kept s' := by
  obtain ⟨event, now⟩ := e
  cases event with
  | createAccount id =>
    cases hnext
    refine h.quiet fun db hdb => ?_
    obtain ⟨accounts, hinsert, rfl⟩ := Option.map_eq_some_iff.mp hdb
    refine ⟨{ Quiet.refl s.db with accounts := fun a ha => ?_ }, .same (List.Subset.refl _) rfl rfl⟩
    rcases (Table.mem_insert? hinsert).mp ha with hold | rfl
    · exact .inr ⟨a, hold, rfl, .refl _ a⟩
    · exact .inl ⟨rfl, rfl⟩
  | createSession id i level remember =>
    simp only [Service.next] at hnext
    split at hnext
    · cases hnext
    rename_i hfresh
    cases hnext
    have hdrawn := h.draw { s.db.drawn with sessions := id :: s.db.drawn.sessions }
      (List.Subset.refl _) (List.Subset.refl _) (List.subset_cons_self _ _) rfl
    refine hdrawn.quiet fun db hdb => ⟨.createSession hdb List.mem_cons_self ?_ fun r promotedAt hlog hid => ?_, .createSession hdb⟩
    · exact fun hlog => hfresh (h.sound.refusedDrawn id hlog)
    · exact hfresh (hid ▸ h.sound.promotedDrawn r promotedAt hlog)
  | revokeSession id =>
    cases hnext
    exact h.quiet fun db hdb => by
      cases hdb
      exact ⟨.deleteSessions _, .deleteSessions _ _⟩
  | setDisabled id disabledAt =>
    cases hnext
    exact h.quiet fun db hdb =>
      ⟨.updateAccount hdb fun a _ _ _ => .inr ⟨rfl, fun l hl => ⟨l, hl, le_rfl⟩, .inl⟩, .updateAccount hdb⟩
  | changePassword id except =>
    cases hnext
    refine h.write fun db hdb => ?_
    obtain ⟨db₁, hupdate, rfl⟩ := Option.map_eq_some_iff.mp hdb
    have hquiet : Quiet s.db db₁ :=
      .updateAccount hupdate fun a _ _ _ => .inr ⟨rfl, fun l hl => ⟨l, hl, le_rfl⟩, .inl⟩
    exact ⟨(h.sound.quiet hquiet).quiet (.deleteSessions _),
      (Grows.updateAccount hupdate).trans (.deleteSessions _ _)⟩
  | resetMfa id =>
    cases hnext
    refine h.write fun db hdb => ?_
    obtain ⟨db₁, hupdate, rfl⟩ := Option.map_eq_some_iff.mp hdb
    have hquiet : Quiet s.db db₁ := .updateAccount hupdate fun _ _ _ _ => .inl ⟨rfl, rfl⟩
    exact ⟨((h.sound.quiet hquiet).quiet (.deleteCodes id)).quiet (.deleteSessions _),
      (Grows.updateAccount hupdate).trans ((Grows.deleteCodes _ _).trans (.deleteSessions _ _))⟩
  | startEnrollment i x =>
    simp only [Service.next] at hnext
    split at hnext
    · cases hnext
    rename_i hfresh
    cases hnext
    have hdrawn := h.draw { s.db.drawn with secrets := x.secret :: s.db.drawn.secrets }
      (List.subset_cons_self _ _) (List.Subset.refl _) (List.Subset.refl _) rfl
    refine hdrawn.write fun db hdb => ⟨hdrawn.sound.starting List.mem_cons_self ?_ ?_ hdb, ?_⟩
    · exact fun a ha y hy hyx => hfresh (hyx ▸ h.sound.secretDrawn a ha y hy)
    · exact fun a step hlog => hfresh (h.sound.acceptedDrawn a _ step hlog)
    · exact .updateAccount hdb
  | confirmEnrollment i session step =>
    cases hnext
    rw [Mfa.confirmEnrollment]
    split
    · exact h
    split
    · exact h
    · refine (h.recorded i _ step).begun fun i' step' x' hp => ?_
      cases hp
      exact List.mem_cons_self
  | verifySecondFactor i session given =>
    cases hnext
    exact h.verifySecondFactor i session given
  | regenerateBackupCodes i given =>
    cases hnext
    exact h.withStep i given fun _ _ => rfl
  | disableMfa i session given =>
    cases hnext
    rw [Service.beginDisable]
    split
    · exact h
    · rename_i factor x _
      refine h.matched fun i' step x' hp => ?_
      cases factor <;> cases hp
      exact ⟨rfl, rfl, rfl⟩
  | reauthenticate i session given =>
    cases hnext
    exact h.withStep i given fun _ _ => rfl
  | reseal client sealing =>
    cases hnext
    exact h.reseal client sealing
  | finish client codes =>
    simp only [Service.next] at hnext
    split at hnext
    · cases hnext
    rename_i hfresh
    cases hnext
    have hdrawn := h.draw { s.db.drawn with codes := codes.map Prod.fst ++ s.db.drawn.codes }
      (List.Subset.refl _) (List.subset_append_right _ _) (List.Subset.refl _) rfl
    refine hdrawn.finish (fun c hc => ⟨?_, fun a hlog => hfresh ?_⟩) hcond
    · exact List.mem_append_left _ (List.mem_map_of_mem hc)
    · exact List.any_eq_true.mpr ⟨c, hc, decide_eq_true (h.sound.consumedDrawn a c.1 hlog)⟩

theorem Kept.reachable {s : Service} (h : (secondFactor.restrict Unreplaced).Reachable s) : Kept s :=
  h.invariant
    (fun s hs => by
      cases hs
      exact ⟨Sound.empty, fun r hr => absurd hr (Table.not_mem_empty _), fun c hc => absurd hc List.not_mem_nil⟩)
    fun _ _ _ hs hstep => hs.next hstep.1 hstep.2

/-- **What is accepted was not accepted before**: in every run that presents no code of a replaced secret, every time step,
backup code, enabling, promotion and refusal is justified by what was done before, the second factor of an account is on
only for a secret it was enabled for, and a session is complete only if it was promoted, or made complete at once while the
account's second factor was off. -/
theorem factors_accepted_once {s : Service} (h : (secondFactor.restrict Unreplaced).Reachable s) :
    Each Justified s.db.log ∧ EnabledFor s.db ∧ PromotedFor s.db :=
  let hkept := Kept.reachable h
  ⟨hkept.sound.justified, hkept.sound.enabledFor, hkept.promotedFor⟩

/-- An enrolment, and a code verified for a sign-in. -/
def signingIn : List (Event × Timestamp) :=
  [(.createAccount 1, 1), (.createSession 20 1 .full false, 2), (.startEnrollment 1 ⟨100, 0⟩, 3),
    (.confirmEnrollment 1 20 5, 4), (.finish 0 [(30, "h"), (31, "h")], 5), (.createSession 21 1 .partialLevel false, 6),
    (.createSession 22 1 .partialLevel false, 6), (.verifySecondFactor 1 21 (some (.totp 7)), 7)]

/-- Whether a step presents no code of a replaced secret. -/
def unreplaced (s : Service) (e : Event × Timestamp) : Bool :=
  match e.1 with
  | .finish client _ => s.clients[client]?.all fun c => match c with
    | .confirm .. => true
    | c => c.presents.all fun p => s.db.accounts.rows.all fun a =>
      decide (a.id = p.1 → a.disabledAt = none → a.mfaLastStep.all (fun last => decide (last < p.2.1)) = true →
        a.mfaSecret.all (fun y => decide (y.secret = p.2.2.secret)) = true)
  | _ => true

theorem Unreplaced.of_unreplaced {s s' : Service} {e : Event × Timestamp} (h : unreplaced s e = true) :
    Unreplaced s e s' := by
  obtain ⟨event, now⟩ := e
  cases event with
  | finish client codes =>
    intro c hc hconfirm i step x hp a ha hid hon hlast y hy
    simp only [unreplaced, hc, Option.all_some] at h
    cases c with
    | confirm i' session step' x' => exact absurd rfl (hconfirm i' session step' x')
    | _ =>
      simp only [hp, Option.all_some, List.all_eq_true, decide_eq_true_eq] at h
      have hcurrent := h a ha hid hon (Option.all_eq_true_iff_get _ _ |>.mpr fun h => decide_eq_true (hlast _ (Option.some_get h).symm))
      rw [hy, Option.all_some] at hcurrent
      exact of_decide_eq_true hcurrent
  | _ => trivial

/-- A step of a run that presents no code of a replaced secret. -/
def Service.unreplacedNext (s : Service) (e : Event × Timestamp) : Option Service :=
  if unreplaced s e then s.next e else none

theorem factors_accepted_once_played :
    Each Justified ((System.follow Service.unreplacedNext {} (signingIn ++ [(.finish 0 [], 8)])).getD {}).db.log ∧
      EnabledFor ((System.follow Service.unreplacedNext {} (signingIn ++ [(.finish 0 [], 8)])).getD {}).db ∧
      PromotedFor ((System.follow Service.unreplacedNext {} (signingIn ++ [(.finish 0 [], 8)])).getD {}).db :=
  factors_accepted_once <| System.Reachable.follow
    (fun s e s' hnext => by
      rw [Service.unreplacedNext] at hnext
      split at hnext
      · rename_i hcond
        exact ⟨hnext, .of_unreplaced hcond⟩
      · cases hnext)
    (.init rfl) _ _ (by decide +kernel)

/-! ## A code accepted twice -/

/-- The same code is verified a second time before the first sign-in is through; the second factor is turned off and started
again before the second one is. -/
def replayed : List (Event × Timestamp) :=
  signingIn ++ [(.verifySecondFactor 1 22 (some (.totp 7)), 7), (.finish 0 [], 8), (.disableMfa 1 20 (.backup 30), 9),
    (.finish 0 [], 10), (.startEnrollment 1 ⟨101, 0⟩, 11), (.confirmEnrollment 1 20 6, 12), (.finish 0 [(32, "h")], 13),
    (.finish 0 [], 14)]

theorem Each.drop {P : List Entry → Entry → Prop} {log : List Entry} (h : Each P log) (n : ℕ) : Each P (log.drop n) := by
  induction n generalizing log with
  | zero => exact h
  | succ n ih =>
    cases log with
    | nil => exact trivial
    | cons e older => exact ih h.2

/-- One code signs a member in twice. -/
theorem not_every_factor_accepted_once :
    ¬ ∀ s, secondFactor.Reachable s → Each Justified s.db.log ∧ EnabledFor s.db := by
  intro h
  have hreachable : secondFactor.Reachable ((System.follow Service.next {} replayed).getD {}) :=
    System.Reachable.follow (fun _ _ _ hnext => hnext) (.init rfl) _ _ (by decide +kernel)
  have hlog : ((System.follow Service.next {} replayed).getD {}).db.log.drop 1 =
      .accepted 1 100 7 :: ((System.follow Service.next {} replayed).getD {}).db.log.drop 2 := by
    decide +kernel
  have hearlier : Entry.accepted 1 100 7 ∈ ((System.follow Service.next {} replayed).getD {}).db.log.drop 2 := by
    decide +kernel
  have hjustified := (h _ hreachable).1.drop 1
  rw [hlog] at hjustified
  exact absurd (hjustified.1.1 1 7 hearlier) (lt_irrefl 7)

end SlugBase.Mfa
