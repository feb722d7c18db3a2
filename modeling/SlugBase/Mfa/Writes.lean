import SlugBase.Mfa.Sound

/-!
# Each transaction of the second factor

A write of the second factor is a quiet write of the rows with an entry before or after it.

* `Sound.accepting`, `Sound.consuming`, `Sound.activating`, `Sound.promoting`, `Sound.failing`, `Sound.starting`: the
  writes that say so in the log, or change a secret;
* **`Sound.transaction`**: the transaction a request writes with keeps everything, if its step is of the secret the account
  has.
-/

namespace SlugBase.Mfa

open Relational Auth

variable {db db' : MfaDb}

/-! ## Accepting a factor -/

/-- The time step a request presents, and the ciphertext its code was verified against. -/
def Client.presents : Client → Option (Uuid × ℕ × Sealed)
  | .confirm a _ step x | .regenerate a step x | .reauthenticate a _ step x => some (a, step, x)
  | .signIn a _ (.totp step) x | .disable a _ (.totp step) x => some (a, step, x)
  | .signIn _ _ (.backup _) _ | .disable _ _ (.backup _) _ | .refused _ _ => none

/-- The secret an account has, if it can accept the step, is the one the code was verified against. -/
def Current (db : MfaDb) (i : Uuid) (step : ℕ) (x : Sealed) : Prop :=
  ∀ a ∈ db.accounts, a.id = i → a.disabledAt = none → (∀ last, a.mfaLastStep = some last → last < step) →
    ∀ y, a.mfaSecret = some y → y.secret = x.secret

theorem MfaDb.updateAccount_record (db : MfaDb) (e : Entry) (i : Uuid) (p : Account → Bool) (f : Account → Account)
    (hf : ∀ a, (f a).id = a.id) :
    (db.record e).updateAccount i p f hf = (db.updateAccount i p f hf).map (MfaDb.record · e) := by
  by_cases hany : (db.accounts.any fun a => decide (a.id = i) && p a) = true <;>
    simp only [MfaDb.updateAccount, MfaDb.record, hany, if_true, if_false, Option.map_some, Option.map_none,
      Bool.false_eq_true]

/-- **An accepted step** of the secret the account has. -/
theorem Sound.accepting (h : Sound db) {i : Uuid} {step : ℕ} {x : Sealed} (hv : Entry.verified i x step ∈ db.log)
    (hcurrent : Current db i step x) (hdb : sysMfaAcceptStep db i step x.secret = some db') : Sound db' := by
  rw [sysMfaAcceptStep] at hdb
  split at hdb
  · cases hdb
  obtain ⟨db₁, hupdate, rfl⟩ := Option.map_eq_some_iff.mp hdb
  have hquiet : Quiet db db₁ := by
    refine Quiet.updateAccount hupdate fun a _ _ hp => .inr ⟨rfl, fun l hl => ⟨step, rfl, ?_⟩, .inl⟩
    have hall := (Bool.and_eq_true_iff.mp hp).2
    rw [hl, Option.all_some] at hall
    exact (of_decide_eq_true hall).le
  obtain ⟨⟨a, ha, hid, hp⟩, -⟩ := MfaDb.updateAccount_eq_some hupdate
  obtain ⟨hon, hlast⟩ := Bool.and_eq_true_iff.mp hp
  obtain ⟨hon, hsecret⟩ := of_decide_eq_true hon
  have hlast : ∀ last, a.mfaLastStep = some last → last < step := fun last hl => by
    rw [hl, Option.all_some] at hlast
    exact of_decide_eq_true hlast
  obtain ⟨y, hy⟩ := Option.ne_none_iff_exists'.mp hsecret
  have hsame := hcurrent a ha hid hon hlast y hy
  have hstep : ∀ b ∈ db₁.accounts, ∀ z, b.mfaSecret = some z → z.secret = x.secret → b.mfaLastStep = some step := by
    intro b hb z hz hzx
    obtain ⟨b₀, hb₀, hrow⟩ := MfaDb.mem_updateAccount hupdate hb
    rcases hrow with ⟨rfl, hnot⟩ | ⟨-, -, rfl⟩
    · have hba : b = a := Table.eq_of_key hb₀ ha (h.secretOwner b hb₀ a ha z y hz hy (hzx.trans hsame.symm))
      rw [hba, hp] at hnot
      cases hnot hid
    · rfl
  refine (h.quiet hquiet).record ⟨fun b step' hlog => ?_, x, hquiet.log ▸ hv, rfl⟩
    ⟨hquiet.secrets (hsame ▸ h.secretDrawn a ha y hy), fun b hb z hz hzx => ⟨step, hstep b hb z hz hzx, le_rfl⟩⟩
  rw [hquiet.log] at hlog
  obtain ⟨last, hl, hle⟩ := h.last a ha y hy b step' (hsame ▸ hlog)
  exact hle.trans_lt (hlast last hl)

/-- **A backup code consumed**. -/
theorem Sound.consuming (h : Sound db) {i codeId : Uuid} {now : Timestamp}
    (hdb : sysBackupCodeConsume db i codeId now = some db') : Sound db' := by
  simp only [sysBackupCodeConsume] at hdb
  split at hdb
  · rename_i hfound
    obtain ⟨c, hc, hown⟩ := Table.any_iff.mp (Bool.and_eq_true_iff.mp hfound).1
    obtain ⟨hid, -, hunused⟩ := of_decide_eq_true hown
    cases hdb
    refine Sound.record (e := .consumed i codeId) (h.quiet ?_) ?_ ⟨?_, fun c' hc' hid' => ?_⟩
    · refine { Quiet.refl db with codes := fun c' hc' => .inl ?_ }
      simp only [Table.mem_updateWhere] at hc'
      obtain ⟨c₀, hc₀, rfl⟩ := hc'
      refine ⟨c₀, hc₀, ?_⟩
      split
      · exact ⟨rfl, fun h => by cases h⟩
      · exact ⟨rfl, fun h => h⟩
    · exact hid ▸ h.codeUnused c hc hunused
    · exact hid ▸ h.codeDrawn c hc
    · simp only [Table.mem_updateWhere] at hc'
      obtain ⟨c₀, hc₀, rfl⟩ := hc'
      have hkey : c₀.id = codeId := by
        split at hid' <;> exact hid'
      have hc₀c : c₀ = c := Table.eq_of_key hc₀ hc (hkey.trans hid.symm)
      rw [hc₀c, if_pos hown]
      exact Option.some_ne_none now
  · cases hdb

/-! ## Turning it on -/

/-- **The second factor turned on** for the ciphertext a code was verified against. -/
theorem Sound.activating (h : Sound db) {i : Uuid} {x : Sealed} {step : ℕ} {now : Timestamp}
    (hv : Entry.verified i x step ∈ db.log) (hdb : sysMfaSetActivate db i x now = some db') : Sound db' := by
  obtain ⟨db₁, hupdate, rfl⟩ := Option.map_eq_some_iff.mp hdb
  obtain ⟨⟨a, ha, hid, hp⟩, -⟩ := MfaDb.updateAccount_eq_some hupdate
  have hsecret : (db.account i).bind Account.mfaSecret = some x := by
    have hfind : db.account i = some a := Table.find?_of_only ha (decide_eq_true hid) fun b hb hown =>
      Table.eq_of_key hb ha ((of_decide_eq_true hown).trans hid.symm)
    rw [hfind]
    exact (of_decide_eq_true hp).2.2.1
  have henabled : Sound (db.record (.enabled i (some x))) := h.record ⟨x, step, rfl, hv⟩ trivial
  rw [hsecret]
  have hupdate' := db.updateAccount_record (.enabled i (some x)) i
    (fun a => decide (a.disabledAt = none ∧ a.mfaEnabledAt = none ∧ a.mfaSecret = some x ∧ a.mfaLastStep ≠ none))
    (fun a => { a with mfaEnabledAt := some now }) fun _ => rfl
  rw [hupdate, Option.map_some] at hupdate'
  refine henabled.quiet (.updateAccount hupdate' fun b _ hbid hbp => .inr ⟨rfl, fun l hl => ⟨l, hl, le_rfl⟩, fun _ => .inr ?_⟩)
  exact ⟨x, x, (of_decide_eq_true hbp).2.2.1, rfl, hbid ▸ List.mem_cons_self⟩

/-! ## A partial session -/

theorem Session.level_of_live {s : Session} {now : Timestamp} (h : s.live now = true) : s.level = .partialLevel :=
  (of_decide_eq_true h).1

theorem Session.mem_promoted {sessions : Table Session Session.id} {p : Session → Bool} {now : Timestamp} {s' : Session}
    (h : s' ∈ sessions.updateWhere p (·.promote now) fun _ => rfl) :
    ∃ s ∈ sessions, (if p s then s.promote now else s) = s' :=
  Table.mem_updateWhere.mp h

/-- **A session promoted**, right after a factor of its account was accepted. -/
theorem Sound.promoting (h : Sound db) {id i : Uuid} {now : Timestamp}
    (hfactor : ∃ e, db.log.head? = some e ∧ ((∃ secret step, e = .accepted i secret step) ∨ ∃ codeId, e = .consumed i codeId))
    (hdb : sysSessionPromote db id i now = some db') : Sound db' := by
  obtain ⟨a, -, hdb⟩ := Option.bind_eq_some_iff.mp hdb
  obtain ⟨s, hfind, rfl⟩ := Option.map_eq_some_iff.mp hdb
  obtain ⟨hs, hown⟩ := Table.find?_some hfind
  have hown' := hown
  simp only [Bool.and_eq_true, decide_eq_true_eq] at hown'
  obtain ⟨⟨⟨-, haccount⟩, hlive⟩, -⟩ := hown'
  have hlevel := Session.level_of_live hlive
  obtain ⟨hrefused, hlt, hnot⟩ := h.waiting s hs hlevel
  refine Sound.record (e := .promoted s now) (h.quiet ?_)
    ⟨hlive, haccount ▸ hfactor, fun s' now' => hnot s' now', hrefused.trans_lt hlt⟩ ⟨h.sessionDrawn s hs, fun s' hs' hid => ?_⟩
  · refine { Quiet.refl db with sessions := fun s' hs' => .inl ?_ }
    obtain ⟨s₀, hs₀, rfl⟩ := Session.mem_promoted hs'
    refine ⟨s₀, hs₀, ?_⟩
    split
    · exact ⟨rfl, fun h => by cases h⟩
    · exact ⟨rfl, fun h => ⟨h, le_rfl, fun h => h⟩⟩
  · obtain ⟨s₀, hs₀, rfl⟩ := Session.mem_promoted hs'
    have hkey : s₀.id = s.id := by
      split at hid <;> exact hid
    have hs₀s : s₀ = s := Table.eq_of_key hs₀ hs hkey
    rw [hs₀s, if_pos hown]
    exact fun h => by cases h

/-- **A refused code recorded**. -/
theorem Sound.failing (h : Sound db) (id i : Uuid) : Sound (sysSessionMfaFailure db id i).2 := by
  simp only [sysSessionMfaFailure]
  split
  · exact h
  rename_i s hfind
  obtain ⟨hs, hown⟩ := Table.find?_some hfind
  obtain ⟨hid, -, hlevel⟩ := of_decide_eq_true hown
  obtain ⟨hrefused, hlt, hnot⟩ := h.waiting s hs hlevel
  have hj : Justified db.log (.refused s.id) := ⟨hrefused.trans_lt hlt, hnot⟩
  split
  · refine Sound.record (e := .refused s.id) (h.quiet (.deleteSessions _)) hj ⟨h.sessionDrawn s hs, fun s' hs' hid' => ?_⟩
    have hkept := (Table.mem_deleteWhere.mp hs').2
    rw [hid', hid, decide_eq_true rfl] at hkept
    cases hkept
  · rename_i hfew
    refine Sound.record (e := .refused s.id) (h.quiet ?_) hj ⟨h.sessionDrawn s hs, fun s' hs' hid' _ => ?_⟩
    · refine { Quiet.refl db with sessions := fun s' hs' => .inl ?_ }
      simp only [Table.mem_updateWhere] at hs'
      obtain ⟨s₀, hs₀, rfl⟩ := hs'
      refine ⟨s₀, hs₀, ?_⟩
      split
      · rename_i hown₀
        have hs₀s : s₀ = s := Table.eq_of_key hs₀ hs ((of_decide_eq_true hown₀).1.trans hid.symm)
        rw [hs₀s]
        exact ⟨rfl, fun _ => ⟨hlevel, Nat.le_succ _, fun _ => not_le.mp hfew⟩⟩
      · exact ⟨rfl, fun h => ⟨h, le_rfl, fun h => h⟩⟩
    · simp only [Table.mem_updateWhere] at hs'
      obtain ⟨s₀, hs₀, rfl⟩ := hs'
      have hkey : s₀.id = s.id := by
        split at hid' <;> exact hid'
      have hs₀s : s₀ = s := Table.eq_of_key hs₀ hs hkey
      rw [hs₀s, if_pos hown]
      exact Nat.lt_succ_of_le hrefused

/-! ## Other writes -/

/-- Backup codes that were drawn, and of which none was consumed. -/
def Unspent (db : MfaDb) (codes : List (Uuid × String)) : Prop :=
  ∀ c ∈ codes, c.1 ∈ db.drawn.codes ∧ ∀ a, Entry.consumed a c.1 ∉ db.log

theorem mem_insertCodes {t t' : Table BackupCode BackupCode.id} {i : Uuid} {codes : List (Uuid × String)}
    (h : insertCodes t i codes = some t') {c : BackupCode} (hc : c ∈ t') : c ∈ t ∨ ∃ new ∈ codes, new.1 = c.id := by
  induction codes generalizing t with
  | nil =>
    cases h
    exact .inl hc
  | cons new rest ih =>
    obtain ⟨t₁, hinsert, hrest⟩ := Option.bind_eq_some_iff.mp h
    rcases ih hrest with hold | ⟨other, hother, hid⟩
    · rcases (Table.mem_insert? hinsert).mp hold with hold | rfl
      · exact .inl hold
      · exact .inr ⟨new, List.mem_cons_self, rfl⟩
    · exact .inr ⟨other, List.mem_cons_of_mem _ hother, hid⟩

/-- **New backup codes**. -/
theorem Sound.replacing (h : Sound db) {i : Uuid} {codes : List (Uuid × String)} (hcodes : Unspent db codes)
    (hdb : sysBackupCodesReplace db i codes = some db') : Sound db' := by
  rw [sysBackupCodesReplace] at hdb
  split at hdb
  · cases hdb
  split at hdb
  · cases hdb
  obtain ⟨t, hinsert, rfl⟩ := Option.map_eq_some_iff.mp hdb
  refine h.quiet { Quiet.refl db with codes := fun c hc => ?_ }
  rcases mem_insertCodes hinsert hc with hold | ⟨new, hnew, hid⟩
  · exact .inl ⟨c, (Table.mem_deleteWhere.mp hold).1, rfl, fun h => h⟩
  · exact .inr (hid ▸ hcodes new hnew)

theorem Sound.disabling (h : Sound db) {i : Uuid} (hdb : sysMfaDisable db i = some db') : Sound db' := by
  obtain ⟨db₁, hupdate, rfl⟩ := Option.map_eq_some_iff.mp hdb
  exact (h.quiet (.updateAccount hupdate fun _ _ _ _ => .inl ⟨rfl, rfl⟩)).quiet (.deleteCodes i)

/-- **A new secret**, that no account ever had. -/
theorem Sound.starting (h : Sound db) {i : Uuid} {x : Sealed} (hdrawn : x.secret ∈ db.drawn.secrets)
    (hnew : ∀ a ∈ db.accounts, ∀ y, a.mfaSecret = some y → y.secret ≠ x.secret)
    (hunused : ∀ a step, Entry.accepted a x.secret step ∉ db.log) (hdb : sysMfaSetStart db i x = some db') :
    Sound db' := by
  -- A row after the write is one that was there, or has the new secret and no second factor.
  have hrow : ∀ a' ∈ db'.accounts, a' ∈ db.accounts ∨ a'.mfaSecret = some x ∧ a'.mfaEnabledAt = none ∧ a'.id = i := by
    intro a' ha'
    obtain ⟨a, ha, hsame⟩ := MfaDb.mem_updateAccount hdb ha'
    rcases hsame with ⟨rfl, -⟩ | ⟨hid, hoff, rfl⟩
    · exact .inl ha
    · exact .inr ⟨rfl, (of_decide_eq_true hoff).2, hid⟩
  obtain ⟨-, rfl⟩ := MfaDb.updateAccount_eq_some hdb
  refine { h with enabledFor := ?_, secretDrawn := ?_, secretOwner := ?_, last := ?_ }
  · intro a ha henabled
    rcases hrow a ha with hold | ⟨-, hoff, -⟩
    · exact h.enabledFor a hold henabled
    · exact absurd hoff henabled
  · intro a ha y hy
    rcases hrow a ha with hold | ⟨hx, -, -⟩
    · exact h.secretDrawn a hold y hy
    · rw [hx] at hy
      exact Option.some.inj hy ▸ hdrawn
  · intro a ha b hb y z hy hz hyz
    rcases hrow a ha with hold | ⟨hx, -, hid⟩ <;> rcases hrow b hb with holdb | ⟨hxb, -, hidb⟩
    · exact h.secretOwner a hold b holdb y z hy hz hyz
    · rw [hxb] at hz
      exact absurd (hyz.trans (congrArg Sealed.secret (Option.some.inj hz)).symm) (hnew a hold y hy)
    · rw [hx] at hy
      exact absurd (hyz.symm.trans (congrArg Sealed.secret (Option.some.inj hy)).symm) (hnew b holdb z hz)
    · exact hid.trans hidb.symm
  · intro a ha y hy b step hlog
    rcases hrow a ha with hold | ⟨hx, -, -⟩
    · exact h.last a hold y hy b step hlog
    · rw [hx] at hy
      exact absurd (Option.some.inj hy ▸ hlog) (hunused b step)

/-! ## The transactions -/

theorem orRollBack_ok {outcome : StoreOutcome} {x : Option MfaDb} (h : orRollBack outcome x = .ok db) : x = some db := by
  cases x with
  | none => cases h
  | some _ => exact congrArg some (Except.ok.inj h)

theorem bind_orRollBack_ok {outcome : StoreOutcome} {x : Option MfaDb} {f : MfaDb → Except StoreOutcome MfaDb}
    (h : (orRollBack outcome x >>= f) = .ok db') : ∃ db, x = some db ∧ f db = .ok db' := by
  cases x with
  | none => cases h
  | some db => exact ⟨db, rfl, h⟩

/-- What accepting a step leaves as it was. -/
theorem acceptStep_kept {i : Uuid} {step secret : ℕ} (h : sysMfaAcceptStep db i step secret = some db') :
    db'.log = .accepted i secret step :: db.log ∧ db'.drawn = db.drawn ∧
      ∀ a' ∈ db'.accounts, ∃ a ∈ db.accounts, a.id = a'.id ∧ a.mfaSecret = a'.mfaSecret := by
  rw [sysMfaAcceptStep] at h
  split at h
  · cases h
  obtain ⟨db₁, hupdate, rfl⟩ := Option.map_eq_some_iff.mp h
  have hrows : ∀ a' ∈ db₁.accounts, ∃ a ∈ db.accounts, a.id = a'.id ∧ a.mfaSecret = a'.mfaSecret := by
    intro a' ha'
    obtain ⟨a, ha, hsame⟩ := MfaDb.mem_updateAccount hupdate ha'
    rcases hsame with ⟨rfl, -⟩ | ⟨-, -, rfl⟩
    · exact ⟨a', ha, rfl, rfl⟩
    · exact ⟨a, ha, rfl, rfl⟩
  obtain ⟨-, rfl⟩ := MfaDb.updateAccount_eq_some hupdate
  exact ⟨rfl, rfl, hrows⟩

theorem activate_kept {i : Uuid} {x : Sealed} {now : Timestamp} (h : sysMfaSetActivate db i x now = some db') :
    (∃ a ∈ db.accounts, a.id = i ∧ a.mfaSecret = some x) ∧ db'.drawn = db.drawn ∧
      ∃ stored, db'.log = .enabled i stored :: db.log := by
  obtain ⟨db₁, hupdate, rfl⟩ := Option.map_eq_some_iff.mp h
  obtain ⟨⟨a, ha, hid, hp⟩, rfl⟩ := MfaDb.updateAccount_eq_some hupdate
  exact ⟨⟨a, ha, hid, (of_decide_eq_true hp).2.2.1⟩, rfl, _, rfl⟩

theorem Unspent.of_log {codes : List (Uuid × String)} (h : Unspent db codes) {e : Entry} (hlog : db'.log = e :: db.log)
    (hdrawn : db'.drawn = db.drawn) (he : ∀ a codeId, e ≠ .consumed a codeId) : Unspent db' codes := by
  refine fun c hc => ⟨hdrawn ▸ (h c hc).1, fun a hconsumed => ?_⟩
  rw [hlog] at hconsumed
  rcases List.mem_cons.mp hconsumed with heq | hconsumed
  · exact he a c.1 heq.symm
  · exact (h c hc).2 a hconsumed

/-- **Accepting a factor**, which is the newest entry then. -/
theorem Sound.factor (h : Sound db) {i : Uuid} {factor : SecondFactor} {x : Sealed} {now : Timestamp}
    (hv : ∀ step, factor = .totp step → Entry.verified i x step ∈ db.log ∧ Current db i step x)
    (hdb : acceptFactor db i factor x.secret now = some db') :
    Sound db' ∧ ∃ e, db'.log.head? = some e ∧
      ((∃ secret step, e = .accepted i secret step) ∨ ∃ codeId, e = .consumed i codeId) := by
  cases factor with
  | totp step =>
    obtain ⟨hverified, hcurrent⟩ := hv step rfl
    refine ⟨h.accepting hverified hcurrent hdb, .accepted i x.secret step, ?_, .inl ⟨_, _, rfl⟩⟩
    rw [(acceptStep_kept hdb).1, List.head?_cons]
  | backup codeId =>
    refine ⟨h.consuming hdb, .consumed i codeId, ?_, .inr ⟨_, rfl⟩⟩
    simp only [acceptFactor, sysBackupCodeConsume] at hdb
    split at hdb <;> cases hdb
    rfl

theorem Sound.rotating (h : Sound db) {id i : Uuid} {now : Timestamp} (hdb : sysSessionRotate db id i now = some db') :
    Sound db' :=
  h.quiet (.updateFullSession hdb fun _ => rfl)

/-- **Confirming an enrolment**: turning it on finds the ciphertext that the code was verified against. -/
theorem Sound.confirming (h : Sound db) {i session : Uuid} {step : ℕ} {x : Sealed} {codes : List (Uuid × String)}
    {now : Timestamp} (hv : Entry.verified i x step ∈ db.log) (hcodes : Unspent db codes)
    (hdb : activateMfa db i session step x codes now = .ok db') : Sound db' := by
  obtain ⟨db₁, haccept, hdb⟩ := bind_orRollBack_ok hdb
  obtain ⟨db₂, hactivate, hdb⟩ := bind_orRollBack_ok hdb
  obtain ⟨db₃, hreplace, hdb⟩ := bind_orRollBack_ok hdb
  obtain ⟨hlog₁, hdrawn₁, hsecret₁⟩ := acceptStep_kept haccept
  obtain ⟨⟨a₁, ha₁, hid₁, hx₁⟩, hdrawn₂, stored, hlog₂⟩ := activate_kept hactivate
  obtain ⟨a, ha, hid, hx⟩ := hsecret₁ a₁ ha₁
  have hcurrent : Current db i step x := by
    intro b hb hbid _ _ y hy
    rw [Table.eq_of_key hb ha (hbid.trans (hid.trans hid₁).symm), hx, hx₁] at hy
    exact congrArg Sealed.secret (Option.some.inj hy).symm
  have h₁ : Sound db₁ := h.accepting hv hcurrent haccept
  have h₂ : Sound db₂ := h₁.activating (hlog₁ ▸ List.mem_cons_of_mem _ hv) hactivate
  have hcodes₁ : Unspent db₁ codes := hcodes.of_log hlog₁ hdrawn₁ fun _ _ h => by cases h
  have hcodes₂ : Unspent db₂ codes := hcodes₁.of_log hlog₂ hdrawn₂ fun _ _ h => by cases h
  exact (h₂.replacing hcodes₂ hreplace).rotating (orRollBack_ok hdb)

/-- **The transaction of a request**. -/
theorem Sound.transaction (h : Sound db) {c : Client} {codes : List (Uuid × String)} {now : Timestamp}
    (hv : ∀ i step x, c.presents = some (i, step, x) → Entry.verified i x step ∈ db.log)
    (hcurrent : (∀ i session step x, c ≠ .confirm i session step x) →
      ∀ i step x, c.presents = some (i, step, x) → Current db i step x)
    (hcodes : Unspent db codes) (hdb : c.transaction db codes now = .ok db') : Sound db' := by
  cases c with
  | confirm i session step x => exact h.confirming (hv i step x rfl) hcodes hdb
  | signIn i session factor x =>
    obtain ⟨db₁, haccept, hdb⟩ := bind_orRollBack_ok hdb
    obtain ⟨h₁, hhead⟩ := h.factor (fun step hfactor => by
      subst hfactor
      exact ⟨hv i step x rfl, hcurrent (fun _ _ _ _ h => by cases h) i step x rfl⟩) haccept
    exact h₁.promoting hhead (orRollBack_ok hdb)
  | regenerate i step x =>
    obtain ⟨db₁, hlock, hrest⟩ := bind_orRollBack_ok hdb
    obtain ⟨db₂, haccept, hreplace⟩ := bind_orRollBack_ok hrest
    rw [sysMfaLock] at hlock
    split at hlock <;> cases hlock
    have h₂ : Sound db₂ := h.accepting (hv i step x rfl) (hcurrent (fun _ _ _ _ h => by cases h) i step x rfl) haccept
    obtain ⟨hlog, hdrawn, -⟩ := acceptStep_kept haccept
    exact h₂.replacing (hcodes.of_log hlog hdrawn fun _ _ h => by cases h) (orRollBack_ok hreplace)
  | disable i session factor x =>
    obtain ⟨db₁, hlock, hrest⟩ := bind_orRollBack_ok hdb
    obtain ⟨db₂, haccept, hrest⟩ := bind_orRollBack_ok hrest
    obtain ⟨db₃, hdisable, hrotate⟩ := bind_orRollBack_ok hrest
    rw [sysMfaLock] at hlock
    split at hlock <;> cases hlock
    obtain ⟨h₂, -⟩ := h.factor (fun step hfactor => by
      subst hfactor
      exact ⟨hv i step x rfl, hcurrent (fun _ _ _ _ h => by cases h) i step x rfl⟩) haccept
    exact (h₂.disabling hdisable).rotating (orRollBack_ok hrotate)
  | reauthenticate i session step x =>
    obtain ⟨db₁, haccept, hdb⟩ := bind_orRollBack_ok hdb
    have h₁ : Sound db₁ := h.accepting (hv i step x rfl) (hcurrent (fun _ _ _ _ h => by cases h) i step x rfl) haccept
    exact h₁.quiet (.updateFullSession (orRollBack_ok hdb) fun _ => rfl)
  | refused i session =>
    cases hdb
    exact h.failing session i

end SlugBase.Mfa
