import SlugBase.Auth.SignIn

/-!
# Sessions of a replaced credential

A change of the password ends the sessions it finds; a sign-in that has read the old hash, or an identity that is
deleted, may commit one that it did not find.

* `Current`: where a session that is accepted is to be from;
* `Undisturbed`: no such session is committed after the change has looked, or with the change;
* **`Dated.step`**: what every step keeps;
* **`replacedCredential_gives_no_session`**: in runs whose steps are undisturbed, every session that is accepted is
  from the password its account has, from an identity that was not deleted, or is the one the last change kept or made;
* **`replacedCredential_gives_session`**: a sign-in that is disturbed.
-/

namespace SlugBase.Auth

open Relational Transition

/-- Whether a session is from the password its account has, from an identity that was read after the account's were
last deleted, or is the one session that the last change of the account kept or made. -/
def Current (s : SignIns) (x : Session) : Prop :=
  ∀ a ∈ s.db.accounts, a.id = x.accountId → s.origin x.id = .credential a.passwordChangedAt ∨
    s.origin x.id = .identity (s.deletedAt a.id) ∨ s.kept a.id = some x.id

/-- The credential a session is from is still the one of its account, or the session was made before the password
changed and is not accepted. -/
def Origin.Still (s : SignIns) (o : Origin) (row : Session) : Prop :=
  ∀ a ∈ s.db.accounts.rows, a.id = row.accountId → o = .credential a.passwordChangedAt ∨
    o = .identity (s.deletedAt a.id) ∨ a.passwordChangedAt.any (fun t => decide (row.createdAt < t)) = true

instance (s : SignIns) (o : Origin) (row : Session) : Decidable (o.Still s row) := by
  unfold Origin.Still
  infer_instance

/-- **What holds between the steps.** -/
structure Dated (s : SignIns) : Prop where
  owned : ∀ x ∈ s.db.sessions, ∃ a ∈ s.db.accounts, a.id = x.accountId
  opened : ∀ o ∈ s.openings, ∃ a ∈ s.db.accounts, a.id = o.row.accountId
  changing : ∀ c ∈ s.changes, ∃ a ∈ s.db.accounts, a.id = c.accountId
  current : ∀ x ∈ s.db.sessions, Alive s.db x → Current s x

namespace Dated

variable {s : SignIns} {db' : AuthDb} {now : Timestamp}

theorem under (h : Dated s) {attempts : List Attempt} {openings : List Opening} {changes : List OpenChange}
    (hopenings : ∀ o ∈ openings, o ∈ s.openings ∨ ∃ a ∈ s.db.accounts, a.id = o.row.accountId)
    (hchanges : ∀ c ∈ changes, (∃ c₀ ∈ s.changes, c₀.accountId = c.accountId) ∨ ∃ a ∈ s.db.accounts, a.id = c.accountId) :
    Dated { s with attempts := attempts, openings := openings, changes := changes } := by
  refine ⟨h.owned, fun o ho => ?_, fun c hc => ?_, h.current⟩
  · rcases hopenings o ho with hold | hnew
    · exact h.opened o hold
    · exact hnew
  · rcases hchanges c hc with ⟨c₀, hold, heq⟩ | hnew
    · rw [← heq]
      exact h.changing c₀ hold
    · exact hnew

theorem attempts (h : Dated s) (attempts : List Attempt) : Dated { s with attempts := attempts } :=
  ⟨h.owned, h.opened, h.changing, h.current⟩

theorem begun (h : Dated s) {c : OpenChange} (hc : ∃ a ∈ s.db.accounts, a.id = c.accountId) : Dated (s.begun c) := by
  refine h.under (fun _ ho => .inl ho) fun c' hc' => ?_
  rcases List.mem_cons.mp hc' with rfl | hold
  · exact .inr hc
  · exact .inl ⟨c', hold, rfl⟩

theorem quiet (h : Dated s) (hq : Quiet s.db db') : Dated { s with db := db' } := by
  have hstays {id : Uuid} (hany : ∃ a ∈ s.db.accounts, a.id = id) : ∃ a' ∈ db'.accounts, a'.id = id := by
    obtain ⟨a, ha, rfl⟩ := hany
    exact hq.stays a ha
  refine ⟨fun x' hx' => ?_, fun o ho => hstays (h.opened o ho), fun c hc => hstays (h.changing c hc),
    fun x' hx' halive a' ha' hid => ?_⟩
  · obtain ⟨x, hx, -, hacc, -⟩ := hq.sessions x' hx'
    exact hstays (hacc ▸ h.owned x hx)
  · obtain ⟨x, hx, hxid, hacc, hcreated⟩ := hq.sessions x' hx'
    have hbefore : Alive s.db x := by
      rcases hcreated with hsame | hbefore
      · intro b hb hbid t ht
        obtain ⟨b', hb', hb'id⟩ := hq.stays b hb
        obtain ⟨b₀, hb₀, hb₀id, hchanged⟩ := hq.passwords b' hb'
        obtain rfl : b₀ = b := Table.eq_of_key hb₀ hb (hb₀id.trans hb'id)
        rw [hsame]
        exact halive b' hb' (hb'id.trans (hbid.trans hacc)) t (hchanged ▸ ht)
      · exact hbefore
    obtain ⟨a, ha, haid, hpassword⟩ := hq.passwords a' ha'
    have hcurrent := h.current x hx hbefore a ha (haid.trans (hid.trans hacc.symm))
    rwa [hpassword, haid, hxid] at hcurrent

/-- A session of a credential the account still has. -/
theorem made (h : Dated s) {row : Session} {o : Origin} (hm : Made s.db db' row)
    (hany : ∃ a ∈ s.db.accounts, a.id = row.accountId) (hstill : o.Still s row) :
    Dated (s.made db' row.id row.accountId o) := by
  have haccounts : (s.made db' row.id row.accountId o).db.accounts = s.db.accounts := hm.accounts
  refine ⟨fun x hx => ?_, haccounts ▸ h.opened, haccounts ▸ h.changing, fun x hx halive a ha hid => ?_⟩
  · rw [haccounts]
    rcases hm.sessions x hx with rfl | ⟨hx, -⟩
    · exact hany
    · exact h.owned x hx
  · rw [haccounts] at ha
    have hbefore : Alive s.db x := fun b hb => halive b (haccounts ▸ hb)
    rcases hm.sessions x hx with rfl | ⟨hx, hne⟩
    · simp only [SignIns.made, Function.update_self]
      rcases hstill a ha hid with hpassword | hidentity | hearlier
      · exact .inl hpassword
      · exact .inr (.inl hidentity)
      · rw [Option.any_eq_true] at hearlier
        obtain ⟨t, ht, hlt⟩ := hearlier
        exact absurd (hbefore a ha hid t ht) (not_le.mpr (of_decide_eq_true hlt))
    · simp only [SignIns.made, Function.update_of_ne hne]
      rcases h.current x hx hbefore a ha hid with hpassword | hidentity | hkept
      · exact .inl hpassword
      · exact .inr (.inl hidentity)
      · refine .inr (.inr ?_)
        by_cases hsame : a.id = row.accountId
        · rw [← hsame, Function.update_self, hkept, Option.filter_some, if_pos (decide_eq_true hne)]
        · rw [Function.update_of_ne hsame]
          exact hkept

end Dated

/-! ## Runs -/

variable (emailVerificationRequired : Bool)

/-- The credential of a session that is committed is still the one of its account; and when a change commits, every
session of the account that it did not find was made before it stored the password. -/
def Undisturbed (s : SignIns) (e : SignInEvent × Timestamp) (_ : SignIns) : Prop :=
  match e.1 with
  | .commitSession i => ∀ o ∈ s.openings[i]?, o.origin.Still s o.row
  | .commitChange j => ∀ c ∈ s.changes[j]?, ∀ x ∈ s.db.sessions.rows, x.accountId = c.accountId → x.id ∉ c.ended →
      c.kind.kept ≠ some x.id → x.createdAt < c.storedAt
  | _ => True

instance (s s' : SignIns) (e : SignInEvent × Timestamp) : Decidable (Undisturbed s e s') := by
  unfold Undisturbed
  split <;> infer_instance

theorem OpenChange.next_accountId {c c' : OpenChange} {db : AuthDb} {now : Timestamp} (h : c.next db now = some c') :
    c'.accountId = c.accountId := by
  simp only [OpenChange.next] at h
  split at h
  · split at h
    · cases h
      rfl
    · cases h
  all_goals
    cases h
    rfl

theorem sysPasswordSet_account {db : AuthDb} {id : Uuid} {hash : PasswordHash} {now : Timestamp}
    (h : (sysPasswordSet db id hash now).1 = true) : ∃ a ∈ db.accounts, a.id = id := by
  rw [sysPasswordSet] at h
  split at h
  · cases h
  · rename_i a ha
    obtain ⟨hmem, hid, -⟩ := AuthDb.enabledAccount_some ha
    exact ⟨a, hmem, hid⟩

theorem sysPasswordSetInitial_account {db : AuthDb} {id : Uuid} {hash : PasswordHash} {now : Timestamp}
    (h : (sysPasswordSetInitial db id hash now).1 = true) : ∃ a ∈ db.accounts, a.id = id := by
  rw [sysPasswordSetInitial] at h
  split at h
  · cases h
  · split at h
    · cases h
    · exact sysPasswordSet_account h

namespace Dated

variable {s : SignIns} {now : Timestamp}

theorem write (h : Dated s) {α : Type} {r : Option (α × AuthDb)} (hr : ∀ a db', r = some (a, db') → Quiet s.db db') :
    Dated (s.write r) := by
  cases r with
  | none => exact h
  | some r => exact h.quiet (hr r.1 r.2 rfl)

theorem advance (h : Dated s) (i : ℕ) (f : Attempt → Option Stage) : Dated (s.advance i f) := by
  rw [SignIns.advance]
  split
  · exact h
  · split <;> exact h.attempts _

theorem beginSession (h : Dated s) (i : ℕ) (startedAt : Timestamp) : Dated (s.beginSession i startedAt) := by
  rw [SignIns.beginSession]
  split
  · exact h
  · rename_i a _
    split
    · simp only
      split
      · rename_i hcreate
        refine h.under (fun o ho => ?_) fun c hc => .inl ⟨c, hc, rfl⟩
        rcases List.mem_cons.mp ho with rfl | hold
        · rw [sysSessionCreate] at hcreate
          split at hcreate
          · cases hcreate
          · rename_i account hfind
            obtain ⟨hmem, hcond⟩ := Table.find?_some hfind
            exact .inr ⟨account, hmem, (of_decide_eq_true hcond).1⟩
        · exact .inl hold
      · exact h.attempts _
    · exact h

theorem beginIdentity (h : Dated s) (provider subject : String) (sessionId : Uuid) (tokenHash : TokenHash)
    (replacedTokenHash : Option TokenHash) (startedAt : Timestamp) :
    Dated (s.beginIdentity provider subject sessionId tokenHash replacedTokenHash startedAt) := by
  rw [SignIns.beginIdentity]
  split
  · exact h
  · rename_i i hfind
    obtain ⟨-, hcond⟩ := Table.find?_some hfind
    obtain ⟨a, ha, haid⟩ := Table.any_iff.mp (Bool.and_eq_true_iff.mp hcond).2
    refine h.under (fun o ho => ?_) fun c hc => .inl ⟨c, hc, rfl⟩
    rcases List.mem_cons.mp ho with rfl | hold
    · exact .inr ⟨a, ha, (of_decide_eq_true haid).1⟩
    · exact .inl hold

/-- A session whose credential was not replaced meanwhile. -/
theorem commitSession (h : Dated s) {i : ℕ} (hstill : ∀ o ∈ s.openings[i]?, o.origin.Still s o.row) :
    Dated (s.commitSession i) := by
  rw [SignIns.commitSession]
  split
  · exact h
  · rename_i o ho
    split
    · exact h
    · have hrest : Dated { s with openings := s.openings.eraseIdx i } :=
        h.under (fun o ho => .inl (List.mem_of_mem_eraseIdx ho)) fun c hc => .inl ⟨c, hc, rfl⟩
      simp only
      split
      · exact hrest
      · rename_i db' hinsert
        exact hrest.made (made_of_insertSession hinsert) (h.opened o (List.mem_of_getElem? ho)) (hstill o ho)

theorem passwordReset (h : Dated s) (tokenHash : TokenHash) (hash : PasswordHash) (session : RedemptionSession) :
    Dated (s.passwordReset tokenHash hash session now) := by
  rw [SignIns.passwordReset]
  split
  · exact h
  · rename_i t db hconsume
    split
    · exact h
    · split
      · exact h.quiet (sysCredentialTokenConsume_quiet hconsume)
      · rename_i a hfind
        obtain ⟨-, -, rfl⟩ := sysCredentialTokenConsume_some hconsume
        exact h.begun ⟨a, (Table.find?_some hfind).1, rfl⟩

theorem emailVerify (h : Dated s) (tokenHash : TokenHash) (hash : PasswordHash) (session : RedemptionSession) :
    Dated (s.emailVerify tokenHash hash session now) := by
  rw [SignIns.emailVerify]
  split
  · exact h
  · rename_i t db hconsume
    split
    · exact h
    · split
      · exact h.quiet (sysCredentialTokenConsume_quiet hconsume)
      · rename_i a hfind
        obtain ⟨hmem, -, -⟩ := AuthDb.enabledAccount_some hfind
        have hquiet := h.quiet (sysCredentialTokenConsume_quiet hconsume)
        split
        · obtain ⟨-, -, rfl⟩ := sysCredentialTokenConsume_some hconsume
          exact h.begun ⟨a, hmem, rfl⟩
        · split
          · exact h
          · rename_i hsign
            obtain ⟨level, -, row, hmade, hacc, hid⟩ := signInRedeemed_made hsign
            rw [← hid, ← hacc]
            refine hquiet.made hmade ⟨a, hmem, hacc.symm⟩ fun b hb hbid => .inl ?_
            rw [Table.eq_of_key hb hmem (hbid.trans hacc)]

theorem changePassword (h : Dated s) (change : PasswordChange) : Dated (s.changePassword change now) := by
  simp only [SignIns.changePassword]
  by_cases hinitial : change.initial = true
  · rw [if_pos hinitial]
    split
    · exact h
    · rename_i hstored
      simp only [Bool.or_eq_true, Bool.not_eq_true', not_or, Bool.not_eq_false] at hstored
      exact h.begun (sysPasswordSetInitial_account hstored.2)
  · rw [if_neg hinitial]
    split
    · exact h
    · rename_i hstored
      simp only [Bool.or_eq_true, Bool.not_eq_true', not_or, Bool.not_eq_false] at hstored
      exact h.begun (sysPasswordSet_account hstored.2)

theorem markVerified (h : Dated s) (accountId : Uuid) : Dated (s.markVerified accountId now) := by
  rw [SignIns.markVerified]
  split
  · exact h
  · rename_i a hfind
    split
    · exact h
    · exact h.begun ⟨a, (AuthDb.enabledAccount_some hfind).1, rfl⟩

theorem statement (h : Dated s) (j : ℕ) : Dated (s.statement j now) := by
  rw [SignIns.statement]
  split
  · exact h
  · rename_i c hc
    split
    · exact h.under (fun o ho => .inl ho) fun c hc => .inl ⟨c, List.mem_of_mem_eraseIdx hc, rfl⟩
    · rename_i c' hnext
      refine h.under (fun o ho => .inl ho) fun d hd => .inl ?_
      rcases List.mem_or_eq_of_mem_set hd with hold | rfl
      · exact ⟨d, hold, rfl⟩
      · exact ⟨c, List.mem_of_getElem? hc, (OpenChange.next_accountId hnext).symm⟩

/-- A change that has found every session of the account but those of before it. -/
theorem commitChange (h : Dated s) {j : ℕ} (hfound : ∀ c ∈ s.changes[j]?, ∀ x ∈ s.db.sessions.rows,
    x.accountId = c.accountId → x.id ∉ c.ended → c.kind.kept ≠ some x.id → x.createdAt < c.storedAt) :
    Dated (s.commitChange j) := by
  rw [SignIns.commitChange]
  split
  · exact h
  · rename_i c hc
    split
    · exact h
    · rename_i db' hcommit
      have hreplaced := OpenChange.commit_replaced hcommit
      have hstays {id : Uuid} (hany : ∃ a ∈ s.db.accounts, a.id = id) : ∃ a' ∈ db'.accounts, a'.id = id := by
        obtain ⟨a, ha, rfl⟩ := hany
        exact hreplaced.stays a ha
      refine ⟨fun x hx => ?_, fun o ho => hstays (h.opened o ho),
        fun d hd => hstays (h.changing d (List.mem_of_mem_eraseIdx hd)), fun x hx halive a' ha' hid => ?_⟩
      · rcases hreplaced.sessions x hx with ⟨hacc, -⟩ | ⟨hx, -⟩
        · rw [hacc]
          exact hstays (h.changing c (List.mem_of_getElem? hc))
        · exact hstays (h.owned x hx)
      · obtain ⟨a, ha, haid, hpassword⟩ := hreplaced.passwords a' ha'
        by_cases hown : a'.id = c.accountId
        · refine .inr (.inr ?_)
          rw [hown]
          refine (Function.update_self ..).trans ?_
          rcases hreplaced.sessions x hx with ⟨-, hkept⟩ | ⟨hold, hnot⟩
          · exact hkept
          · by_contra hkept
            rw [if_pos hown] at hpassword
            exact absurd (halive a' ha' hid _ hpassword)
              (not_le.mpr (hfound c hc x hold (hid.symm.trans hown) hnot hkept))
        · rw [if_neg hown] at hpassword
          rcases hreplaced.sessions x hx with ⟨hacc, -⟩ | ⟨hold, -⟩
          · exact absurd (hid.trans hacc) hown
          · have hbefore : Alive s.db x := by
              intro b hb hbid t ht
              obtain rfl : b = a := Table.eq_of_key hb ha (hbid.trans (hid.symm.trans haid.symm))
              exact halive a' ha' hid t (hpassword ▸ ht)
            have hcurrent := h.current x hold hbefore a ha (haid.trans hid)
            rw [hpassword, haid] at hcurrent
            refine hcurrent.imp id (Or.imp (fun hdeleted => ?_) fun hkept => ?_)
            · rw [hdeleted]
              simp only
              split
              · rw [Function.update_of_ne hown]
              · rfl
            · exact (Function.update_of_ne hown ..).trans hkept

/-- A new account has no session. -/
theorem createAccount (h : Dated s) (a : NewAccount) : Dated { s with db := (sysCreateAccount s.db a now).2 } := by
  rw [sysCreateAccount]
  split
  · exact h
  · split
    · exact h
    · rename_i accounts haccounts
      have hstays {id : Uuid} (hany : ∃ b ∈ s.db.accounts, b.id = id) : ∃ b ∈ accounts, b.id = id := by
        obtain ⟨b, hb, rfl⟩ := hany
        exact ⟨b, (Table.mem_insert? haccounts).mpr (.inl hb), rfl⟩
      refine ⟨fun x hx => hstays (h.owned x hx), fun o ho => hstays (h.opened o ho),
        fun c hc => hstays (h.changing c hc), fun x hx halive b hb hid => ?_⟩
      rcases (Table.mem_insert? haccounts).mp hb with hold | rfl
      · exact h.current x hx (fun d hd => halive d ((Table.mem_insert? haccounts).mpr (.inl hd))) b hold hid
      · obtain ⟨o, ho, hoid⟩ := h.owned x hx
        exact absurd (hoid.trans hid.symm) (Table.key_fresh_of_insert? haccounts ho)

/-- **What every step keeps.** -/
theorem step {s' : SignIns} {e : SignInEvent × Timestamp} (h : Dated s)
    (hstep : (signIns emailVerificationRequired).step s e s') (hundisturbed : Undisturbed s e s') : Dated s' := by
  obtain ⟨e, now⟩ := e
  obtain ⟨-, rfl⟩ := hstep
  suffices hnext : Dated (s.perform emailVerificationRequired now e) from
    ⟨hnext.owned, hnext.opened, hnext.changing, hnext.current⟩
  cases e with
  | lookup request =>
    simp only [SignIns.perform]
    split
    · exact h
    · exact h.attempts _
  | verifyPassword i | checkAddress i | readFactor i => exact h.advance i _
  | beginSession i startedAt => exact h.beginSession i startedAt
  | identitySignIn => exact h.beginIdentity _ _ _ _ _ _
  | commitSession i => exact h.commitSession hundisturbed
  | rollBackSession i =>
    exact h.under (fun o ho => .inl (List.mem_of_mem_eraseIdx ho)) fun c hc => .inl ⟨c, hc, rfl⟩
  | renew => exact h.quiet (.updateSessions (fun _ => rfl) fun _ _ _ => .inl rfl)
  | promote =>
    simp only [SignIns.perform]
    split
    · exact h
    · exact h.write fun _ _ hr => sysSessionPromote_quiet hr
  | changePassword change => exact h.changePassword change
  | passwordReset => exact h.passwordReset _ _ _
  | emailVerify => exact h.emailVerify _ _ _
  | markVerified accountId => exact h.markVerified accountId
  | statement j => exact h.statement j
  | commitChange j => exact h.commitChange hundisturbed
  | rollBackChange j =>
    exact h.under (fun o ho => .inl ho) fun c hc => .inl ⟨c, List.mem_of_mem_eraseIdx hc, rfl⟩
  | createAccount a => exact h.createAccount a
  | setDisabled | setSecondFactor =>
    simp only [SignIns.perform]
    split
    · exact h
    · exact h.quiet (.updateAccount fun _ => rfl)
  | issueToken =>
    simp only [SignIns.perform]
    split
    · exact h
    · exact h.write fun _ _ hr => sysCredentialTokenIssue_quiet hr
  | linkIdentity i =>
    simp only [SignIns.perform]
    split
    · exact h
    · exact h.quiet (sysIdentityLink_quiet i)
  | linkIdentityByEmail =>
    simp only [SignIns.perform]
    split
    · exact h
    · exact h.quiet (sysIdentityLinkByEmail_quiet _ _ _)
  | unlinkIdentity =>
    simp only [SignIns.perform]
    split
    · exact h
    · exact h.quiet (sysIdentityUnlink_quiet _)
  | revokeAll => exact h.quiet (.deleteSessions _)

end Dated

/-- **A replaced credential gives no session.** In every run whose steps are undisturbed, every session the lookup
accepts is from the password the account has now, from an identity that no change has deleted since it was read, or is
the one session that the last change of the account kept or made. -/
theorem replacedCredential_gives_no_session {s : SignIns}
    (hs : ((signIns emailVerificationRequired).restrict Undisturbed).Reachable s) {tokenHash : TokenHash}
    {now : Timestamp} {x : Session} (haccepted : (sysSessionLookup s.db tokenHash now).1 = some x) : Current s x := by
  have hdated : Dated s := by
    refine hs.invariant (I := Dated) (fun s h0 => ?_) fun s e s' h hstep => ?_
    · rw [show s = {} from h0]
      refine ⟨?_, ?_, ?_, ?_⟩ <;> intro x hx <;> cases hx
    · obtain ⟨htaken, hundisturbed⟩ := hstep
      exact h.step emailVerificationRequired htaken hundisturbed
  rw [sysSessionLookup] at haccepted
  split at haccepted
  · cases haccepted
  · rename_i hfind
    cases haccepted
    obtain ⟨hx, hcond⟩ := Table.find?_some hfind
    refine hdated.current x hx fun a ha hid t ht => ?_
    obtain ⟨b, hb, hbcond⟩ := Table.any_iff.mp (Bool.and_eq_true_iff.mp (Bool.and_eq_true_iff.mp hcond).2).2
    obtain ⟨hbid, hchanged⟩ := Bool.and_eq_true_iff.mp hbcond
    obtain rfl : b = a := Table.eq_of_key hb ha ((of_decide_eq_true hbid).1.trans hid.symm)
    rw [ht] at hchanged
    exact of_decide_eq_true hchanged

/-! ## One sign-in -/

/-- The step an event takes at its time. -/
def SignIns.next (s : SignIns) (e : SignInEvent × Timestamp) : Option SignIns :=
  if s.clock < e.2 then some { s.perform emailVerificationRequired e.2 e.1 with clock := e.2 } else none

/-- The steps of one password sign-in before its session is created. -/
def passwordChecked : List (SignInEvent × Timestamp) :=
  [(.createAccount ⟨1, "owner@slugbase.example", some "old", true⟩, 1),
    (.lookup ⟨"owner@slugbase.example", false, 7, 70, none⟩, 2), (.verifyPassword 0 true, 3), (.checkAddress 0, 4),
    (.readFactor 0, 5)]

/-- The session of the sign-in, created from this time on. -/
def created (now : Timestamp) : List (SignInEvent × Timestamp) :=
  [(.beginSession 0 now, now), (.commitSession 0, now + 1)]

/-- A password reset, statement by statement, from this time on. -/
def resetMeanwhile (now : Timestamp) : List (SignInEvent × Timestamp) :=
  [(.issueToken .passwordReset 1 90 none 3600, now), (.passwordReset 90 "new" ⟨8, 80, none⟩, now + 1),
    (.statement 0, now + 2), (.statement 0, now + 3), (.statement 0, now + 4), (.commitChange 0, now + 5)]

theorem signIns_next {s s' : SignIns} {e : SignInEvent × Timestamp}
    (h : s.next emailVerificationRequired e = some s') : (signIns emailVerificationRequired).step s e s' := by
  rw [SignIns.next] at h
  split at h
  · rename_i hlater
    cases h
    exact ⟨hlater, rfl⟩
  · cases h

/-- The same, of steps that are not disturbed. -/
def SignIns.nextUndisturbed (s : SignIns) (e : SignInEvent × Timestamp) : Option SignIns :=
  if Undisturbed s e s then s.next emailVerificationRequired e else none

theorem signIns_nextUndisturbed {s s' : SignIns} {e : SignInEvent × Timestamp}
    (h : s.nextUndisturbed emailVerificationRequired e = some s') :
    ((signIns emailVerificationRequired).restrict Undisturbed).step s e s' := by
  by_cases hundisturbed : Undisturbed s e s
  · rw [SignIns.nextUndisturbed, if_pos hundisturbed] at h
    exact ⟨signIns_next emailVerificationRequired h, hundisturbed⟩
  · rw [SignIns.nextUndisturbed, if_neg hundisturbed] at h
    cases h

/-- The sign-in whose session is created right away, and a reset after it. -/
def signedIn : SignIns :=
  (System.follow (SignIns.nextUndisturbed false) {} (passwordChecked ++ created 6 ++ resetMeanwhile 8)).getD {}

theorem replacedCredential_gives_no_session_signedIn :
    ∃ x, (sysSessionLookup signedIn.db 80 14).1 = some x ∧ Current signedIn x := by
  have hs : ((signIns false).restrict Undisturbed).Reachable signedIn :=
    System.Reachable.follow (fun _ _ _ => signIns_nextUndisturbed false) (.init rfl) _ _ (by decide +kernel)
  have haccepted : (sysSessionLookup signedIn.db 80 14).1 =
      some (NewSession.row ⟨8, 1, .full, false, 80, none⟩ 12) := by
    decide +kernel
  exact ⟨_, haccepted, replacedCredential_gives_no_session false hs haccepted⟩

/-- The sign-in whose session is created after a reset. -/
def signedInLate : SignIns :=
  (System.follow (SignIns.next false) {} (passwordChecked ++ resetMeanwhile 6 ++ created 12)).getD {}

/-- **A session of the password that the reset replaced.** -/
theorem replacedCredential_gives_session : ∃ s, (signIns false).Reachable s ∧ ∃ tokenHash now x,
    (sysSessionLookup s.db tokenHash now).1 = some x ∧ ¬Current s x := by
  have hs : (signIns false).Reachable signedInLate :=
    System.Reachable.follow (fun _ _ _ => signIns_next false) (.init rfl) _ _ (by decide +kernel)
  refine ⟨signedInLate, hs, 70, 14, NewSession.row ⟨7, 1, .full, false, 70, none⟩ 12, by decide +kernel,
    fun hcurrent => ?_⟩
  obtain ⟨a, ha, hid, hchanged⟩ : ∃ a ∈ signedInLate.db.accounts.rows, a.id = 1 ∧ a.passwordChangedAt = some 7 := by
    decide +kernel
  have horigin : signedInLate.origin 7 = .credential none := by decide +kernel
  have hkept : signedInLate.kept 1 = some 8 := by decide +kernel
  rcases hcurrent a ha hid with hread | hread | hmade
  · rw [hchanged] at hread
    exact absurd (horigin.symm.trans hread) (by decide)
  · exact absurd (horigin.symm.trans hread) (by simp)
  · rw [hid] at hmade
    exact absurd (hkept.symm.trans hmade) (by decide)

end SlugBase.Auth
