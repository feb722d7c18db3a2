import SlugBase.Auth.Notice
import SlugBase.Lib.Transition

/-!
# The undo link of a change

Requests, mail jobs, confirmations and redemptions in any order, each an atomic step, with the messages handed to the
mail port one by one.

* `Mailing`, `Event`, `mailing`: the system;
* **`Announced`**: every unused confirmation has its notice, handed first;
* **`Standing`**: the cancel token of a confirmed change stays until it, or an earlier one, is redeemed;
* **`undoLink_stands`**: the notice of a confirmed change was handed first, by the run of the job that handed the
  confirmation, and every unused link for the old address puts it back.
-/

namespace SlugBase.Auth

open Relational Relation Transition

/-! ## The system -/

/-- The database, the tokens drawn so far, the tokens of each run of the mail job for a change, the runs of the job with
the messages they have still to hand, and the messages handed to the mail port, the newest first. -/
structure Mailing where
  db : AuthDb := {}
  clock : Timestamp := 0
  drawn : List TokenHash := []
  changes : List GeneratedTokens := []
  jobs : List (List Mail) := []
  outbox : List Mail := []

/-- A step: an operation, a run of the mail job up to its commit, one message of a run handed to the mail port, or the
end of a run before it handed the rest. -/
inductive Event
  | createAccount (a : NewAccount)
  | setDisabled (accountId : Uuid) (disabledAt : Option Timestamp)
  | createSession (s : NewSession)
  | request (accountId : Uuid) (email : Address)
  | clear (accountId : Uuid)
  | mailJob (template : MailTemplate) (accountId : Uuid) (tokens : GeneratedTokens)
  | hand (job : ℕ)
  | cutOff (job : ℕ)
  | confirm (tokenHash : TokenHash)
  | cancel (tokenHash : TokenHash)
  | passwordReset (tokenHash : TokenHash) (passwordHash : PasswordHash) (session : RedemptionSession)
  | emailVerify (tokenHash : TokenHash) (passwordHash : PasswordHash) (session : RedemptionSession)
  deriving DecidableEq, Repr

/-- The database after a statement that may raise. -/
def committed {α : Type} (db : AuthDb) (r : Option (α × AuthDb)) : AuthDb := (r.map (·.2)).getD db

/-- What an event makes of the database, the mail job's aside. -/
def Event.writes (db : AuthDb) (now : Timestamp) : Event → AuthDb
  | .createAccount a => (sysCreateAccount db a now).2
  | .setDisabled id disabledAt => db.setDisabled id disabledAt
  | .createSession s => committed db (sysSessionCreate db s now)
  | .request id email => (sysEmailChangeRequest db id email).2
  | .clear id => (sysEmailChangeClear db id).2
  | .confirm tokenHash => (sysEmailChangeConfirm db tokenHash now).2
  | .cancel tokenHash => (sysEmailChangeCancel db tokenHash now).2
  | .passwordReset tokenHash passwordHash session =>
    committed db (sysPasswordReset db tokenHash passwordHash session now)
  | .emailVerify tokenHash passwordHash session => committed db (sysEmailVerify db tokenHash passwordHash session now)
  | .mailJob .. | .hand _ | .cutOff _ => db

/-- One step at a time. -/
def Mailing.perform (s : Mailing) (now : Timestamp) : Event → Mailing
  | .mailJob template id tokens =>
    let s := { s with clock := now, drawn := tokens.first :: tokens.second :: s.drawn }
    match mailSendJob s.db template id tokens now with
    | none => s
    | some (mails, db) =>
      { s with
        db := db
        changes := if template = .emailChange then tokens :: s.changes else s.changes
        jobs := mails :: s.jobs }
  | .hand job =>
    match s.jobs[job]? with
    | some (m :: rest) => { s with clock := now, jobs := s.jobs.set job rest, outbox := m :: s.outbox }
    | _ => { s with clock := now }
  | .cutOff job => { s with clock := now, jobs := s.jobs.eraseIdx job }
  | e => { s with clock := now, db := e.writes s.db now }

/-- A token is drawn once. -/
def Event.Fresh (drawn : List TokenHash) : Event → Prop
  | .mailJob _ _ tokens => tokens.first ∉ drawn ∧ tokens.second ∉ drawn ∧ tokens.first ≠ tokens.second
  | _ => True

/-- Every operation on any account, in any order. -/
def mailing : System Mailing (Event × Timestamp) where
  init s := s = {}
  step s e s' := s.clock ≤ e.2 ∧ e.1.Fresh s.drawn ∧ s' = s.perform e.2 e.1

/-! ## The notice is handed first -/

/-- **What holds between the steps.** -/
structure Announced (s : Mailing) : Prop where
  reserved : Reserved s.db s.clock
  drawnTokens : ∀ t ∈ s.db.tokens, t.tokenHash ∈ s.drawn
  drawnJobs : ∀ j ∈ s.jobs, ∀ m ∈ j, m.token ∈ s.drawn
  drawnOutbox : ∀ m ∈ s.outbox, m.token ∈ s.drawn
  noticed : Noticed s.db fun notice tokenHash => ⟨notice.token, tokenHash⟩ ∈ s.changes ∧
    NoticeFirst notice tokenHash s.outbox ∧ ∀ j ∈ s.jobs, Cleared notice tokenHash s.outbox j

/-- The cancel tokens an event uses, or ends as issued after the one it uses. -/
def Event.Undoes (db : AuthDb) (now : Timestamp) : Event → CredentialToken → Prop
  | .cancel tokenHash => Undone db now tokenHash
  | _ => fun _ => False

theorem committed_writes {α : Type} {db : AuthDb} {now : Timestamp} {undone : CredentialToken → Prop}
    {placed : Uuid → Address → Prop} {drawn : TokenHash → Prop} {r : Option (α × AuthDb)}
    (h : ∀ a db', r = some (a, db') → Writes now undone placed drawn db db') :
    Writes now undone placed drawn db (committed db r) := by
  cases r with
  | none => exact .refl
  | some r => exact h r.1 r.2 rfl

theorem Event.writes_spec {db : AuthDb} {now : Timestamp} (e : Event) (hr : Reserved db now) :
    Writes now (e.Undoes db now) (Placed (e.writes db now)) (fun _ => False) db (e.writes db now) := by
  cases e with
  | createAccount a => exact writes_createAccount a
  | setDisabled id disabledAt => exact .single (writes_setDisabled id disabledAt)
  | createSession s => exact committed_writes fun _ _ h => writes_sessionCreate h
  | request id email => exact writes_request id email
  | clear id => exact writes_clear id
  | confirm tokenHash => exact writes_confirm tokenHash
  | cancel tokenHash => exact writes_cancel hr
  | passwordReset tokenHash passwordHash session => exact committed_writes fun _ _ h => writes_passwordReset h
  | emailVerify tokenHash passwordHash session => exact committed_writes fun _ _ h => writes_emailVerify h
  | mailJob | hand | cutOff => exact .refl

namespace Announced

variable {s : Mailing} {now : Timestamp}

theorem write (h : Announced s) (hnow : s.clock ≤ now) (e : Event) :
    Announced { s with clock := now, db := e.writes s.db now } := by
  have hr := h.reserved.later hnow
  have hw := e.writes_spec hr
  refine ⟨hr.writes hw, fun t ht => ?_, h.drawnJobs, h.drawnOutbox, h.noticed.writes hr hw⟩
  rcases hw.hashes t ht with ⟨t₀, ht₀, heq⟩ | hfalse
  · exact heq ▸ h.drawnTokens t₀ ht₀
  · exact hfalse.elim

/-- A run of the mail job. -/
theorem mailJob (h : Announced s) (hnow : s.clock ≤ now) {template : MailTemplate} {id : Uuid}
    {tokens : GeneratedTokens} (hfresh : (Event.mailJob template id tokens).Fresh s.drawn) :
    Announced (s.perform now (.mailJob template id tokens)) := by
  obtain ⟨hfirst, hsecond, hne⟩ := hfresh
  have hr := h.reserved.later hnow
  have hdrawn {x : TokenHash} (hx : x ∈ s.drawn) : x ∈ tokens.first :: tokens.second :: s.drawn :=
    List.mem_cons_of_mem _ (List.mem_cons_of_mem _ hx)
  have hf : tokens.first ∈ tokens.first :: tokens.second :: s.drawn := List.mem_cons_self ..
  have hs : tokens.second ∈ tokens.first :: tokens.second :: s.drawn := List.mem_cons_of_mem _ (List.mem_cons_self ..)
  -- the messages of the run carry no token drawn before
  have hjob {mails : List Mail} (hm : ∀ m ∈ mails, m.token = tokens.first ∨ m.token = tokens.second) :
      (∀ m ∈ mails, m.token ∈ tokens.first :: tokens.second :: s.drawn) ∧
        ∀ e ∈ s.db.tokens, ∀ notice, Cleared notice e.tokenHash s.outbox mails := by
    refine ⟨fun m hmem => ?_, fun e he notice => Cleared.of_given fun m hmem heq => ?_⟩
    · rcases hm m hmem with heq | heq
      · exact heq ▸ hf
      · exact heq ▸ hs
    · rcases hm m hmem with heq' | heq'
      · exact hfirst (heq'.symm.trans heq ▸ h.drawnTokens e he)
      · exact hsecond (heq'.symm.trans heq ▸ h.drawnTokens e he)
  have hjobs {mails : List Mail} (hm : ∀ m ∈ mails, m.token ∈ tokens.first :: tokens.second :: s.drawn) :
      ∀ j ∈ mails :: s.jobs, ∀ m ∈ j, m.token ∈ tokens.first :: tokens.second :: s.drawn := by
    intro j hj m hmem
    rcases List.mem_cons.mp hj with rfl | hj
    · exact hm m hmem
    · exact hdrawn (h.drawnJobs j hj m hmem)
  have hchanges {x : GeneratedTokens} (hx : x ∈ s.changes) :
      x ∈ if template = .emailChange then tokens :: s.changes else s.changes := by
    split
    · exact List.mem_cons_of_mem _ hx
    · exact hx
  simp only [Mailing.perform]
  split
  · exact ⟨hr, fun t ht => hdrawn (h.drawnTokens t ht), fun j hj m hm => hdrawn (h.drawnJobs j hj m hm),
      fun m hm => hdrawn (h.drawnOutbox m hm), h.noticed⟩
  · rename_i mails db' hrun
    by_cases htemplate : template = .emailChange
    · subst htemplate
      have hissued := mailSendJob_emailChange hrun
      have hm : ∀ m ∈ mails, m.token = tokens.first ∨ m.token = tokens.second := by
        cases hissued <;> simp [Mail.token]
      refine ⟨hissued.reserved hr, fun t ht => ?_, hjobs (hjob hm).1, fun m hm => hdrawn (h.drawnOutbox m hm), ?_⟩
      · rcases hissued.mem_tokens ht with ht | heq | heq
        · exact hdrawn (h.drawnTokens t ht)
        · exact heq ▸ hf
        · exact heq ▸ hs
      · refine hissued.noticed h.noticed (fun e he notice hsent => ⟨hchanges hsent.1, hsent.2.1, ?_⟩)
          fun email pending heq => ⟨?_, ?_, ?_⟩
        · exact List.forall_mem_cons.mpr ⟨(hjob hm).2 e he notice, hsent.2.2⟩
        · rw [if_pos rfl]
          exact List.mem_cons_self
        · exact NoticeFirst.of_given fun m hm heq => hsecond (heq ▸ h.drawnOutbox m hm)
        · refine List.forall_mem_cons.mpr ⟨?_, fun j hj => ?_⟩
          · rw [heq]
            refine ⟨fun hconf => absurd hconf.token hne, fun _ => List.mem_cons_self .., trivial⟩
          · exact Cleared.of_given fun m hm heq => hsecond (heq ▸ h.drawnJobs j hj m hm)
    · obtain ⟨hw, hm⟩ := mailSendJob_other htemplate hrun
      have hm' : ∀ m ∈ mails, m.token = tokens.first ∨ m.token = tokens.second := fun m hmem => .inl (hm m hmem)
      refine ⟨hr.writes hw, fun t ht => ?_, hjobs (hjob hm').1, fun m hm => hdrawn (h.drawnOutbox m hm), ?_⟩
      · rcases hw.hashes t ht with ⟨t₀, ht₀, heq⟩ | heq
        · exact heq ▸ hdrawn (h.drawnTokens t₀ ht₀)
        · exact heq ▸ hf
      · exact (h.noticed.imp fun e he notice hsent =>
          ⟨hchanges hsent.1, hsent.2.1, List.forall_mem_cons.mpr ⟨(hjob hm').2 e he notice, hsent.2.2⟩⟩).writes hr hw

/-- A message that is handed to the mail port. -/
theorem hand (h : Announced s) (hnow : s.clock ≤ now) {job : ℕ} {m : Mail} {rest : List Mail}
    (hjob : s.jobs[job]? = some (m :: rest)) :
    Announced { s with clock := now, jobs := s.jobs.set job rest, outbox := m :: s.outbox } := by
  have hmem : m :: rest ∈ s.jobs := List.mem_of_getElem? hjob
  refine ⟨h.reserved.later hnow, h.drawnTokens, fun j hj n hn => ?_, fun n hn => ?_, fun e he hp hu => ?_⟩
  · rcases List.mem_or_eq_of_mem_set hj with hj | rfl
    · exact h.drawnJobs j hj n hn
    · exact h.drawnJobs _ hmem n (List.mem_cons_of_mem _ hn)
  · rcases List.mem_cons.mp hn with rfl | hn
    · exact h.drawnJobs _ hmem n (List.mem_cons_self ..)
    · exact h.drawnOutbox n hn
  · obtain ⟨c, email, hc, hrun, hfirst, hcleared⟩ := h.noticed e he hp hu
    obtain ⟨hm, hrest⟩ := hcleared _ hmem
    refine ⟨c, email, hc, hrun, ⟨hm, hfirst⟩, fun j hj => ?_⟩
    rcases List.mem_or_eq_of_mem_set hj with hj | rfl
    · exact (hcleared j hj).mono fun n hn => List.mem_cons_of_mem _ hn
    · exact hrest

theorem cutOff (h : Announced s) (hnow : s.clock ≤ now) (job : ℕ) :
    Announced { s with clock := now, jobs := s.jobs.eraseIdx job } := by
  refine ⟨h.reserved.later hnow, h.drawnTokens, fun j hj => h.drawnJobs j (List.mem_of_mem_eraseIdx hj), h.drawnOutbox,
    fun e he hp hu => ?_⟩
  obtain ⟨c, email, hc, hrun, hfirst, hcleared⟩ := h.noticed e he hp hu
  exact ⟨c, email, hc, hrun, hfirst, fun j hj => hcleared j (List.mem_of_mem_eraseIdx hj)⟩

theorem later (h : Announced s) (hnow : s.clock ≤ now) : Announced { s with clock := now } :=
  ⟨h.reserved.later hnow, h.drawnTokens, h.drawnJobs, h.drawnOutbox, h.noticed⟩

/-- Every step keeps it. -/
theorem step (h : Announced s) {e : Event × Timestamp} {s' : Mailing} (hstep : mailing.step s e s') :
    Announced s' := by
  obtain ⟨e, now⟩ := e
  obtain ⟨hnow, hfresh, rfl⟩ := hstep
  cases e with
  | mailJob => exact h.mailJob hnow hfresh
  | hand job =>
    simp only [Mailing.perform]
    split
    · rename_i hjob
      exact h.hand hnow hjob
    · exact h.later hnow
  | cutOff job => exact h.cutOff hnow job
  | createAccount | setDisabled | createSession | request | clear | confirm | cancel | passwordReset | emailVerify =>
    exact h.write hnow _

end Announced

/-- **Every state of every run is announced.** -/
theorem announced {s : Mailing} (hs : mailing.Reachable s) : Announced s := by
  refine hs.invariant (fun s h0 => ?_) fun s e s' h hstep => h.step hstep
  rw [show s = {} from h0]
  refine ⟨⟨?_, ?_, ?_, ?_, ?_, ?_, ?_⟩, ?_, ?_, ?_, ?_⟩ <;> intro x hx <;> cases hx

/-! ## The cancel token stays -/

/-- The cancel token of a confirmed change: it records an address its account holds no longer. -/
structure Standing (db : AuthDb) (c : CredentialToken) (email : Address) : Prop where
  mem : c ∈ db.tokens
  purpose : c.purpose = .emailChangeCancel
  unused : c.usedAt = none
  records : c.targetEmail = some email
  moved : ∀ a ∈ db.accounts, a.id = c.accountId → a.email ≠ email

namespace Standing

variable {db db' : AuthDb} {now : Timestamp} {undone : CredentialToken → Prop} {placed : Uuid → Address → Prop}
  {drawn : TokenHash → Prop} {c : CredentialToken} {email : Address}

theorem not_current (h : Standing db c email) {a : Account} (ha : a ∈ db.accounts) (hid : c.accountId = a.id) :
    ¬(c.targetEmail = none ∨ c.targetEmail = some a.email) := by
  rw [h.records]
  rintro (hnone | hsome)
  · cases hnone
  · exact h.moved a ha hid.symm (Option.some.inj hsome).symm

theorem deleteTokens (h : Standing db c email) {p : CredentialToken → Bool} (hp : p c = false) :
    Standing (db.deleteTokens p) c email :=
  ⟨Table.mem_deleteWhere.mpr ⟨h.mem, hp⟩, h.purpose, h.unused, h.records, h.moved⟩

/-- No write but the redemption of the token, or of one issued before it, takes it away. -/
theorem write (h : Standing db c email) (hr : Reserved db now) (hw : Write now undone placed drawn db db')
    (hspared : ¬undone c) (haway : ¬placed c.accountId email) : Standing db' c email := by
  cases hw with
  | rest haccounts htokens =>
    exact ⟨htokens ▸ h.mem, h.purpose, h.unused, h.records, haccounts ▸ h.moved⟩
  | account hemail _ =>
    refine ⟨h.mem, h.purpose, h.unused, h.records, fun a' ha' hid => ?_⟩
    obtain ⟨a, ha, haid, rfl⟩ := AuthDb.mem_updateAccount ha'
    have hbefore := h.moved a ha (haid.trans hid)
    split
    · rw [hemail]
      exact hbefore
    · exact hbefore
  | @use purpose tokenHash hundone =>
    have hnot : c.redeemable purpose tokenHash now = false := by
      refine Bool.eq_false_iff.mpr fun hlive => ?_
      exact hspared (hundone c h.mem h.purpose hlive)
    have hmem := markUsed_mem (·.redeemable purpose tokenHash now) now h.mem
    rw [if_neg (by simp [hnot])] at hmem
    exact ⟨hmem, h.purpose, h.unused, h.records, h.moved⟩
  | discard hd =>
    refine h.deleteTokens (Bool.eq_false_iff.mpr fun hgone => ?_)
    cases hd with
    | pendingChange ha =>
      obtain ⟨hid, -, hp | ⟨-, htarget⟩⟩ := of_decide_eq_true hgone
      · exact absurd (h.purpose.symm.trans hp) (by decide)
      · exact h.not_current ha hid htarget
    | confirmations id =>
      rw [not_confirmations h.purpose] at hgone
      cases hgone
    | older id hne => exact hne ((of_decide_eq_true hgone).2.1.symm.trans h.purpose)
    | verification ha hnot =>
      exact hr.verified c h.mem (.inr h.purpose) _ ha (of_decide_eq_true hgone).1.symm hnot
  | undo hundone =>
    refine h.deleteTokens (Bool.eq_false_iff.mpr fun hgone => ?_)
    obtain ⟨hid, -, hp | hp | ⟨-, hnone | hlater⟩⟩ := of_decide_eq_true hgone
    · exact absurd (h.purpose.symm.trans hp) (by decide)
    · exact absurd (h.purpose.symm.trans hp) (by decide)
    · exact absurd (h.records.symm.trans hnone) (Option.some_ne_none email)
    · exact hspared (hundone c hid hlater)
  | issue hinsert =>
    obtain ⟨tokens, htokens, rfl⟩ := AuthDb.insertToken_some hinsert
    exact ⟨(Table.mem_insert? htokens).mpr (.inl h.mem), h.purpose, h.unused, h.records, h.moved⟩
  | create hinsert =>
    refine ⟨h.mem, h.purpose, h.unused, h.records, fun a' ha' hid => ?_⟩
    rcases (Table.mem_insert? hinsert).mp ha' with ha' | rfl
    · exact h.moved a' ha' hid
    · obtain ⟨o, ho, hoid⟩ := hr.owned c h.mem
      exact absurd (hoid.trans hid.symm) (Table.key_fresh_of_insert? hinsert ho)
  | @move id _ _ target hemail _ _ _ _ hplaced =>
    refine ⟨h.mem, h.purpose, h.unused, h.records, fun a' ha' hid => ?_⟩
    obtain ⟨a, ha, haid, rfl⟩ := AuthDb.mem_updateAccount ha'
    split
    · rename_i heq
      rw [hemail]
      rintro rfl
      exact haway ((heq.symm.trans (haid.trans hid)) ▸ hplaced)
    · exact h.moved a ha (haid.trans hid)

theorem writes (h : Standing db c email) (hr : Reserved db now) (hw : Writes now undone placed drawn db db')
    (hspared : ¬undone c) (haway : ¬placed c.accountId email) : Standing db' c email := by
  induction hw with
  | refl => exact h
  | tail hbefore hstep ih => exact ih.write (hr.writes hbefore) hstep hspared haway

theorem issued {tokens : GeneratedTokens} {mails : List Mail} (h : Standing db c email)
    (hi : Issued now tokens db mails db') : Standing db' c email := by
  refine ⟨hi.keeps h.mem h.purpose fun a ha => ?_, h.purpose, h.unused, h.records, hi.accounts ▸ h.moved⟩
  refine Bool.eq_false_iff.mpr fun hgone => ?_
  obtain ⟨hid, -, -, htarget⟩ := of_decide_eq_true hgone
  exact h.not_current ha hid htarget

end Standing

/-! ## From the confirmation on -/

/-- The steps after a change from this address: the cancel token is not used, nor is one issued before it, and the
account's address is not the old one again. -/
def Spared (c : CredentialToken) (email : Address) (s : Mailing) (e : Event × Timestamp) (s' : Mailing) : Prop :=
  ¬e.1.Undoes s.db e.2 c ∧ ∀ a ∈ s'.db.accounts, a.id = c.accountId → a.email ≠ email

theorem Standing.operation {db : AuthDb} {now : Timestamp} {c : CredentialToken} {email : Address} {e : Event}
    (h : Standing db c email) (hr : Reserved db now) (hspared : ¬e.Undoes db now c)
    (hmoved : ∀ a ∈ (e.writes db now).accounts, a.id = c.accountId → a.email ≠ email) :
    Standing (e.writes db now) c email := by
  have hw := e.writes_spec hr
  refine h.writes hr hw hspared fun hplaced => ?_
  -- the account is there still, and it would hold the old address
  obtain ⟨a, ha, haid⟩ := hr.owned c h.mem
  obtain ⟨a', ha', hid⟩ := hw.accounts ha
  exact hmoved a' ha' (hid.trans haid) (hplaced a' ha' (hid.trans haid))

/-- What a step keeps. -/
theorem Standing.step {s s' : Mailing} {c : CredentialToken} {email : Address} {e : Event × Timestamp}
    (h : Standing s.db c email) (ha : Announced s) (hstep : mailing.step s e s') (hspared : Spared c email s e s') :
    Standing s'.db c email := by
  obtain ⟨e, now⟩ := e
  obtain ⟨hnow, -, rfl⟩ := hstep
  obtain ⟨hspared, hmoved⟩ := hspared
  have hr := ha.reserved.later hnow
  cases e with
  | mailJob template id tokens =>
    simp only [Mailing.perform]
    split
    · exact h
    · rename_i mails db' hrun
      by_cases htemplate : template = .emailChange
      · subst htemplate
        exact h.issued (mailSendJob_emailChange hrun)
      · exact h.writes hr (mailSendJob_other htemplate hrun).1 not_false not_false
  | hand job =>
    simp only [Mailing.perform]
    split <;> exact h
  | cutOff => exact h
  | createAccount | setDisabled | createSession | request | clear | confirm | cancel | passwordReset | emailVerify =>
    exact h.operation hr hspared hmoved

theorem Standing.run {s s' : Mailing} {c : CredentialToken} {email : Address} (hs : mailing.Reachable s)
    (h : Standing s.db c email)
    (hrun : ((mailing.startingAt s).restrict (Spared c email)).Reachable s') :
    mailing.Reachable s' ∧ Standing s'.db c email := by
  refine hrun.invariant (I := fun s' => mailing.Reachable s' ∧ Standing s'.db c email) (fun s₀ h0 => ?_)
    fun s₁ e s₂ h₁ hstep => ?_
  · cases h0
    exact ⟨hs, h⟩
  · obtain ⟨hreach, hstanding⟩ := h₁
    exact ⟨.step hreach hstep.1, hstanding.step (announced hreach) hstep.1 hstep.2⟩

/-- What a confirmation redeems, and what it leaves. -/
theorem sysEmailChangeConfirm_some {db : AuthDb} {tokenHash : TokenHash} {now : Timestamp} {id : Uuid}
    (h : (sysEmailChangeConfirm db tokenHash now).1 = some id) :
    ∃ e ∈ db.tokens, ∃ target, e.redeemable .emailChange tokenHash now = true ∧ e.accountId = id ∧
      e.targetEmail = some target ∧ (∃ a ∈ db.accounts, a.id = id) ∧
        Placed (sysEmailChangeConfirm db tokenHash now).2 id target ∧
          ∀ c ∈ db.tokens, c.purpose = .emailChangeCancel → c ∈ (sysEmailChangeConfirm db tokenHash now).2.tokens := by
  generalize hr : sysEmailChangeConfirm db tokenHash now = r at h
  rw [sysEmailChangeConfirm] at hr
  split at hr
  · subst hr
    cases h
  · rename_i e db₁ hconsume
    obtain ⟨he, hlive, rfl⟩ := sysCredentialTokenConsume_some hconsume
    split at hr
    · subst hr
      cases h
    · rename_i target htarget
      split at hr
      · subst hr
        cases h
      · rename_i hany
        split at hr
        · subst hr
          cases h
        · subst hr
          cases h
          simp only [Bool.not_eq_true', Bool.not_eq_false] at hany
          obtain ⟨a, ha, hcond⟩ := Table.any_iff.mp hany
          refine ⟨e, he, target, hlive, rfl, htarget, ⟨a, ha, (of_decide_eq_true hcond).1⟩,
            placed_updateAccount fun _ => rfl, fun c hc hp => ?_⟩
          have hmem := markUsed_mem (·.redeemable .emailChange tokenHash now) now hc
          rw [if_neg fun hlive => absurd ((of_decide_eq_true hlive).1.symm.trans hp) (by decide)] at hmem
          exact Table.mem_deleteWhere.mpr ⟨hmem, not_confirmations hp⟩

/-- What redeeming the token does while it stands: the address is put back, the sessions end, and so does every unused
token issued after it. -/
structure PutBack (r : Option Uuid × AuthDb) (c : CredentialToken) (email : Address) : Prop where
  redeemed : r.1 = some c.accountId
  restored : ∃ a ∈ r.2.accounts, a.id = c.accountId ∧ a.email = email
  sessions : ∀ x ∈ r.2.sessions, x.accountId ≠ c.accountId
  tokens : ∀ t ∈ r.2.tokens, t.accountId = c.accountId → t.usedAt = none → t.createdAt ≤ c.createdAt

theorem Standing.redeem {db : AuthDb} {now : Timestamp} {c : CredentialToken} {email : Address}
    (h : Standing db c email) (hr : Reserved db now) (hlive : now < c.expiresAt)
    (henabled : (db.enabledAccount c.accountId).isSome) :
    PutBack (sysEmailChangeCancel db c.tokenHash now) c email := by
  obtain ⟨a, ha⟩ := Option.isSome_iff_exists.mp henabled
  obtain ⟨hmem, hid, -⟩ := AuthDb.enabledAccount_some ha
  have hredeem : c.redeemable .emailChangeCancel c.tokenHash now = true :=
    decide_eq_true ⟨h.purpose, rfl, h.unused, hlive⟩
  have hconsume : sysCredentialTokenConsume db .emailChangeCancel c.tokenHash now =
      some (c, db.markUsed (·.redeemable .emailChangeCancel c.tokenHash now) now) := by
    have hfind : db.tokens.find? (·.redeemable .emailChangeCancel c.tokenHash now) = some c :=
      Table.find?_of_only h.mem hredeem fun t ht hlive =>
        Table.eq_of_key ht h.mem (of_decide_eq_true hlive).2.1
    rw [sysCredentialTokenConsume, hfind]
    rfl
  have hheld : heldByOther db email c.accountId = false := by
    refine Bool.eq_false_iff.mpr fun hany => ?_
    obtain ⟨o, ho, hother⟩ := Table.any_iff.mp hany
    obtain ⟨hemail, hne⟩ := of_decide_eq_true hother
    exact hne (hr.kept c h.mem email (reserves_iff.mpr ⟨h.purpose, h.unused, hlive, h.records⟩) o ho hemail)
  have hcleared : heldByOther ((db.markUsed (·.redeemable .emailChangeCancel c.tokenHash now) now).updateAccount
      c.accountId (fun a => { a with pendingEmail := none }) fun _ => rfl) email c.accountId = false := by
    refine Bool.eq_false_iff.mpr fun hany => ?_
    obtain ⟨o, ho, hother⟩ := Table.any_iff.mp hany
    obtain ⟨hemail, hne⟩ := of_decide_eq_true hother
    obtain ⟨o₀, ho₀, hid₀, rfl⟩ := AuthDb.mem_updateAccount ho
    rw [← hid₀] at hne
    refine hne (heldByOther_false hheld ho₀ ?_)
    split at hemail <;> exact hemail
  have henabled' : (db.markUsed (·.redeemable .emailChangeCancel c.tokenHash now) now).enabledAccount c.accountId =
      some a := ha
  simp only [sysEmailChangeCancel, hconsume, henabled', h.records, if_neg (h.moved a hmem hid), hcleared,
    Bool.false_eq_true, if_false]
  refine ⟨rfl, ⟨{ a with pendingEmail := none, email := email }, ?_, hid, rfl⟩, fun x hx => ?_,
    fun t ht hacc hunused => ?_⟩
  · simp only [AuthDb.updateAccount, sysSessionRevokeAll, AuthDb.deleteSessions, AuthDb.deleteTokens,
      Table.mem_updateWhere]
    exact ⟨{ a with pendingEmail := none }, ⟨a, hmem, if_pos (decide_eq_true hid)⟩, if_pos (decide_eq_true hid)⟩
  · obtain ⟨-, hkept⟩ := Table.mem_deleteWhere.mp hx
    exact fun heq => absurd hkept (by simp [heq])
  · obtain ⟨htmem, hkept⟩ := Table.mem_deleteWhere.mp ht
    obtain ⟨t₀, ht₀, ⟨-, rfl⟩ | ⟨-, rfl⟩⟩ := mem_markUsed htmem
    · cases hunused
    · refine not_lt.mp fun hlater => ?_
      have hgone : endedByUndo c.accountId c.createdAt t = true := by
        refine decide_eq_true ⟨hacc, hunused, ?_⟩
        cases hp : t.purpose with
        | emailVerify => exact absurd (hr.earlier c h.mem t ht₀ h.purpose hp hacc) (not_le.mpr hlater)
        | emailChange => exact .inr (.inl rfl)
        | emailChangeCancel => exact .inr (.inr ⟨rfl, .inr hlater⟩)
        | passwordReset => exact .inl rfl
      rw [hgone] at hkept
      cases hkept

/-- **The undo link of a change.** Whenever a change is confirmed with a token that was handed to the mail port, the
notice with the cancel token for the old address, of the same run of the mail job, was handed before it. Every unused
cancel token of the account for the old address, in every run from then on that does not redeem it or an older one and
does not put the account back on the old address, stays; nobody gets the address while it has not expired, and redeeming
it while the account is enabled puts the address back. -/
theorem undoLink_stands {s : Mailing} (hs : mailing.Reachable s) {now : Timestamp} (hnow : s.clock ≤ now)
    {tokenHash : TokenHash} {id : Uuid} (hconfirmed : (sysEmailChangeConfirm s.db tokenHash now).1 = some id) :
    ∃ a ∈ s.db.accounts, a.id = id ∧
      (∃ c ∈ s.db.tokens, c.purpose = .emailChangeCancel ∧ c.accountId = id ∧ c.targetEmail = some a.email ∧
        ⟨c.tokenHash, tokenHash⟩ ∈ s.changes ∧
        ∀ newer older recipient, s.outbox = newer ++ .emailChange recipient tokenHash :: older →
          .emailChangeNotice a.email c.tokenHash ∈ older) ∧
      ∀ c ∈ s.db.tokens, c.purpose = .emailChangeCancel → c.accountId = id → c.targetEmail = some a.email →
        c.usedAt = none → ∀ s', ((mailing.startingAt (s.perform now (.confirm tokenHash))).restrict
          (Spared c a.email)).Reachable s' →
        c ∈ s'.db.tokens ∧
        (s'.clock < c.expiresAt → ∀ o ∈ s'.db.accounts, o.email ≠ a.email) ∧
        ∀ now', s'.clock ≤ now' → now' < c.expiresAt → (s'.db.enabledAccount id).isSome →
          PutBack (sysEmailChangeCancel s'.db c.tokenHash now') c a.email := by
  obtain ⟨e, he, target, hlive, hacc, htarget, ⟨a, ha, hid⟩, hplaced, hkept⟩ := sysEmailChangeConfirm_some hconfirmed
  obtain ⟨hpurpose, hhash, hunused, -⟩ := of_decide_eq_true hlive
  obtain ⟨c₀, email, hc₀, hrun₀, hfirst, -⟩ := (announced hs).noticed e he hpurpose hunused
  obtain rfl : a.email = email := hc₀.holds a ha (hid.trans hacc.symm)
  rw [hhash] at hrun₀ hfirst
  refine ⟨a, ha, hid, ⟨c₀, hc₀.mem, hc₀.purpose, hc₀.account.trans hacc, hc₀.records, hrun₀,
    fun newer older recipient hlog => hfirst.before hlog ⟨recipient, rfl⟩⟩,
    fun c hc hcancel haccount hrecords hfree s' hrun => ?_⟩
  have hstart : mailing.Reachable (s.perform now (.confirm tokenHash)) :=
    .step (a := (.confirm tokenHash, now)) hs ⟨hnow, trivial, rfl⟩
  have hstands : Standing (s.perform now (.confirm tokenHash)).db c a.email := by
    refine ⟨hkept c hc hcancel, hcancel, hfree, hrecords, fun b hb hbid => ?_⟩
    rw [hplaced b hb (hbid.trans haccount)]
    exact fun heq => hc₀.replaces (heq ▸ htarget)
  obtain ⟨hreach, hstands'⟩ := hstands.run hstart hrun
  have hr := (announced hreach).reserved
  refine ⟨hstands'.mem, fun hlive o ho hemail => ?_, fun now' hnow' hlive' henabled => ?_⟩
  · have hreserves := reserves_iff.mpr ⟨hcancel, hfree, hlive, hrecords⟩
    exact hstands'.moved o ho (hr.kept c hstands'.mem _ hreserves o ho hemail) hemail
  · exact hstands'.redeem (hr.later hnow') hlive' (haccount.symm ▸ henabled)

/-- An account whose session was taken asks for the attacker's address, and the mail job hands both messages. -/
def takenOver : Mailing :=
  ((((({} : Mailing).perform 1 (.createAccount ⟨1, "owner@slugbase.example", none, true⟩)).perform 2
    (.request 1 "attacker@slugbase.example")).perform 3 (.mailJob .emailChange 1 ⟨10, 11⟩)).perform 4 (.hand 0)).perform 5
      (.hand 0)

theorem takenOver_reachable : mailing.Reachable takenOver := by
  have hinit : mailing.Reachable {} := .init rfl
  have hcreated := hinit.step (a := (Event.createAccount ⟨1, "owner@slugbase.example", none, true⟩, 1))
    ⟨Nat.zero_le 1, trivial, rfl⟩
  have hrequested := hcreated.step (a := (Event.request 1 "attacker@slugbase.example", 2)) ⟨by decide, trivial, rfl⟩
  have hmailed := hrequested.step (a := (Event.mailJob .emailChange 1 ⟨10, 11⟩, 3))
    ⟨by decide +kernel, by refine ⟨?_, ?_, ?_⟩ <;> decide +kernel, rfl⟩
  have hnotice := hmailed.step (a := (Event.hand 0, 4)) ⟨by decide +kernel, trivial, rfl⟩
  exact hnotice.step (a := (Event.hand 0, 5)) ⟨by decide +kernel, trivial, rfl⟩

theorem undoLink_stands_takenOver : ∃ c ∈ takenOver.db.tokens,
    .emailChangeNotice "owner@slugbase.example" c.tokenHash ∈ takenOver.outbox ∧
      PutBack (sysEmailChangeCancel (takenOver.perform 6 (.confirm 11)).db c.tokenHash 7) c "owner@slugbase.example" := by
  have hconfirmed : (sysEmailChangeConfirm takenOver.db 11 6).1 = some 1 := by decide +kernel
  obtain ⟨a, ha, -, ⟨c, hc, hpurpose, haccount, hrecords, -, hnotice⟩, hstands⟩ :=
    undoLink_stands takenOver_reachable (by decide +kernel) hconfirmed
  have hemail : ∀ a ∈ takenOver.db.accounts.rows, a.email = "owner@slugbase.example" := by decide +kernel
  have hunused : ∀ c ∈ takenOver.db.tokens.rows, c.usedAt = none ∧ 7 < c.expiresAt := by decide +kernel
  rw [hemail a ha] at hnotice hrecords hstands
  obtain ⟨-, -, hback⟩ := hstands c hc hpurpose haccount hrecords (hunused c hc).1 _ (.init rfl)
  have holder := hnotice [] [.emailChangeNotice "owner@slugbase.example" 10] "attacker@slugbase.example"
    (by decide +kernel)
  have houtbox : takenOver.outbox = [.emailChange "attacker@slugbase.example" 11,
      .emailChangeNotice "owner@slugbase.example" 10] := by decide +kernel
  exact ⟨c, hc, houtbox ▸ List.mem_cons_of_mem _ holder, hback 7 (by decide +kernel) (hunused c hc).2 (by decide +kernel)⟩

end SlugBase.Auth
