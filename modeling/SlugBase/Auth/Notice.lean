import SlugBase.Auth.Writes

/-!
# The notice of a change

The link that confirms a change is issued with the link of its notice, and the notice is handed to the mail port first.

* `NoticeFirst`, `Cleared`: a confirmation is handed after its notice, in the messages handed so far and in those a
  run of the job has still to hand;
* `Noticed`: every unused confirmation has a notice that records the address its account holds;
* **`Noticed.writes`**: the operations keep that;
* `mailSendJob_cases`: what a run of the mail job issues.
-/

namespace SlugBase.Auth

open Relational Relation

/-! ## Messages in order -/

/-- The token a message carries. -/
def Mail.token : Mail → TokenHash
  | .emailChangeNotice _ token | .emailChange _ token | .passwordReset _ token | .verifyEmail _ token => token

/-- Whether a message carries this confirmation. -/
def Mail.Confirms (m : Mail) (tokenHash : TokenHash) : Prop := ∃ recipient, m = .emailChange recipient tokenHash

/-- A confirmation was handed after the notice: the messages are listed newest first. -/
def NoticeFirst (notice : Mail) (tokenHash : TokenHash) : List Mail → Prop
  | [] => True
  | m :: older => (m.Confirms tokenHash → notice ∈ older) ∧ NoticeFirst notice tokenHash older

/-- The messages a run of the job has still to hand, the next one first, hand no confirmation before the notice. -/
def Cleared (notice : Mail) (tokenHash : TokenHash) (handed : List Mail) : List Mail → Prop
  | [] => True
  | m :: rest => (m.Confirms tokenHash → notice ∈ handed) ∧ Cleared notice tokenHash (m :: handed) rest

section

variable {notice m : Mail} {tokenHash : TokenHash}

theorem Mail.Confirms.token (h : m.Confirms tokenHash) : m.token = tokenHash := by
  obtain ⟨recipient, rfl⟩ := h
  rfl

theorem NoticeFirst.before {log newer older : List Mail} (h : NoticeFirst notice tokenHash log)
    (hlog : log = newer ++ m :: older) (hm : m.Confirms tokenHash) : notice ∈ older := by
  induction newer generalizing log with
  | nil =>
    rw [hlog] at h
    exact h.1 hm
  | cons n newer ih =>
    rw [hlog] at h
    exact ih h.2 rfl

theorem NoticeFirst.of_given {log : List Mail} (h : ∀ m ∈ log, m.token ≠ tokenHash) :
    NoticeFirst notice tokenHash log := by
  induction log with
  | nil => trivial
  | cons m older ih =>
    exact ⟨fun hm => absurd hm.token (h m (List.mem_cons_self ..)), ih fun n hn => h n (List.mem_cons_of_mem _ hn)⟩

theorem Cleared.of_given {handed pending : List Mail} (h : ∀ m ∈ pending, m.token ≠ tokenHash) :
    Cleared notice tokenHash handed pending := by
  induction pending generalizing handed with
  | nil => trivial
  | cons m rest ih =>
    exact ⟨fun hm => absurd hm.token (h m (List.mem_cons_self ..)), ih fun n hn => h n (List.mem_cons_of_mem _ hn)⟩

theorem Cleared.mono {handed handed' pending : List Mail} (h : Cleared notice tokenHash handed pending)
    (hsub : ∀ m ∈ handed, m ∈ handed') : Cleared notice tokenHash handed' pending := by
  induction pending generalizing handed handed' with
  | nil => trivial
  | cons m rest ih =>
    refine ⟨fun hm => hsub _ (h.1 hm), ih h.2 fun n hn => ?_⟩
    rcases List.mem_cons.mp hn with rfl | hn
    · exact List.mem_cons_self ..
    · exact List.mem_cons_of_mem _ (hsub n hn)

end

/-! ## Every confirmation has its notice -/

/-- The notice of a confirmation: a cancel token of its account that records the address the account holds, which the
confirmation would replace. -/
structure NoticeOf (db : AuthDb) (confirmation notice : CredentialToken) (email : Address) : Prop where
  mem : notice ∈ db.tokens
  purpose : notice.purpose = .emailChangeCancel
  account : notice.accountId = confirmation.accountId
  records : notice.targetEmail = some email
  holds : ∀ a ∈ db.accounts, a.id = confirmation.accountId → a.email = email
  replaces : confirmation.targetEmail ≠ some email

/-- **Every unused confirmation has its notice**, and what is asked of the messages of both holds. -/
def Noticed (db : AuthDb) (sent : Mail → TokenHash → Prop) : Prop :=
  ∀ e ∈ db.tokens, e.purpose = .emailChange → e.usedAt = none → ∃ c email, NoticeOf db e c email ∧
    sent (.emailChangeNotice email c.tokenHash) e.tokenHash

section

variable {db db' : AuthDb} {now : Timestamp} {undone : CredentialToken → Prop} {placed : Uuid → Address → Prop}
  {drawn : TokenHash → Prop} {sent : Mail → TokenHash → Prop}

theorem Noticed.imp {sent' : Mail → TokenHash → Prop} (h : Noticed db sent)
    (hsent : ∀ e ∈ db.tokens, ∀ notice, sent notice e.tokenHash → sent' notice e.tokenHash) : Noticed db sent' := by
  intro e he hpurpose hunused
  obtain ⟨c, email, hc, hs⟩ := h e he hpurpose hunused
  exact ⟨c, email, hc, hsent e he _ hs⟩

/-- Each confirmation that is left was there before, its notice is kept and its account keeps its address. -/
theorem Noticed.of_kept (h : Noticed db sent)
    (hkept : ∀ e ∈ db'.tokens, e.purpose = .emailChange → e.usedAt = none → e ∈ db.tokens ∧
      (∀ c ∈ db.tokens, c.purpose = .emailChangeCancel → c.accountId = e.accountId → ∃ c' ∈ db'.tokens,
        c'.purpose = c.purpose ∧ c'.accountId = c.accountId ∧ c'.targetEmail = c.targetEmail ∧
          c'.tokenHash = c.tokenHash) ∧
      ∀ a' ∈ db'.accounts, a'.id = e.accountId → ∃ a ∈ db.accounts, a.id = a'.id ∧ a.email = a'.email) :
    Noticed db' sent := by
  intro e he hpurpose hunused
  obtain ⟨hmem, hnotice, haccounts⟩ := hkept e he hpurpose hunused
  obtain ⟨c, email, hc, hsent⟩ := h e hmem hpurpose hunused
  obtain ⟨c', hc', hp, hacc, htarget, hhash⟩ := hnotice c hc.mem hc.purpose hc.account
  refine ⟨c', email, ⟨hc', hp.trans hc.purpose, hacc.trans hc.account, htarget.trans hc.records, fun a' ha' hid => ?_,
    hc.replaces⟩, hhash ▸ hsent⟩
  obtain ⟨a, ha, haid, hae⟩ := haccounts a' ha' hid
  exact hae ▸ hc.holds a ha (haid.trans hid)

theorem Noticed.deleteTokens (h : Noticed db sent) {p : CredentialToken → Bool}
    (hp : ∀ e ∈ db.tokens, ∀ c ∈ db.tokens, e.purpose = .emailChange → e.usedAt = none →
      c.purpose = .emailChangeCancel → c.accountId = e.accountId → p e = false → p c = false) :
    Noticed (db.deleteTokens p) sent := by
  refine h.of_kept fun e he hpurpose hunused => ?_
  obtain ⟨hmem, hkeep⟩ := Table.mem_deleteWhere.mp he
  refine ⟨hmem, fun c hc hcp hacc => ⟨c, ?_, rfl, rfl, rfl, rfl⟩, fun a ha _ => ⟨a, ha, rfl, rfl⟩⟩
  exact Table.mem_deleteWhere.mpr ⟨hc, hp e hmem c hc hpurpose hunused hcp hacc hkeep⟩

theorem Noticed.write (h : Noticed db sent) (hr : Reserved db now) (hw : Write now undone placed drawn db db') :
    Noticed db' sent := by
  cases hw with
  | rest haccounts htokens =>
    refine h.of_kept fun e he hpurpose hunused => ?_
    rw [haccounts, htokens] at *
    exact ⟨he, fun c hc _ _ => ⟨c, hc, rfl, rfl, rfl, rfl⟩, fun a ha _ => ⟨a, ha, rfl, rfl⟩⟩
  | account hemail _ =>
    refine h.of_kept fun e he hpurpose hunused =>
      ⟨he, fun c hc _ _ => ⟨c, hc, rfl, rfl, rfl, rfl⟩, fun a' ha' _ => ?_⟩
    obtain ⟨a, ha, haid, rfl⟩ := AuthDb.mem_updateAccount ha'
    refine ⟨a, ha, haid, ?_⟩
    split
    · exact (hemail a).symm
    · rfl
  | use =>
    refine h.of_kept fun e he hpurpose hunused => ?_
    obtain ⟨e₀, he₀, ⟨-, rfl⟩ | ⟨-, rfl⟩⟩ := mem_markUsed he
    · cases hunused
    · refine ⟨he₀, fun c hc _ _ => ?_, fun a ha _ => ⟨a, ha, rfl, rfl⟩⟩
      refine ⟨_, markUsed_mem _ _ hc, ?_⟩
      split <;> exact ⟨rfl, rfl, rfl, rfl⟩
  | @discard p hd =>
    refine h.deleteTokens fun e he c hc hpurpose hunused hcp hacc hkeep => Bool.eq_false_iff.mpr fun hgone => ?_
    have hpe : p e = true := by
      cases hd with
      | pendingChange =>
        obtain ⟨hid, -, -⟩ := of_decide_eq_true hgone
        exact decide_eq_true ⟨hacc.symm.trans hid, hunused, .inl hpurpose⟩
      | confirmations =>
        obtain ⟨-, hother, -⟩ := of_decide_eq_true hgone
        exact absurd (hcp.symm.trans hother) (by decide)
      | older _ hne =>
        obtain ⟨-, hother, -⟩ := of_decide_eq_true hgone
        exact absurd (hother.symm.trans hcp) hne
      | verification =>
        obtain ⟨hid, -, -⟩ := of_decide_eq_true hgone
        exact decide_eq_true ⟨hacc.symm.trans hid, hunused, .inr (.inl hpurpose)⟩
    rw [hkeep] at hpe
    cases hpe
  | @undo id issued =>
    refine h.deleteTokens fun e he c hc hpurpose hunused hcp hacc hkeep => Bool.eq_false_iff.mpr fun hgone => ?_
    obtain ⟨hid, -, -⟩ := of_decide_eq_true hgone
    have hpe : endedByUndo id issued e = true :=
      decide_eq_true ⟨hacc.symm.trans hid, hunused, .inr (.inl hpurpose)⟩
    rw [hkeep] at hpe
    cases hpe
  | @issue t _ _ hinsert _ _ _ _ hother =>
    obtain ⟨tokens, htokens, rfl⟩ := AuthDb.insertToken_some hinsert
    refine h.of_kept fun e he hpurpose hunused => ?_
    rcases (Table.mem_insert? htokens).mp he with he | rfl
    · exact ⟨he, fun c hc _ _ => ⟨c, (Table.mem_insert? htokens).mpr (.inl hc), rfl, rfl, rfl, rfl⟩,
        fun a ha _ => ⟨a, ha, rfl, rfl⟩⟩
    · rcases hother with hp | ⟨hp, -⟩ <;> exact absurd (hpurpose.symm.trans hp) (by decide)
  | create hinsert =>
    refine h.of_kept fun e he hpurpose hunused =>
      ⟨he, fun c hc _ _ => ⟨c, hc, rfl, rfl, rfl, rfl⟩, fun a' ha' hid => ?_⟩
    rcases (Table.mem_insert? hinsert).mp ha' with ha' | rfl
    · exact ⟨a', ha', rfl, rfl⟩
    · obtain ⟨o, ho, hoid⟩ := hr.owned e he
      exact absurd (hoid.trans hid.symm) (Table.key_fresh_of_insert? hinsert ho)
  | @move id _ _ _ hemail _ _ _ hnone =>
    refine h.of_kept fun e he hpurpose hunused =>
      ⟨he, fun c hc _ _ => ⟨c, hc, rfl, rfl, rfl, rfl⟩, fun a' ha' hid => ?_⟩
    obtain ⟨a, ha, haid, rfl⟩ := AuthDb.mem_updateAccount ha'
    have hne : a.id ≠ id := by
      intro heq
      have hconf : confirmations id e = true :=
        decide_eq_true ⟨(heq.symm.trans (haid.trans hid)).symm, hpurpose, hunused⟩
      rw [hnone e he] at hconf
      cases hconf
    exact ⟨a, ha, haid, by rw [if_neg hne]⟩

/-- **The operations keep it.** -/
theorem Noticed.writes (h : Noticed db sent) (hr : Reserved db now) (hw : Writes now undone placed drawn db db') :
    Noticed db' sent := by
  induction hw with
  | refl => exact h
  | tail hbefore hstep ih => exact ih.write (hr.writes hbefore) hstep

end

/-! ## The mail job -/

/-- The token of a notice. -/
def noticeToken (a : Account) (tokenHash : TokenHash) (now : Timestamp) : CredentialToken :=
  ⟨tokenHash, .emailChangeCancel, a.id, some a.email, now,
    now + seconds (credentialTokenTtlSeconds .emailChangeCancel), none⟩

/-- The token of a confirmation. -/
def confirmationToken (a : Account) (pending : Address) (tokenHash : TokenHash) (now : Timestamp) : CredentialToken :=
  ⟨tokenHash, .emailChange, a.id, some pending, now, now + seconds (credentialTokenTtlSeconds .emailChange), none⟩

/-- What a run of the mail job for a change writes: the link of the notice, in the place of those for the address the
account holds, and unless the new address is taken the link that confirms it. -/
inductive Issued (now : Timestamp) (tokens : GeneratedTokens) (db : AuthDb) : List Mail → AuthDb → Prop
  | nothing : Issued now tokens db [] db
  | notice {a : Account} {db₁ : AuthDb} : a ∈ db.accounts → a.emailVerifiedAt ≠ none →
      (db.deleteTokens (notices a.id a.email)).insertToken (noticeToken a tokens.first now) = some db₁ →
        Issued now tokens db [.emailChangeNotice a.email tokens.first] (db₁.deleteTokens (confirmations a.id))
  | both {a : Account} {pending : Address} {db₁ db₂ : AuthDb} : a ∈ db.accounts → a.emailVerifiedAt ≠ none →
      (db.deleteTokens (notices a.id a.email)).insertToken (noticeToken a tokens.first now) = some db₁ →
        pending ≠ a.email →
          (db₁.deleteTokens (confirmations a.id)).insertToken (confirmationToken a pending tokens.second now) =
            some db₂ →
            Issued now tokens db
              [.emailChangeNotice a.email tokens.first, .emailChange pending tokens.second] db₂

theorem not_notices {a : Account} {c : CredentialToken} (h : c.accountId ≠ a.id) : notices a.id a.email c = false :=
  decide_eq_false fun hall => h hall.1

theorem not_confirmations {id : Uuid} {c : CredentialToken} (h : c.purpose = .emailChangeCancel) :
    confirmations id c = false :=
  decide_eq_false fun hall => absurd (h.symm.trans hall.2.1) (by decide)

namespace Issued

variable {now : Timestamp} {tokens : GeneratedTokens} {db db' : AuthDb} {mails : List Mail}

theorem accounts (h : Issued now tokens db mails db') : db'.accounts = db.accounts := by
  cases h with
  | nothing => rfl
  | @notice _ db₁ _ _ hc =>
    have haccounts : db₁.accounts = db.accounts := AuthDb.insertToken_accounts hc
    exact haccounts
  | both _ _ hc _ he => exact (AuthDb.insertToken_accounts he).trans (AuthDb.insertToken_accounts hc)

theorem reserved (h : Issued now tokens db mails db') (hr : Reserved db now) : Reserved db' now := by
  have hnotice {a : Account} {db₁ : AuthDb} (ha : a ∈ db.accounts) (hv : a.emailVerifiedAt ≠ none)
      (hc : (db.deleteTokens (notices a.id a.email)).insertToken (noticeToken a tokens.first now) = some db₁) :
      Reserved db₁ now :=
    (hr.deleteTokens _).insertToken hc rfl ha rfl (fun hp => by cases hp) (fun _ => ⟨hv, rfl⟩) fun hp => by cases hp
  cases h with
  | nothing => exact hr
  | notice ha hv hc => exact (hnotice ha hv hc).deleteTokens _
  | @both a _ db₁ _ ha hv hc _ he =>
    have ha₁ : a ∈ db₁.accounts := AuthDb.insertToken_accounts hc ▸ ha
    exact ((hnotice ha hv hc).deleteTokens _).insertToken he rfl ha₁ rfl (fun _ => hv) (fun hp => by cases hp)
      fun hp => by cases hp

/-- The tokens there are after a run. -/
theorem mem_tokens (h : Issued now tokens db mails db') {t : CredentialToken} (ht : t ∈ db'.tokens) :
    t ∈ db.tokens ∨ t.tokenHash = tokens.first ∨ t.tokenHash = tokens.second := by
  cases h with
  | nothing => exact .inl ht
  | notice _ _ hc =>
    rcases AuthDb.mem_insertToken hc (Table.mem_deleteWhere.mp ht).1 with ⟨ht, -⟩ | rfl
    · exact .inl ht
    · exact .inr (.inl rfl)
  | both _ _ hc _ he =>
    rcases AuthDb.mem_insertToken he ht with ⟨ht, -⟩ | rfl
    · rcases AuthDb.mem_insertToken hc ht with ⟨ht, -⟩ | rfl
      · exact .inl ht
      · exact .inr (.inl rfl)
    · exact .inr (.inr rfl)

theorem keeps (h : Issued now tokens db mails db') {c : CredentialToken} (hc : c ∈ db.tokens)
    (hpurpose : c.purpose = .emailChangeCancel) (hother : ∀ a ∈ db.accounts, notices a.id a.email c = false) :
    c ∈ db'.tokens := by
  cases h with
  | nothing => exact hc
  | notice ha _ hinsert =>
    exact Table.mem_deleteWhere.mpr ⟨AuthDb.insertToken_mem hinsert hc (hother _ ha), not_confirmations hpurpose⟩
  | both ha _ hinsert _ he =>
    exact AuthDb.insertToken_mem he (AuthDb.insertToken_mem hinsert hc (hother _ ha)) (not_confirmations hpurpose)

/-- The confirmations there are after a run: the one it issued, with its notice, and those of other accounts. -/
theorem noticed {sent sent' : Mail → TokenHash → Prop} (h : Issued now tokens db mails db') (hn : Noticed db sent)
    (hkeep : ∀ e ∈ db.tokens, ∀ notice, sent notice e.tokenHash → sent' notice e.tokenHash)
    (hnew : ∀ email pending, mails = [.emailChangeNotice email tokens.first, .emailChange pending tokens.second] →
      sent' (.emailChangeNotice email tokens.first) tokens.second) : Noticed db' sent' := by
  have haccounts := h.accounts
  intro e he hpurpose hunused
  -- a confirmation of another account keeps its notice
  have hold {a : Account} (he₀ : e ∈ db.tokens) (hne : e.accountId ≠ a.id)
      (hkept : ∀ c ∈ db.tokens, c.purpose = .emailChangeCancel → notices a.id a.email c = false → c ∈ db'.tokens) :
      ∃ c email, NoticeOf db' e c email ∧ sent' (.emailChangeNotice email c.tokenHash) e.tokenHash := by
    obtain ⟨c, email, hc, hsent⟩ := hn e he₀ hpurpose hunused
    have hc' := hkept c hc.mem hc.purpose (not_notices (hc.account ▸ hne))
    exact ⟨c, email, ⟨hc', hc.purpose, hc.account, hc.records, haccounts ▸ hc.holds, hc.replaces⟩,
      hkeep e he₀ _ hsent⟩
  cases h with
  | nothing => exact hn.imp hkeep e he hpurpose hunused
  | @notice a _ ha _ hinsert =>
    obtain ⟨he, hother⟩ := Table.mem_deleteWhere.mp he
    rcases AuthDb.mem_insertToken hinsert he with ⟨he₀, -⟩ | rfl
    · refine hold he₀ (a := a) (fun hid => ?_) fun c hc hp hnot =>
        Table.mem_deleteWhere.mpr ⟨AuthDb.insertToken_mem hinsert hc hnot, not_confirmations hp⟩
      rw [confirmations, decide_eq_true ⟨hid, hpurpose, hunused⟩] at hother
      cases hother
    · cases hpurpose
  | @both a pending _ _ ha _ hinsert hne hinsert₂ =>
    rcases AuthDb.mem_insertToken hinsert₂ he with ⟨he, hother⟩ | rfl
    · rcases AuthDb.mem_insertToken hinsert he with ⟨he₀, -⟩ | rfl
      · refine hold he₀ (a := a) (fun hid => ?_) fun c hc hp hnot =>
          AuthDb.insertToken_mem hinsert₂ (AuthDb.insertToken_mem hinsert hc hnot) (not_confirmations hp)
        rw [confirmations, decide_eq_true ⟨hid, hpurpose, hunused⟩] at hother
        cases hother
      · cases hpurpose
    · refine ⟨noticeToken a tokens.first now, a.email, ⟨?_, rfl, rfl, rfl, fun b hb hid => ?_, fun heq => ?_⟩,
        hnew a.email pending rfl⟩
      · obtain ⟨tokens₁, hins, rfl⟩ := AuthDb.insertToken_some hinsert
        exact AuthDb.insertToken_mem hinsert₂ ((Table.mem_insert? hins).mpr (.inr rfl)) (not_confirmations rfl)
      · rw [haccounts] at hb
        rw [Table.eq_of_key hb ha hid]
      · exact hne (Option.some.inj heq)

end Issued

theorem changingAccount_some {db : AuthDb} {id : Uuid} {a : Account} (h : changingAccount db id = some a) :
    a ∈ db.accounts ∧ a.id = id ∧ a.disabledAt = none ∧ a.emailVerifiedAt ≠ none := by
  obtain ⟨hmem, ha⟩ := Table.find?_some h
  exact ⟨hmem, of_decide_eq_true ha⟩

theorem changingAccount_insertToken {db db' : AuthDb} {p : CredentialToken → Bool} {t : CredentialToken} (id : Uuid)
    (h : (db.deleteTokens p).insertToken t = some db') : changingAccount db' id = changingAccount db id := by
  obtain ⟨tokens, -, rfl⟩ := AuthDb.insertToken_some h
  rfl

theorem issueCancelToken_some {db db' : AuthDb} {id : Uuid} {tokenHash : TokenHash} {ttl : ℕ} {now : Timestamp}
    {r : Option Address} (h : issueCancelToken db id tokenHash ttl now = some (r, db')) :
    (r = none ∧ db' = db) ∨ ∃ a pending, changingAccount db id = some a ∧ a.pendingEmail = some pending ∧
      r = some pending ∧ (db.deleteTokens (notices id a.email)).insertToken
        ⟨tokenHash, .emailChangeCancel, id, some a.email, now, now + seconds ttl, none⟩ = some db' := by
  rw [issueCancelToken] at h
  split at h
  · cases h
    exact .inl ⟨rfl, rfl⟩
  · rename_i a ha
    split at h
    · cases h
      exact .inl ⟨rfl, rfl⟩
    · rename_i pending hpending
      obtain ⟨db₁, hinsert, heq⟩ := Option.map_eq_some_iff.mp h
      obtain ⟨rfl, rfl⟩ := Prod.mk.inj heq
      exact .inr ⟨a, pending, ha, hpending, rfl, hinsert⟩

theorem issueChangeToken_some {db db' : AuthDb} {id : Uuid} {tokenHash : TokenHash} {ttl : ℕ} {now : Timestamp}
    {r : Option Address} {a : Account} {pending : Address} (ha : changingAccount db id = some a)
    (hpending : a.pendingEmail = some pending) (h : issueChangeToken db id tokenHash ttl now = some (r, db')) :
    (r = none ∧ db' = db.deleteTokens (confirmations id)) ∨
      (r = some pending ∧ pending ≠ a.email ∧ (db.deleteTokens (confirmations id)).insertToken
        ⟨tokenHash, .emailChange, id, some pending, now, now + seconds ttl, none⟩ = some db') := by
  simp only [issueChangeToken, ha, hpending] at h
  split at h
  · cases h
    exact .inl ⟨rfl, rfl⟩
  · rename_i hfree
    have hne : pending ≠ a.email := by
      intro heq
      simp only [heq, decide_true, Bool.true_or, not_true_eq_false] at hfree
    obtain ⟨b, hb⟩ : ∃ b, db.enabledAccount id = some b := by
      obtain ⟨hmem, hid, henabled, -⟩ := changingAccount_some ha
      refine Option.ne_none_iff_exists'.mp fun hnone => ?_
      have hskip := Table.find?_none hnone hmem
      rw [decide_eq_true ⟨hid, henabled⟩] at hskip
      cases hskip
    simp only [sysCredentialTokenIssue, hb] at h
    split at h
    · cases h
    · rename_i hmap
      obtain ⟨_, -, heq⟩ := Option.map_eq_some_iff.mp hmap
      cases heq
    · rename_i hmap
      obtain ⟨_, hinsert, heq⟩ := Option.map_eq_some_iff.mp hmap
      cases h
      obtain ⟨-, rfl⟩ := Prod.mk.inj heq
      exact .inr ⟨rfl, hne, hinsert⟩

/-- **A run of the job for a change.** -/
theorem mailSendJob_emailChange {db db' : AuthDb} {id : Uuid} {tokens : GeneratedTokens} {now : Timestamp}
    {mails : List Mail} (h : mailSendJob db .emailChange id tokens now = some (mails, db')) :
    Issued now tokens db mails db' := by
  simp only [mailSendJob] at h
  split at h
  · cases h
    exact .nothing
  · rename_i profile hprofile
    obtain ⟨hmem, hid⟩ := Table.find?_some hprofile
    split at h
    · cases h
      exact .nothing
    · split at h
      · cases h
      · rename_i db₁ hcancel
        cases h
        rcases issueCancelToken_some hcancel with ⟨-, rfl⟩ | ⟨_, _, _, _, hr, _⟩
        · exact .nothing
        · cases hr
      · rename_i target db₁ hcancel
        rcases issueCancelToken_some hcancel with ⟨hr, -⟩ | ⟨a, pending, ha, hpending, -, hinsert⟩
        · cases hr
        · obtain ⟨hmema, rfl, -, hverified⟩ := changingAccount_some ha
          obtain rfl : profile = a := Table.eq_of_key hmem hmema (of_decide_eq_true hid)
          have ha₁ := (changingAccount_insertToken profile.id hinsert).trans ha
          split at h
          · cases h
          · rename_i db₂ hchange
            cases h
            rcases issueChangeToken_some ha₁ hpending hchange with ⟨-, rfl⟩ | ⟨hr, -, -⟩
            · exact .notice hmema hverified hinsert
            · cases hr
          · rename_i to₂ db₂ hchange
            cases h
            rcases issueChangeToken_some ha₁ hpending hchange with ⟨hr, -⟩ | ⟨hr, hne, hinsert₂⟩
            · cases hr
            · cases hr
              exact .both hmema hverified hinsert hne hinsert₂

/-- What a run of the job for another message writes; its message carries no confirmation. -/
theorem mailSendJob_other {db db' : AuthDb} {template : MailTemplate} {id : Uuid} {tokens : GeneratedTokens}
    {now : Timestamp} {mails : List Mail} (htemplate : template ≠ .emailChange)
    (h : mailSendJob db template id tokens now = some (mails, db')) :
    Writes now (fun _ => False) (fun _ _ => False) (· = tokens.first) db db' ∧ ∀ m ∈ mails, m.token = tokens.first := by
  simp only [mailSendJob] at h
  split at h
  · cases h
    exact ⟨.refl, List.forall_mem_nil _⟩
  · rename_i a hfind
    obtain ⟨hmem, hid⟩ := Table.find?_some hfind
    cases template with
    | emailChange => exact absurd rfl htemplate
    | passwordReset =>
      simp only at h
      split at h
      · cases h
        exact ⟨.refl, List.forall_mem_nil _⟩
      · obtain ⟨⟨made, db₁⟩, hissue, heq⟩ := Option.map_eq_some_iff.mp h
        obtain ⟨rfl, rfl⟩ := Prod.mk.inj heq
        refine ⟨writes_credentialTokenIssue hmem (.inl rfl) rfl hissue, fun m hm => ?_⟩
        split at hm
        · rw [List.mem_singleton.mp hm]
          rfl
        · cases hm
    | verifyEmail =>
      simp only at h
      split at h
      · cases h
        exact ⟨.refl, List.forall_mem_nil _⟩
      · rename_i hunverified
        obtain ⟨⟨made, db₁⟩, hissue, heq⟩ := Option.map_eq_some_iff.mp h
        obtain ⟨rfl, rfl⟩ := Prod.mk.inj heq
        refine ⟨writes_credentialTokenIssue hmem (.inr ⟨rfl, not_not.mp hunverified⟩) rfl hissue, fun m hm => ?_⟩
        split at hm
        · rw [List.mem_singleton.mp hm]
          rfl
        · cases hm

end SlugBase.Auth
