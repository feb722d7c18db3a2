import SlugBase.Auth.EmailChange

/-!
# Reserved addresses

While a cancel token is unused and unexpired, nobody but its account gets the address it records.

* `Reserved`: what holds of accounts and tokens between the operations;
* **`Reserved.deleteTokens`**, **`Reserved.setEmail`**, **`Reserved.insertToken`**, …: what a write needs to keep it.
-/

namespace SlugBase.Auth

open Relational

/-- **What holds of accounts and tokens at a time.** -/
structure Reserved (db : AuthDb) (clock : Timestamp) : Prop where
  /-- an address is one account's -/
  unique : ∀ a ∈ db.accounts, ∀ b ∈ db.accounts, a.email = b.email → a.id = b.id
  past : ∀ t ∈ db.tokens, t.createdAt ≤ clock
  owned : ∀ t ∈ db.tokens, ∃ a ∈ db.accounts, a.id = t.accountId
  /-- no other account holds a reserved address -/
  kept : ∀ c ∈ db.tokens, ∀ email, c.reserves email clock = true → ∀ a ∈ db.accounts, a.email = email →
    a.id = c.accountId
  /-- an address is reserved to one account -/
  sole : ∀ c ∈ db.tokens, ∀ d ∈ db.tokens, ∀ email, c.reserves email clock = true → d.reserves email clock = true →
    c.accountId = d.accountId
  /-- only a verified address is changed -/
  verified : ∀ t ∈ db.tokens, t.purpose = .emailChange ∨ t.purpose = .emailChangeCancel →
    ∀ a ∈ db.accounts, a.id = t.accountId → a.emailVerifiedAt ≠ none
  /-- the links that verify an address are older than the notices of its changes -/
  earlier : ∀ c ∈ db.tokens, ∀ v ∈ db.tokens, c.purpose = .emailChangeCancel → v.purpose = .emailVerify →
    v.accountId = c.accountId → v.createdAt ≤ c.createdAt

theorem reserves_iff {t : CredentialToken} {email : Address} {now : Timestamp} :
    t.reserves email now = true ↔
      t.purpose = .emailChangeCancel ∧ t.usedAt = none ∧ now < t.expiresAt ∧ t.targetEmail = some email :=
  decide_eq_true_iff

theorem reserves_mono {t : CredentialToken} {email : Address} {clock now : Timestamp} (h : t.reserves email now = true)
    (hle : clock ≤ now) : t.reserves email clock = true := by
  obtain ⟨hpurpose, hunused, hlive, htarget⟩ := reserves_iff.mp h
  exact reserves_iff.mpr ⟨hpurpose, hunused, lt_of_le_of_lt hle hlive, htarget⟩

theorem heldByOther_false {db : AuthDb} {email : Address} {id : Uuid} (h : heldByOther db email id = false) {a : Account}
    (ha : a ∈ db.accounts) (hemail : a.email = email) : a.id = id := by
  by_contra hne
  have hheld : heldByOther db email id = true := Table.any_iff.mpr ⟨a, ha, decide_eq_true ⟨hemail, hne⟩⟩
  rw [h] at hheld
  cases hheld

theorem reservedByOther_false {db : AuthDb} {email : Address} {id : Uuid} {now : Timestamp}
    (h : reservedByOther db email id now = false) {c : CredentialToken} (hc : c ∈ db.tokens)
    (hreserves : c.reserves email now = true) : c.accountId = id := by
  by_contra hne
  have hother : reservedByOther db email id now = true :=
    Table.any_iff.mpr ⟨c, hc, by rw [hreserves, decide_eq_true hne]; rfl⟩
  rw [h] at hother
  cases hother

namespace Reserved

variable {db : AuthDb} {clock now : Timestamp}

/-! ## The kinds of writes -/

theorem later (h : Reserved db clock) (hle : clock ≤ now) : Reserved db now where
  unique := h.unique
  past t ht := (h.past t ht).trans hle
  owned := h.owned
  kept c hc email hreserves := h.kept c hc email (reserves_mono hreserves hle)
  sole c hc d hd email hreserves hreserves' :=
    h.sole c hc d hd email (reserves_mono hreserves hle) (reserves_mono hreserves' hle)
  verified := h.verified
  earlier := h.earlier

theorem congr {db' : AuthDb} (h : Reserved db now) (haccounts : db'.accounts = db.accounts)
    (htokens : db'.tokens = db.tokens) : Reserved db' now := by
  obtain ⟨accounts, sessions, tokens, identities, states⟩ := db
  obtain ⟨accounts', sessions', tokens', identities', states'⟩ := db'
  cases haccounts
  cases htokens
  exact ⟨h.unique, h.past, h.owned, h.kept, h.sole, h.verified, h.earlier⟩

/-- Tokens that go, or are marked used, free addresses and reserve none. -/
theorem of_tokens {db' : AuthDb} (h : Reserved db now) (haccounts : db'.accounts = db.accounts)
    (htokens : ∀ t' ∈ db'.tokens, ∃ t ∈ db.tokens, t'.purpose = t.purpose ∧ t'.accountId = t.accountId ∧
      t'.createdAt = t.createdAt ∧ ∀ email, t'.reserves email now = true → t.reserves email now = true) :
    Reserved db' now := by
  refine ⟨?_, fun t' ht' => ?_, fun t' ht' => ?_, fun c' hc' email hr => ?_, fun c' hc' d' hd' email hr hr' => ?_,
    fun t' ht' hpurpose => ?_, fun c' hc' v' hv' hc hv hsame => ?_⟩
  · rw [haccounts]
    exact h.unique
  · obtain ⟨t, ht, -, -, hcreated, -⟩ := htokens t' ht'
    exact hcreated ▸ h.past t ht
  · obtain ⟨t, ht, -, haccount, -, -⟩ := htokens t' ht'
    rw [haccounts, haccount]
    exact h.owned t ht
  · obtain ⟨c, hc, -, haccount, -, hreserves⟩ := htokens c' hc'
    rw [haccounts, haccount]
    exact h.kept c hc email (hreserves email hr)
  · obtain ⟨c, hc, -, hca, -, hreserves⟩ := htokens c' hc'
    obtain ⟨d, hd, -, hda, -, hreserves'⟩ := htokens d' hd'
    rw [hca, hda]
    exact h.sole c hc d hd email (hreserves email hr) (hreserves' email hr')
  · obtain ⟨t, ht, hp, haccount, -, -⟩ := htokens t' ht'
    rw [haccounts, haccount]
    exact h.verified t ht (hp ▸ hpurpose)
  · obtain ⟨c, hcm, hcp, hca, hcc, -⟩ := htokens c' hc'
    obtain ⟨v, hvm, hvp, hva, hvc, -⟩ := htokens v' hv'
    rw [hcc, hvc]
    exact h.earlier c hcm v hvm (hcp ▸ hc) (hvp ▸ hv) (by rw [← hva, ← hca, hsame])

theorem deleteTokens (h : Reserved db now) (p : CredentialToken → Bool) : Reserved (db.deleteTokens p) now :=
  h.of_tokens rfl fun t ht => ⟨t, (Table.mem_deleteWhere.mp ht).1, rfl, rfl, rfl, fun _ => id⟩

theorem markUsed (h : Reserved db now) (p : CredentialToken → Bool) (at_ : Timestamp) :
    Reserved (db.markUsed p at_) now := by
  refine h.of_tokens rfl fun t' ht' => ?_
  obtain ⟨t, ht, ⟨-, rfl⟩ | ⟨-, rfl⟩⟩ := mem_markUsed ht'
  · refine ⟨t, ht, rfl, rfl, rfl, fun email hreserves => ?_⟩
    cases (reserves_iff.mp hreserves).2.1
  · exact ⟨t', ht, rfl, rfl, rfl, fun _ => id⟩

/-- Accounts that stay, and at most one of whose addresses is new, held by no other account and reserved to none. -/
theorem of_accounts {db' : AuthDb} (h : Reserved db now) (id : Uuid) (htokens : db'.tokens = db.tokens)
    (hto : ∀ a ∈ db.accounts, ∃ a' ∈ db'.accounts, a'.id = a.id)
    (hfrom : ∀ a' ∈ db'.accounts, (∃ a ∈ db.accounts, a.id = a'.id ∧ a.email = a'.email) ∨
      (a'.id = id ∧ heldByOther db a'.email id = false ∧ reservedByOther db a'.email id now = false))
    (hverified : ∀ t ∈ db.tokens, t.purpose = .emailChange ∨ t.purpose = .emailChangeCancel →
      ∀ a' ∈ db'.accounts, a'.id = t.accountId → a'.emailVerifiedAt ≠ none) :
    Reserved db' now := by
  refine ⟨fun a' ha' b' hb' hemail => ?_, ?_, fun t ht => ?_, fun c hc email hr a' ha' hemail => ?_, ?_, ?_, ?_⟩
  · rcases hfrom a' ha' with ⟨a, ha, haid, hae⟩ | ⟨haid, hheld, -⟩
    · rcases hfrom b' hb' with ⟨b, hb, hbid, hbe⟩ | ⟨hbid, hheld, -⟩
      · exact haid.symm.trans ((h.unique a ha b hb (by rw [hae, hbe, hemail])).trans hbid)
      · exact haid.symm.trans ((heldByOther_false hheld ha (hae.trans hemail)).trans hbid.symm)
    · rcases hfrom b' hb' with ⟨b, hb, hbid, hbe⟩ | ⟨hbid, -⟩
      · exact haid.trans ((heldByOther_false hheld hb (hbe.trans hemail.symm)).symm.trans hbid)
      · exact haid.trans hbid.symm
  · rw [htokens]
    exact h.past
  · rw [htokens] at ht
    obtain ⟨a, ha, haid⟩ := h.owned t ht
    obtain ⟨a', ha', ha'id⟩ := hto a ha
    exact ⟨a', ha', ha'id.trans haid⟩
  · rw [htokens] at hc
    rcases hfrom a' ha' with ⟨a, ha, haid, hae⟩ | ⟨haid, -, hreserved⟩
    · exact haid.symm.trans (h.kept c hc email hr a ha (hae.trans hemail))
    · exact haid.trans (reservedByOther_false hreserved hc (hemail ▸ hr)).symm
  · rw [htokens]
    exact h.sole
  · rw [htokens]
    exact hverified
  · rw [htokens]
    exact h.earlier

section

variable {id : Uuid} {f : Account → Account} {hf : ∀ a, (f a).id = a.id}

theorem verified_updateAccount (h : Reserved db now)
    (hstays : ∀ a, a.emailVerifiedAt ≠ none → (f a).emailVerifiedAt ≠ none) {t : CredentialToken} (ht : t ∈ db.tokens)
    (hpurpose : t.purpose = .emailChange ∨ t.purpose = .emailChangeCancel) {a' : Account}
    (ha' : a' ∈ (db.updateAccount id f hf).accounts) (hid : a'.id = t.accountId) : a'.emailVerifiedAt ≠ none := by
  obtain ⟨a, ha, haid, rfl⟩ := AuthDb.mem_updateAccount ha'
  have hbefore := h.verified t ht hpurpose a ha (haid.trans hid)
  split
  · exact hstays a hbefore
  · exact hbefore

theorem updateAccount (h : Reserved db now) (hemail : ∀ a, (f a).email = a.email)
    (hstays : ∀ a, a.emailVerifiedAt ≠ none → (f a).emailVerifiedAt ≠ none) :
    Reserved (db.updateAccount id f hf) now := by
  refine h.of_accounts id rfl (fun a ha => ⟨_, AuthDb.updateAccount_mem ha, ?_⟩) (fun a' ha' => ?_)
    fun t ht hpurpose a' ha' hid => h.verified_updateAccount hstays ht hpurpose ha' hid
  · split
    · exact hf a
    · rfl
  · obtain ⟨a, ha, haid, rfl⟩ := AuthDb.mem_updateAccount ha'
    refine .inl ⟨a, ha, haid, ?_⟩
    split
    · exact (hemail a).symm
    · rfl

/-- An update that sets the address to one that no other account holds and none but this one is reserved. -/
theorem setEmail (h : Reserved db now) {email : Address} (hemail : ∀ a, (f a).email = email)
    (hstays : ∀ a, a.emailVerifiedAt ≠ none → (f a).emailVerifiedAt ≠ none)
    (hheld : heldByOther db email id = false) (hreserved : reservedByOther db email id now = false) :
    Reserved (db.updateAccount id f hf) now := by
  refine h.of_accounts id rfl (fun a ha => ⟨_, AuthDb.updateAccount_mem ha, ?_⟩) (fun a' ha' => ?_)
    fun t ht hpurpose a' ha' hid => h.verified_updateAccount hstays ht hpurpose ha' hid
  · split
    · exact hf a
    · rfl
  · obtain ⟨a, ha, haid, rfl⟩ := AuthDb.mem_updateAccount ha'
    split
    · rename_i hid
      rw [hemail, hf]
      exact .inr ⟨hid, hheld, hreserved⟩
    · exact .inl ⟨a, ha, rfl, rfl⟩

end

/-- A new token: a confirmation or a notice is of a verified account, a notice records the address the account holds,
and a link that verifies is of an account with no notice. -/
theorem insertToken {db' : AuthDb} (h : Reserved db now) {t : CredentialToken} (ht : db.insertToken t = some db')
    (hnow : t.createdAt = now) {a : Account} (ha : a ∈ db.accounts) (hid : a.id = t.accountId)
    (hchange : t.purpose = .emailChange → a.emailVerifiedAt ≠ none)
    (hcancel : t.purpose = .emailChangeCancel → a.emailVerifiedAt ≠ none ∧ t.targetEmail = some a.email)
    (hverify : t.purpose = .emailVerify → a.emailVerifiedAt = none) : Reserved db' now := by
  obtain ⟨tokens, htokens, rfl⟩ := AuthDb.insertToken_some ht
  have hmem {r : CredentialToken} : r ∈ tokens ↔ r ∈ db.tokens ∨ r = t := Table.mem_insert? htokens
  have hown : ∀ b ∈ db.accounts, b.id = t.accountId → b = a :=
    fun b hb hbid => Table.eq_of_key hb ha (hbid.trans hid.symm)
  have hlater : ∀ c ∈ db.tokens, ∀ email, c.reserves email now = true → t.reserves email now = true →
      c.accountId = t.accountId := by
    intro c hc email hr hr'
    obtain ⟨hpurpose, -, -, htarget⟩ := reserves_iff.mp hr'
    rw [(hcancel hpurpose).2] at htarget
    exact (h.kept c hc email hr a ha (Option.some.inj htarget)).symm.trans hid
  refine ⟨h.unique, fun r hr => ?_, fun r hr => ?_, fun c hc email hreserves b hb hemail => ?_,
    fun c hc d hd email hr hr' => ?_, fun r hr hpurpose b hb hbid => ?_, fun c hc v hv hcp hvp hsame => ?_⟩
  · rcases hmem.mp hr with hr | rfl
    · exact h.past r hr
    · exact hnow.le
  · rcases hmem.mp hr with hr | rfl
    · exact h.owned r hr
    · exact ⟨a, ha, hid⟩
  · rcases hmem.mp hc with hc | rfl
    · exact h.kept c hc email hreserves b hb hemail
    · obtain ⟨hpurpose, -, -, htarget⟩ := reserves_iff.mp hreserves
      rw [(hcancel hpurpose).2] at htarget
      exact (h.unique b hb a ha (hemail.trans (Option.some.inj htarget).symm)).trans hid
  · rcases hmem.mp hc with hc | rfl
    · rcases hmem.mp hd with hd | rfl
      · exact h.sole c hc d hd email hr hr'
      · exact hlater c hc email hr hr'
    · rcases hmem.mp hd with hd | rfl
      · exact (hlater d hd email hr' hr).symm
      · rfl
  · rcases hmem.mp hr with hr | rfl
    · exact h.verified r hr hpurpose b hb hbid
    · rw [hown b hb hbid]
      exact hpurpose.elim hchange fun hp => (hcancel hp).1
  · rcases hmem.mp hv with hv | rfl
    · rcases hmem.mp hc with hc | rfl
      · exact h.earlier c hc v hv hcp hvp hsame
      · exact hnow ▸ h.past v hv
    · rcases hmem.mp hc with hc | rfl
      · exact absurd (hverify hvp) (h.verified c hc (.inr hcp) a ha (hid.trans hsame))
      · exact absurd (hcp.symm.trans hvp) (by decide)

end Reserved

end SlugBase.Auth
