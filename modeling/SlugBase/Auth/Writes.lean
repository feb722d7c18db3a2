import SlugBase.Auth.Reserved
import Mathlib.Logic.Relation

/-!
# What an operation writes

Every operation on an account is a few writes of a few kinds, and what holds of the tokens is proved of these.

* `Write`: the kinds of writes, each with what an operation has made sure of before it;
* **`writes_request`**, **`writes_confirm`**, **`writes_cancel`**, **`writes_passwordReset`**, …: what each operation
  writes;
* **`Reserved.write`**: every kind of write keeps the reservations.
-/

namespace SlugBase.Auth

open Relational Relation

/-! ## The kinds of writes -/

/-- The unused tokens of a purpose. -/
def older (accountId : Uuid) (purpose : CredentialTokenPurpose) (t : CredentialToken) : Bool :=
  decide (t.accountId = accountId ∧ t.purpose = purpose ∧ t.usedAt = none)

/-- Which tokens an operation discards. -/
inductive Discard (db : AuthDb) : (CredentialToken → Bool) → Prop
  | pendingChange {a : Account} : a ∈ db.accounts → Discard db (ofPendingChange a.id a.email)
  | confirmations (id : Uuid) : Discard db (confirmations id)
  | older (id : Uuid) {purpose : CredentialTokenPurpose} : purpose ≠ .emailChangeCancel →
      Discard db (older id purpose)
  | verification {a : Account} : a ∈ db.accounts → a.emailVerifiedAt = none → Discard db (endedByVerification a.id)

/-- One write of an operation: `undone` are the cancel tokens whose redemption it is, or that the redemption ends, and
`placed` the addresses accounts are moved to, and `drawn` the hashes of the tokens it issues. -/
inductive Write (now : Timestamp) (undone : CredentialToken → Prop) (placed : Uuid → Address → Prop)
    (drawn : TokenHash → Prop) (db : AuthDb) :
    AuthDb → Prop
  | rest {db' : AuthDb} : db'.accounts = db.accounts → db'.tokens = db.tokens → Write now undone placed drawn db db'
  | account {id : Uuid} {f : Account → Account} {hf : ∀ a, (f a).id = a.id} : (∀ a, (f a).email = a.email) →
      (∀ a, a.emailVerifiedAt ≠ none → (f a).emailVerifiedAt ≠ none) →
        Write now undone placed drawn db (db.updateAccount id f hf)
  | use {purpose : CredentialTokenPurpose} {tokenHash : TokenHash} :
      (∀ t ∈ db.tokens, t.purpose = .emailChangeCancel → t.redeemable purpose tokenHash now = true → undone t) →
        Write now undone placed drawn db (db.markUsed (·.redeemable purpose tokenHash now) now)
  | discard {p : CredentialToken → Bool} : Discard db p → Write now undone placed drawn db (db.deleteTokens p)
  | undo {id : Uuid} {issued : Timestamp} :
      (∀ t : CredentialToken, t.accountId = id → issued < t.createdAt → undone t) →
        Write now undone placed drawn db (db.deleteTokens (endedByUndo id issued))
  | issue {t : CredentialToken} {a : Account} {db' : AuthDb} : db.insertToken t = some db' → t.createdAt = now →
      drawn t.tokenHash → a ∈ db.accounts → a.id = t.accountId →
        t.purpose = .passwordReset ∨ t.purpose = .emailVerify ∧ a.emailVerifiedAt = none →
          Write now undone placed drawn db db'
  | create {a : Account} {accounts : Table Account Account.id} : db.accounts.insert? a = some accounts →
      db.accounts.any (fun o => decide (o.email = a.email)) = false →
        db.tokens.any (·.reserves a.email now) = false →
          Write now undone placed drawn db { db with accounts := accounts }
  | move {id : Uuid} {f : Account → Account} {hf : ∀ a, (f a).id = a.id} {email : Address} :
      (∀ a, (f a).email = email) → (∀ a, a.emailVerifiedAt ≠ none → (f a).emailVerifiedAt ≠ none) →
        heldByOther db email id = false → reservedByOther db email id now = false →
          (∀ t ∈ db.tokens, confirmations id t = false) → placed id email →
            Write now undone placed drawn db (db.updateAccount id f hf)

/-- The writes of an operation. -/
abbrev Writes (now : Timestamp) (undone : CredentialToken → Prop) (placed : Uuid → Address → Prop)
    (drawn : TokenHash → Prop) : AuthDb → AuthDb → Prop :=
  ReflTransGen (Write now undone placed drawn)

section

variable {db db' : AuthDb} {now : Timestamp} {undone : CredentialToken → Prop} {placed : Uuid → Address → Prop}
  {drawn : TokenHash → Prop}

/-- **Every kind of write keeps the reservations.** -/
theorem Reserved.write (h : Reserved db now) (hw : Write now undone placed drawn db db') : Reserved db' now := by
  cases hw with
  | rest haccounts htokens => exact h.congr haccounts htokens
  | account hemail hstays => exact h.updateAccount hemail hstays
  | use => exact h.markUsed _ _
  | discard | undo => exact h.deleteTokens _
  | @issue t a _ hinsert hnow _ ha hid hpurpose =>
    refine h.insertToken hinsert hnow ha hid (fun hp => ?_) (fun hp => ?_) fun hp => ?_
    · rcases hpurpose with hr | ⟨hr, -⟩ <;> exact absurd (hp.symm.trans hr) (by decide)
    · rcases hpurpose with hr | ⟨hr, -⟩ <;> exact absurd (hp.symm.trans hr) (by decide)
    · rcases hpurpose with hr | ⟨-, hv⟩
      · exact absurd (hp.symm.trans hr) (by decide)
      · exact hv
  | @create a accounts hinsert hheld hreserved =>
    have hmem {b : Account} : b ∈ accounts ↔ b ∈ db.accounts ∨ b = a := Table.mem_insert? hinsert
    refine h.of_accounts a.id rfl (fun b hb => ⟨b, hmem.mpr (.inl hb), rfl⟩) (fun b hb => ?_)
      fun t ht hpurpose b hb hid => ?_
    · rcases hmem.mp hb with hb | rfl
      · exact .inl ⟨b, hb, rfl, rfl⟩
      · refine .inr ⟨rfl, ?_, ?_⟩
        · refine Bool.eq_false_iff.mpr fun hany => ?_
          obtain ⟨o, ho, hoe⟩ := Table.any_iff.mp hany
          have htaken : db.accounts.any (fun o => decide (o.email = b.email)) = true :=
            Table.any_iff.mpr ⟨o, ho, decide_eq_true (of_decide_eq_true hoe).1⟩
          rw [hheld] at htaken
          cases htaken
        · refine Bool.eq_false_iff.mpr fun hany => ?_
          obtain ⟨o, ho, hor⟩ := Table.any_iff.mp hany
          have htaken : db.tokens.any (·.reserves b.email now) = true :=
            Table.any_iff.mpr ⟨o, ho, (Bool.and_eq_true_iff.mp hor).1⟩
          rw [hreserved] at htaken
          cases htaken
    · rcases hmem.mp hb with hb | rfl
      · exact h.verified t ht hpurpose b hb hid
      · obtain ⟨o, ho, hoid⟩ := h.owned t ht
        exact absurd (hoid.trans hid.symm) (Table.key_fresh_of_insert? hinsert ho)
  | move hemail hstays hheld hreserved _ _ => exact h.setEmail hemail hstays hheld hreserved

theorem Reserved.writes (h : Reserved db now) (hw : Writes now undone placed drawn db db') : Reserved db' now := by
  induction hw with
  | refl => exact h
  | tail _ hstep ih => exact ih.write hstep

/-- A token there is after the writes was there before, or was drawn for them. -/
theorem Writes.hashes (hw : Writes now undone placed drawn db db') :
    ∀ t' ∈ db'.tokens, (∃ t ∈ db.tokens, t.tokenHash = t'.tokenHash) ∨ drawn t'.tokenHash := by
  induction hw with
  | refl => exact fun t ht => .inl ⟨t, ht, rfl⟩
  | tail _ hstep ih =>
    intro t' ht'
    cases hstep with
    | rest _ htokens => exact ih t' (htokens ▸ ht')
    | account | create | move => exact ih t' ht'
    | use =>
      obtain ⟨t, ht, ⟨-, rfl⟩ | ⟨-, rfl⟩⟩ := mem_markUsed ht'
      · exact ih t ht
      · exact ih t' ht
    | discard | undo => exact ih t' (Table.mem_deleteWhere.mp ht').1
    | issue hinsert _ hdrawn =>
      obtain ⟨tokens, htokens, rfl⟩ := AuthDb.insertToken_some hinsert
      rcases (Table.mem_insert? htokens).mp ht' with ht' | rfl
      · exact ih t' ht'
      · exact .inr hdrawn

/-- No account goes. -/
theorem Writes.accounts (hw : Writes now undone placed drawn db db') {a : Account} (ha : a ∈ db.accounts) :
    ∃ a' ∈ db'.accounts, a'.id = a.id := by
  induction hw with
  | refl => exact ⟨a, ha, rfl⟩
  | tail _ hstep ih =>
    obtain ⟨b, hb, hid⟩ := ih
    cases hstep with
    | rest haccounts => exact ⟨b, haccounts ▸ hb, hid⟩
    | use | discard | undo => exact ⟨b, hb, hid⟩
    | @account _ _ hf | @move _ _ hf =>
      refine ⟨_, AuthDb.updateAccount_mem hb, ?_⟩
      split
      · exact (hf b).trans hid
      · exact hid
    | issue hinsert =>
      obtain ⟨tokens, -, rfl⟩ := AuthDb.insertToken_some hinsert
      exact ⟨b, hb, hid⟩
    | create hinsert => exact ⟨b, (Table.mem_insert? hinsert).mpr (.inl hb), hid⟩

/-! ## What each operation writes -/

theorem write_consume {purpose : CredentialTokenPurpose} {tokenHash : TokenHash} {t : CredentialToken}
    (h : sysCredentialTokenConsume db purpose tokenHash now = some (t, db')) (hpurpose : purpose ≠ .emailChangeCancel) :
    Write now undone placed drawn db db' := by
  obtain ⟨-, -, rfl⟩ := sysCredentialTokenConsume_some h
  exact .use fun _ _ hp hlive => absurd ((CredentialToken.redeemable_purpose hlive).symm.trans hp) hpurpose

theorem writes_request (id : Uuid) (email : Address) :
    Writes now undone placed drawn db (sysEmailChangeRequest db id email).2 := by
  rw [sysEmailChangeRequest]
  split
  · exact .refl
  · rename_i a ha
    obtain ⟨hmem, hid, -⟩ := AuthDb.enabledAccount_some ha
    exact hid ▸ ReflTransGen.head (.discard (.pendingChange hmem)) (.single (.account (fun _ => rfl) fun _ h => h))

theorem writes_clear (id : Uuid) : Writes now undone placed drawn db (sysEmailChangeClear db id).2 := by
  rw [sysEmailChangeClear]
  split
  · exact .refl
  · rename_i a ha
    obtain ⟨hmem, hid, -⟩ := AuthDb.enabledAccount_some ha
    exact hid ▸ ReflTransGen.head (.discard (.pendingChange hmem)) (.single (.account (fun _ => rfl) fun _ h => h))

theorem writes_createAccount (a : NewAccount) : Writes now undone placed drawn db (sysCreateAccount db a now).2 := by
  rw [sysCreateAccount]
  split
  · exact .refl
  · rename_i hfree
    obtain ⟨hreserved, hheld⟩ := Bool.or_eq_false_iff.mp (Bool.eq_false_iff.mpr hfree)
    split
    · exact .refl
    · rename_i accounts haccounts
      exact .single (.create haccounts hheld hreserved)

theorem writes_sessionCreate {s : NewSession} {made : Bool} (h : sysSessionCreate db s now = some (made, db')) :
    Writes now undone placed drawn db db' := by
  rw [sysSessionCreate] at h
  split at h
  · cases h
    exact .refl
  · obtain ⟨db₁, hinsert, heq⟩ := Option.map_eq_some_iff.mp h
    obtain ⟨-, rfl⟩ := Prod.mk.inj heq
    rw [insertSession] at hinsert
    split at hinsert
    · cases hinsert
    · obtain ⟨sessions, -, rfl⟩ := Option.map_eq_some_iff.mp hinsert
      exact .single (.rest rfl rfl)

theorem writes_signInRedeemed {id : Uuid} {mfa : Bool} {session : RedemptionSession}
    {r : Option (Uuid × SessionLevel)} (h : signInRedeemed db id mfa session now = some (r, db')) :
    Writes now undone placed drawn db db' := by
  simp only [signInRedeemed] at h
  split at h
  · rename_i db₁ hcreate
    cases h
    exact writes_sessionCreate hcreate
  · cases h

theorem writes_passwordSet (id : Uuid) (hash : PasswordHash) :
    Writes now undone placed drawn db (sysPasswordSet db id hash now).2 := by
  rw [sysPasswordSet]
  split
  · exact .refl
  · exact .single (.account (fun _ => rfl) fun _ h => h)

theorem writes_passwordReset {tokenHash : TokenHash} {hash : PasswordHash} {session : RedemptionSession}
    {r : Option (Uuid × SessionLevel)} (h : sysPasswordReset db tokenHash hash session now = some (r, db')) :
    Writes now undone placed drawn db db' := by
  rw [sysPasswordReset] at h
  split at h
  · cases h
    exact .refl
  · rename_i t db₁ hconsume
    have huse : Write now undone placed drawn db db₁ := write_consume hconsume (by decide)
    split at h
    · cases h
      exact .single huse
    · rename_i a hfind
      split at h
      · cases h
      · rename_i db₂ hset
        have hset' : Writes now undone placed drawn db₁ db₂ := by
          have hw : Writes now undone placed drawn db₁ (sysPasswordSet db₁ t.accountId hash now).2 :=
            writes_passwordSet t.accountId hash
          rwa [hset] at hw
        exact (ReflTransGen.head huse hset').trans
          (ReflTransGen.head (b := endAccess db₂ t.accountId) (.rest rfl rfl) (writes_signInRedeemed h))

theorem sysPasswordSet_stored {id : Uuid} {hash : PasswordHash} (h : (sysPasswordSet db id hash now).1 = true) :
    (sysPasswordSet db id hash now).2 = db.updateAccount id
      (fun a => { a with passwordHash := some hash, passwordChangedAt := some now }) fun _ => rfl := by
  rw [sysPasswordSet] at h ⊢
  split at h
  · cases h
  · rfl

/-- The first verification, once its password is stored. -/
theorem writes_verified {a : Account} {f : Account → Account} {hf : ∀ a, (f a).id = a.id} (ha : a ∈ db.accounts)
    (hnot : a.emailVerifiedAt = none) (hemail : ∀ a, (f a).email = a.email)
    (hstays : ∀ a, a.emailVerifiedAt ≠ none → (f a).emailVerifiedAt ≠ none) :
    Writes now undone placed drawn db
      (((endAccess (db.updateAccount a.id f hf) a.id).deleteTokens (endedByVerification a.id)).updateAccount a.id
        (fun a => { a with mfaEnabledAt := none, pendingEmail := none, emailVerifiedAt := some now }) fun _ => rfl) := by
  have hstored : Write now undone placed drawn (db.deleteTokens (endedByVerification a.id))
      ((db.deleteTokens (endedByVerification a.id)).updateAccount a.id f hf) := .account hemail hstays
  have hlast : Write now undone placed drawn ((db.deleteTokens (endedByVerification a.id)).updateAccount a.id f hf)
      (((db.deleteTokens (endedByVerification a.id)).updateAccount a.id f hf).updateAccount a.id
        (fun a => { a with mfaEnabledAt := none, pendingEmail := none, emailVerifiedAt := some now }) fun _ => rfl) :=
    .account (fun _ => rfl) fun _ _ => Option.some_ne_none now
  exact ReflTransGen.head (.discard (.verification ha hnot))
    (ReflTransGen.head hstored (ReflTransGen.head hlast (.single (.rest rfl rfl))))

theorem writes_markVerified {id : Uuid} {hash : Option PasswordHash}
    (h : accountMarkVerified db id hash now = some db') : Writes now undone placed drawn db db' := by
  by_cases hany : db.accounts.any (fun a => decide (a.id = id ∧ a.emailVerifiedAt = none)) = true
  · obtain ⟨a, ha, hcond⟩ := Table.any_iff.mp hany
    obtain ⟨rfl, hnot⟩ := of_decide_eq_true hcond
    cases hash with
    | none =>
      simp only [accountMarkVerified, hany] at h
      cases h
      exact writes_verified ha hnot (fun _ => rfl) fun _ h => h
    | some hash =>
      by_cases hstored : (sysPasswordSet db a.id hash now).1 = true
      · simp only [accountMarkVerified, hany, hstored, sysPasswordSet_stored hstored] at h
        cases h
        exact writes_verified ha hnot (fun _ => rfl) fun _ h => h
      · simp only [accountMarkVerified, hany, Bool.eq_false_iff.mpr hstored] at h
        cases h
  · simp only [accountMarkVerified, Bool.eq_false_iff.mpr hany] at h
    cases h

theorem writes_emailVerify {tokenHash : TokenHash} {hash : PasswordHash} {session : RedemptionSession}
    {r : Option (Uuid × SessionLevel)} (h : sysEmailVerify db tokenHash hash session now = some (r, db')) :
    Writes now undone placed drawn db db' := by
  rw [sysEmailVerify] at h
  split at h
  · cases h
    exact .refl
  · rename_i t db₁ hconsume
    have huse : Write now undone placed drawn db db₁ := write_consume hconsume (by decide)
    split at h
    · cases h
      exact .single huse
    · split at h
      · obtain ⟨db₂, hmark, hsign⟩ := Option.bind_eq_some_iff.mp h
        exact (ReflTransGen.head huse (writes_markVerified hmark)).trans (writes_signInRedeemed hsign)
      · exact ReflTransGen.head huse (writes_signInRedeemed h)

theorem reservedByOther_deleteTokens {email : Address} {id : Uuid} (p : CredentialToken → Bool)
    (h : reservedByOther db email id now = false) : reservedByOther (db.deleteTokens p) email id now = false := by
  refine Bool.eq_false_iff.mpr fun hany => ?_
  obtain ⟨r, hr, hreserves⟩ := Table.any_iff.mp hany
  have htaken : reservedByOther db email id now = true :=
    Table.any_iff.mpr ⟨r, (Table.mem_deleteWhere.mp hr).1, hreserves⟩
  rw [h] at htaken
  cases htaken

/-- Where an operation has moved an account to. -/
def Placed (db : AuthDb) (id : Uuid) (email : Address) : Prop := ∀ a ∈ db.accounts, a.id = id → a.email = email

theorem placed_updateAccount {id : Uuid} {f : Account → Account} {hf : ∀ a, (f a).id = a.id} {email : Address}
    (hemail : ∀ a, (f a).email = email) : Placed (db.updateAccount id f hf) id email := by
  intro a ha hid
  obtain ⟨a₀, -, ha₀, rfl⟩ := AuthDb.mem_updateAccount ha
  rw [if_pos (ha₀.trans hid)]
  exact hemail a₀

theorem placed_putBack (db : AuthDb) (id : Uuid) (target : Address) :
    Placed (db.updateAccount id (fun a => { a with email := target }) fun _ => rfl) id target :=
  placed_updateAccount fun _ => rfl

theorem writes_confirm (tokenHash : TokenHash) :
    Writes now undone (Placed (sysEmailChangeConfirm db tokenHash now).2) drawn db
      (sysEmailChangeConfirm db tokenHash now).2 := by
  generalize hr : sysEmailChangeConfirm db tokenHash now = r
  rw [sysEmailChangeConfirm] at hr
  split at hr
  · cases hr
    exact .refl
  · rename_i t db₁ hconsume
    refine ReflTransGen.head (write_consume hconsume (by decide)) ?_
    split at hr
    · cases hr
      exact .refl
    · split at hr
      · cases hr
        exact .refl
      · split at hr
        · cases hr
          exact .refl
        · rename_i target _ _ hfree
          obtain ⟨hheld, hreserved⟩ := Bool.or_eq_false_iff.mp (Bool.eq_false_iff.mpr hfree)
          cases hr
          refine ReflTransGen.head (.discard (.confirmations t.accountId)) (.single (.move (fun _ => rfl) (fun _ h => h)
            hheld (reservedByOther_deleteTokens _ hreserved) (fun t' ht' => ?_) (placed_updateAccount fun _ => rfl)))
          exact (Table.mem_deleteWhere.mp ht').2

/-- The cancel tokens that redeeming one uses, or ends as issued after it. -/
def Undone (db : AuthDb) (now : Timestamp) (tokenHash : TokenHash) (t : CredentialToken) : Prop :=
  ∃ c ∈ db.tokens, c.redeemable .emailChangeCancel tokenHash now = true ∧
    (c = t ∨ c.accountId = t.accountId ∧ c.createdAt < t.createdAt)

theorem write_clearPending (id : Uuid) :
    Write now undone placed drawn db (db.updateAccount id (fun a => { a with pendingEmail := none }) fun _ => rfl) :=
  .account (fun _ => rfl) fun _ h => h

theorem write_putBack {id : Uuid} {target : Address} (hheld : heldByOther db target id = false)
    (hreserved : reservedByOther db target id now = false) (hnone : ∀ t ∈ db.tokens, confirmations id t = false)
    (hplaced : placed id target) :
    Write now undone placed drawn db (db.updateAccount id (fun a => { a with email := target }) fun _ => rfl) :=
  .move (fun _ => rfl) (fun _ h => h) hheld hreserved hnone hplaced

theorem reservedByOther_redeemed {tokenHash : TokenHash} {t : CredentialToken} {target : Address} (h : Reserved db now)
    (ht : t ∈ db.tokens) (hlive : t.redeemable .emailChangeCancel tokenHash now = true)
    (htarget : t.targetEmail = some target) :
    reservedByOther (db.markUsed (·.redeemable .emailChangeCancel tokenHash now) now) target t.accountId now = false := by
  obtain ⟨hpurpose, -, hunused, hexpires⟩ := of_decide_eq_true hlive
  have hreserves : t.reserves target now = true := reserves_iff.mpr ⟨hpurpose, hunused, hexpires, htarget⟩
  refine Bool.eq_false_iff.mpr fun hany => ?_
  obtain ⟨d, hd, hother⟩ := Table.any_iff.mp hany
  obtain ⟨hd', hne⟩ := Bool.and_eq_true_iff.mp hother
  obtain ⟨d₀, hd₀, ⟨-, rfl⟩ | ⟨-, rfl⟩⟩ := mem_markUsed hd
  · cases (reserves_iff.mp hd').2.1
  · exact of_decide_eq_true hne (h.sole d hd₀ t ht target hd' hreserves)

theorem not_confirmations_of_undo {id : Uuid} {issued : Timestamp} {t : CredentialToken}
    (ht : t ∈ (db.deleteTokens (endedByUndo id issued)).tokens) : confirmations id t = false := by
  obtain ⟨-, hkept⟩ := Table.mem_deleteWhere.mp ht
  refine Bool.eq_false_iff.mpr fun hconf => ?_
  obtain ⟨hacc, hp, hu⟩ := of_decide_eq_true hconf
  rw [endedByUndo, decide_eq_true ⟨hacc, hu, .inr (.inl hp)⟩] at hkept
  cases hkept

theorem writes_cancel {tokenHash : TokenHash} (h : Reserved db now) :
    Writes now (Undone db now tokenHash) (Placed (sysEmailChangeCancel db tokenHash now).2) drawn db
      (sysEmailChangeCancel db tokenHash now).2 := by
  generalize hr : sysEmailChangeCancel db tokenHash now = r
  simp only [sysEmailChangeCancel] at hr
  split at hr
  · cases hr
    exact .refl
  · rename_i t db₁ hconsume
    obtain ⟨ht, hlive, rfl⟩ := sysCredentialTokenConsume_some hconsume
    refine ReflTransGen.head (.use fun t ht _ hlive => ⟨t, ht, hlive, .inl rfl⟩) ?_
    split at hr
    · cases hr
      exact .refl
    · rename_i a ha
      subst hr
      have hundo : ∀ t' : CredentialToken, t'.accountId = t.accountId → t.createdAt < t'.createdAt →
          Undone db now tokenHash t' := fun t' hacc hlater => ⟨t, ht, hlive, .inr ⟨hacc.symm, hlater⟩⟩
      refine ReflTransGen.head (write_clearPending t.accountId) ?_
      split
      · rename_i target htarget
        split
        · exact ReflTransGen.head (.discard (.confirmations t.accountId)) (.single (.rest rfl rfl))
        · refine ReflTransGen.head (.undo hundo) ?_
          split
          · exact .single (.rest rfl rfl)
          · rename_i hheld
            have hfree := reservedByOther_redeemed h ht hlive htarget
            -- the deletions and the move are of different tables
            exact ReflTransGen.head (write_putBack (Bool.eq_false_iff.mpr hheld) (reservedByOther_deleteTokens _ hfree)
              (fun _ => not_confirmations_of_undo) (placed_putBack _ t.accountId target)) (.single (.rest rfl rfl))
      · exact ReflTransGen.head (.discard (.confirmations t.accountId)) (.single (.rest rfl rfl))

theorem writes_setDisabled (id : Uuid) (disabledAt : Option Timestamp) :
    Write now undone placed drawn db (db.setDisabled id disabledAt) :=
  .account (fun _ => rfl) fun _ h => h

theorem writes_credentialTokenIssue {purpose : CredentialTokenPurpose} {a : Account} {tokenHash : TokenHash}
    {target : Option Address} {ttl : ℕ} {made : Bool} (ha : a ∈ db.accounts)
    (hpurpose : purpose = .passwordReset ∨ purpose = .emailVerify ∧ a.emailVerifiedAt = none) (hdrawn : drawn tokenHash)
    (h : sysCredentialTokenIssue db purpose a.id tokenHash target ttl now = some (made, db')) :
    Writes now undone placed drawn db db' := by
  rw [sysCredentialTokenIssue] at h
  split at h
  · cases h
    exact .refl
  · obtain ⟨db₁, hinsert, heq⟩ := Option.map_eq_some_iff.mp h
    obtain ⟨-, rfl⟩ := Prod.mk.inj heq
    have hreplaced : purpose ≠ .emailChangeCancel := by
      rcases hpurpose with rfl | ⟨rfl, -⟩ <;> decide
    exact ReflTransGen.head (.discard (.older a.id hreplaced)) (.single (.issue hinsert rfl hdrawn ha rfl hpurpose))

end

end SlugBase.Auth
