import SlugBase.Mfa.Service

/-!
# What the writes of the second factor keep

* `Sound`: the log is justified, and how the rows and what was drawn fit to it;
* `Quiet`: the writes that accept nothing, and leave every secret with its last accepted step;
* `Fits`: what the rows must allow of an entry;
* **`Sound.quiet`**, **`Sound.record`**: a quiet write, and a justified entry, keep all of it.
-/

namespace SlugBase.Mfa

open Relational Auth

/-! ## The invariant -/

/-- The log is justified, and the rows fit to it. -/
structure Sound (db : MfaDb) : Prop where
  justified : Each Justified db.log
  enabledFor : EnabledFor db
  secretDrawn : ∀ a ∈ db.accounts, ∀ x, a.mfaSecret = some x → x.secret ∈ db.drawn.secrets
  secretOwner : ∀ a ∈ db.accounts, ∀ b ∈ db.accounts, ∀ x y, a.mfaSecret = some x → b.mfaSecret = some y →
    x.secret = y.secret → a.id = b.id
  acceptedDrawn : ∀ a secret step, Entry.accepted a secret step ∈ db.log → secret ∈ db.drawn.secrets
  last : ∀ a ∈ db.accounts, ∀ x, a.mfaSecret = some x → ∀ b step, Entry.accepted b x.secret step ∈ db.log →
    ∃ last, a.mfaLastStep = some last ∧ step ≤ last
  codeDrawn : ∀ c ∈ db.codes, c.id ∈ db.drawn.codes
  codeUnused : ∀ c ∈ db.codes, c.usedAt = none → ∀ a, Entry.consumed a c.id ∉ db.log
  consumedDrawn : ∀ a codeId, Entry.consumed a codeId ∈ db.log → codeId ∈ db.drawn.codes
  sessionDrawn : ∀ s ∈ db.sessions, s.id ∈ db.drawn.sessions
  waiting : ∀ s ∈ db.sessions, s.level = .partialLevel → refusals db.log s.id ≤ s.mfaFailures ∧
    s.mfaFailures < maxFailures ∧ ∀ s' now, Entry.promoted s' now ∈ db.log → s'.id ≠ s.id
  promotedDrawn : ∀ s now, Entry.promoted s now ∈ db.log → s.id ∈ db.drawn.sessions
  refusedDrawn : ∀ id, Entry.refused id ∈ db.log → id ∈ db.drawn.sessions

theorem Sound.empty : Sound {} where
  justified := trivial
  enabledFor _ ha := absurd ha (Table.not_mem_empty _)
  secretDrawn _ ha := absurd ha (Table.not_mem_empty _)
  secretOwner _ ha := absurd ha (Table.not_mem_empty _)
  acceptedDrawn _ _ _ h := absurd h List.not_mem_nil
  last _ ha := absurd ha (Table.not_mem_empty _)
  codeDrawn _ hc := absurd hc (Table.not_mem_empty _)
  codeUnused _ hc := absurd hc (Table.not_mem_empty _)
  consumedDrawn _ _ h := absurd h List.not_mem_nil
  sessionDrawn _ hs := absurd hs (Table.not_mem_empty _)
  waiting _ hs := absurd hs (Table.not_mem_empty _)
  promotedDrawn _ _ h := absurd h List.not_mem_nil
  refusedDrawn _ h := absurd h List.not_mem_nil

/-! ## Quiet writes -/

/-- The account was enabled for the secret it has. -/
def Enabled (log : List Entry) (a : Account) : Prop :=
  ∃ sealed stored, a.mfaSecret = some sealed ∧ stored.secret = sealed.secret ∧ Entry.enabled a.id (some stored) ∈ log

/-- An account's row keeps its secret, the last step does not go back, and the second factor is not turned on but for a
secret it was enabled for. -/
structure SameSecret (log : List Entry) (a a' : Account) : Prop where
  secret : a.mfaSecret.map Sealed.secret = a'.mfaSecret.map Sealed.secret
  last : ∀ l, a.mfaLastStep = some l → ∃ l', a'.mfaLastStep = some l' ∧ l ≤ l'
  enabled : a'.mfaEnabledAt ≠ none → a.mfaEnabledAt ≠ none ∨ Enabled log a'

theorem SameSecret.refl (log : List Entry) (a : Account) : SameSecret log a a :=
  ⟨rfl, fun l hl => ⟨l, hl, le_rfl⟩, .inl⟩

/-- A write that the log allows: an account keeps its secret and its last step does not go back, or it has none; its second
factor is not turned on but for a secret it was enabled for; a code is not made unused, a session is not made waiting
again; what is new was drawn and nothing was done with it. -/
structure Quiet (db db' : MfaDb) : Prop where
  log : db'.log = db.log
  secrets : db.drawn.secrets ⊆ db'.drawn.secrets
  codeIds : db.drawn.codes ⊆ db'.drawn.codes
  sessionIds : db.drawn.sessions ⊆ db'.drawn.sessions
  accounts : ∀ a' ∈ db'.accounts, a'.mfaSecret = none ∧ a'.mfaEnabledAt = none ∨ ∃ a ∈ db.accounts, a.id = a'.id ∧
    SameSecret db.log a a'
  codes : ∀ c' ∈ db'.codes, (∃ c ∈ db.codes, c.id = c'.id ∧ (c'.usedAt = none → c.usedAt = none)) ∨
    c'.id ∈ db'.drawn.codes ∧ ∀ a, Entry.consumed a c'.id ∉ db.log
  sessions : ∀ s' ∈ db'.sessions, (∃ s ∈ db.sessions, s.id = s'.id ∧
      (s'.level = .partialLevel → s.level = .partialLevel ∧ s.mfaFailures ≤ s'.mfaFailures ∧
        (s.mfaFailures < maxFailures → s'.mfaFailures < maxFailures))) ∨
    s'.id ∈ db'.drawn.sessions ∧ s'.mfaFailures = 0 ∧ refusals db.log s'.id = 0 ∧
      ∀ s now, Entry.promoted s now ∈ db.log → s.id ≠ s'.id

section

variable {db db' : MfaDb}

theorem Quiet.secret (h : Quiet db db') {a' : Account} (ha' : a' ∈ db'.accounts) {x : Sealed}
    (hx : a'.mfaSecret = some x) : ∃ a ∈ db.accounts, a.id = a'.id ∧ SameSecret db.log a a' ∧
      ∃ y, a.mfaSecret = some y ∧ y.secret = x.secret := by
  rcases h.accounts a' ha' with ⟨hnone, -⟩ | ⟨a, ha, hid, hsame⟩
  · rw [hx] at hnone
    cases hnone
  · have hsecret := hsame.secret
    rw [hx, Option.map_some] at hsecret
    exact ⟨a, ha, hid, hsame, Option.map_eq_some_iff.mp hsecret⟩

/-- **A quiet write** keeps everything. -/
theorem Sound.quiet (h : Sound db) (hq : Quiet db db') : Sound db' where
  justified := by rw [hq.log]; exact h.justified
  enabledFor a' ha' henabled := by
    rw [hq.log]
    rcases hq.accounts a' ha' with ⟨-, hoff⟩ | ⟨a, ha, hid, hsame⟩
    · exact absurd hoff henabled
    rcases hsame.enabled henabled with hon | hnow
    · obtain ⟨x, stored, hx, hstored, hlog⟩ := h.enabledFor a ha hon
      have hsecret := hsame.secret
      rw [hx, Option.map_some] at hsecret
      obtain ⟨y, hy, hxy⟩ := Option.map_eq_some_iff.mp hsecret.symm
      rw [← hid]
      exact ⟨y, stored, hy, hstored.trans hxy.symm, hlog⟩
    · exact hnow
  secretDrawn a' ha' x hx := by
    obtain ⟨a, ha, -, -, y, hy, hxy⟩ := hq.secret ha' hx
    exact hxy ▸ hq.secrets (h.secretDrawn a ha y hy)
  secretOwner a' ha' b' hb' x y hx hy hxy := by
    obtain ⟨a, ha, hida, -, x', hx', hsamea⟩ := hq.secret ha' hx
    obtain ⟨b, hb, hidb, -, y', hy', hsameb⟩ := hq.secret hb' hy
    have howner := h.secretOwner a ha b hb x' y' hx' hy' (hsamea.trans (hxy.trans hsameb.symm))
    exact hida.symm.trans (howner.trans hidb)
  acceptedDrawn a secret step hlog := hq.secrets (h.acceptedDrawn a secret step (hq.log ▸ hlog))
  last a' ha' x hx b step hlog := by
    obtain ⟨a, ha, -, hsame, y, hy, hxy⟩ := hq.secret ha' hx
    rw [hq.log, ← hxy] at hlog
    obtain ⟨l, hl, hle⟩ := h.last a ha y hy b step hlog
    obtain ⟨l', hl', hle'⟩ := hsame.last l hl
    exact ⟨l', hl', hle.trans hle'⟩
  codeDrawn c' hc' := by
    rcases hq.codes c' hc' with ⟨c, hc, hid, -⟩ | ⟨hdrawn, -⟩
    · exact hid ▸ hq.codeIds (h.codeDrawn c hc)
    · exact hdrawn
  codeUnused c' hc' hunused a := by
    rw [hq.log]
    rcases hq.codes c' hc' with ⟨c, hc, hid, hused⟩ | ⟨-, hnew⟩
    · exact hid ▸ h.codeUnused c hc (hused hunused) a
    · exact hnew a
  consumedDrawn a codeId hlog := hq.codeIds (h.consumedDrawn a codeId (hq.log ▸ hlog))
  sessionDrawn s' hs' := by
    rcases hq.sessions s' hs' with ⟨s, hs, hid, -⟩ | ⟨hdrawn, -⟩
    · exact hid ▸ hq.sessionIds (h.sessionDrawn s hs)
    · exact hdrawn
  waiting s' hs' hlevel := by
    rw [hq.log]
    rcases hq.sessions s' hs' with ⟨s, hs, hid, hsame⟩ | ⟨-, hfailures, hrefusals, hnew⟩
    · obtain ⟨hwaits, hle, hbound⟩ := hsame hlevel
      obtain ⟨hrefused, hlt, hnot⟩ := h.waiting s hs hwaits
      rw [← hid]
      exact ⟨hrefused.trans hle, hbound hlt, hnot⟩
    · rw [hfailures, hrefusals]
      exact ⟨le_rfl, by decide, hnew⟩
  promotedDrawn s now hlog := hq.sessionIds (h.promotedDrawn s now (hq.log ▸ hlog))
  refusedDrawn id hlog := hq.sessionIds (h.refusedDrawn id (hq.log ▸ hlog))

theorem Quiet.refl (db : MfaDb) : Quiet db db where
  log := rfl
  secrets := List.Subset.refl _
  codeIds := List.Subset.refl _
  sessionIds := List.Subset.refl _
  accounts a ha := .inr ⟨a, ha, rfl, .refl _ a⟩
  codes c hc := .inl ⟨c, hc, rfl, id⟩
  sessions s hs := .inl ⟨s, hs, rfl, fun h => ⟨h, le_rfl, id⟩⟩

theorem MfaDb.updateAccount_eq_some {i : Uuid} {p : Account → Bool} {f : Account → Account}
    {hf : ∀ a, (f a).id = a.id} (h : db.updateAccount i p f hf = some db') :
    (∃ a ∈ db.accounts, a.id = i ∧ p a = true) ∧
      db' = { db with accounts := db.accounts.updateWhere (fun a => decide (a.id = i) && p a) f hf } := by
  rw [MfaDb.updateAccount] at h
  split at h
  · rename_i hany
    obtain ⟨a, ha, hp⟩ := Table.any_iff.mp hany
    obtain ⟨hid, hp⟩ := Bool.and_eq_true_iff.mp hp
    exact ⟨⟨a, ha, of_decide_eq_true hid, hp⟩, (Option.some.inj h).symm⟩
  · cases h

theorem MfaDb.mem_updateAccount {i : Uuid} {p : Account → Bool} {f : Account → Account} {hf : ∀ a, (f a).id = a.id}
    (h : db.updateAccount i p f hf = some db') {a' : Account} (ha' : a' ∈ db'.accounts) :
    ∃ a ∈ db.accounts, a' = a ∧ (a.id = i → p a = false) ∨ a.id = i ∧ p a = true ∧ a' = f a := by
  obtain ⟨-, rfl⟩ := MfaDb.updateAccount_eq_some h
  simp only [Table.mem_updateWhere] at ha'
  obtain ⟨a, ha, rfl⟩ := ha'
  refine ⟨a, ha, ?_⟩
  split
  · rename_i hp
    obtain ⟨hid, hp⟩ := Bool.and_eq_true_iff.mp hp
    exact .inr ⟨of_decide_eq_true hid, hp, rfl⟩
  · rename_i hnot
    exact .inl ⟨rfl, fun hid => by simpa [hid] using hnot⟩

/-- A write of one table is quiet when it is quiet there. -/
theorem Quiet.updateAccount {i : Uuid} {p : Account → Bool} {f : Account → Account} {hf : ∀ a, (f a).id = a.id}
    (h : db.updateAccount i p f hf = some db')
    (hquiet : ∀ a ∈ db.accounts, a.id = i → p a = true →
      (f a).mfaSecret = none ∧ (f a).mfaEnabledAt = none ∨ SameSecret db.log a (f a)) : Quiet db db' := by
  have hrows : ∀ a' ∈ db'.accounts, a'.mfaSecret = none ∧ a'.mfaEnabledAt = none ∨ ∃ a ∈ db.accounts, a.id = a'.id ∧
      SameSecret db.log a a' := by
    intro a' ha'
    obtain ⟨a, ha, hsame⟩ := MfaDb.mem_updateAccount h ha'
    rcases hsame with ⟨rfl, -⟩ | ⟨hid, hp, rfl⟩
    · exact .inr ⟨a', ha, rfl, .refl _ a'⟩
    · rcases hquiet a ha hid hp with hnone | hsame
      · exact .inl hnone
      · exact .inr ⟨a, ha, (hf a).symm, hsame⟩
  obtain ⟨-, rfl⟩ := MfaDb.updateAccount_eq_some h
  exact { Quiet.refl db with accounts := hrows }

theorem Quiet.deleteCodes (id : Uuid) : Quiet db (db.deleteCodes id) :=
  { Quiet.refl db with codes := fun c hc => .inl ⟨c, (Table.mem_deleteWhere.mp hc).1, rfl, fun h => h⟩ }

theorem Quiet.deleteSessions (p : Session → Bool) : Quiet db (db.deleteSessions p) :=
  { Quiet.refl db with sessions := fun s hs => .inl ⟨s, (Table.mem_deleteWhere.mp hs).1, rfl, fun h => ⟨h, le_rfl, id⟩⟩ }

theorem Quiet.updateFullSession {id accountId : Uuid} {f : Session → Session} {hf : ∀ s, (f s).id = s.id}
    (h : updateFullSession db id accountId f hf = some db') (hlevel : ∀ s, (f s).level = s.level) : Quiet db db' := by
  simp only [Mfa.updateFullSession] at h
  split at h
  · cases h
    refine { Quiet.refl db with sessions := fun s' hs' => .inl ?_ }
    simp only [Table.mem_updateWhere] at hs'
    obtain ⟨s, hs, rfl⟩ := hs'
    refine ⟨s, hs, ?_⟩
    split
    · rename_i hown
      refine ⟨(hf s).symm, fun hwaits => ?_⟩
      rw [hlevel, (of_decide_eq_true hown).2.2] at hwaits
      cases hwaits
    · exact ⟨rfl, fun h => ⟨h, le_rfl, fun h => h⟩⟩
  · cases h

end

/-! ## One entry more -/

theorem MfaDb.mem_record {db : MfaDb} {e e' : Entry} (h : e' ∈ (db.record e).log) : e' = e ∨ e' ∈ db.log :=
  List.mem_cons.mp h

theorem refusals_record (db : MfaDb) (e : Entry) (id : Uuid) :
    refusals (db.record e).log id = refusals db.log id + if e = .refused id then 1 else 0 := by
  simp only [refusals, MfaDb.record, List.count_cons, beq_iff_eq]

/-- What the rows must allow of an entry, once it is written. -/
def Fits (db : MfaDb) : Entry → Prop
  | .verified _ _ _ | .enabled _ _ => True
  | .accepted _ secret step => secret ∈ db.drawn.secrets ∧ ∀ a ∈ db.accounts, ∀ x, a.mfaSecret = some x →
      x.secret = secret → ∃ last, a.mfaLastStep = some last ∧ step ≤ last
  | .consumed _ codeId => codeId ∈ db.drawn.codes ∧ ∀ c ∈ db.codes, c.id = codeId → c.usedAt ≠ none
  | .promoted session _ => session.id ∈ db.drawn.sessions ∧
      ∀ s ∈ db.sessions, s.id = session.id → s.level ≠ .partialLevel
  | .refused sessionId => sessionId ∈ db.drawn.sessions ∧
      ∀ s ∈ db.sessions, s.id = sessionId → s.level = .partialLevel → refusals db.log sessionId < s.mfaFailures

/-- **One entry more**: a log that justifies it stays justified. -/
theorem Sound.record {db : MfaDb} (h : Sound db) {e : Entry} (hj : Justified db.log e) (hfits : Fits db e) :
    Sound (db.record e) where
  justified := ⟨hj, h.justified⟩
  enabledFor a ha henabled := by
    obtain ⟨x, stored, hx, hstored, hlog⟩ := h.enabledFor a ha henabled
    exact ⟨x, stored, hx, hstored, List.mem_cons_of_mem _ hlog⟩
  secretDrawn := h.secretDrawn
  secretOwner := h.secretOwner
  acceptedDrawn a secret step hlog := by
    rcases MfaDb.mem_record hlog with rfl | hlog
    · exact hfits.1
    · exact h.acceptedDrawn a secret step hlog
  last a ha x hx b step hlog := by
    rcases MfaDb.mem_record hlog with rfl | hlog
    · exact hfits.2 a ha x hx rfl
    · exact h.last a ha x hx b step hlog
  codeDrawn := h.codeDrawn
  codeUnused c hc hunused a hlog := by
    rcases MfaDb.mem_record hlog with rfl | hlog
    · exact hfits.2 c hc rfl hunused
    · exact h.codeUnused c hc hunused a hlog
  consumedDrawn a codeId hlog := by
    rcases MfaDb.mem_record hlog with rfl | hlog
    · exact hfits.1
    · exact h.consumedDrawn a codeId hlog
  sessionDrawn := h.sessionDrawn
  waiting s hs hlevel := by
    obtain ⟨hrefused, hlt, hnot⟩ := h.waiting s hs hlevel
    refine ⟨?_, hlt, fun s' now hlog => ?_⟩
    · rw [refusals_record]
      split
      · rename_i he
        subst he
        exact hfits.2 s hs rfl hlevel
      · exact hrefused
    · rcases MfaDb.mem_record hlog with rfl | hlog
      · exact fun hid => hfits.2 s hs hid.symm hlevel
      · exact hnot s' now hlog
  promotedDrawn s now hlog := by
    rcases MfaDb.mem_record hlog with rfl | hlog
    · exact hfits.1
    · exact h.promotedDrawn s now hlog
  refusedDrawn id hlog := by
    rcases MfaDb.mem_record hlog with rfl | hlog
    · exact hfits.1
    · exact h.refusedDrawn id hlog

end SlugBase.Mfa
