import SlugBase.Auth.Store
import SlugBase.Lib.Transition

/-!
# How long a session lives

Sessions that are created, used, rotated, promoted and removed at any readings of the clock, among changes of the passwords.

* `Becomes`: what a function can make of a session, with one lemma for each function;
* `Lives.step`, `lives`: the runs, with what was born, promoted, over and changed as a history;
* `Living`, `Living.step`: the bounds of every session;
* `Gone`, `Over`: what was removed stays away, and what is over stays over while the readings do not go back;
* **`session_lifetime`**: the bounds in every run and that what was removed is not accepted again, and in runs whose readings
  do not go back that what has expired is not;
* `lifetime_from_promotion`: the absolute limit counts from the promotion, and readings that go back accept an expired session.
-/

namespace SlugBase.Auth

open Relational Transition

/-! ## What becomes of a session -/

/-- What a function can make of a session at a reading of the clock. -/
inductive Becomes (now : Timestamp) (s : Session) : Session → Prop
  | same : Becomes now s s
  | slid (hfull : s.level = .full) (hlive : now < s.expiresAt) : Becomes now s (slid s now)
  | rotated (hfull : s.level = .full) (newTokenHash : TokenHash) :
    Becomes now s { s with tokenHash := newTokenHash, createdAt := now }
  | promoted (hhalf : s.level = .partialLevel) (hlive : now < s.expiresAt) (newTokenHash : TokenHash) :
    Becomes now s (promoted s newTokenHash now)

section

variable {db db' : AuthDb} {now : Timestamp} {s s' : Session}

theorem Becomes.id_eq (h : Becomes now s s') : s'.id = s.id := by
  cases h <;> rfl

theorem of_lookup {tokenHash : TokenHash} (h : sysSessionLookup db tokenHash now = (some s, db')) :
    s ∈ db.sessions ∧ accepted db s now = true := by
  unfold sysSessionLookup at h
  split at h
  · cases h
  · rename_i r hr
    cases h
    obtain ⟨hmem, hp⟩ := Table.find?_some hr
    exact ⟨hmem, (Bool.and_eq_true_iff.mp hp).2⟩

theorem lt_expiresAt_of_accepted (h : accepted db s now = true) : now < s.expiresAt :=
  (of_decide_eq_true (Bool.and_eq_true_iff.mp h).1).1

theorem changed_le_of_accepted (h : accepted db s now = true) {t : Timestamp}
    (hchanged : ∀ a ∈ db.accounts, a.id = s.accountId → a.passwordChangedAt = some t) : t ≤ s.createdAt := by
  obtain ⟨a, ha, hp⟩ := Table.any_iff.mp (Bool.and_eq_true_iff.mp h).2
  obtain ⟨hid, hdate⟩ := Bool.and_eq_true_iff.mp hp
  rw [hchanged a ha (of_decide_eq_true hid).1] at hdate
  exact of_decide_eq_true hdate

theorem becomes_lookup (tokenHash : TokenHash) (h : s' ∈ (sysSessionLookup db tokenHash now).2.sessions) :
    ∃ s ∈ db.sessions, (s' = s ∨ s.level = .full) ∧ Becomes now s s' := by
  cases hlookup : sysSessionLookup db tokenHash now with
  | mk answer db₁ =>
    rw [hlookup] at h
    unfold sysSessionLookup at hlookup
    split at hlookup
    · cases hlookup
      exact ⟨s', h, .inl rfl, .same⟩
    · rename_i r hr
      obtain ⟨hmem, hp⟩ := Table.find?_some hr
      have hlive := lt_expiresAt_of_accepted (Bool.and_eq_true_iff.mp hp).2
      cases hlookup
      simp only at h
      split at h
      · rename_i hslides
        obtain ⟨s₀, hs₀, rfl⟩ := (Table.mem_updateWhere (f := fun r : Session => slid r now) (h := fun _ => rfl)).mp h
        split
        · rename_i hid
          obtain rfl := Table.eq_of_key hs₀ hmem (of_decide_eq_true hid)
          exact ⟨s₀, hs₀, .inr hslides.1, .slid hslides.1 hlive⟩
        · exact ⟨s₀, hs₀, .inl rfl, .same⟩
      · exact ⟨s', h, .inl rfl, .same⟩

theorem becomes_rotate {id accountId : Uuid} {newTokenHash : TokenHash} {ok : Bool}
    (h : sysSessionRotate db id accountId newTokenHash now = some (ok, db')) (hs' : s' ∈ db'.sessions) :
    ∃ s ∈ db.sessions, (s' = s ∨ s.level = .full) ∧ Becomes now s s' := by
  unfold sysSessionRotate at h
  simp only at h
  split at h
  · cases h
    exact ⟨s', hs', .inl rfl, .same⟩
  · split at h
    · cases h
    · cases h
      simp only [Table.mem_updateWhere] at hs'
      obtain ⟨s₀, hs₀, rfl⟩ := hs'
      split
      · rename_i hown
        have hfull := (of_decide_eq_true hown).2.2
        exact ⟨s₀, hs₀, .inr hfull, .rotated hfull newTokenHash⟩
      · exact ⟨s₀, hs₀, .inl rfl, .same⟩

/-- A promotion makes one session complete, the one it names. -/
theorem becomes_promote {id accountId : Uuid} {newTokenHash : TokenHash} {ok : Bool}
    (h : sysSessionPromote db id accountId newTokenHash now = some (ok, db')) (hs' : s' ∈ db'.sessions) :
    ∃ s ∈ db.sessions, (s' = s ∨ s.id = id ∧ ok = true) ∧ Becomes now s s' := by
  unfold sysSessionPromote at h
  split at h
  · cases h
    exact ⟨s', hs', .inl rfl, .same⟩
  · simp only at h
    split at h
    · cases h
      exact ⟨s', hs', .inl rfl, .same⟩
    · split at h
      · cases h
      · cases h
        obtain ⟨s₀, hs₀, rfl⟩ :=
          (Table.mem_updateWhere (f := fun r : Session => promoted r newTokenHash now) (h := fun _ => rfl)).mp hs'
        split
        · rename_i hown
          obtain ⟨hid, -, hlevel, hlive, -⟩ := of_decide_eq_true (Bool.and_eq_true_iff.mp hown).1
          exact ⟨s₀, hs₀, .inr ⟨hid, rfl⟩, .promoted hlevel hlive newTokenHash⟩
        · exact ⟨s₀, hs₀, .inl rfl, .same⟩

theorem of_create {n : NewSession} {ok : Bool} (h : sysSessionCreate db n now = some (ok, db')) (hs' : s' ∈ db'.sessions) :
    s' ∈ db.sessions ∨ s' = n.row now := by
  unfold sysSessionCreate at h
  split at h
  · cases h
    exact .inl hs'
  · obtain ⟨db₁, hinsert, heq⟩ := Option.map_eq_some_iff.mp h
    cases heq
    unfold insertSession at hinsert
    split at hinsert
    · cases hinsert
    · obtain ⟨sessions, hsessions, rfl⟩ := Option.map_eq_some_iff.mp hinsert
      exact (Table.mem_insert? hsessions).mp (Table.mem_deleteWhere.mp hs').1

theorem accounts_create {n : NewSession} {ok : Bool} (h : sysSessionCreate db n now = some (ok, db')) :
    db'.accounts = db.accounts := by
  unfold sysSessionCreate at h
  split at h
  · cases h
    rfl
  · obtain ⟨db₁, hinsert, heq⟩ := Option.map_eq_some_iff.mp h
    cases heq
    unfold insertSession at hinsert
    split at hinsert
    · cases hinsert
    · obtain ⟨sessions, -, rfl⟩ := Option.map_eq_some_iff.mp hinsert
      rfl

theorem accounts_lookup (db : AuthDb) (tokenHash : TokenHash) (now : Timestamp) :
    (sysSessionLookup db tokenHash now).2.accounts = db.accounts := by
  unfold sysSessionLookup
  split
  · rfl
  · simp only
    split <;> rfl

theorem accounts_rotate {id accountId : Uuid} {newTokenHash : TokenHash} {ok : Bool}
    (h : sysSessionRotate db id accountId newTokenHash now = some (ok, db')) : db'.accounts = db.accounts := by
  unfold sysSessionRotate at h
  simp only at h
  split at h
  · cases h
    rfl
  · split at h
    · cases h
    · cases h
      rfl

theorem accounts_promote {id accountId : Uuid} {newTokenHash : TokenHash} {ok : Bool}
    (h : sysSessionPromote db id accountId newTokenHash now = some (ok, db')) : db'.accounts = db.accounts := by
  unfold sysSessionPromote at h
  split at h
  · cases h
    rfl
  · simp only at h
    split at h
    · cases h
      rfl
    · split at h
      · cases h
      · cases h
        rfl

end

/-! ## Runs -/

/-- The sessions with their history: when each was born, which were promoted, which have expired at a reading or were
removed, which were removed, and each account's last password change; `clock` is the latest reading. -/
structure Lives where
  db : AuthDb
  clock : Timestamp
  born : List (Uuid × Timestamp)
  promoted : List Uuid
  closed : List Uuid
  removed : List Uuid
  changed : Uuid → Option Timestamp

/-- What happens to sessions. -/
inductive SessionEvent
  | create (s : NewSession)
  | lookup (tokenHash : TokenHash)
  | rotate (id accountId : Uuid) (newTokenHash : TokenHash)
  | promote (id accountId : Uuid) (newTokenHash : TokenHash)
  | passwordSet (accountId : Uuid) (hash : PasswordHash)
  | remove (ids : List Uuid)
  | setDisabled (accountId : Uuid) (disabledAt : Option Timestamp)

namespace Lives

variable (w : Lives)

/-- The sessions that have expired at this reading, or are gone afterwards. -/
def ended (db' : AuthDb) (now : Timestamp) : List Uuid :=
  (w.db.sessions.rows.filter fun s => decide (s.expiresAt ≤ now ∨ s.absoluteExpiresAt ≤ now) ||
    !db'.sessions.any fun r => decide (r.id = s.id)).map Session.id

/-- The sessions that are gone afterwards. -/
def gone (db' : AuthDb) : List Uuid :=
  (w.db.sessions.rows.filter fun s => !db'.sessions.any fun r => decide (r.id = s.id)).map Session.id

/-- The rows after a function, and what is over. -/
def goOn (now : Timestamp) (db' : AuthDb) : Lives :=
  { w with
    db := db'
    clock := max w.clock now
    closed := w.ended db' now ++ w.closed
    removed := w.gone db' ++ w.removed }

/-- One event at a reading of the clock; identifiers are drawn once. -/
def step : SessionEvent × Timestamp → Option Lives
  | (.create s, now) =>
    if s.id ∈ w.born.map Prod.fst then none
    else (sysSessionCreate w.db s now).map fun r => { w.goOn now r.2 with born := (s.id, now) :: w.born }
  | (.lookup tokenHash, now) => some (w.goOn now (sysSessionLookup w.db tokenHash now).2)
  | (.rotate id accountId newTokenHash, now) =>
    (sysSessionRotate w.db id accountId newTokenHash now).map fun r => w.goOn now r.2
  | (.promote id accountId newTokenHash, now) =>
    (sysSessionPromote w.db id accountId newTokenHash now).map fun r =>
      { w.goOn now r.2 with promoted := if r.1 then id :: w.promoted else w.promoted }
  | (.passwordSet accountId hash, now) =>
    let r := sysPasswordSet w.db accountId hash now
    some { w.goOn now r.2 with changed := if r.1 then Function.update w.changed accountId (some now) else w.changed }
  | (.remove ids, now) => some (w.goOn now (w.db.deleteSessions fun s => decide (s.id ∈ ids)))
  | (.setDisabled accountId disabledAt, now) => some (w.goOn now (w.db.setDisabled accountId disabledAt))

end Lives

/-- The runs from any accounts, before the first session. -/
def lives : System Lives (SessionEvent × Timestamp) where
  init w := w.db.sessions = ∅ ∧ w.born = [] ∧ w.promoted = [] ∧ w.closed = [] ∧ w.removed = [] ∧ ∀ id, w.changed id = none
  step w e w' := w.step e = some w'

/-- The readings do not go back. -/
def InOrder (w : Lives) (e : SessionEvent × Timestamp) (_ : Lives) : Prop := w.clock ≤ e.2

/-! ## The bounds -/

/-- The bounds of a session born at a time. -/
structure Bounded (promoted : List Uuid) (s : Session) (born : Timestamp) : Prop where
  sliding : s.expiresAt ≤ s.absoluteExpiresAt
  absolute : s.absoluteExpiresAt ≤ born + seconds 300 + days 180
  unpromoted : s.id ∉ promoted → s.absoluteExpiresAt ≤ born + days 180
  still : s.level = .partialLevel → s.expiresAt = born + seconds 300 ∧ s.absoluteExpiresAt = born + seconds 300

theorem days_window_le (remember : Bool) : days (if remember then 90 else 30) ≤ days 180 := by
  cases remember <;> decide

theorem NewSession.row_bounded (n : NewSession) (now : Timestamp) (promoted : List Uuid) :
    Bounded promoted (n.row now) now := by
  have hshort : seconds 300 ≤ days 180 := by decide
  have hwindow := days_window_le n.remember
  cases hlevel : n.level with
  | partialLevel =>
    constructor <;> simp only [NewSession.row, hlevel]
    · exact Nat.le_refl _
    · exact Nat.le_add_right _ _
    · exact fun _ => Nat.add_le_add_left hshort _
    · exact fun _ => ⟨trivial, trivial⟩
  | full =>
    constructor <;> simp only [NewSession.row, hlevel]
    · exact Nat.add_le_add_left hwindow _
    · exact Nat.add_le_add_right (Nat.le_add_right _ _) _
    · exact fun _ => Nat.le_refl _
    · exact fun h => by cases h

theorem Bounded.becomes {promoted promoted' : List Uuid} {s s' : Session} {born now : Timestamp}
    (h : Bounded promoted s born) (hs : Becomes now s s') (hpromoted : promoted ⊆ promoted')
    (hnamed : s' = s ∨ s.level = .full ∨ s.id ∈ promoted') : Bounded promoted' s' born := by
  have hunpromoted (hnot : s.id ∉ promoted') : s.absoluteExpiresAt ≤ born + days 180 :=
    h.unpromoted fun hmem => hnot (hpromoted hmem)
  cases hs with
  | same => exact ⟨h.sliding, h.absolute, hunpromoted, h.still⟩
  | slid hfull =>
    refine ⟨min_le_right .., h.absolute, hunpromoted, fun hhalf => ?_⟩
    rw [slid, hfull] at hhalf
    cases hhalf
  | rotated hfull newTokenHash =>
    refine ⟨h.sliding, h.absolute, hunpromoted, fun hhalf => ?_⟩
    simp only [hfull] at hhalf
    cases hhalf
  | promoted hhalf hlive newTokenHash =>
    have hwindow := days_window_le s.remember
    obtain ⟨hexpires, -⟩ := h.still hhalf
    refine ⟨?_, ?_, fun hnot => ?_, fun hp => by cases hp⟩
    · exact Nat.add_le_add_left hwindow _
    · exact Nat.add_le_add_right (Nat.le_of_lt (hexpires ▸ hlive)) _
    · rcases hnamed with hsame | hfull | hmem
      · have hlevel : SessionLevel.full = s.level := congrArg Session.level hsame
        rw [hhalf] at hlevel
        cases hlevel
      · rw [hhalf] at hfull
        cases hfull
      · exact absurd hmem hnot

/-- **What holds in every state.** -/
structure Living (w : Lives) : Prop where
  bounded : ∀ s ∈ w.db.sessions, ∃ t, (s.id, t) ∈ w.born ∧ Bounded w.promoted s t
  once : (w.born.map Prod.fst).Nodup
  changed : ∀ a ∈ w.db.accounts, ∀ t, w.changed a.id = some t → a.passwordChangedAt = some t

namespace Living

variable {w w' : Lives} {now : Timestamp}

theorem goOn (h : Living w) {db' : AuthDb} {promoted' : List Uuid} (hpromoted : w.promoted ⊆ promoted')
    (hsessions : ∀ s' ∈ db'.sessions, ∃ s ∈ w.db.sessions, (s' = s ∨ s.level = .full ∨ s.id ∈ promoted') ∧ Becomes now s s')
    (haccounts : db'.accounts = w.db.accounts) : Living { w.goOn now db' with promoted := promoted' } where
  bounded s' hs' := by
    obtain ⟨s, hs, hnamed, hbecomes⟩ := hsessions s' hs'
    obtain ⟨t, ht, hbounded⟩ := h.bounded s hs
    exact ⟨t, hbecomes.id_eq ▸ ht, hbounded.becomes hbecomes hpromoted hnamed⟩
  once := h.once
  changed a ha := by
    have ha' : a ∈ db'.accounts := ha
    rw [haccounts] at ha'
    exact h.changed a ha'

theorem step (h : Living w) {e : SessionEvent × Timestamp} (hstep : w.step e = some w') : Living w' := by
  obtain ⟨e, now⟩ := e
  cases e with
  | create n =>
    rw [Lives.step] at hstep
    split at hstep
    · cases hstep
    · rename_i hfresh
      obtain ⟨⟨ok, db'⟩, hcreate, rfl⟩ := Option.map_eq_some_iff.mp hstep
      refine ⟨fun s' hs' => ?_, List.nodup_cons.mpr ⟨hfresh, h.once⟩, fun a ha => ?_⟩
      · rcases of_create hcreate hs' with hold | rfl
        · obtain ⟨t, ht, hbounded⟩ := h.bounded s' hold
          exact ⟨t, List.mem_cons_of_mem _ ht, hbounded⟩
        · exact ⟨now, List.mem_cons_self, n.row_bounded now _⟩
      · have ha' : a ∈ db'.accounts := ha
        rw [accounts_create hcreate] at ha'
        exact h.changed a ha'
  | lookup tokenHash =>
    cases hstep
    refine h.goOn (List.Subset.refl _) (fun s' hs' => ?_) (accounts_lookup ..)
    obtain ⟨s, hs, hnamed, hbecomes⟩ := becomes_lookup tokenHash hs'
    exact ⟨s, hs, hnamed.imp_right .inl, hbecomes⟩
  | rotate id accountId newTokenHash =>
    obtain ⟨⟨ok, db'⟩, hrotate, rfl⟩ := Option.map_eq_some_iff.mp hstep
    refine h.goOn (List.Subset.refl _) (fun s' hs' => ?_) (accounts_rotate hrotate)
    obtain ⟨s, hs, hnamed, hbecomes⟩ := becomes_rotate hrotate hs'
    exact ⟨s, hs, hnamed.imp_right .inl, hbecomes⟩
  | promote id accountId newTokenHash =>
    obtain ⟨⟨ok, db'⟩, hpromote, rfl⟩ := Option.map_eq_some_iff.mp hstep
    refine h.goOn ?_ (fun s' hs' => ?_) (accounts_promote hpromote)
    · simp only
      split
      · exact List.subset_cons_self _ _
      · exact List.Subset.refl _
    · obtain ⟨s, hs, hnamed, hbecomes⟩ := becomes_promote hpromote hs'
      refine ⟨s, hs, hnamed.imp_right fun ⟨hid, hok⟩ => .inr ?_, hbecomes⟩
      simp only [hok, ↓reduceIte]
      exact hid ▸ List.mem_cons_self
  | passwordSet accountId hash =>
    cases hstep
    unfold sysPasswordSet
    split
    · exact h.goOn (List.Subset.refl _) (fun s' hs' => ⟨s', hs', .inl rfl, .same⟩) rfl
    · refine ⟨fun s' hs' => h.bounded s' hs', h.once, fun a ha t ht => ?_⟩
      obtain ⟨a₀, ha₀, hid, rfl⟩ := AuthDb.mem_updateAccount ha
      rw [← hid] at ht
      simp only [↓reduceIte] at ht
      by_cases heq : a₀.id = accountId
      · rw [heq, Function.update_self] at ht
        rw [if_pos heq]
        exact ht
      · rw [Function.update_of_ne heq] at ht
        rw [if_neg heq]
        exact h.changed a₀ ha₀ t ht
  | remove ids =>
    cases hstep
    exact h.goOn (List.Subset.refl _) (fun s' hs' => ⟨s', (Table.mem_deleteWhere.mp hs').1, .inl rfl, .same⟩) rfl
  | setDisabled accountId disabledAt =>
    cases hstep
    refine ⟨fun s' hs' => h.bounded s' hs', h.once, fun a ha t ht => ?_⟩
    obtain ⟨a₀, ha₀, hid, rfl⟩ := AuthDb.mem_updateAccount ha
    rw [← hid] at ht
    have hchanged := h.changed a₀ ha₀ t ht
    split
    · exact hchanged
    · exact hchanged

theorem of_reachable (h : lives.Reachable w) : Living w := by
  refine h.invariant (fun w hw => ?_) fun w e w' hliving hstep => hliving.step hstep
  obtain ⟨hsessions, hborn, -, -, -, hchanged⟩ := hw
  refine ⟨fun s hs => ?_, ?_, fun a _ t ht => ?_⟩
  · rw [hsessions] at hs
    cases hs
  · rw [hborn]
    exact List.nodup_nil
  · rw [hchanged] at ht
    cases ht

end Living

/-! ## What is over stays over -/

/-- What a step makes of the sessions: each was there before, or is of an identifier that is new. -/
theorem Lives.goesOn {w w' : Lives} {e : SessionEvent} {now : Timestamp} (hstep : w.step (e, now) = some w') :
    ∃ db' born' promoted' changed',
      w' = { w.goOn now db' with born := born', promoted := promoted', changed := changed' } ∧ w.born ⊆ born' ∧
        ∀ s' ∈ db'.sessions, (∃ s ∈ w.db.sessions, Becomes now s s') ∨ s'.id ∉ w.born.map Prod.fst := by
  cases e with
  | create n =>
    rw [Lives.step] at hstep
    split at hstep
    · cases hstep
    · rename_i hfresh
      obtain ⟨⟨ok, db'⟩, hcreate, rfl⟩ := Option.map_eq_some_iff.mp hstep
      refine ⟨db', _, _, _, rfl, List.subset_cons_self _ _, fun s' hs' => ?_⟩
      rcases of_create hcreate hs' with hold | rfl
      · exact .inl ⟨s', hold, .same⟩
      · exact .inr hfresh
  | lookup tokenHash =>
    cases hstep
    refine ⟨_, _, _, _, rfl, List.Subset.refl _, fun s' hs' => .inl ?_⟩
    obtain ⟨s, hs, -, hbecomes⟩ := becomes_lookup tokenHash hs'
    exact ⟨s, hs, hbecomes⟩
  | rotate id accountId newTokenHash =>
    obtain ⟨⟨ok, db'⟩, hrotate, rfl⟩ := Option.map_eq_some_iff.mp hstep
    refine ⟨db', _, _, _, rfl, List.Subset.refl _, fun s' hs' => .inl ?_⟩
    obtain ⟨s, hs, -, hbecomes⟩ := becomes_rotate hrotate hs'
    exact ⟨s, hs, hbecomes⟩
  | promote id accountId newTokenHash =>
    obtain ⟨⟨ok, db'⟩, hpromote, rfl⟩ := Option.map_eq_some_iff.mp hstep
    refine ⟨db', _, _, _, rfl, List.Subset.refl _, fun s' hs' => .inl ?_⟩
    obtain ⟨s, hs, -, hbecomes⟩ := becomes_promote hpromote hs'
    exact ⟨s, hs, hbecomes⟩
  | passwordSet accountId hash =>
    cases hstep
    refine ⟨_, _, _, _, rfl, List.Subset.refl _, fun s' hs' => .inl ⟨s', ?_, .same⟩⟩
    unfold sysPasswordSet at hs'
    split at hs' <;> exact hs'
  | remove ids =>
    cases hstep
    exact ⟨_, _, _, _, rfl, List.Subset.refl _, fun s' hs' => .inl ⟨s', (Table.mem_deleteWhere.mp hs').1, .same⟩⟩
  | setDisabled accountId disabledAt =>
    cases hstep
    exact ⟨_, _, _, _, rfl, List.Subset.refl _, fun s' hs' => .inl ⟨s', hs', .same⟩⟩

/-- What was removed was born, and is not there. -/
structure Gone (w : Lives) : Prop where
  born : ∀ id ∈ w.removed, id ∈ w.born.map Prod.fst
  absent : ∀ s ∈ w.db.sessions, s.id ∉ w.removed

namespace Gone

variable {w w' : Lives}

theorem step (h : Gone w) (hliving : Living w) {e : SessionEvent × Timestamp} (hstep : w.step e = some w') : Gone w' := by
  obtain ⟨e, now⟩ := e
  obtain ⟨db', born', promoted', changed', rfl, hborn, hsessions⟩ := Lives.goesOn hstep
  have hmember (s : Session) (hs : s ∈ w.db.sessions) : s.id ∈ w.born.map Prod.fst := by
    obtain ⟨t, ht, -⟩ := hliving.bounded s hs
    exact List.mem_map_of_mem ht
  have hgone (id : Uuid) (hid : id ∈ w.gone db') : (∃ s ∈ w.db.sessions, s.id = id) ∧ ∀ s' ∈ db'.sessions, s'.id ≠ id := by
    obtain ⟨s, hs, rfl⟩ := List.mem_map.mp hid
    obtain ⟨hmem, hp⟩ := List.mem_filter.mp hs
    refine ⟨⟨s, hmem, rfl⟩, fun s' hs' heq => ?_⟩
    rw [Bool.not_eq_true', Bool.eq_false_iff] at hp
    exact hp (Table.any_iff.mpr ⟨s', hs', decide_eq_true heq⟩)
  refine ⟨fun id hid => ?_, fun s' hs' hid => ?_⟩
  · rcases List.mem_append.mp hid with hid | hid
    · obtain ⟨⟨s, hs, rfl⟩, -⟩ := hgone id hid
      exact List.map_subset _ hborn (hmember s hs)
    · exact List.map_subset _ hborn (h.born id hid)
  · rcases List.mem_append.mp hid with hid | hid
    · exact (hgone _ hid).2 s' hs' rfl
    · rcases hsessions s' hs' with ⟨s, hs, hbecomes⟩ | hnew
      · exact h.absent s hs (hbecomes.id_eq ▸ hid)
      · exact hnew (h.born _ hid)

theorem of_reachable (h : lives.Reachable w) : Gone w := by
  refine h.invariant_of (fun w hw => Living.of_reachable hw) (fun w hw => ?_)
    fun w e w' hliving hgone hstep => hgone.step hliving hstep
  obtain ⟨-, -, -, -, hremoved, -⟩ := hw
  refine ⟨fun id hid => ?_, fun s _ hid => ?_⟩
  · rw [hremoved] at hid
    cases hid
  · rw [hremoved] at hid
    cases hid

end Gone

/-- What is over was born, and has expired if it is still there. -/
structure Over (w : Lives) : Prop where
  born : ∀ id ∈ w.closed, id ∈ w.born.map Prod.fst
  expired : ∀ s ∈ w.db.sessions, s.id ∈ w.closed → s.expiresAt ≤ w.clock

theorem Becomes.expired {now : Timestamp} {s s' : Session} (h : Becomes now s s') (hexpired : s.expiresAt ≤ now) :
    s'.expiresAt ≤ now := by
  cases h with
  | same => exact hexpired
  | slid hfull hlive => exact absurd hlive (Nat.not_lt.mpr hexpired)
  | rotated hfull newTokenHash => exact hexpired
  | promoted hhalf hlive newTokenHash => exact absurd hlive (Nat.not_lt.mpr hexpired)

namespace Over

variable {w w' : Lives} {now : Timestamp}

theorem goOn (h : Over w) (hliving : Living w) (horder : w.clock ≤ now) {db' : AuthDb} {born' : List (Uuid × Timestamp)}
    {promoted' : List Uuid} {changed' : Uuid → Option Timestamp} (hborn : w.born ⊆ born')
    (hsessions : ∀ s' ∈ db'.sessions, (∃ s ∈ w.db.sessions, Becomes now s s') ∨ s'.id ∉ w.born.map Prod.fst) :
    Over { w.goOn now db' with born := born', promoted := promoted', changed := changed' } := by
  have hmember (s : Session) (hs : s ∈ w.db.sessions) : s.id ∈ w.born.map Prod.fst := by
    obtain ⟨t, ht, -⟩ := hliving.bounded s hs
    exact List.mem_map_of_mem ht
  have hended (id : Uuid) (hid : id ∈ w.ended db' now) : ∃ s ∈ w.db.sessions, s.id = id ∧
      (s.expiresAt ≤ now ∨ ∀ s' ∈ db'.sessions, s'.id ≠ id) := by
    obtain ⟨s, hs, rfl⟩ := List.mem_map.mp hid
    obtain ⟨hmem, hp⟩ := List.mem_filter.mp hs
    refine ⟨s, hmem, rfl, ?_⟩
    rcases Bool.or_eq_true_iff.mp hp with hexpired | hgone
    · obtain ⟨t, -, hbounded⟩ := hliving.bounded s hmem
      rcases of_decide_eq_true hexpired with hexpires | habsolute
      · exact .inl hexpires
      · exact .inl (hbounded.sliding.trans habsolute)
    · refine .inr fun s' hs' heq => ?_
      rw [Bool.not_eq_true', Bool.eq_false_iff] at hgone
      exact hgone (Table.any_iff.mpr ⟨s', hs', decide_eq_true heq⟩)
  refine ⟨fun id hid => ?_, fun s' hs' hid => ?_⟩
  · rcases List.mem_append.mp hid with hid | hid
    · obtain ⟨s, hs, rfl, -⟩ := hended id hid
      exact List.map_subset _ hborn (hmember s hs)
    · exact List.map_subset _ hborn (h.born id hid)
  · have hclock : max w.clock now = now := max_eq_right horder
    change s'.expiresAt ≤ max w.clock now
    rw [hclock]
    rcases hsessions s' hs' with ⟨s, hs, hbecomes⟩ | hnew
    · refine hbecomes.expired ?_
      rcases List.mem_append.mp hid with hid | hid
      · obtain ⟨s₀, hs₀, hsame, hexpired | hgone⟩ := hended _ hid
        · obtain rfl := Table.eq_of_key hs₀ hs (hsame.trans hbecomes.id_eq)
          exact hexpired
        · exact absurd rfl (hgone s' hs')
      · exact (h.expired s hs (hbecomes.id_eq ▸ hid)).trans horder
    · refine absurd ?_ hnew
      rcases List.mem_append.mp hid with hid | hid
      · obtain ⟨s₀, hs₀, hsame, -⟩ := hended _ hid
        exact hsame ▸ hmember s₀ hs₀
      · exact h.born _ hid

theorem step (h : Over w) (hliving : Living w) {e : SessionEvent × Timestamp} (horder : w.clock ≤ e.2)
    (hstep : w.step e = some w') : Over w' := by
  obtain ⟨e, now⟩ := e
  obtain ⟨db', born', promoted', changed', rfl, hborn, hsessions⟩ := Lives.goesOn hstep
  exact h.goOn hliving horder hborn hsessions

theorem of_reachable (h : (lives.restrict InOrder).Reachable w) : Over w := by
  refine h.invariant_of (fun w hw => Living.of_reachable hw.of_restrict) (fun w hw => ?_)
    fun w e w' hliving hover hstep => hover.step hliving hstep.2 hstep.1
  obtain ⟨hsessions, -, -, hover, -, -⟩ := hw
  refine ⟨fun id hid => ?_, fun s hs => ?_⟩
  · rw [hover] at hid
    cases hid
  · rw [hsessions] at hs
    cases hs

end Over

/-! ## Every run -/

/-- **The lifetime of a session**: its expiry is within its absolute limit, which is within 180 days of its birth, or of its
promotion, that comes within five minutes of it; a partial session's expiry stays; no session made before its account's last
password change is accepted, and none that was removed. When the readings of the clock do not go back, none that has expired
or was removed is accepted again. -/
theorem session_lifetime :
    (∀ w, lives.Reachable w → (w.born.map Prod.fst).Nodup ∧
      (∀ s ∈ w.db.sessions, ∃ t, (s.id, t) ∈ w.born ∧ s.expiresAt ≤ s.absoluteExpiresAt ∧
        s.absoluteExpiresAt ≤ t + seconds 300 + days 180 ∧
        (s.id ∉ w.promoted → s.absoluteExpiresAt ≤ t + days 180) ∧
        (s.level = .partialLevel → s.expiresAt = t + seconds 300)) ∧
      ∀ tokenHash now s db', sysSessionLookup w.db tokenHash now = (some s, db') →
        s.id ∉ w.removed ∧ ∀ t, w.changed s.accountId = some t → t ≤ s.createdAt) ∧
    ∀ w, (lives.restrict InOrder).Reachable w → ∀ tokenHash now s db', w.clock ≤ now →
      sysSessionLookup w.db tokenHash now = (some s, db') → s.id ∉ w.closed := by
  refine ⟨fun w h => ?_, fun w h tokenHash now s db' horder hlookup hover => ?_⟩
  · have hliving := Living.of_reachable h
    refine ⟨hliving.once, fun s hs => ?_, fun tokenHash now s db' hlookup => ?_⟩
    · obtain ⟨t, ht, hbounded⟩ := hliving.bounded s hs
      exact ⟨t, ht, hbounded.sliding, hbounded.absolute, hbounded.unpromoted, fun hp => (hbounded.still hp).1⟩
    · obtain ⟨hmem, haccepted⟩ := of_lookup hlookup
      refine ⟨(Gone.of_reachable h).absent s hmem, fun t ht => ?_⟩
      exact changed_le_of_accepted haccepted fun a ha hid => hliving.changed a ha t (hid ▸ ht)
  · obtain ⟨hmem, haccepted⟩ := of_lookup hlookup
    have hexpired := (Over.of_reachable h).expired s hmem hover
    have hlive := lt_expiresAt_of_accepted haccepted
    exact absurd (hexpired.trans horder) (Nat.not_le.mpr hlive)

/-! ## The limit that counts from the promotion, and clocks that go back -/

/-- An account with a second factor and one without, before the first session. -/
def unused : Lives where
  db := { accounts := ⟨[⟨1, "a", none, none, none, none, some 0, none, .full⟩, ⟨2, "b", none, none, none, none, none, none, .full⟩],
    by decide⟩ }
  clock := 0
  born := []
  promoted := []
  closed := []
  removed := []
  changed _ := none

/-- One event whose reading does not go back. -/
def Lives.stepInOrder (w : Lives) (e : SessionEvent × Timestamp) : Option Lives :=
  if w.clock ≤ e.2 then w.step e else none

theorem stepInOrder_some (w : Lives) (e : SessionEvent × Timestamp) (w' : Lives) (h : w.stepInOrder e = some w') :
    (lives.restrict InOrder).step w e w' := by
  unfold Lives.stepInOrder at h
  split at h
  · rename_i horder
    exact ⟨h, horder⟩
  · cases h

/-- A partial session that is promoted a second later. -/
def promotedLater : Lives :=
  (System.follow Lives.stepInOrder unused
    [(.create ⟨10, 1, .partialLevel, false, 5, none⟩, 0), (.promote 10 1 6, seconds 1), (.lookup 6, seconds 2)]).getD unused

/-- A session that is found expired at one reading. -/
def foundExpired : Lives :=
  (System.follow Lives.stepInOrder unused [(.create ⟨20, 2, .full, false, 7, none⟩, 0), (.lookup 7, days 31)]).getD unused

theorem reachable_inOrder (es : List (SessionEvent × Timestamp)) (h : (System.follow Lives.stepInOrder unused es).isSome) :
    (lives.restrict InOrder).Reachable ((System.follow Lives.stepInOrder unused es).getD unused) := by
  have hunused : (lives.restrict InOrder).Reachable unused := .init ⟨rfl, rfl, rfl, rfl, rfl, fun _ => rfl⟩
  exact hunused.follow stepInOrder_some es unused h

theorem session_lifetime_played :
    (∀ s ∈ promotedLater.db.sessions, s.expiresAt ≤ s.absoluteExpiresAt) ∧
      ∀ s db', sysSessionLookup foundExpired.db 7 (days 32) = (some s, db') → s.id ∉ foundExpired.closed := by
  have hpromoted := reachable_inOrder [(.create ⟨10, 1, .partialLevel, false, 5, none⟩, 0), (.promote 10 1 6, seconds 1),
    (.lookup 6, seconds 2)] (by decide +kernel)
  have hexpired := reachable_inOrder [(.create ⟨20, 2, .full, false, 7, none⟩, 0), (.lookup 7, days 31)] (by decide +kernel)
  refine ⟨fun s hs => ?_, fun s db' hlookup => ?_⟩
  · obtain ⟨t, -, hsliding, -⟩ := (session_lifetime.1 promotedLater hpromoted.of_restrict).2.1 s hs
    exact hsliding
  · exact session_lifetime.2 foundExpired hexpired 7 (days 32) s db' (by decide +kernel) hlookup

/-- **The absolute limit counts from the promotion**, so it is later than 180 days after the session was created, and a
session that was found expired is accepted at a reading that goes back. -/
theorem lifetime_from_promotion :
    (lives.Reachable promotedLater ∧ (10, 0) ∈ promotedLater.born ∧
      promotedLater.db.sessions.any (fun s => decide (s.id = 10 ∧ 0 + days 180 < s.absoluteExpiresAt)) = true) ∧
    (lives.Reachable foundExpired ∧ 20 ∈ foundExpired.closed ∧
      (sysSessionLookup foundExpired.db 7 (days 1)).1.map Session.id = some 20) := by
  have hpromoted := reachable_inOrder [(.create ⟨10, 1, .partialLevel, false, 5, none⟩, 0), (.promote 10 1 6, seconds 1),
    (.lookup 6, seconds 2)] (by decide +kernel)
  have hexpired := reachable_inOrder [(.create ⟨20, 2, .full, false, 7, none⟩, 0), (.lookup 7, days 31)] (by decide +kernel)
  exact ⟨⟨hpromoted.of_restrict, by decide +kernel, by decide +kernel⟩,
    ⟨hexpired.of_restrict, by decide +kernel, by decide +kernel⟩⟩

end SlugBase.Auth
