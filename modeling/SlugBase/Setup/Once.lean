import SlugBase.Setup.Calls

/-!
# First-run setup happens once

* `Rows.writers`: the calls whose rows are there; `lastStored`: the token stored last; `Once`: what holds at every
  instant;
* `Sound`: what a call in flight knows; **`Sound.turn`**, **`Sound.frame`**: a statement, and a step of another call;
* **`Inv.step`**: every event keeps the invariant; **`setup_once`**: `Once` holds in every reachable state.
-/

namespace SlugBase.Setup

open Transition

/-! ## The property -/

/-- The calls that wrote the rows of the tables. -/
def Rows.writers (db : Rows) : List ℕ :=
  db.accounts.map Account.call ++ db.workspaces.map Workspace.call ++ db.members.map WorkspaceMember.call ++
    db.settings.map WorkspaceSettings.call ++ db.sessions.map SessionRow.call ++
    db.instanceState.toList.map InstanceState.call

/-- The call answered that it completed the setup. -/
def Entry.completes (e : Entry) : Bool := decide (e.answer = some (.outcome .completed))

/-- The call answered that it stored its token. -/
def Entry.stores (e : Entry) : Bool := decide (e.answer = some (.stored true))

/-- The answers of a call that has written something. -/
def Answer.lasting : Answer → Bool
  | .stored b | .created b => b
  | .outcome o => decide (o = .completed)

/-- The call has answered that it has written something. -/
def Entry.lasting (e : Entry) : Bool := e.answer.any Answer.lasting

/-- The token stored last. -/
def lastStored : List Entry → Option TokenHash
  | [] => none
  | e :: older =>
    match e.stores, e.request with
    | true, .setSetupToken hash => some hash
    | _, _ => lastStored older

/-- The entry is of a completion that presented the token stored last before it, where one is required. -/
def Entry.Presented (e : Entry) (older : List Entry) : Prop :=
  ∃ r, e.request = .completeSetup r ∧
    (r.tokenRequired = true → ∃ hash, r.tokenHash = some hash ∧ lastStored older = some hash)

/-- First-run setup happens once. -/
structure Once (w : World) : Prop where
  once : (w.log.filter Entry.completes).length ≤ 1
  presented : ∀ newer e older, w.log = newer ++ e :: older → e.completes = true → e.Presented older
  closed : ∀ e ∈ w.log, e.completes = true → setupStatus w.db = false ∧ w.db.token = none
  refused : ∀ newer e older, w.log = newer ++ e :: older → e.stores = true → ∀ e' ∈ older, e'.completes = false
  traceless : ∀ e ∈ w.log, e.lasting = false → e.call ∉ w.db.writers
  unseen : ∀ k c, w.calls k = some c → k ∉ w.db.writers
  valid : setupStatus w.db = true → w.db.token = lastStored w.log ∧
    ((∃ e ∈ w.log, e.stores = true) → ∃ hash, w.db.token = some hash)

/-! ## Rows -/

section

variable {db own : Rows} {k : ℕ} {id : Uuid}

@[simp] theorem view_blank (db : Rows) : db.view {} = db := by
  simp [Rows.view]

@[simp] theorem writers_blank : Rows.writers {} = [] := rfl

theorem mem_writers_view (h : k ∈ (db.view own).writers) : k ∈ db.writers ∨ k ∈ own.writers := by
  have hstate : k ∈ (own.instanceState.or db.instanceState).toList.map InstanceState.call →
      k ∈ db.instanceState.toList.map InstanceState.call ∨ k ∈ own.instanceState.toList.map InstanceState.call := by
    cases own.instanceState with
    | none => exact .inl
    | some s => exact .inr
  simp only [Rows.writers, Rows.view, List.map_append, List.mem_append] at h ⊢
  grind

theorem mem_writers_withoutAccount (h : k ∈ (db.withoutAccount id).writers) : k ∈ db.writers := by
  simp only [Rows.writers, Rows.withoutAccount, List.mem_append, List.mem_map, List.mem_filter, Option.mem_toList,
    Option.map_eq_some_iff] at h ⊢
  grind

@[simp] theorem completed_withoutAccount : (db.withoutAccount id).completed = db.completed := by
  cases h : db.instanceState <;> simp [Rows.completed, Rows.withoutAccount, h]

@[simp] theorem token_withoutAccount : (db.withoutAccount id).token = db.token := by
  cases h : db.instanceState <;> simp [Rows.token, Rows.withoutAccount, h]

theorem completed_view_none (h : own.instanceState = none) : (db.view own).completed = db.completed := by
  simp [Rows.completed, Rows.view, h]

theorem token_view_none (h : own.instanceState = none) : (db.view own).token = db.token := by
  simp [Rows.token, Rows.view, h]

theorem open_of_setupStatus (h : setupStatus db = true) : db.completed = false := by
  simpa using (Bool.and_eq_true_iff.mp h).2

theorem setupStatus_completed (h : db.completed = true) : setupStatus db = false := by
  simp [setupStatus, h]

end

/-! ## A call in flight -/

/-- The phases in which a call holds the advisory lock. -/
def Phase.serial : Phase → Bool
  | .called | .answered (.created _) => false
  | _ => true

/-- The phases of a call that has seen setup pending. -/
def Phase.seesPending : Phase → Bool
  | .called | .serialised => false
  | .answered a => decide (a = .outcome .completed ∨ a = .stored true)
  | _ => true

/-- The phases of a completion whose token is accepted. -/
def Phase.isAdmitted : Phase → Bool
  | .called | .serialised | .pending => false
  | .answered a => decide (a = .outcome .completed)
  | _ => true

/-- The phases of a completion that has recorded the setup. -/
def Phase.hasRecorded : Phase → Bool
  | .recorded | .signedIn => true
  | .answered a => decide (a = .outcome .completed)
  | _ => false

/-- The phases of a call that has written nothing. -/
def Phase.blank : Phase → Bool
  | .called | .serialised | .pending | .admitted => true
  | .answered a => !a.lasting
  | _ => false

/-- What a call in flight knows of the database, and what its own rows are. -/
structure Sound (w : World) (k : ℕ) (c : Call) : Prop where
  own : ∀ j ∈ c.writes.writers, j = k
  holds : c.phase.serial = true → w.lock = some k
  clear : c.phase.seesPending = true → w.db.completed = false
  shown : c.phase.isAdmitted = true → ∃ r, c.request = .completeSetup r ∧
    (r.tokenRequired = true → ∃ hash, r.tokenHash = some hash ∧ w.db.token = some hash)
  blank : c.phase.blank = true → c.writes = {}
  record : c.phase.hasRecorded = true → ∃ s, c.writes.instanceState = some s ∧ s.setupCompletedAt.isSome = true ∧
    s.setupTokenHash = none
  stored : c.phase = .answered (.stored true) → ∃ hash s, c.request = .setSetupToken hash ∧
    c.writes.instanceState = some s ∧ s.setupTokenHash = some hash ∧ s.setupCompletedAt = none
  apart : c.phase.serial = false → c.writes.instanceState = none

section

variable {w w' : World} {k : ℕ} {c c' : Call} {now : Timestamp} {reserved : Bool}

theorem Phase.serial_of_seesPending {p : Phase} (h : p.seesPending = true) : p.serial = true := by
  cases p with
  | called => exact h
  | answered a => cases a <;> first | rfl | simp [Phase.seesPending] at h
  | _ => rfl

theorem Phase.serial_of_isAdmitted {p : Phase} (h : p.isAdmitted = true) : p.serial = true := by
  cases p with
  | called => exact h
  | answered a => cases a <;> first | rfl | simp [Phase.isAdmitted] at h
  | _ => rfl

/-- **A step of another call**: the lock of this one is kept, and under it the setup record. -/
theorem Sound.frame (h : Sound w k c) (hlock : w.lock = some k → w'.lock = some k)
    (hdb : w.lock = some k → w'.db.completed = w.db.completed ∧ w'.db.token = w.db.token) : Sound w' k c where
  own := h.own
  holds := fun hs => hlock (h.holds hs)
  clear := fun hs => by
    rw [(hdb (h.holds (Phase.serial_of_seesPending hs))).1]
    exact h.clear hs
  shown := fun hs => by
    rw [(hdb (h.holds (Phase.serial_of_isAdmitted hs))).2]
    exact h.shown hs
  blank := h.blank
  record := h.record
  stored := h.stored
  apart := h.apart

/-- The call gives an answer, and has written nothing. -/
theorem Sound.answer {a : Answer} (h : Sound w k c) (hserial : c.phase.serial = true ∨ ∃ b, a = .created b)
    (hblank : c.writes = {}) (ha : a.lasting = false) : Sound w k { c with phase := .answered a } where
  own := h.own
  holds := fun hs => by
    rcases hserial with hc | ⟨b, rfl⟩
    · exact h.holds hc
    · exact absurd hs Bool.false_ne_true
  clear := fun hs => by
    rcases of_decide_eq_true hs with rfl | rfl <;> simp [Answer.lasting] at ha
  shown := fun hs => by
    obtain rfl := of_decide_eq_true hs
    simp [Answer.lasting] at ha
  blank := fun _ => hblank
  record := fun hs => by
    obtain rfl := of_decide_eq_true hs
    simp [Answer.lasting] at ha
  stored := fun hs => by
    cases hs
    simp [Answer.lasting] at ha
  apart := fun _ => by rw [show c.writes = {} from hblank]

theorem tokenAccepted_eq_true {stored presented : Option TokenHash} (h : tokenAccepted stored presented = true) :
    ∃ hash, presented = some hash ∧ stored = some hash := by
  cases stored with
  | none => exact absurd h Bool.false_ne_true
  | some s =>
    cases presented with
    | none => exact absurd h Bool.false_ne_true
    | some p => exact ⟨p, rfl, congrArg some (of_decide_eq_true h)⟩

theorem newAccount_call {accounts : List Account} {a : CreateAccount} {row : Account}
    (h : newAccount k now reserved accounts a = some row) : row.call = k := by
  unfold newAccount at h
  split at h
  · exact absurd h nofun
  · rw [← Option.some.inj h]

/-- **The statements of a token store.** -/
theorem Sound.setupTokenTurn {hash : TokenHash} (h : Sound w k c) (hreq : c.request = .setSetupToken hash)
    (ht : setupTokenTurn w.db k c hash = .goes c') : Sound w k c' := by
  obtain ⟨request, phase, writes⟩ := c
  cases phase with
  | serialised =>
    obtain rfl : writes = {} := h.blank rfl
    simp only [Setup.setupTokenTurn, view_blank] at ht
    split at ht
    · next hpending =>
      obtain rfl := Turn.goes.inj ht
      exact ⟨h.own, h.holds, fun _ => open_of_setupStatus hpending, nofun, fun _ => rfl, nofun, nofun, nofun⟩
    · obtain rfl := Turn.goes.inj ht
      exact h.answer (.inl rfl) rfl rfl
  | pending =>
    obtain rfl : writes = {} := h.blank rfl
    have hopen := h.clear rfl
    simp only [Setup.setupTokenTurn, view_blank] at ht
    split at ht
    · next hnone =>
      obtain rfl := Turn.goes.inj ht
      exact ⟨by simp [Rows.writers], h.holds, fun _ => hopen, nofun, nofun, nofun,
        fun _ => ⟨hash, _, hreq, rfl, rfl, rfl⟩, nofun⟩
    · next s hs =>
      have hnot : s.setupCompletedAt = none := by simpa [Rows.completed, hs] using hopen
      rw [hnot, Option.isNone_none, if_pos rfl] at ht
      obtain rfl := Turn.goes.inj ht
      exact ⟨by simp [Rows.writers], h.holds, fun _ => hopen, nofun, nofun, nofun,
        fun _ => ⟨hash, _, hreq, rfl, rfl, rfl⟩, nofun⟩
  | _ => exact absurd ht nofun

/-- **The statement of an account creation.** -/
theorem Sound.createAccountTurn {a : CreateAccount} (h : Sound w k c)
    (ht : createAccountTurn w.db k now reserved c a = .goes c') : Sound w k c' := by
  obtain ⟨request, phase, writes⟩ := c
  cases phase with
  | called =>
    obtain rfl : writes = {} := h.blank rfl
    simp only [Setup.createAccountTurn, view_blank] at ht
    split at ht
    · obtain rfl := Turn.goes.inj ht
      exact h.answer (.inr ⟨false, rfl⟩) rfl rfl
    · next row hrow =>
      obtain rfl := Turn.goes.inj ht
      exact ⟨by simp [Rows.writers, newAccount_call hrow], nofun, nofun, nofun, nofun, nofun, nofun, fun _ => rfl⟩
  | _ => exact absurd ht nofun

/-- **The statements of a completion.** -/
theorem Sound.completeTurn {r : CompleteSetup} (h : Sound w k c) (hreq : c.request = .completeSetup r)
    (ht : completeTurn w.db k now reserved c r = .goes c') : Sound w k c' := by
  obtain ⟨request, phase, writes⟩ := c
  cases phase with
  | serialised =>
    obtain rfl : writes = {} := h.blank rfl
    simp only [Setup.completeTurn, view_blank] at ht
    split at ht
    · next hpending =>
      obtain rfl := Turn.goes.inj ht
      exact ⟨h.own, h.holds, fun _ => open_of_setupStatus hpending, nofun, fun _ => rfl, nofun, nofun, nofun⟩
    · obtain rfl := Turn.goes.inj ht
      exact h.answer (.inl rfl) rfl rfl
  | pending =>
    obtain rfl : writes = {} := h.blank rfl
    simp only [Setup.completeTurn, view_blank] at ht
    split at ht
    · obtain rfl := Turn.goes.inj ht
      exact h.answer (.inl rfl) rfl rfl
    · next hshown =>
      obtain rfl := Turn.goes.inj ht
      refine ⟨h.own, h.holds, fun _ => h.clear rfl, fun _ => ⟨r, hreq, fun hneeded => ?_⟩, fun _ => rfl, nofun, nofun,
        nofun⟩
      exact tokenAccepted_eq_true (by simpa [hneeded] using hshown)
  | admitted =>
    obtain rfl : writes = {} := h.blank rfl
    simp only [Setup.completeTurn, view_blank] at ht
    split at ht
    · obtain rfl := Turn.goes.inj ht
      exact h.answer (.inl rfl) rfl rfl
    · next row hrow =>
      obtain rfl := Turn.goes.inj ht
      exact ⟨by simp [Rows.writers, newAccount_call hrow], h.holds, fun _ => h.clear rfl, fun _ => h.shown rfl,
        nofun, nofun, nofun, nofun⟩
  | signedUp =>
    obtain rfl := Turn.goes.inj ht
    refine ⟨fun j hj => h.own j ?_, h.holds, fun _ => h.clear rfl, fun _ => h.shown rfl, nofun, nofun, nofun, nofun⟩
    simp only [Rows.writers, List.map_map] at hj ⊢
    rwa [show Account.call ∘ _ = Account.call from
      funext fun a => by dsimp only [Function.comp]; split <;> rfl] at hj
  | promoted =>
    simp only [Setup.completeTurn] at ht
    split at ht
    · obtain rfl := Turn.goes.inj ht
      refine ⟨fun j hj => ?_, h.holds, fun _ => h.clear rfl, fun _ => h.shown rfl, nofun, nofun, nofun, nofun⟩
      have hown := h.own j
      simp only [Rows.writers, withWorkspace, List.map_append, List.mem_append, List.map_cons, List.map_nil,
        List.mem_singleton] at hj hown
      grind
    · exact absurd ht nofun
  | furnished =>
    obtain rfl := Turn.goes.inj ht
    refine ⟨fun j hj => ?_, h.holds, fun _ => h.clear rfl, fun _ => h.shown rfl, nofun, fun _ => ⟨_, rfl, rfl, rfl⟩,
      nofun, nofun⟩
    have hown := h.own j
    simp only [Rows.writers, List.mem_append, Option.toList_some, List.map_cons, List.map_nil,
      List.mem_singleton] at hj hown
    grind
  | recorded =>
    simp only [Setup.completeTurn] at ht
    split at ht
    · obtain rfl := Turn.goes.inj ht
      refine ⟨fun j hj => ?_, h.holds, fun _ => h.clear rfl, fun _ => h.shown rfl, nofun, fun _ => h.record rfl, nofun,
        nofun⟩
      have hown := h.own j
      simp only [Rows.writers, newSession, List.map_append, List.mem_append, List.map_cons, List.map_nil,
        List.mem_singleton] at hj hown
      grind
    · exact absurd ht nofun
  | signedIn =>
    obtain rfl := Turn.goes.inj ht
    refine ⟨fun j hj => h.own j ?_, h.holds, fun _ => h.clear rfl, fun _ => h.shown rfl, nofun, fun _ => h.record rfl,
      nofun, nofun⟩
    simp only [Rows.writers, List.map_map] at hj ⊢
    rwa [show SessionRow.call ∘ _ = SessionRow.call from
      funext fun s => by dsimp only [Function.comp]; split <;> rfl] at hj
  | _ => exact absurd ht nofun

/-- **A statement keeps what its call knows.** -/
theorem Sound.turn (h : Sound w k c) (ht : c.turn w.db k now reserved = .goes c') : Sound w k c' := by
  rw [Call.turn] at ht
  split at ht
  · next hreq => exact h.setupTokenTurn hreq ht
  · next hreq => exact h.completeTurn hreq ht
  · exact h.createAccountTurn ht

theorem called_of_locks (ht : c.turn w.db k now reserved = .locks) : c.phase = .called := by
  obtain ⟨request, phase, writes⟩ := c
  cases request with
  | setSetupToken hash => grind [Call.turn, Setup.setupTokenTurn, Call.answer]
  | completeSetup r => grind [Call.turn, Setup.completeTurn, Call.answer]
  | createAccount a => grind [Call.turn, Setup.createAccountTurn, Call.answer]

/-- **The advisory lock is taken.** -/
theorem Sound.locked (h : Sound w k c) (ht : c.turn w.db k now reserved = .locks) :
    Sound { w with lock := some k } k { c with phase := .serialised } :=
  ⟨h.own, fun _ => rfl, nofun, nofun, fun _ => h.blank (called_of_locks ht ▸ rfl), nofun, nofun, nofun⟩

end

/-! ## The log -/

/-- What the log says of each entry and those before it. -/
def History : List Entry → Prop
  | [] => True
  | e :: older => History older ∧
      (e.completes = true → (∀ e' ∈ older, e'.completes = false) ∧ e.Presented older) ∧
      (e.stores = true → (∀ e' ∈ older, e'.completes = false) ∧ ∃ hash, e.request = .setSetupToken hash)

section

variable {log newer older : List Entry} {e : Entry}

theorem History.from_entry (h : History (newer ++ e :: older)) : History (e :: older) := by
  induction newer with
  | nil => exact h
  | cons _ _ ih => exact ih h.1

theorem History.once (h : History log) : (log.filter Entry.completes).length ≤ 1 := by
  induction log with
  | nil => exact Nat.zero_le 1
  | cons e older ih =>
    by_cases he : e.completes = true
    · have hnone : older.filter Entry.completes = [] :=
        List.filter_eq_nil_iff.mpr fun e' he' => by rw [(h.2.1 he).1 e' he']; exact Bool.false_ne_true
      rw [List.filter_cons_of_pos he, hnone, List.length_singleton]
    · rw [List.filter_cons_of_neg he]
      exact ih h.1

theorem lastStored_of_stores {hash : TokenHash} (h : e.stores = true) (hreq : e.request = .setSetupToken hash) :
    lastStored (e :: older) = some hash := by
  rw [lastStored, h, hreq]

theorem lastStored_of_not_stores (h : e.stores = false) : lastStored (e :: older) = lastStored older := by
  rw [lastStored, h]

theorem History.lastStored_isSome (h : History log) (he : e ∈ log) (hstores : e.stores = true) :
    ∃ hash, lastStored log = some hash := by
  induction log with
  | nil => exact absurd he List.not_mem_nil
  | cons e' older ih =>
    by_cases hs : e'.stores = true
    · obtain ⟨hash, hreq⟩ := (h.2.2 hs).2
      exact ⟨hash, lastStored_of_stores hs hreq⟩
    · rw [lastStored_of_not_stores (Bool.eq_false_iff.mpr hs)]
      rcases List.mem_cons.mp he with rfl | he
      · exact absurd hstores hs
      · exact ih h.1 he

theorem not_completes_of_not_lasting (h : e.lasting = false) : e.completes = false := by
  refine Bool.eq_false_iff.mpr fun he => ?_
  rw [Entry.lasting, of_decide_eq_true he] at h
  exact Bool.noConfusion h

theorem not_stores_of_not_lasting (h : e.lasting = false) : e.stores = false := by
  refine Bool.eq_false_iff.mpr fun he => ?_
  rw [Entry.lasting, of_decide_eq_true he] at h
  exact Bool.noConfusion h

end

/-! ## The invariant -/

/-- What holds in every reachable state. -/
structure Inv (w : World) : Prop where
  calls : ∀ k c, w.calls k = some c → Sound w k c
  fresh : ∀ k, w.next ≤ k → w.calls k = none
  past : ∀ e ∈ w.log, e.call < w.next ∧ w.calls e.call = none
  nodup : (w.log.map Entry.call).Nodup
  rows : ∀ k ∈ w.db.writers, ∃ e ∈ w.log, e.call = k ∧ e.lasting = true
  done : (∃ e ∈ w.log, e.completes = true) → w.db.completed = true ∧ w.db.token = none
  token : w.db.completed = false → w.db.token = lastStored w.log
  history : History w.log

section

variable {w w' : World} {k : ℕ} {c c' : Call} {db : Rows}

theorem of_update_none {calls : ℕ → Option Call} {j : ℕ} (h : Function.update calls k none j = some c) :
    j ≠ k ∧ calls j = some c := by
  by_cases hjk : j = k
  · rw [hjk, Function.update_self] at h
    exact absurd h nofun
  · rw [Function.update_of_ne hjk] at h
    exact ⟨hjk, h⟩

theorem Inv.init : Inv World.empty where
  calls := fun _ _ h => absurd h nofun
  fresh := fun _ _ => rfl
  past := fun _ h => absurd h List.not_mem_nil
  nodup := List.nodup_nil
  rows := fun _ h => absurd h List.not_mem_nil
  done := by
    rintro ⟨_, h, -⟩
    exact absurd h List.not_mem_nil
  token := fun _ => rfl
  history := trivial

/-- **A call begins.** -/
theorem Inv.begins (h : Inv w) (request : Request) :
    Inv { w with calls := Function.update w.calls w.next (some { request := request }), next := w.next + 1 } where
  calls j c hj := by
    replace hj : Function.update w.calls w.next (some { request := request }) j = some c := hj
    by_cases hjn : j = w.next
    · rw [hjn, Function.update_self] at hj
      obtain rfl := Option.some.inj hj
      exact ⟨nofun, nofun, nofun, nofun, fun _ => rfl, nofun, nofun, fun _ => rfl⟩
    · rw [Function.update_of_ne hjn] at hj
      exact (h.calls j c hj).frame id fun _ => ⟨rfl, rfl⟩
  fresh j hj := by
    have hlt : w.next < j := hj
    exact (Function.update_of_ne (by omega) _ w.calls).trans (h.fresh j (by omega))
  past e he := by
    obtain ⟨hlt, hnone⟩ := h.past e he
    exact ⟨Nat.lt_succ_of_lt hlt, (Function.update_of_ne (by omega) _ w.calls).trans hnone⟩
  nodup := h.nodup
  rows := h.rows
  done := h.done
  token := h.token
  history := h.history

/-- **A call goes on**, and may take the lock that nobody holds. -/
theorem Inv.goes (h : Inv w) (hc : w.calls k = some c) {lock : Option ℕ} (hlock : ∀ j, w.lock = some j → lock = some j)
    (hs : Sound { w with lock := lock } k c') :
    Inv { w with lock := lock, calls := Function.update w.calls k (some c') } where
  calls j c'' hj := by
    replace hj : Function.update w.calls k (some c') j = some c'' := hj
    by_cases hjk : j = k
    · subst hjk
      rw [Function.update_self] at hj
      obtain rfl := Option.some.inj hj
      exact hs.frame id fun _ => ⟨rfl, rfl⟩
    · rw [Function.update_of_ne hjk] at hj
      exact (h.calls j c'' hj).frame (hlock j) fun _ => ⟨rfl, rfl⟩
  fresh j hj := by
    have hjk : j ≠ k := fun hjk => nomatch (h.fresh k (hjk ▸ hj)).symm.trans hc
    exact (Function.update_of_ne hjk _ _).trans (h.fresh j hj)
  past e he := by
    have hek : e.call ≠ k := fun hek => nomatch (hek ▸ (h.past e he).2).symm.trans hc
    exact ⟨(h.past e he).1, (Function.update_of_ne hek _ _).trans (h.past e he).2⟩
  nodup := h.nodup
  rows := h.rows
  done := h.done
  token := h.token
  history := h.history

/-- **A call is over**, with what is new in the database and in the log. -/
theorem Inv.over (h : Inv w) (hc : w.calls k = some c) (answer : Option Answer)
    (hframe : ∀ j, j ≠ k → w.lock = some j → db.completed = w.db.completed ∧ db.token = w.db.token)
    (hrows : ∀ j ∈ db.writers, j ∈ w.db.writers ∨ j = k ∧ (Entry.mk k c.request answer).lasting = true)
    (hdone : (∃ e ∈ Entry.mk k c.request answer :: w.log, e.completes = true) → db.completed = true ∧ db.token = none)
    (htoken : db.completed = false → db.token = lastStored (⟨k, c.request, answer⟩ :: w.log))
    (hhistory : History (⟨k, c.request, answer⟩ :: w.log)) : Inv { w.ended k c answer with db := db } where
  calls j c' hj := by
    obtain ⟨hjk, hj⟩ := of_update_none hj
    refine (h.calls j c' hj).frame (fun hlock => ?_) (hframe j hjk)
    show (if w.lock = some k then none else w.lock) = some j
    rw [hlock, if_neg fun heq => hjk (Option.some.inj heq)]
  fresh j hj := by
    by_cases hjk : j = k
    · exact hjk ▸ Function.update_self _ _ _
    · exact (Function.update_of_ne hjk _ _).trans (h.fresh j hj)
  past e he := by
    rcases List.mem_cons.mp he with rfl | he
    · refine ⟨Nat.lt_of_not_le fun hle => ?_, Function.update_self _ _ _⟩
      exact nomatch (h.fresh k hle).symm.trans hc
    · have hek : e.call ≠ k := fun hek => nomatch (hek ▸ (h.past e he).2).symm.trans hc
      exact ⟨(h.past e he).1, (Function.update_of_ne hek _ _).trans (h.past e he).2⟩
  nodup := by
    refine List.nodup_cons.mpr ⟨fun hmem => ?_, h.nodup⟩
    obtain ⟨e, he, hek⟩ := List.mem_map.mp hmem
    have hnone := (h.past e he).2
    rw [show e.call = k from hek, hc] at hnone
    exact absurd hnone nofun
  rows j hj := by
    rcases hrows j hj with hold | ⟨rfl, hlasting⟩
    · obtain ⟨e, he, hej⟩ := h.rows j hold
      exact ⟨e, List.mem_cons_of_mem _ he, hej⟩
    · exact ⟨_, List.mem_cons_self, rfl, hlasting⟩
  done := hdone
  token := htoken
  history := hhistory

/-- **A call is over** that has neither completed the setup nor stored a token. -/
theorem Inv.over_same (h : Inv w) (hc : w.calls k = some c) (answer : Option Answer)
    (hcompletes : (Entry.mk k c.request answer).completes = false)
    (hstores : (Entry.mk k c.request answer).stores = false)
    (hcompleted : db.completed = w.db.completed) (htoken : db.token = w.db.token)
    (hrows : ∀ j ∈ db.writers, j ∈ w.db.writers ∨ j = k ∧ (Entry.mk k c.request answer).lasting = true) :
    Inv { w.ended k c answer with db := db } := by
  refine h.over hc answer (fun _ _ _ => ⟨hcompleted, htoken⟩) hrows ?_ ?_ ⟨h.history, ?_, ?_⟩
  · rintro ⟨e, he, hcomp⟩
    rw [hcompleted, htoken]
    rcases List.mem_cons.mp he with rfl | he
    · exact absurd (hcompletes.symm.trans hcomp) Bool.false_ne_true
    · exact h.done ⟨e, he, hcomp⟩
  · intro hopen
    rw [lastStored_of_not_stores hstores, htoken]
    exact h.token (hcompleted ▸ hopen)
  · exact fun hcomp => absurd (hcompletes.symm.trans hcomp) Bool.false_ne_true
  · exact fun hst => absurd (hstores.symm.trans hst) Bool.false_ne_true

/-- **A call fails.** -/
theorem Inv.fails (h : Inv w) (hc : w.calls k = some c) : Inv (w.ended k c none) :=
  h.over_same hc none rfl rfl rfl rfl fun _ hj => .inl hj

theorem Inv.none_completes (h : Inv w) (hopen : w.db.completed = false) : ∀ e ∈ w.log, e.completes = false := by
  intro e he
  refine Bool.eq_false_iff.mpr fun hcomp => ?_
  exact absurd (hopen.symm.trans (h.done ⟨e, he, hcomp⟩).1) Bool.false_ne_true

/-- **A completion commits.** -/
theorem Inv.completes (h : Inv w) (hc : w.calls k = some c) (hp : c.phase = .answered (.outcome .completed)) :
    Inv (w.committed k c (.outcome .completed)) := by
  have hs := h.calls k c hc
  obtain ⟨s, hstate, hat, hnone⟩ := hs.record (by rw [hp]; rfl)
  obtain ⟨r, hreq, hshown⟩ := hs.shown (by rw [hp]; rfl)
  have hopen := hs.clear (by rw [hp]; rfl)
  have hdone : (w.db.view c.writes).completed = true ∧ (w.db.view c.writes).token = none := by
    simp [Rows.completed, Rows.token, Rows.view, hstate, hat, hnone]
  refine h.over hc (some (.outcome .completed)) (fun j hjk hlock => ?_) (fun j hj => ?_) (fun _ => hdone)
    (fun hnot => ?_) ⟨h.history, fun _ => ⟨h.none_completes hopen, r, hreq, fun hneeded => ?_⟩, nofun⟩
  · exact absurd (Option.some.inj (hlock.symm.trans (hs.holds (by rw [hp]; rfl)))) hjk
  · exact (mem_writers_view hj).imp id fun hown => ⟨hs.own j hown, rfl⟩
  · exact absurd (hnot.symm.trans hdone.1) Bool.false_ne_true
  · obtain ⟨hash, hpresented, hstored⟩ := hshown hneeded
    exact ⟨hash, hpresented, (h.token hopen).symm.trans hstored⟩

/-- **A token store commits.** -/
theorem Inv.stores (h : Inv w) (hc : w.calls k = some c) (hp : c.phase = .answered (.stored true)) :
    Inv (w.committed k c (.stored true)) := by
  have hs := h.calls k c hc
  obtain ⟨hash, s, hreq, hstate, htoken, hat⟩ := hs.stored hp
  have hnone := h.none_completes (hs.clear (by rw [hp]; rfl))
  refine h.over hc (some (.stored true)) (fun j hjk hlock => ?_) (fun j hj => ?_) ?_ (fun _ => ?_)
    ⟨h.history, nofun, fun _ => ⟨hnone, hash, hreq⟩⟩
  · exact absurd (Option.some.inj (hlock.symm.trans (hs.holds (by rw [hp]; rfl)))) hjk
  · exact (mem_writers_view hj).imp id fun hown => ⟨hs.own j hown, rfl⟩
  · rintro ⟨e, he, hcomp⟩
    rcases List.mem_cons.mp he with rfl | he
    · exact absurd hcomp Bool.false_ne_true
    · exact absurd ((hnone e he).symm.trans hcomp) Bool.false_ne_true
  · rw [lastStored_of_stores rfl hreq]
    simp [Rows.token, Rows.view, hstate, htoken]

/-- **A call commits.** -/
theorem Inv.commits (h : Inv w) (hc : w.calls k = some c) {a : Answer} (hp : c.phase = .answered a) :
    Inv (w.committed k c a) := by
  have hs := h.calls k c hc
  by_cases hlasting : a.lasting = true
  · cases a with
    | outcome o =>
      obtain rfl := of_decide_eq_true hlasting
      exact h.completes hc hp
    | stored b =>
      obtain rfl : b = true := hlasting
      exact h.stores hc hp
    | created b =>
      obtain rfl : b = true := hlasting
      have hapart := hs.apart (by rw [hp]; rfl)
      exact h.over_same hc (some (.created true)) rfl rfl (completed_view_none hapart) (token_view_none hapart)
        fun j hj => (mem_writers_view hj).imp id fun hown => ⟨hs.own j hown, rfl⟩
  · have hnot : a.lasting = false := Bool.eq_false_iff.mpr hlasting
    have hblank : c.writes = {} := hs.blank (by rw [hp]; exact congrArg not hnot)
    have hsame : w.db.view c.writes = w.db := by rw [hblank, view_blank]
    rw [World.committed, hsame]
    exact h.over_same hc (some a) (not_completes_of_not_lasting hnot) (not_stores_of_not_lasting hnot) rfl rfl
      fun _ hj => .inl hj

/-- **An account is deleted.** -/
theorem Inv.deletesAccount (h : Inv w) (id : Uuid) : Inv { w with db := w.db.withoutAccount id } where
  calls j c hj := (h.calls j c hj).frame (fun h => h) fun _ => ⟨completed_withoutAccount, token_withoutAccount⟩
  fresh := h.fresh
  past := h.past
  nodup := h.nodup
  rows j hj := h.rows j (mem_writers_withoutAccount hj)
  done hcomp := by
    rw [completed_withoutAccount, token_withoutAccount]
    exact h.done hcomp
  token hopen := token_withoutAccount.trans (h.token (completed_withoutAccount ▸ hopen))
  history := h.history

/-- **Every event keeps the invariant.** -/
theorem Inv.step (h : Inv w) {e : Event} (hstep : step w e = some w') : Inv w' := by
  cases e with
  | begins request =>
    obtain rfl := Option.some.inj hstep
    exact h.begins request
  | advances k now reserved =>
    obtain ⟨c, hc, hturn⟩ := Option.bind_eq_some_iff.mp hstep
    split at hturn
    · next ht =>
      split at hturn
      · next hfree =>
        obtain rfl := Option.some.inj hturn
        refine h.goes hc (fun j hj => ?_) ((h.calls k c hc).locked ht)
        rw [hj] at hfree
        exact absurd hfree Bool.false_ne_true
      · exact absurd hturn nofun
    · next ht =>
      obtain rfl := Option.some.inj hturn
      exact h.goes hc (fun _ => id) ((h.calls k c hc).turn ht)
    · obtain rfl := Option.some.inj hturn
      exact h.fails hc
    · exact absurd hturn nofun
  | commits k =>
    obtain ⟨c, hc, hturn⟩ := Option.bind_eq_some_iff.mp hstep
    split at hturn
    · next hp =>
      obtain rfl := Option.some.inj hturn
      exact h.commits hc hp
    · exact absurd hturn nofun
  | fails k =>
    obtain ⟨c, hc, rfl⟩ := Option.map_eq_some_iff.mp hstep
    exact h.fails hc
  | deletesAccount id =>
    obtain rfl := Option.some.inj hstep
    exact h.deletesAccount id

end

/-! ## Every run -/

/-- **First-run setup happens once**, in every state that any interleaving of token stores, completions, account
creations, failures and account deletions reaches. -/
theorem setup_once (w : World) (hw : system.Reachable w) : Once w := by
  have h : Inv w := System.Reachable.invariant (I := Inv) (fun w (h0 : w = World.empty) => h0 ▸ Inv.init)
    (fun _ _ _ hinv hs => hinv.step hs) hw
  refine ⟨h.history.once, fun newer e older hlog he => ?_, fun e he hcomp => ?_, fun newer e older hlog he => ?_,
    fun e he hnot hmem => ?_, fun k c hc hmem => ?_, fun hpending => ?_⟩
  · have hhistory := h.history
    rw [hlog] at hhistory
    exact (hhistory.from_entry.2.1 he).2
  · have hdone := h.done ⟨e, he, hcomp⟩
    exact ⟨setupStatus_completed hdone.1, hdone.2⟩
  · have hhistory := h.history
    rw [hlog] at hhistory
    exact (hhistory.from_entry.2.2 he).1
  · obtain ⟨e', he', hcall, hlasting⟩ := h.rows e.call hmem
    obtain rfl := List.inj_on_of_nodup_map h.nodup he' he hcall
    exact absurd (hnot.symm.trans hlasting) Bool.false_ne_true
  · obtain ⟨e, he, rfl, -⟩ := h.rows k hmem
    exact nomatch ((h.past e he).2).symm.trans hc
  · have htoken := h.token (open_of_setupStatus hpending)
    refine ⟨htoken, fun ⟨e, he, hstores⟩ => ?_⟩
    rw [htoken]
    exact h.history.lastStored_isSome he hstores

/-! ## Two servers and two visitors -/

/-- A visitor's request, with the token the visitor has read in a log. -/
def visitorSetup (visitor : Uuid) (hash : TokenHash) : CompleteSetup :=
  ⟨visitor, visitor + 10, visitor + 20, "admin@example.org", "Admin", "hash", "en", "Home", true, some hash, 9#256, none,
    none⟩

/-- All statements of a call, and its commit. -/
def wholeCall (k statements : ℕ) : List Event := List.replicate statements (.advances k 5 false) ++ [.commits k]

/-- Two servers store their tokens; of two visitors the one with the first token is refused, the other completes the
setup; its account is deleted, and a third server's token is not stored. -/
def setupRun : List Event :=
  [.begins (.setSetupToken 1#256), .begins (.setSetupToken 2#256), .begins (.completeSetup (visitorSetup 100 1#256)),
    .begins (.completeSetup (visitorSetup 200 2#256))] ++
  wholeCall 0 3 ++ wholeCall 1 3 ++ wholeCall 2 3 ++ wholeCall 3 9 ++
  [.deletesAccount 200, .begins (.setSetupToken 3#256)] ++ wholeCall 4 2

/-- The state after the run. -/
def afterSetup : World := (System.follow step World.empty setupRun).getD World.empty

theorem setup_once_afterSetup :
    Once afterSetup ∧ afterSetup.log.map Entry.answer = [some (.stored false), some (.outcome .completed),
      some (.outcome .forbidden), some (.stored true), some (.stored true)] := by
  refine ⟨setup_once _ (System.Reachable.follow (S := system) (fun _ _ _ h => h) (.init rfl) setupRun World.empty ?_),
    ?_⟩ <;> decide

end SlugBase.Setup
