import SlugBase.Idempotency.Claims

/-!
# A key applies its request at most once

* `Entry.Faithful`: what the answer of a request says of those before it; `AtMostOnce`: what holds at every instant;
* `Sound`: what a request in flight knows; **`Sound.frame`**: a step of another request;
* **`Inv.step`**: every event keeps the invariant; **`keys_applyOnce`**: `AtMostOnce` holds in every reachable state.
-/

namespace SlugBase.Idempotency

open Transition

variable {β : Type}

/-! ## The property -/

/-- The handler's writes are committed. -/
def Entry.ran (e : Entry β) : Bool :=
  match e.outcome with
  | some (.ran _) => true
  | _ => false

/-- When the key of a request that has run expires. -/
def Entry.expiresAt (e : Entry β) : Timestamp := e.startedAt + expiry

/-- The request that has run last, newest first. -/
def lastRun (log : List (Entry β)) : Option (Entry β) := log.find? Entry.ran

/-- What the answer of a request says of those that ended before it. -/
structure Entry.Faithful (e : Entry β) (older : List (Entry β)) : Prop where
  /-- A request whose handler has answered took the key when no earlier run was unexpired. -/
  fresh : (∃ r, e.outcome = some (.ran r)) ∨ (∃ s, e.outcome = some (.notStored s)) →
    ∃ t, e.claimedAt = some t ∧ ∀ f ∈ older, f.ran = true → f.expiresAt ≤ t
  /-- A replay is the stored response of the last run, for the same use of the key. -/
  replay : ∀ r, e.outcome = some (.replay r) →
    ∃ f, lastRun older = some f ∧ f.claim = e.claim ∧ f.outcome = some (.ran r)
  /-- A conflict is with the last run, for another use of the key. -/
  conflict : e.outcome = some .conflict → ∃ f, lastRun older = some f ∧ f.claim ≠ e.claim
  /-- A request that never took the row waited in vain or failed. -/
  waited : e.claimedAt = none → e.outcome = some .busy ∨ e.outcome = none
  /-- A request that waited in vain never took the row. -/
  busy : e.outcome = some .busy → e.claimedAt = none

/-- A key applies its request at most once. -/
structure AtMostOnce (w : World β) : Prop where
  faithful : ∀ newer e older, w.log = newer ++ e :: older → e.Faithful older
  once : ∀ newer e older, w.log = newer ++ e :: older → e.ran = true →
    ∃ t, e.claimedAt = some t ∧ ∀ f ∈ older, f.ran = true → f.expiresAt ≤ t
  later : ∀ newer e older, w.log = newer ++ e :: older → ∀ f, lastRun older = some f →
    ∀ t, e.claimedAt = some t → t < f.expiresAt →
      e.outcome = none ∨ (e.claim = f.claim ∧ ∃ r, f.outcome = some (.ran r) ∧ e.outcome = some (.replay r)) ∨
        (e.claim ≠ f.claim ∧ e.outcome = some .conflict)
  waited : ∀ e ∈ w.log, e.claimedAt = none → e.outcome = some .busy ∨ e.outcome = none
  effects : w.effects = (w.log.filter Entry.ran).map Entry.call ∧ w.effects.Nodup
  traceless : ∀ e ∈ w.log, e.ran = false → e.call ∉ w.effects ∧ ∀ row, w.row = some row → row.call ≠ e.call
  unseen : ∀ k c, w.calls k = some c → k ∉ w.effects ∧ ∀ row, w.row = some row → row.call ≠ k

/-! ## A request in flight -/

/-- The phases in which a request holds the row. -/
def Phase.held : Phase β → Bool
  | .called | .answered .busy => false
  | _ => true

/-- The phases of a request that has claimed the key. -/
def Phase.isClaimed : Phase β → Bool
  | .claimed | .handled _ | .answered (.ran _) | .answered (.notStored _) => true
  | _ => false

/-- What a request in flight knows of the row and of those before it. -/
structure Sound (w : World β) (k : ℕ) (c : Call β) : Prop where
  started : c.startedAt ≤ w.clock
  bounded : ∀ t, c.claimedAt = some t → t ≤ w.clock
  holds : c.phase.held = true → w.holder = some k
  waits : c.phase.held = false → c.claimedAt = none
  took : c.phase.held = true → c.claimedAt ≠ none
  fresh : c.phase.isClaimed = true → ∃ t, c.claimedAt = some t ∧ ∀ f ∈ w.log, f.ran = true → f.expiresAt ≤ t
  own : c.phase = .claimed ∨ (∃ r, c.phase = .handled r) → c.own = some (c.row k .inProgress)
  ran : ∀ r, c.phase = .answered (.ran r) → c.own = some (c.row k (.done r))
  replay : ∀ r, c.phase = .answered (.replay r) → ∃ row, w.row = some row ∧ row.claim = c.claim ∧ row.status = .done r
  conflict : c.phase = .answered .conflict → ∃ row, w.row = some row ∧ row.claim ≠ c.claim

section

variable {w w' : World β} {k : ℕ} {c c' : Call β}

theorem Phase.held_of_isClaimed {p : Phase β} (h : p.isClaimed = true) : p.held = true := by
  cases p with
  | called => exact h
  | answered a => cases a <;> first | rfl | exact h
  | _ => rfl

/-- **A step of another request**: the row that this one holds, and the runs in the log, are as they were. -/
theorem Sound.frame (h : Sound w k c) (hclock : w.clock ≤ w'.clock) (hholder : w.holder = some k → w'.holder = some k)
    (hrow : w.holder = some k → w'.row = w.row)
    (hlog : w.holder = some k → ∀ f ∈ w'.log, f.ran = true → f ∈ w.log) : Sound w' k c where
  started := h.started.trans hclock
  bounded := fun t ht => (h.bounded t ht).trans hclock
  holds := fun hheld => hholder (h.holds hheld)
  waits := h.waits
  took := h.took
  fresh := fun hclaimed => by
    obtain ⟨t, ht, hruns⟩ := h.fresh hclaimed
    have hheld := h.holds (Phase.held_of_isClaimed hclaimed)
    exact ⟨t, ht, fun f hf hran => hruns f (hlog hheld f hf hran) hran⟩
  own := h.own
  ran := h.ran
  replay := fun r hp => by
    rw [hrow (h.holds (by rw [hp]; rfl))]
    exact h.replay r hp
  conflict := fun hp => by
    rw [hrow (h.holds (by rw [hp]; rfl))]
    exact h.conflict hp

/-- **The handler answers.** -/
theorem Sound.ranWith (h : Sound w k c) (hp : c.phase = .claimed) (response : StoredResponse β) :
    Sound w k (ranWith c response) := by
  have hheld : c.phase.held = true := by rw [hp]; rfl
  have hfresh := h.fresh (by rw [hp]; rfl)
  unfold Idempotency.ranWith
  split
  · exact ⟨h.started, h.bounded, fun _ => h.holds hheld, nofun, fun _ => h.took hheld, fun _ => hfresh,
      fun _ => h.own (.inl hp), nofun, nofun, nofun⟩
  · exact ⟨h.started, h.bounded, fun _ => h.holds hheld, nofun, fun _ => h.took hheld, fun _ => hfresh, by simp, nofun,
      nofun, nofun⟩

/-- **The response is stored.** -/
theorem Sound.complete {response : StoredResponse β} (h : Sound w k c) (hp : c.phase = .handled response)
    (hc : complete c response = some c') : Sound w k c' := by
  have hheld : c.phase.held = true := by rw [hp]; rfl
  rw [Idempotency.complete, h.own (.inr ⟨response, hp⟩)] at hc
  obtain rfl := Option.some.inj hc
  refine ⟨h.started, h.bounded, fun _ => h.holds hheld, nofun, fun _ => h.took hheld,
    fun _ => h.fresh (by rw [hp]; rfl), by simp, fun r hr => ?_, nofun, nofun⟩
  obtain rfl := Answer.ran.inj (Phase.answered.inj hr)
  rfl

/-- **The key's row is read.** -/
theorem Sound.judge {a : Answer β} (h : Sound w k c) (hp : c.phase = .found) (ha : judge c w.row = some a) :
    Sound w k { c with phase := .answered a } := by
  have hheld : c.phase.held = true := by rw [hp]; rfl
  unfold Idempotency.judge at ha
  split at ha
  · exact absurd ha nofun
  · next row hrow =>
    split at ha
    · next hclaim =>
      split at ha
      · next response hstatus =>
        obtain rfl := Option.some.inj ha
        exact ⟨h.started, h.bounded, fun _ => h.holds hheld, nofun, fun _ => h.took hheld, nofun, by simp, nofun,
          fun r hr => ⟨row, hrow, hclaim, Answer.replay.inj (Phase.answered.inj hr) ▸ hstatus⟩, nofun⟩
      · exact absurd ha nofun
    · next hclaim =>
      obtain rfl := Option.some.inj ha
      exact ⟨h.started, h.bounded, fun _ => h.holds hheld, nofun, fun _ => h.took hheld, nofun, by simp, nofun, nofun,
        fun _ => ⟨row, hrow, hclaim⟩⟩

/-- **A request waits in vain.** -/
theorem Sound.busy (h : Sound w k c) (hp : c.phase = .called) : Sound w k { c with phase := .answered .busy } :=
  ⟨h.started, h.bounded, nofun, fun _ => h.waits (by rw [hp]; rfl), nofun, nofun, by simp, nofun, nofun, nofun⟩

end

/-! ## The log -/

/-- Each answer in the log is faithful to those before it. -/
def History : List (Entry β) → Prop
  | [] => True
  | e :: older => History older ∧ e.Faithful older

section

variable {log newer older : List (Entry β)} {e f : Entry β}

theorem History.faithful (h : History (newer ++ e :: older)) : e.Faithful older := by
  induction newer with
  | nil => exact h.2
  | cons _ _ ih => exact ih h.1

theorem lastRun_of_not_ran (h : e.ran = false) : lastRun (e :: older) = lastRun older :=
  List.find?_cons_of_neg (Bool.eq_false_iff.mp h)

theorem mem_of_lastRun (h : lastRun log = some f) : f ∈ log ∧ f.ran = true :=
  ⟨List.mem_of_find?_eq_some h, List.find?_some h⟩

theorem mem_of_not_ran (h : e.ran = false) (hf : f ∈ e :: older) (hran : f.ran = true) : f ∈ older := by
  rcases List.mem_cons.mp hf with rfl | hf
  · exact absurd (h.symm.trans hran) Bool.false_ne_true
  · exact hf

end

/-! ## The invariant -/

/-- The row that a run leaves behind. -/
def Entry.row (f : Entry β) (r : StoredResponse β) : KeyRow β := ⟨f.claim, .done r, f.startedAt, f.expiresAt, f.call⟩

/-- What holds in every reachable state. -/
structure Inv (w : World β) : Prop where
  calls : ∀ k c, w.calls k = some c → Sound w k c
  fresh : ∀ k, w.next ≤ k → w.calls k = none
  past : ∀ e ∈ w.log, e.call < w.next ∧ w.calls e.call = none
  nodup : (w.log.map Entry.call).Nodup
  effects : w.effects = (w.log.filter Entry.ran).map Entry.call
  row : ∀ row, w.row = some row → ∃ f r, lastRun w.log = some f ∧ f.outcome = some (.ran r) ∧ row = f.row r
  spent : ∀ f ∈ w.log, f.ran = true → f.expiresAt ≤ w.clock ∨ ∃ row, w.row = some row ∧ row.call = f.call
  history : History w.log

section

variable {w w' : World β} {k : ℕ} {c c' : Call β}

theorem of_update_none {calls : ℕ → Option (Call β)} {j : ℕ} (h : Function.update calls k none j = some c) :
    j ≠ k ∧ calls j = some c := by
  by_cases hjk : j = k
  · rw [hjk, Function.update_self] at h
    exact absurd h nofun
  · rw [Function.update_of_ne hjk] at h
    exact ⟨hjk, h⟩

theorem Inv.init : Inv (World.empty : World β) :=
  ⟨nofun, fun _ _ => rfl, nofun, List.nodup_nil, rfl, nofun, nofun, trivial⟩

theorem Inv.ne_past (h : Inv w) (hc : w.calls k = some c) {e : Entry β} (he : e ∈ w.log) : e.call ≠ k := by
  rintro rfl
  exact nomatch (h.past e he).2.symm.trans hc

theorem Inv.expiresAt_of_row (h : Inv w) {row : KeyRow β} (hrow : w.row = some row) {f : Entry β} (hf : f ∈ w.log)
    (hcall : row.call = f.call) : f.expiresAt = row.expiresAt := by
  obtain ⟨g, r, hlast, -, rfl⟩ := h.row row hrow
  rw [List.inj_on_of_nodup_map h.nodup hf (mem_of_lastRun hlast).1 hcall.symm]
  rfl

/-- **Time passes.** -/
theorem Inv.ticks (h : Inv w) (n : ℕ) : Inv { w with clock := w.clock + n } where
  calls j c hj := (h.calls j c hj).frame (Nat.le_add_right _ _) (fun h => h) (fun _ => rfl) (fun _ _ hf _ => hf)
  fresh := h.fresh
  past := h.past
  nodup := h.nodup
  effects := h.effects
  row := h.row
  spent f hf hran := (h.spent f hf hran).imp (fun hle => hle.trans (Nat.le_add_right _ _)) id
  history := h.history

/-- **A request begins.** -/
theorem Inv.begins (h : Inv w) (claim : Claim) : Inv { w with
    calls := Function.update w.calls w.next (some { claim := claim, startedAt := w.clock })
    next := w.next + 1 } where
  calls j c hj := by
    replace hj : Function.update w.calls w.next (some { claim := claim, startedAt := w.clock }) j = some c := hj
    by_cases hjn : j = w.next
    · rw [hjn, Function.update_self] at hj
      obtain rfl := Option.some.inj hj
      exact ⟨le_refl _, nofun, nofun, fun _ => rfl, nofun, nofun, by simp, nofun, nofun, nofun⟩
    · rw [Function.update_of_ne hjn] at hj
      exact (h.calls j c hj).frame (le_refl _) (fun h => h) (fun _ => rfl)
        (fun _ _ hf _ => hf)
  fresh j hj := by
    have hlt : w.next < j := hj
    exact (Function.update_of_ne (by omega) _ w.calls).trans (h.fresh j (by omega))
  past e he := by
    obtain ⟨hlt, hnone⟩ := h.past e he
    exact ⟨Nat.lt_succ_of_lt hlt, (Function.update_of_ne (by omega) _ w.calls).trans hnone⟩
  nodup := h.nodup
  effects := h.effects
  row := h.row
  spent := h.spent
  history := h.history

/-- **A request goes on**, and may take the row that nobody holds. -/
theorem Inv.goes (h : Inv w) (hc : w.calls k = some c) {holder : Option ℕ}
    (hholder : ∀ j, w.holder = some j → holder = some j) (hs : Sound { w with holder := holder } k c') :
    Inv (w.goes k holder c') where
  calls j c'' hj := by
    replace hj : Function.update w.calls k (some c') j = some c'' := hj
    by_cases hjk : j = k
    · subst hjk
      rw [Function.update_self] at hj
      obtain rfl := Option.some.inj hj
      exact hs.frame (le_refl _) (fun h => h) (fun _ => rfl) (fun _ _ hf _ => hf)
    · rw [Function.update_of_ne hjk] at hj
      exact (h.calls j c'' hj).frame (le_refl _) (hholder j) (fun _ => rfl)
        (fun _ _ hf _ => hf)
  fresh j hj := by
    have hjk : j ≠ k := fun hjk => nomatch (h.fresh k (hjk ▸ hj)).symm.trans hc
    exact (Function.update_of_ne hjk _ w.calls).trans (h.fresh j hj)
  past e he := ⟨(h.past e he).1, (Function.update_of_ne (h.ne_past hc he) _ w.calls).trans (h.past e he).2⟩
  nodup := h.nodup
  effects := h.effects
  row := h.row
  spent := h.spent
  history := h.history

/-- **A request takes the row**, and claims the key where no run is unexpired. -/
theorem Inv.claims (h : Inv w) (hc : w.calls k = some c) (hfree : w.holder = none) :
    Inv (w.goes k (some k) (claimRow k c w.row w.clock)) := by
  have hs := h.calls k c hc
  refine h.goes hc (fun j hj => nomatch hfree.symm.trans hj) ?_
  have hclaimed (hfresh : ∀ f ∈ w.log, f.ran = true → f.expiresAt ≤ w.clock) :
      Sound { w with holder := some k } k
        { c with phase := .claimed, claimedAt := some w.clock, own := some (c.row k .inProgress) } :=
    ⟨hs.started, fun t ht => (Option.some.inj ht).ge, fun _ => rfl, nofun, nofun, fun _ => ⟨w.clock, rfl, hfresh⟩,
      fun _ => rfl, nofun, nofun, nofun⟩
  unfold claimRow
  split
  · next hrow =>
    refine hclaimed fun f hf hran => (h.spent f hf hran).resolve_right ?_
    rintro ⟨row, hsome, -⟩
    exact nomatch hrow.symm.trans hsome
  · next r hrow =>
    split
    · next hexpired =>
      refine hclaimed fun f hf hran => (h.spent f hf hran).elim id ?_
      rintro ⟨row, hsome, hcall⟩
      obtain rfl := Option.some.inj (hrow.symm.trans hsome)
      rw [h.expiresAt_of_row hrow hf hcall]
      exact hexpired.trans hs.started
    · exact ⟨hs.started, fun t ht => (Option.some.inj ht).ge, fun _ => rfl, nofun, nofun, nofun, by simp, nofun, nofun,
        nofun⟩

/-- The entry of a request that ends. -/
def Call.entry (k : ℕ) (c : Call β) (outcome : Option (Answer β)) : Entry β :=
  ⟨k, c.claim, c.startedAt, c.claimedAt, outcome⟩

theorem faithful_failed (k : ℕ) (c : Call β) (older : List (Entry β)) : (c.entry k none).Faithful older :=
  ⟨by simp [Call.entry], nofun, nofun, fun _ => .inr rfl, nofun⟩

/-- **An answer is faithful** to the requests that ended before it. -/
theorem Inv.faithful (h : Inv w) (hc : w.calls k = some c) {a : Answer β} (hp : c.phase = .answered a) :
    (c.entry k (some a)).Faithful w.log := by
  have hs := h.calls k c hc
  refine ⟨?_, fun r hr => ?_, fun ha => ?_, fun hnone => ?_, fun ha => ?_⟩
  · rintro (⟨r, hr⟩ | ⟨s, hr⟩) <;> obtain rfl := Option.some.inj hr <;> exact hs.fresh (by rw [hp]; rfl)
  · obtain rfl := Option.some.inj hr
    obtain ⟨row, hrow, hclaim, hstatus⟩ := hs.replay r hp
    obtain ⟨f, r', hlast, hran, rfl⟩ := h.row row hrow
    obtain rfl := Status.done.inj hstatus
    exact ⟨f, hlast, hclaim, hran⟩
  · obtain rfl := Option.some.inj ha
    obtain ⟨row, hrow, hclaim⟩ := hs.conflict hp
    obtain ⟨f, r', hlast, -, rfl⟩ := h.row row hrow
    exact ⟨f, hlast, hclaim⟩
  · left
    cases a with
    | busy => rfl
    | _ => exact absurd hnone (hs.took (by rw [hp]; rfl))
  · obtain rfl := Option.some.inj ha
    exact hs.waits (by rw [hp]; rfl)

theorem Inv.nodup_cons (h : Inv w) (hc : w.calls k = some c) (outcome : Option (Answer β)) :
    ((c.entry k outcome :: w.log).map Entry.call).Nodup := by
  refine List.nodup_cons.mpr ⟨fun hmem => ?_, h.nodup⟩
  obtain ⟨e, he, hek⟩ := List.mem_map.mp hmem
  exact h.ne_past hc he hek

theorem Inv.past_cons (h : Inv w) (hc : w.calls k = some c) (outcome : Option (Answer β)) :
    ∀ e ∈ c.entry k outcome :: w.log, e.call < w.next ∧ Function.update w.calls k none e.call = none := by
  intro e he
  rcases List.mem_cons.mp he with rfl | he
  · refine ⟨Nat.lt_of_not_le fun hle => ?_, Function.update_self _ _ _⟩
    exact nomatch (h.fresh k hle).symm.trans hc
  · exact ⟨(h.past e he).1, (Function.update_of_ne (h.ne_past hc he) _ w.calls).trans (h.past e he).2⟩

theorem Inv.fresh_update (h : Inv w) (k : ℕ) : ∀ j, w.next ≤ j → Function.update w.calls k none j = none := by
  intro j hj
  by_cases hjk : j = k
  · exact hjk ▸ Function.update_self _ _ _
  · exact (Function.update_of_ne hjk _ w.calls).trans (h.fresh j hj)

theorem ended_holder {outcome : Option (Answer β)} {j : ℕ} (hjk : j ≠ k) (hj : w.holder = some j) :
    (w.ended k c outcome).holder = some j := by
  show (if w.holder = some k then none else w.holder) = some j
  rw [hj, if_neg fun heq => hjk (Option.some.inj heq)]

/-- **A request ends** whose handler's writes are not committed. -/
theorem Inv.ended (h : Inv w) (hc : w.calls k = some c) {outcome : Option (Answer β)}
    (hran : (c.entry k outcome).ran = false) (hfaithful : (c.entry k outcome).Faithful w.log) :
    Inv (w.ended k c outcome) where
  calls j c' hj := by
    obtain ⟨hjk, hj⟩ := of_update_none hj
    exact (h.calls j c' hj).frame (le_refl _) (ended_holder hjk)
      (fun _ => rfl) (fun _ f hf hf' => mem_of_not_ran hran hf hf')
  fresh := h.fresh_update k
  past := h.past_cons hc outcome
  nodup := h.nodup_cons hc outcome
  effects := by
    show w.effects = ((c.entry k outcome :: w.log).filter Entry.ran).map Entry.call
    rw [List.filter_cons_of_neg (Bool.eq_false_iff.mp hran)]
    exact h.effects
  row row hrow := by
    obtain ⟨f, r, hlast, hf⟩ := h.row row hrow
    exact ⟨f, r, (lastRun_of_not_ran hran).trans hlast, hf⟩
  spent f hf hf' := h.spent f (mem_of_not_ran hran hf hf') hf'
  history := ⟨h.history, hfaithful⟩

/-- **A request commits** what its handler has written, with the response. -/
theorem Inv.commits (h : Inv w) (hc : w.calls k = some c) {r : StoredResponse β} (hp : c.phase = .answered (.ran r)) :
    Inv (w.answered k c (.ran r)) where
  calls j c' hj := by
    obtain ⟨hjk, hj⟩ := of_update_none hj
    have hheld := (h.calls k c hc).holds (by rw [hp]; rfl)
    have hnot (hj : w.holder = some j) : False := hjk (Option.some.inj (hj.symm.trans hheld))
    exact (h.calls j c' hj).frame (le_refl _)
      (fun hj => (hnot hj).elim) (fun hj => (hnot hj).elim) (fun hj => (hnot hj).elim)
  fresh := h.fresh_update k
  past := h.past_cons hc (some (.ran r))
  nodup := h.nodup_cons hc (some (.ran r))
  effects := congrArg (k :: ·) h.effects
  row row hrow := by
    obtain rfl := Option.some.inj (((h.calls k c hc).ran r hp).symm.trans hrow)
    exact ⟨c.entry k (some (.ran r)), r, rfl, rfl, rfl⟩
  spent f hf hran := by
    rcases List.mem_cons.mp hf with rfl | hf
    · exact .inr ⟨c.row k (.done r), (h.calls k c hc).ran r hp, rfl⟩
    · obtain ⟨t, ht, hruns⟩ := (h.calls k c hc).fresh (by rw [hp]; rfl)
      exact .inl ((hruns f hf hran).trans ((h.calls k c hc).bounded t ht))
  history := ⟨h.history, h.faithful hc hp⟩

/-- **A request that has an answer ends.** -/
theorem Inv.ends (h : Inv w) (hc : w.calls k = some c) {a : Answer β} (hp : c.phase = .answered a) :
    Inv (w.answered k c a) := by
  cases a with
  | ran r => exact h.commits hc hp
  | _ => exact h.ended hc rfl (h.faithful hc hp)

/-- **An expired key that nobody holds is deleted.** -/
theorem Inv.purges (h : Inv w) {r : KeyRow β} (hrow : w.row = some r) (hfree : w.holder = none)
    (hexpired : r.expiresAt ≤ w.clock) : Inv { w with row := none } where
  calls j c hj := (h.calls j c hj).frame (le_refl _) (fun h => h) (fun hj => nomatch hfree.symm.trans hj)
    (fun _ _ hf _ => hf)
  fresh := h.fresh
  past := h.past
  nodup := h.nodup
  effects := h.effects
  row := nofun
  spent f hf hran := by
    rcases h.spent f hf hran with hle | ⟨row, hsome, hcall⟩
    · exact .inl hle
    · obtain rfl := Option.some.inj (hrow.symm.trans hsome)
      exact .inl ((h.expiresAt_of_row hrow hf hcall).trans_le hexpired)
  history := h.history

/-- **Every event keeps the invariant.** -/
theorem Inv.step (h : Inv w) {e : Event β} (hstep : step w e = some w') : Inv w' := by
  cases e with
  | ticks n =>
    obtain rfl := Option.some.inj hstep
    exact h.ticks n
  | begins claim =>
    obtain rfl := Option.some.inj hstep
    exact h.begins claim
  | claims k =>
    obtain ⟨c, hc, hnext⟩ := Option.bind_eq_some_iff.mp hstep
    split at hnext
    · next hfree =>
      obtain rfl := Option.some.inj hnext
      exact h.claims hc hfree
    · exact absurd hnext nofun
  | timesOut k =>
    obtain ⟨c, hc, hnext⟩ := Option.bind_eq_some_iff.mp hstep
    split at hnext
    · next hp _ =>
      obtain rfl := Option.some.inj hnext
      exact h.goes hc (fun _ => id) ((h.calls k c hc).busy hp)
    · exact absurd hnext nofun
  | judges k =>
    obtain ⟨c, hc, hnext⟩ := Option.bind_eq_some_iff.mp hstep
    split at hnext
    · next hp =>
      split at hnext
      · next ha =>
        obtain rfl := Option.some.inj hnext
        exact h.goes hc (fun _ => id) ((h.calls k c hc).judge hp ha)
      · obtain rfl := Option.some.inj hnext
        exact h.ended hc rfl (faithful_failed k c w.log)
    · exact absurd hnext nofun
  | runs k response =>
    obtain ⟨c, hc, hnext⟩ := Option.bind_eq_some_iff.mp hstep
    split at hnext
    · next hp =>
      obtain rfl := Option.some.inj hnext
      exact h.goes hc (fun _ => id) ((h.calls k c hc).ranWith hp response)
    · exact absurd hnext nofun
  | completes k =>
    obtain ⟨c, hc, hnext⟩ := Option.bind_eq_some_iff.mp hstep
    split at hnext
    · next hp =>
      split at hnext
      · next hcomplete =>
        obtain rfl := Option.some.inj hnext
        exact h.goes hc (fun _ => id) ((h.calls k c hc).complete hp hcomplete)
      · obtain rfl := Option.some.inj hnext
        exact h.ended hc rfl (faithful_failed k c w.log)
    · exact absurd hnext nofun
  | ends k =>
    obtain ⟨c, hc, hnext⟩ := Option.bind_eq_some_iff.mp hstep
    split at hnext
    · next hp =>
      obtain rfl := Option.some.inj hnext
      exact h.ends hc hp
    · exact absurd hnext nofun
  | fails k =>
    obtain ⟨c, hc, rfl⟩ := Option.map_eq_some_iff.mp hstep
    exact h.ended hc rfl (faithful_failed k c w.log)
  | purges =>
    rw [Idempotency.step] at hstep
    split at hstep
    · next hrow hfree =>
      split at hstep
      · next hexpired =>
        obtain rfl := Option.some.inj hstep
        exact h.purges hrow hfree hexpired
      · exact absurd hstep nofun
    · exact absurd hstep nofun

theorem Inv.mem_effects (h : Inv w) (hk : k ∈ w.effects) : ∃ e ∈ w.log, e.call = k ∧ e.ran = true := by
  rw [h.effects] at hk
  obtain ⟨e, he, hek⟩ := List.mem_map.mp hk
  exact ⟨e, List.mem_of_mem_filter he, hek, (List.mem_filter.mp he).2⟩

theorem Inv.call_of_row (h : Inv w) {row : KeyRow β} (hrow : w.row = some row) :
    ∃ e ∈ w.log, e.call = row.call ∧ e.ran = true := by
  obtain ⟨f, r, hlast, -, rfl⟩ := h.row row hrow
  exact ⟨f, (mem_of_lastRun hlast).1, rfl, (mem_of_lastRun hlast).2⟩

end

/-! ## Every run -/

/-- An answer to a request that took the row before the last run expired. -/
theorem Entry.Faithful.unexpired {e f : Entry β} {older : List (Entry β)} (h : e.Faithful older)
    (hlast : lastRun older = some f) {t : Timestamp} (ht : e.claimedAt = some t) (hlt : t < f.expiresAt) :
    e.outcome = none ∨ (e.claim = f.claim ∧ ∃ r, f.outcome = some (.ran r) ∧ e.outcome = some (.replay r)) ∨
      (e.claim ≠ f.claim ∧ e.outcome = some .conflict) := by
  have hnot : ¬((∃ r, e.outcome = some (.ran r)) ∨ ∃ s, e.outcome = some (.notStored s)) := by
    intro hfresh
    obtain ⟨t', ht', hruns⟩ := h.fresh hfresh
    obtain rfl := Option.some.inj (ht.symm.trans ht')
    exact absurd (hruns f (mem_of_lastRun hlast).1 (mem_of_lastRun hlast).2) (Nat.not_le.mpr hlt)
  cases ho : e.outcome with
  | none => exact .inl rfl
  | some a =>
    cases a with
    | ran r => exact absurd (.inl ⟨r, ho⟩) hnot
    | notStored s => exact absurd (.inr ⟨s, ho⟩) hnot
    | replay r =>
      obtain ⟨g, hg, hclaim, hran⟩ := h.replay r ho
      obtain rfl := Option.some.inj (hlast.symm.trans hg)
      exact .inr (.inl ⟨hclaim.symm, r, hran, rfl⟩)
    | conflict =>
      obtain ⟨g, hg, hclaim⟩ := h.conflict ho
      obtain rfl := Option.some.inj (hlast.symm.trans hg)
      exact .inr (.inr ⟨hclaim.symm, rfl⟩)
    | busy => exact nomatch (h.busy ho).symm.trans ht

/-- **A key applies its request at most once**, in every state that any interleaving of requests, of failures at any
point and of the deletion of the expired key reaches. -/
theorem keys_applyOnce (w : World β) (hw : system.Reachable w) : AtMostOnce w := by
  have h : Inv w := System.Reachable.invariant (I := Inv) (fun w (h0 : w = World.empty) => h0 ▸ Inv.init)
    (fun _ _ _ hinv hs => hinv.step hs) hw
  have hfaithful (newer : List (Entry β)) (e : Entry β) (older : List (Entry β)) (hlog : w.log = newer ++ e :: older) :
      e.Faithful older :=
    History.faithful (hlog ▸ h.history)
  refine ⟨hfaithful, fun newer e older hlog hran => ?_,
    fun newer e older hlog f hlast t ht hlt => (hfaithful _ _ _ hlog).unexpired hlast ht hlt, fun e he hnone => ?_,
    ⟨h.effects, ?_⟩, fun e he hnot => ?_, fun k c hc => ?_⟩
  · refine (hfaithful _ _ _ hlog).fresh (.inl ?_)
    unfold Entry.ran at hran
    split at hran
    · next r ho => exact ⟨r, ho⟩
    · exact absurd hran Bool.false_ne_true
  · obtain ⟨newer, older, hlog⟩ := List.append_of_mem he
    exact (hfaithful _ _ _ hlog).waited hnone
  · rw [h.effects]
    exact h.nodup.sublist (List.filter_sublist.map _)
  · have hne {e' : Entry β} (he' : e' ∈ w.log) (hran : e'.ran = true) : e'.call ≠ e.call := by
      intro hcall
      obtain rfl := List.inj_on_of_nodup_map h.nodup he' he hcall
      exact absurd (hnot.symm.trans hran) Bool.false_ne_true
    refine ⟨fun hmem => ?_, fun row hrow => ?_⟩
    · obtain ⟨e', he', hcall, hran⟩ := h.mem_effects hmem
      exact hne he' hran hcall
    · obtain ⟨e', he', hcall, hran⟩ := h.call_of_row hrow
      exact hcall ▸ hne he' hran
  · refine ⟨fun hmem => ?_, fun row hrow => ?_⟩
    · obtain ⟨e, he, hcall, -⟩ := h.mem_effects hmem
      exact h.ne_past hc he hcall
    · obtain ⟨e, he, hcall, -⟩ := h.call_of_row hrow
      exact hcall ▸ h.ne_past hc he

/-! ## A request that waits behind a replay -/

/-- A use of the key. -/
def createUse : Claim := ⟨"createBookmark", 5#256⟩

/-- The first request runs; the second replays its response, and does not end before the third has waited in vain. -/
def waitingRun : List (Event ℕ) :=
  [.begins createUse, .claims 0, .runs 0 ⟨201, some 7⟩, .completes 0, .ends 0,
    .begins createUse, .claims 1, .judges 1, .begins createUse, .timesOut 2, .ends 2, .ends 1]

/-- The state after the run. -/
def afterWaiting : World ℕ := (System.follow step World.empty waitingRun).getD World.empty

theorem reachable_afterWaiting : system.Reachable afterWaiting :=
  System.Reachable.follow (S := system) (fun _ _ _ h => h) (.init rfl) waitingRun World.empty (by decide)

theorem keys_applyOnce_afterWaiting : AtMostOnce afterWaiting ∧ afterWaiting.effects = [0] :=
  ⟨keys_applyOnce _ reachable_afterWaiting, by decide⟩

/-- **A later request without the stored response**: the third asks what the first asked, which has been stored, and is
told that the key is in use. -/
theorem waiting_busy :
    ¬∀ w : World ℕ, system.Reachable w → ∀ newer e older, w.log = newer ++ e :: older → ∀ f, lastRun older = some f →
      e.claim = f.claim → e.startedAt < f.expiresAt → e.outcome ≠ none →
        ∃ r, f.outcome = some (.ran r) ∧ e.outcome = some (.replay r) := by
  intro h
  have hlog : afterWaiting.log = [⟨1, createUse, 0, some 0, some (.replay ⟨201, some 7⟩)⟩] ++
      ⟨2, createUse, 0, none, some .busy⟩ :: [⟨0, createUse, 0, some 0, some (.ran ⟨201, some 7⟩)⟩] := rfl
  obtain ⟨r, -, hbusy⟩ := h afterWaiting reachable_afterWaiting _ _ _ hlog _ rfl rfl (by decide) nofun
  exact nomatch hbusy

end SlugBase.Idempotency
