import SlugBase.Preference.Concurrent

/-!
# No choice outlives its access

* `Inv`: what is committed has no orphan, and what each transaction sees is settled; `Inv.statement`, `Inv.done`,
  `Inv.trigger`, `Inv.commit`, `Inv.rollBack`: what each step keeps of it;
* **`noOrphans`**: where no two commits cross, no choice outlives the access it was made through;
* **`crossed_orphan`**: two transactions that each take one of two ways leave an orphan.
-/

namespace SlugBase.Preference

open Relational Transition

variable {s s' : World} {i k : ℕ} {p : SlugPreference}

/-- **The invariant**: there is no orphan among what is committed, and whatever choice a transaction sees is readable
to it, or a trigger that looks at it is still to run. -/
structure Inv (s : World) : Prop where
  committed : NoOrphans s.committed
  awaiting : ∀ i, ∀ r ∈ (s.txs i).awaiting, .deleted r ∈ (s.txs i).writes
  settled : ∀ i p, p ∈ (s.seen i).slugPreferences → Settled s.committed (s.txs i).writes (s.txs i).awaiting p

theorem settled_idle {c : Content} (h : NoOrphans c) (hp : p ∈ c.slugPreferences) (rows : List Row) :
    Settled c [] rows p := by
  obtain ⟨route, hroute, hholds⟩ := readable_iff.mp (h p hp)
  exact .inl ⟨route, hroute, hholds⟩

/-- Another transaction of a number, over the same committed content. -/
theorem Inv.set (h : Inv s) {t : Tx} (hawaiting : ∀ r ∈ t.awaiting, .deleted r ∈ t.writes)
    (hsettled : ∀ p ∈ (view s.committed t.writes).slugPreferences, Settled s.committed t.writes t.awaiting p) :
    Inv (s.set i t) := by
  refine ⟨h.committed, fun k r hr => ?_, fun k p hp => ?_⟩
  · by_cases hk : k = i
    · subst hk
      simp only [World.set, Function.update_self] at hr ⊢
      exact hawaiting r hr
    · simp only [World.set, Function.update_of_ne hk] at hr ⊢
      exact h.awaiting k r hr
  · by_cases hk : k = i
    · subst hk
      simp only [World.set, World.seen, Function.update_self] at hp ⊢
      exact hsettled p hp
    · simp only [World.set, World.seen, Function.update_of_ne hk] at hp ⊢
      exact h.settled k p hp

theorem chosen_of_chosenRows {c : Content} {w accountId bookmarkId : Uuid} {slug : String} {v : Write}
    (hv : v ∈ chosenRows c w accountId slug bookmarkId) : ∃ q, v = .chosen q ∧ readable c q = true := by
  obtain ⟨b, hb, rfl⟩ := List.mem_map.mp hv
  obtain ⟨hmem, hasks⟩ := List.mem_filter.mp hb
  simp only [Bool.and_eq_true, decide_eq_true_eq] at hasks
  obtain ⟨⟨⟨⟨hw, -, -⟩, -⟩, -⟩, hread⟩ := hasks
  have hrule := (slugPreferenceBookmarkReadable_iff hmem).mpr (bookmarkReadableBy_iff.mp hread)
  rw [hw] at hrule
  exact ⟨_, rfl, hrule⟩

/-- What an operation writes is no choice, or a choice that is readable, and nothing else then. -/
theorem chosen_of_writes {c : Content} {w : Uuid} {op : Op} (hp : .chosen p ∈ op.writes c w) :
    readable c p = true ∧ ∀ v ∈ op.writes c w, ∃ q, v = .chosen q := by
  have hshares {f : BookmarkShare → Bool} : .chosen p ∉ bookmarkSharesGone c f := by simp [bookmarkSharesGone]
  have hfilings {f : FolderBookmark → Bool} : .chosen p ∉ folderBookmarksGone c f := by simp [folderBookmarksGone]
  have hfolders {f : FolderShare → Bool} : .chosen p ∉ folderSharesGone c f := by simp [folderSharesGone]
  have hmembers {f : TeamMember → Bool} : .chosen p ∉ teamMembersGone c f := by simp [teamMembersGone]
  cases op with
  | revoke bookmarkId shareId => exact absurd hp hshares
  | revokeFolderShare folderId shareId => exact absurd hp hfolders
  | removeTeam teamId => simp [Op.writes, hshares, hfolders, hmembers] at hp
  | replaceMembers teamId accountIds =>
    rw [Op.writes] at hp
    split_ifs at hp
    · exact absurd hp hmembers
    · exact absurd hp List.not_mem_nil
  | unfile folderId bookmarkIds => exact absurd hp hfilings
  | removeFolder folderId => simp [Op.writes, hfilings, hfolders] at hp
  | removeBookmark bookmarkId =>
    rw [Op.writes] at hp
    split_ifs at hp
    · simp [hshares, hfilings] at hp
    · exact absurd hp List.not_mem_nil
  | leave s accountId => simp [Op.writes, hshares, hfolders, hmembers] at hp
  | remember accountId slug bookmarkId =>
    obtain ⟨q, hq, hread⟩ := chosen_of_chosenRows hp
    obtain rfl := Write.chosen.inj hq
    exact ⟨hread, fun v hv => (chosen_of_chosenRows hv).imp fun _ h => h.1⟩
  | rememberChoices accountId choices =>
    have hrows {v : Write} (hv : v ∈ (Op.rememberChoices accountId choices).writes c w) :
        ∃ q, v = .chosen q ∧ readable c q = true := by
      obtain ⟨choice, -, hv⟩ := List.mem_flatMap.mp hv
      exact chosen_of_chosenRows hv
    obtain ⟨q, hq, hread⟩ := hrows hp
    obtain rfl := Write.chosen.inj hq
    exact ⟨hread, fun v hv => (hrows hv).imp fun _ h => h.1⟩
  | forgetStale accountId slug bookmarkId => simp [Op.writes] at hp

/-- **A statement.** -/
theorem Inv.statement (h : Inv s) {w : Uuid} {op : Op} (hopen : (s.txs i).triggers = none) :
    Inv (s.set i { s.txs i with writes := (s.txs i).writes ++ op.writes (s.seen i) w }) := by
  have hall (writes : List Write) : Tx.awaiting ⟨writes, (s.txs i).triggers⟩ = deletions writes := by
    rw [Tx.awaiting, hopen]
    rfl
  refine h.set (fun r hr => ?_) fun p hp => ?_
  · rw [hall] at hr
    exact mem_deletions.mp hr
  · rw [hall]
    by_cases hchosen : .chosen p ∈ op.writes (s.seen i) w
    · -- the choice was readable when it was remembered
      obtain ⟨hread, honly⟩ := chosen_of_writes hchosen
      obtain ⟨route, hroute, hholds⟩ := readable_iff.mp hread
      obtain ⟨hcommitted, hkept⟩ := holds_view.mp hholds
      refine .inl ⟨route, hroute, holds_view.mpr ⟨hcommitted, fun v hv => ?_⟩⟩
      rcases List.mem_append.mp hv with hv | hv
      · exact hkept v hv
      · obtain ⟨q, rfl⟩ := honly v hv
        exact fun _ _ hremoves => hremoves
    · refine settled_append (fun hseen => ?_) hchosen hp
      have hbefore := h.settled i p hseen
      have heq : (s.txs i).awaiting = deletions (s.txs i).writes := hall _
      rwa [heq] at hbefore

/-- **The end of the statements.** -/
theorem Inv.done (h : Inv s) (hopen : (s.txs i).triggers = none) :
    Inv (s.set i { s.txs i with triggers := some (deletions (s.txs i).writes) }) := by
  refine h.set (fun r hr => mem_deletions.mp hr) fun p hp => ?_
  have hbefore := h.settled i p hp
  rw [Tx.awaiting, hopen] at hbefore
  exact hbefore

/-- **A deferred trigger.** -/
theorem Inv.trigger (h : Inv s) {row : Row} {rest : List Row} (htriggers : (s.txs i).triggers = some (row :: rest)) :
    Inv (s.set i ⟨(s.txs i).writes ++ (forgetUnreadable (s.seen i) row).map .forgotten, some rest⟩) := by
  have hawaiting : (s.txs i).awaiting = row :: rest := by
    rw [Tx.awaiting, htriggers]
    rfl
  refine h.set (fun r hr => List.mem_append_left _ (h.awaiting i r ?_)) fun p hp => settled_trigger (fun hseen => ?_) hp
  · rw [hawaiting]
    exact List.mem_cons_of_mem _ hr
  · have hbefore := h.settled i p hseen
    rwa [hawaiting] at hbefore

/-- **A commit that crosses no other.** -/
theorem Inv.commit (h : Inv s) (hdone : (s.txs i).triggers = some []) (hapart : Apart s (.commit i)) :
    Inv { committed := s.seen i, txs := Function.update s.txs i {} } := by
  have hcommitted : NoOrphans (s.seen i) := by
    intro p hp
    have hsettled := h.settled i p hp
    rw [Tx.awaiting, hdone] at hsettled
    rcases hsettled with ⟨route, hroute, hholds⟩ | ⟨_, _, _, r, hr, _⟩
    · exact readable_iff.mpr ⟨route, hroute, hholds⟩
    · exact absurd hr List.not_mem_nil
  -- a way that is committed stays so, where the transaction does not take it
  have hstays {p : SlugPreference} {route : List Need} (hroute : IsRoute p route) (hholds : Holds s.committed route)
      (hnot : ¬Takes s i p) : Holds (s.seen i) route :=
    holds_view.mpr ⟨hholds, fun w hw need hneed hremoves => hnot ⟨w, hw, route, hroute, hholds, need, hneed, hremoves⟩⟩
  refine ⟨hcommitted, fun k r hr => ?_, fun k p hp => ?_⟩
  · by_cases hk : k = i
    · subst hk
      simp only [Function.update_self] at hr
      exact absurd hr List.not_mem_nil
    · simp only [Function.update_of_ne hk] at hr ⊢
      exact h.awaiting k r hr
  · by_cases hk : k = i
    · subst hk
      simp only [World.seen, Function.update_self] at hp ⊢
      exact settled_idle hcommitted hp _
    · simp only [World.seen, Function.update_of_ne hk] at hp ⊢
      obtain ⟨hjudged, hremembered⟩ := hapart k hk p
      by_cases hcrosses : Chooses s k p ∨ (s.txs k).triggers.isSome = true ∧ Takes s k p
      · -- the other has remembered the choice or judged a way to it: what it saw is still so
        have hnot : ¬Takes s i p := hcrosses.elim hremembered fun hboth => (hjudged hboth.1 hboth.2).1
        have hseen : p ∈ (s.seen k).slugPreferences := by
          refine mem_view hp (hcrosses.symm.imp (fun hboth hmem => ?_) id)
          exact (mem_of_mem_view hmem).resolve_right (hjudged hboth.1 hboth.2).2
        rcases h.settled k p hseen with ⟨route, hroute, hholds⟩ | ⟨route, hroute, hholds, hawaits⟩
        · obtain ⟨hbefore, hkept⟩ := holds_view.mp hholds
          exact .inl ⟨route, hroute, holds_view.mpr ⟨hstays hroute hbefore hnot, hkept⟩⟩
        · exact .inr ⟨route, hroute, hstays hroute hholds hnot, hawaits⟩
      · -- the choice is committed, and the way to it that is committed is seen, or the other will judge it
        obtain ⟨hunchosen, hunjudged⟩ := not_or.mp hcrosses
        have hmem := (mem_of_mem_view hp).resolve_right hunchosen
        obtain ⟨route, hroute, hholds⟩ := readable_iff.mp (hcommitted p hmem)
        have hbefore : Holds s.committed route := (holds_view.mp hholds).1
        cases htriggers : (s.txs k).triggers with
        | none =>
          have hall : (s.txs k).awaiting = deletions (s.txs k).writes := by
            rw [Tx.awaiting, htriggers]
            rfl
          rw [hall]
          exact settled_of_holds hroute hholds (kept_of_mem_view hp hunchosen)
        | some rows =>
          refine .inl ⟨route, hroute, holds_view.mpr ⟨hholds, fun w hw need hneed hremoves => hunjudged ⟨?_, ?_⟩⟩⟩
          · rw [htriggers]
            rfl
          · exact ⟨w, hw, route, hroute, hbefore, need, hneed, hremoves⟩

/-- **A rollback.** -/
theorem Inv.rollBack (h : Inv s) : Inv (s.set i {}) :=
  h.set (fun _ hr => absurd hr List.not_mem_nil) fun _ hp => settled_idle h.committed hp _

/-- A step at which no two commits cross keeps the invariant. -/
theorem Inv.step (h : Inv s) {e : Event} (hstep : step s e = some s') (hapart : Apart s e) : Inv s' := by
  cases e with
  | statement i w op =>
    simp only [Preference.step] at hstep
    split_ifs at hstep with hopen
    obtain rfl := Option.some.inj hstep
    exact h.statement (Option.isNone_iff_eq_none.mp hopen)
  | done i =>
    simp only [Preference.step] at hstep
    split_ifs at hstep with hopen
    obtain rfl := Option.some.inj hstep
    exact h.done (Option.isNone_iff_eq_none.mp hopen)
  | trigger i =>
    simp only [Preference.step] at hstep
    cases htriggers : (s.txs i).triggers with
    | none =>
      rw [htriggers] at hstep
      cases hstep
    | some rows =>
      cases rows with
      | nil =>
        rw [htriggers] at hstep
        cases hstep
      | cons row rest =>
        rw [htriggers] at hstep
        obtain rfl := Option.some.inj hstep
        exact h.trigger htriggers
  | commit i =>
    simp only [Preference.step] at hstep
    split_ifs at hstep with hdone
    obtain rfl := Option.some.inj hstep
    exact h.commit hdone hapart
  | rollBack i =>
    obtain rfl := Option.some.inj hstep
    exact h.rollBack

theorem Inv.init (h : system.init s) : Inv s := by
  obtain ⟨hcommitted, hidle⟩ := h
  refine ⟨hcommitted, fun i r hr => ?_, fun i p hp => ?_⟩
  · rw [hidle i] at hr
    exact absurd hr List.not_mem_nil
  · rw [World.seen, hidle i] at hp
    rw [hidle i]
    exact settled_idle hcommitted hp _

/-- A step leaves the other transactions as they are. -/
theorem step_txs {e : Event} (hstep : step s e = some s') (hk : k ≠ e.tx) : s'.txs k = s.txs k := by
  cases e with
  | statement i w op =>
    simp only [Preference.step] at hstep
    split_ifs at hstep
    obtain rfl := Option.some.inj hstep
    exact Function.update_of_ne hk _ _
  | done i =>
    simp only [Preference.step] at hstep
    split_ifs at hstep
    obtain rfl := Option.some.inj hstep
    exact Function.update_of_ne hk _ _
  | trigger i =>
    simp only [Preference.step] at hstep
    split at hstep
    · obtain rfl := Option.some.inj hstep
      exact Function.update_of_ne hk _ _
    · cases hstep
  | commit i =>
    simp only [Preference.step] at hstep
    split_ifs at hstep
    obtain rfl := Option.some.inj hstep
    exact Function.update_of_ne hk _ _
  | rollBack i =>
    obtain rfl := Option.some.inj hstep
    exact Function.update_of_ne hk _ _

/-- A transaction crosses no other while it is the only one open. -/
theorem apart_alone {e : Event} (h : ∀ k, k ≠ e.tx → s.txs k = {}) : Apart s e := by
  cases e with
  | commit i =>
    intro k hk p
    have hwrites : (s.txs k).writes = [] := by rw [h k hk]
    refine ⟨fun _ htakes => ?_, fun hchooses => ?_⟩
    · obtain ⟨w, hw, -⟩ := htakes
      rw [hwrites] at hw
      exact absurd hw List.not_mem_nil
    · rw [Chooses, hwrites] at hchooses
      exact absurd hchooses List.not_mem_nil
  | statement i w op => trivial
  | done i => trivial
  | trigger i => trivial
  | rollBack i => trivial

theorem reachable_alone {events : List Event} {t : World} (hs : (system.restrict fun s e _ => Apart s e).Reachable s)
    (halone : ∀ k, k ≠ i → s.txs k = {}) (hevents : ∀ e ∈ events, e.tx = i)
    (hrun : System.follow step s events = some t) : (system.restrict fun s e _ => Apart s e).Reachable t := by
  induction events generalizing s with
  | nil => exact Option.some.inj hrun ▸ hs
  | cons e events ih =>
    obtain ⟨s', hstep, hrest⟩ := Option.bind_eq_some_iff.mp hrun
    have he : e.tx = i := hevents e List.mem_cons_self
    refine ih (hs.step ⟨hstep, apart_alone (he ▸ halone)⟩) (fun k hk => ?_)
      (fun e' he' => hevents e' (List.mem_cons_of_mem _ he')) hrest
    exact (step_txs hstep (he ▸ hk)).trans (halone k hk)

/-- **No choice outlives its access**: in every run whose commits cross no other, in every state reached, each choice
names a bookmark that its account can read. -/
theorem noOrphans (s : World) (h : (system.restrict fun s e _ => Apart s e).Reachable s) : NoOrphans s.committed :=
  (System.Reachable.invariant (S := system.restrict fun s e _ => Apart s e) (I := Inv) (fun _ hinit => Inv.init hinit)
    (fun _ _ _ hinv hstep => hinv.step hstep.1 hstep.2) h).committed

/-! ## Two ways, two transactions -/

/-- Account 11 reads bookmark 10 of account 7 through a share with it and through a shared folder, and has chosen it. -/
def twoWays : Content where
  bookmarks := ⟨[⟨10, 3, some 7, none, none, none, "https://example.org/", "https://example.org/", "example.org",
    "Example", none, some "example", true, none, none, 0, none, 1, 0, 0⟩], List.nodup_singleton _⟩
  folderBookmarks := ⟨[⟨3, 20, 10⟩], List.nodup_singleton _⟩
  bookmarkShares := ⟨[⟨⟨some 11, none, by decide⟩, 40, 3, 10⟩], List.nodup_singleton _⟩
  folderShares := ⟨[⟨⟨some 11, none, by decide⟩, 50, 3, 20⟩], List.nodup_singleton _⟩
  slugPreferences := ⟨[⟨3, 11, "example", 10⟩], List.nodup_singleton _⟩

/-- The state before, with no transaction open. -/
def beforeTwoWays : World := ⟨twoWays, fun _ => {}⟩

theorem init_beforeTwoWays : system.init beforeTwoWays := by
  refine ⟨fun p hp => ?_, fun _ => rfl⟩
  obtain rfl := List.mem_singleton.mp hp
  decide

/-- The state after the events, for a run that goes through. -/
def afterTwoWays (events : List Event) : World := (System.follow step beforeTwoWays events).getD beforeTwoWays

/-- One transaction takes both ways away. -/
def atOnce : List Event :=
  [.statement 0 3 (.revoke 10 40), .statement 0 3 (.unfile 20 [10]), .done 0, .trigger 0, .trigger 0, .commit 0]

theorem noOrphans_atOnce :
    NoOrphans (afterTwoWays atOnce).committed ∧ (afterTwoWays atOnce).committed.slugPreferences.rows = [] := by
  have hrun : System.follow step beforeTwoWays atOnce = some (afterTwoWays atOnce) := by
    have hsome : (System.follow step beforeTwoWays atOnce).isSome = true := by decide
    obtain ⟨t, ht⟩ := Option.isSome_iff_exists.mp hsome
    rw [afterTwoWays, ht]
    rfl
  have hevents : ∀ e ∈ atOnce, e.tx = 0 := by simp [atOnce, Event.tx]
  exact ⟨noOrphans _ (reachable_alone (.init init_beforeTwoWays) (fun _ _ => rfl) hevents hrun), by decide⟩

/-- One transaction revokes the share, and another takes the bookmark out of the folder; the trigger of each runs
before the other commits. -/
def crossed : List Event :=
  [.statement 0 3 (.revoke 10 40), .statement 1 3 (.unfile 20 [10]), .done 0, .trigger 0, .done 1, .trigger 1,
    .commit 0, .commit 1]

/-- **An orphan**: both have committed, no transaction is open, and the choice is there without a way to it. -/
theorem crossed_orphan :
    system.Reachable (afterTwoWays crossed) ∧ (∀ i, (afterTwoWays crossed).txs i = {}) ∧
      ¬NoOrphans (afterTwoWays crossed).committed := by
  refine ⟨?_, fun i => ?_, fun h => ?_⟩
  · exact System.Reachable.follow (fun _ _ _ hstep => hstep) (.init init_beforeTwoWays) crossed beforeTwoWays (by decide)
  · match i with
    | 0 => rfl
    | 1 => rfl
    | n + 2 => rfl
  · have hrow : (⟨3, 11, "example", 10⟩ : SlugPreference) ∈ (afterTwoWays crossed).committed.slugPreferences.rows := by decide
    have hunreadable : readable (afterTwoWays crossed).committed ⟨3, 11, "example", 10⟩ = false := by decide
    exact absurd (h _ hrow) (Bool.eq_false_iff.mp hunreadable)

end SlugBase.Preference
