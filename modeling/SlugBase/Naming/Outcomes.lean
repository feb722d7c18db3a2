import SlugBase.Naming.Valid

/-!
# Outcomes of operations on names

* **`valid_of_reachable`**: the invariant holds in every run;
* `Steady`, **`writing_rank`**: a row that is being written is the one its writer judged the name by, so an operation
  waits at a key only for one that has judged later;
* **`names_undisturbed`**: in every run in which no tag's `UPDATE` meets a row written since it judged the name, names
  differ, every operation ends in an outcome it declares, and an accepted version is changed once;
* **`renames_deadlock`**: four renames of two tags that end in a deadlock.
-/

namespace SlugBase.Naming

open Relational Transition

section

variable {citext : String → String} {s s' : State} {i j : ℕ} {t : Txn}

/-! ## The invariant over a statement -/

/-- A key that is taken is the name of another committed row. -/
theorem keyState_taken {own : Uuid} {key : Key} (h : s.keyState citext own key = .taken) :
    ∃ o ∈ s.rows, o.id ≠ own ∧ o.key citext = key := by
  unfold State.keyState at h
  cases hclaim : s.claims key with
  | some j =>
    rw [hclaim] at h
    cases h
  | none =>
    rw [hclaim] at h
    dsimp only at h
    cases hfound : s.rows.find? fun r => decide (r.key citext = key ∧ r.id ≠ own) with
    | none =>
      rw [hfound] at h
      cases h
    | some o =>
      obtain ⟨ho, hp⟩ := Table.find?_some hfound
      rw [decide_eq_true_eq] at hp
      exact ⟨o, ho, hp.2, hp.1⟩

/-- **A statement leaves the invariant.** -/
theorem Valid.run (hs : Valid citext s) (h : s.run citext i = some s') : Valid citext s' := by
  unfold State.run at h
  cases ht : s.running i with
  | none =>
    rw [ht] at h
    cases h
  | some t =>
    rw [ht] at h
    dsimp only at h
    split_ifs at h with hwaiting
    have hwaits : s.waitsFor citext i = none := by simpa using hwaiting
    have hv := hs.running i t ht
    have hsound := hv.sound
    have hends := statement_ends citext s t.request t.phase
    generalize hphase : t.phase = phase at h hends hsound
    generalize s.statement citext t.request phase = outcome at h hends
    cases hends with
    | goes hgoes =>
      obtain rfl := Option.some.inj h
      exact hs.goOn ht (hphase ▸ hgoes) hwaits
    | refuse hanswer =>
      obtain rfl := Option.some.inj h
      refine hs.ended ht hs.commits_same (fun htaken => ?_) fun hchanged => ?_
      · rcases hanswer with rfl | rfl | rfl <;> cases htaken
      · rcases hanswer with rfl | rfl | rfl <;> cases hchanged
    | createTaken hcreates hwanted htaken =>
      obtain rfl := Option.some.inj h
      obtain ⟨o, ho, hid, hkey⟩ := keyState_taken htaken
      refine hs.ended ht hs.commits_same (fun _ => ⟨rfl, s.rows, List.mem_cons_self, o, ho, hid, ?_⟩) fun hc => (by cases hc)
      rw [hkey, hwanted]
    | writeTaken htaken =>
      obtain rfl := Option.some.inj h
      obtain ⟨o, ho, hid, hkey⟩ := keyState_taken htaken
      obtain ⟨hold, hfollows, hwanted, -⟩ := hsound
      refine hs.ended ht hs.commits_same (fun _ => ⟨rfl, s.rows, List.mem_cons_self, o, ho, ?_, ?_⟩) fun hc => (by cases hc)
      · rwa [← hold, ← hfollows.id]
      · rw [hkey, hwanted]
    | judgedTaken hname htaken =>
      obtain rfl := Option.some.inj h
      obtain ⟨o, ho, hp⟩ := Table.any_iff.mp htaken
      obtain ⟨hkey, hid⟩ := of_decide_eq_true hp
      refine hs.ended ht hs.commits_same (fun _ => ⟨rfl, s.rows, List.mem_cons_self, o, ho, hid, ?_⟩) fun hc => (by cases hc)
      rw [hkey, hsound.2.2.2 _ (changes_name_of_setOf hname)]
    | stillThere hfind =>
      obtain rfl := Option.some.inj h
      refine hs.ended ht hs.commits_same (fun _ => ⟨rfl, ?_⟩) fun hc => (by cases hc)
      rcases hv.passed hphase with hevidence | hgone
      · exact hevidence.mono (List.subset_cons_self _ _)
      · obtain ⟨hmem, hid, hscope⟩ := find_some hfind
        exact absurd hscope (hgone.2 _ hmem hid)
    | create =>
      obtain rfl := Option.some.inj h
      exact hs.ended ht (hs.commits_create ht hphase) (fun hc => (by cases hc)) fun hc => (by cases hc)
    | @change old new named =>
      obtain rfl := Option.some.inj h
      refine hs.ended ht (hs.commits_change ht hphase) (fun hc => (by cases hc)) fun _ hupdate => ?_
      obtain ⟨hid, hfollows, -⟩ := hsound
      refine ⟨old, by rw [hphase]; rfl, hid, hfollows.accepts, fun r hr heq => ?_⟩
      rcases mem_replace hr with rfl | ⟨-, hne⟩
      · exact hfollows.moved hupdate
      · exact absurd (heq.trans hfollows.id.symm) hne
    | remove =>
      obtain rfl := Option.some.inj h
      exact hs.ended ht (hs.commits_remove ht hphase) (fun hc => (by cases hc)) fun hc => (by cases hc)

/-- **The invariant holds in every run.** -/
theorem valid_of_reachable (h : (system citext).Reachable s) : Valid citext s := by
  refine System.Reachable.invariant (I := Valid citext) ?_ ?_ h
  · rintro s ⟨hunique, hrows, hrunning, hlocks, hclaims, hhistory⟩
    have hnone {i : ℕ} {t : Txn} (ht : s.running i = some t) : False := by
      rw [hrunning] at ht
      cases ht
    refine ⟨hunique, fun r hr => (hrows r hr).1, fun r hr => (hrows r hr).2, fun id i hl => ?_, fun key i hc => ?_,
      fun i t ht => (hnone ht).elim, fun i j t u id ht => (hnone ht).elim,
      fun i j t u sn sn' si si' ht => (hnone ht).elim, ?_, ?_, ?_⟩
    · rw [hlocks] at hl
      cases hl
    · rw [hclaims] at hc
      cases hc
    · rw [hhistory]
      exact fun d hd => absurd hd List.not_mem_nil
    · rw [hhistory]
      exact fun d hd => absurd hd List.not_mem_nil
    · rw [hhistory]
      exact List.Pairwise.nil
  · rintro s label s' hs (⟨i, request, -, -, hstep⟩ | ⟨i, -, hstep⟩ | ⟨i, t, -, -, ht, rfl⟩)
    · exact hs.asked hstep
    · exact hs.run hstep
    · exact hs.ended ht hs.commits_same (fun hc => (by cases hc)) fun hc => (by cases hc)

/-! ## Nobody waits in a circle -/

/-- A row that is being written is the one by which its writer has judged the new name. -/
def Steady (s : State) : Prop :=
  ∀ i t old new snapshot since, s.running i = some t → t.phase = .writing old new snapshot since → old ∈ snapshot

/-- **Without a disturbance, what an operation writes is what it has judged.** -/
theorem Goes.steady (hs : Valid citext s) (ht : s.running i = some t) {phase' : Phase}
    (h : Goes citext s t.request t.phase phase')
    (hcalm : ∀ name snapshot since row, t.phase = .found name snapshot since →
      find s.rows t.request.id t.request.scope = some row → row ∈ snapshot) {old new : NamedRow} {snapshot : Rows}
    {since : ℕ} (hphase' : phase' = .writing old new snapshot since) : old ∈ snapshot := by
  have hheld := (hs.running i t ht).held
  generalize hphase : t.phase = phase at h hcalm hheld
  cases h with
  | insert | read | miss | judge | gone | lock | touch | claim | mark => cases hphase'
  | grant hfind =>
    cases hphase'
    exact hcalm _ _ _ _ rfl hfind
  | write =>
    cases hphase'
    exact (hheld _ rfl).1

/-- Who holds a key has claimed it, or has written the row of another identifier that has it. -/
theorem holder_some {own : Uuid} {key : Key} {j : ℕ} (h : (s.keyState citext own key).holder = some j) :
    s.claims key = some j ∨ ∃ r ∈ s.rows, r.key citext = key ∧ r.id ≠ own ∧ s.locks r.id = some j := by
  unfold State.keyState at h
  cases hclaim : s.claims key with
  | some k =>
    rw [hclaim] at h
    exact .inl h
  | none =>
    rw [hclaim] at h
    dsimp only at h
    cases hfound : s.rows.find? fun r => decide (r.key citext = key ∧ r.id ≠ own) with
    | none =>
      rw [hfound] at h
      cases h
    | some o =>
      rw [hfound] at h
      dsimp only at h
      obtain ⟨ho, hp⟩ := Table.find?_some hfound
      rw [decide_eq_true_eq] at hp
      cases hwriter : s.writer o.id with
      | none =>
        rw [hwriter] at h
        cases h
      | some k =>
        rw [hwriter] at h
        obtain rfl : k = j := Option.some.inj h
        exact .inr ⟨o, ho, hp.1, hp.2, (Option.filter_eq_some_iff.mp hwriter).1⟩

/-- **Whom an operation waits for**: one that has locked a row, or claimed a key. -/
theorem waits_cases (hwaits : s.Waits citext i j) :
    (∃ id, s.locks id = some j) ∨ ∃ key, s.claims key = some j := by
  have hholder {r : Request} (hr : s.rowHolder r = some j) : (∃ id, s.locks id = some j) ∨ ∃ key, s.claims key = some j := by
    obtain ⟨row, -, hlock⟩ := Option.bind_eq_some_iff.mp hr
    exact .inl ⟨row.id, hlock⟩
  have hkey {own : Uuid} {key : Key} (hk : (s.keyState citext own key).holder = some j) :
      (∃ id, s.locks id = some j) ∨ ∃ key, s.claims key = some j := by
    rcases holder_some hk with hclaim | ⟨r, -, -, -, hlock⟩
    · exact .inr ⟨key, hclaim⟩
    · exact .inl ⟨r.id, hlock⟩
  obtain ⟨t, ht, hmatch⟩ := Option.bind_eq_some_iff.mp hwaits
  cases hphase : t.phase with
  | asked =>
    rw [hphase] at hmatch
    dsimp only at hmatch
    cases hrequest : t.request with
    | create =>
      rw [hrequest] at hmatch
      exact hkey hmatch
    | rename =>
      rw [hrequest] at hmatch
      cases hmatch
    | update | remove =>
      rw [hrequest] at hmatch
      exact hholder hmatch
  | found =>
    rw [hphase] at hmatch
    exact hholder hmatch
  | writing =>
    rw [hphase] at hmatch
    exact hkey hmatch
  | judging | passed | held | inserted | written | removing =>
    rw [hphase] at hmatch
    cases hmatch

/-- **An operation that waits while it is waited for** has written its row and waits at the key of its new name. -/
theorem writing_of_waits (hs : Valid citext s) {h j : ℕ} (hin : s.Waits citext h i) (hout : s.Waits citext i j) :
    ∃ t old new snapshot since, s.running i = some t ∧ t.phase = .writing old new snapshot since ∧
      (s.keyState citext new.id (new.key citext)).holder = some j := by
  obtain ⟨t, ht, hmatch⟩ := Option.bind_eq_some_iff.mp hout
  have hholds : t.phase.row ≠ none ∨ t.phase.claimed citext ≠ none := by
    rcases waits_cases hin with ⟨id, hlock⟩ | ⟨key, hclaim⟩
    · obtain ⟨u, row, hu, hrow, -⟩ := hs.locks id i hlock
      obtain rfl : t = u := Option.some.inj (ht.symm.trans hu)
      exact .inl (by rw [hrow]; exact Option.some_ne_none row)
    · obtain ⟨u, hu, hkey⟩ := hs.claims key i hclaim
      obtain rfl : t = u := Option.some.inj (ht.symm.trans hu)
      exact .inr (by rw [hkey]; exact Option.some_ne_none key)
  cases hphase : t.phase with
  | asked | found =>
    rw [hphase] at hholds
    exact (hholds.elim (fun h => h rfl) fun h => h rfl).elim
  | writing old new snapshot since =>
    rw [hphase] at hmatch
    exact ⟨t, old, new, snapshot, since, ht, hphase, hmatch⟩
  | judging | passed | held | inserted | written | removing =>
    rw [hphase] at hmatch
    cases hmatch

/-- When the row of an operation was judged. -/
def State.judgedAt (s : State) (i : ℕ) : ℕ := (((s.running i).bind fun t => t.phase.snapshot).map Prod.snd).getD 0

theorem judgedAt_writing (ht : s.running i = some t) {old new : NamedRow} {snapshot : Rows} {since : ℕ}
    (hphase : t.phase = .writing old new snapshot since) : s.judgedAt i = since := by
  rw [State.judgedAt, ht, Option.bind_some, hphase]
  rfl

/-- **In the middle of a chain of waits, each has judged later than the one that waits for it**: had it judged first,
its row would have had the name in the other's snapshot. -/
theorem writing_rank (hs : Valid citext s) (hsteady : Steady s) {h j k : ℕ} (hin : s.Waits citext h i)
    (hmid : s.Waits citext i j) (hout : s.Waits citext j k) : s.judgedAt i < s.judgedAt j := by
  obtain ⟨t, old, new, snapshot, since, ht, hphase, hholder⟩ := writing_of_waits hs hin hmid
  obtain ⟨u, old', new', snapshot', since', hu, hphase', -⟩ := writing_of_waits hs hmid hout
  rw [judgedAt_writing ht hphase, judgedAt_writing hu hphase']
  have hv := hs.running i t ht
  have hv' := hs.running j u hu
  have hsound := hv.sound
  rw [hphase] at hsound
  obtain ⟨hid, hfollows, hwanted, hjudged⟩ := hsound
  rcases holder_some hholder with hclaim | ⟨r, hr, hkey, hne, hlock⟩
  · obtain ⟨v, hv, hclaimed⟩ := hs.claims _ j hclaim
    obtain rfl : u = v := Option.some.inj (hu.symm.trans hv)
    rw [hphase'] at hclaimed
    cases hclaimed
  -- the row of the name is the one that the other writes
  · obtain ⟨v, row, hv, hrow, hrowid⟩ := hs.locks r.id j hlock
    obtain rfl : u = v := Option.some.inj (hu.symm.trans hv)
    rw [hphase'] at hrow
    obtain rfl : old' = row := Option.some.inj hrow
    obtain ⟨hmem, -⟩ := hv'.held old' (by rw [hphase']; rfl)
    obtain rfl : old' = r := Table.eq_of_key hmem hr hrowid
    by_contra hle
    have hin' : old' ∈ snapshot := hs.snapshots j i u t snapshot' snapshot since' since hu ht (by rw [hphase']; rfl)
      (by rw [hphase]; rfl) (Nat.not_lt.mp hle) old' (hsteady j u old' new' snapshot' since' hu hphase') hmem
    refine hne ?_
    rw [hjudged old' hin' (by rw [hkey, hwanted]), ← hid, hfollows.id]

/-- **No operation waits, through others, for itself.** -/
theorem not_deadlocked (hs : Valid citext s) (hsteady : Steady s) (i : ℕ) :
    ¬Waiting.Deadlocked (s.Waits citext) i := by
  have hrise : ∀ h i j k, s.Waits citext h i → s.Waits citext i j → s.Waits citext j k → s.judgedAt i < s.judgedAt j :=
    fun h i j k hin hmid hout => writing_rank hs hsteady hin hmid hout
  exact Waiting.not_deadlocked hrise i

/-- **Every operation waits, in the end, for one whose next statement can run.** -/
theorem exists_run (hs : Valid citext s) (hsteady : Steady s) (ht : s.running i = some t) :
    ∃ j, Relation.ReflTransGen (s.Waits citext) i j ∧ (s.run citext j).isSome = true := by
  have hbound : ∀ h i j, s.Waits citext h i → s.Waits citext i j → s.judgedAt i < s.clock := by
    intro h i j hin hout
    obtain ⟨t, old, new, snapshot, since, ht, hphase, -⟩ := writing_of_waits hs hin hout
    rw [judgedAt_writing ht hphase]
    exact ((hs.running i t ht).judged snapshot since (by rw [hphase]; rfl)).1
  have hrise : ∀ h i j k, s.Waits citext h i → s.Waits citext i j → s.Waits citext j k → s.judgedAt i < s.judgedAt j :=
    fun h i j k hin hmid hout => writing_rank hs hsteady hin hmid hout
  obtain ⟨j, hpath, hfree⟩ := Waiting.exists_free hrise hbound i
  refine ⟨j, hpath, ?_⟩
  have hrunning : ∃ u, s.running j = some u := by
    rcases Relation.ReflTransGen.cases_tail hpath with rfl | ⟨k, -, hwaits⟩
    · exact ⟨t, ht⟩
    · rcases waits_cases hwaits with ⟨id, hlock⟩ | ⟨key, hclaim⟩
      · obtain ⟨u, -, hu, -⟩ := hs.locks id j hlock
        exact ⟨u, hu⟩
      · obtain ⟨u, hu, -⟩ := hs.claims key j hclaim
        exact ⟨u, hu⟩
  obtain ⟨u, hu⟩ := hrunning
  have hwaits : (s.waitsFor citext j).isSome = false := by
    cases hw : s.waitsFor citext j with
    | none => rfl
    | some k => exact absurd hw (hfree k)
  unfold State.run
  rw [hu]
  dsimp only
  rw [hwaits]
  cases s.statement citext u.request u.phase <;> rfl

end

/-! ## Every run -/

/-- The statements that an operation has left, at most. -/
def Phase.left : Phase → ℕ
  | .asked => 5
  | .judging _ => 4
  | .held _ _ | .found _ _ _ => 3
  | .writing _ _ _ _ => 2
  | .passed | .inserted _ | .written _ _ _ | .removing _ => 1

section

variable {citext : String → String} {s s' : State} {i : ℕ} {t : Txn}

/-- **Every statement brings an operation nearer to its end.** -/
theorem Goes.left {r : Request} {phase phase' : Phase} (h : Goes citext s r phase phase') : phase'.left < phase.left := by
  cases h <;> simp [Phase.left]

/-- What holds of the runs in which no row is written between a judgement and the write. -/
structure Calm (citext : String → String) (s : State) : Prop where
  valid : Valid citext s
  steady : Steady s
  declared : ∀ d ∈ s.history, d.answer ≠ .databaseError

/-- **A step without a disturbance keeps the runs calm.** -/
theorem Calm.step (hs : Calm citext s) {label : Label} (hstep : (system citext).step s label s')
    (hcalm : Undisturbed s label s') : Calm citext s' := by
  rcases hstep with ⟨i, request, rfl, -, hasked⟩ | ⟨i, rfl, hrun⟩ | ⟨i, t, -, hdead, -, -⟩
  · refine ⟨hs.valid.asked hasked, ?_, ?_⟩
    · unfold State.asked at hasked
      split_ifs at hasked
      obtain rfl := Option.some.inj hasked
      intro j u old new sn si hu hphase
      have hu' : Function.update s.running i (some { request := request, phase := .asked, seen := [] }) j = some u := hu
      by_cases hj : j = i
      · subst hj
        rw [Function.update_self] at hu'
        obtain rfl := Option.some.inj hu'
        cases hphase
      · rw [Function.update_of_ne hj] at hu'
        exact hs.steady j u old new sn si hu' hphase
    · unfold State.asked at hasked
      split_ifs at hasked
      obtain rfl := Option.some.inj hasked
      exact hs.declared
  · suffices hrest : Steady s' ∧ ∀ d ∈ s'.history, d.answer ≠ .databaseError from
      ⟨hs.valid.run hrun, hrest.1, hrest.2⟩
    unfold State.run at hrun
    cases ht : s.running i with
    | none =>
      rw [ht] at hrun
      cases hrun
    | some t =>
      rw [ht] at hrun
      dsimp only at hrun
      split_ifs at hrun
      have hends := statement_ends citext s t.request t.phase
      generalize s.statement citext t.request t.phase = outcome at hrun hends
      generalize hphase : t.phase = phase at hends
      have hended {answer : Answer} {after : Rows} (hanswer : answer ≠ .databaseError)
          (h : some (s.ended i t answer after) = some s') : Steady s' ∧ ∀ d ∈ s'.history, d.answer ≠ .databaseError := by
        obtain rfl := Option.some.inj h
        refine ⟨fun j u old new sn si hu hu' => ?_, List.forall_mem_cons.mpr ⟨hanswer, hs.declared⟩⟩
        have hold : Function.update s.running i none j = some u := hu
        by_cases hj : j = i
        · subst hj
          rw [Function.update_self] at hold
          cases hold
        · rw [Function.update_of_ne hj] at hold
          exact hs.steady j u old new sn si hold hu'
      cases hends with
      | @goes phase phase' hgoes =>
        obtain rfl := Option.some.inj hrun
        refine ⟨fun j u old new sn si hu hu' => ?_, hs.declared⟩
        have hnow : Function.update s.running i (some { t with phase := phase', seen := s.rows :: t.seen }) j = some u := hu
        by_cases hj : j = i
        · subst hj
          rw [Function.update_self] at hnow
          obtain rfl := Option.some.inj hnow
          refine Goes.steady hs.valid ht (hphase ▸ hgoes) ?_ hu'
          exact fun name sn si row hw hfind => hcalm j t name sn si row rfl ht hw hfind
        · rw [Function.update_of_ne hj] at hnow
          exact hs.steady j u old new sn si hnow hu'
      | refuse hanswer =>
        refine hended ?_ hrun
        rcases hanswer with rfl | rfl | rfl <;> decide
      | createTaken | writeTaken | judgedTaken | stillThere | create | change | remove =>
        exact hended (by decide) hrun
  -- without a circle of waits, the database ends nothing
  · exact absurd hdead (not_deadlocked hs.valid hs.steady i)

theorem calm_of_reachable (h : ((system citext).restrict Undisturbed).Reachable s) : Calm citext s := by
  refine System.Reachable.invariant (I := Calm citext) ?_ ?_ h
  · intro s hinit
    have hvalid := valid_of_reachable (System.Reachable.init hinit)
    obtain ⟨-, -, hrunning, -, -, hhistory⟩ := hinit
    refine ⟨hvalid, fun i t old new sn si ht => ?_, ?_⟩
    · rw [hrunning] at ht
      cases ht
    · rw [hhistory]
      exact fun d hd => absurd hd List.not_mem_nil
  · exact fun s label s' hs hstep => hs.step hstep.1 hstep.2

/-- A statement of an operation ends it, or leaves it fewer statements. -/
theorem run_left (ht : s.running i = some t) (h : s.run citext i = some s') {u : Txn} (hu : s'.running i = some u) :
    u.phase.left < t.phase.left := by
  unfold State.run at h
  rw [ht] at h
  dsimp only at h
  split_ifs at h
  have hends := statement_ends citext s t.request t.phase
  generalize s.statement citext t.request t.phase = outcome at h hends
  have hended {answer : Answer} {after : Rows} (heq : some (s.ended i t answer after) = some s') : False := by
    obtain rfl := Option.some.inj heq
    have hnow : Function.update s.running i none i = some u := hu
    rw [Function.update_self] at hnow
    cases hnow
  cases outcome with
  | finish answer after => exact (hended h).elim
  | go phase' =>
    obtain rfl := Option.some.inj h
    have hnow : Function.update s.running i (some { t with phase := phase', seen := s.rows :: t.seen }) i = some u := hu
    rw [Function.update_self] at hnow
    obtain rfl := Option.some.inj hnow
    show phase'.left < t.phase.left
    generalize t.phase = phase at hends
    cases hends with
    | goes hgoes => exact hgoes.left

/-- **Names and versions under concurrency.** In every run of creations, renames, updates and deletions in which no
tag's `UPDATE` meets a row that was written since the snapshot it judged the name by: no two committed names of one
scope are equal up to case; every operation has ended in an outcome it declares, and one in flight waits, in the end,
for one whose next statement can run and brings it nearer to its end; `name_taken` was answered for another row of the
name, with nothing written; and of two updates with the same expected version at most one has changed the row. -/
theorem names_undisturbed (h : ((system citext).restrict Undisturbed).Reachable s) :
    (∀ r ∈ s.rows, ∀ r' ∈ s.rows, r.key citext = r'.key citext → r.id = r'.id) ∧
    (∀ d ∈ s.history, d.answer ≠ .databaseError) ∧
    (∀ i t, s.running i = some t → ∃ j u s', Relation.ReflTransGen (s.Waits citext) i j ∧ s.running j = some u ∧
      s.run citext j = some s' ∧ ∀ v, s'.running j = some v → v.phase.left < u.phase.left) ∧
    (∀ d ∈ s.history, d.answer = .nameTaken → d.after = d.before ∧ Evidence citext d.request d.seen) ∧
    s.history.Pairwise fun d d' => ∀ version, d.request.isUpdate = true → d'.request.isUpdate = true →
      d.request.id = d'.request.id → d.request.expectedVersions = some [version] →
      d'.request.expectedVersions = some [version] → ¬(d.answer = .changed ∧ d'.answer = .changed) := by
  obtain ⟨hvalid, hsteady, hdeclared⟩ := calm_of_reachable h
  refine ⟨hvalid.unique, hdeclared, fun i t ht => ?_, fun d hd => (hvalid.history d hd).nameTaken, ?_⟩
  · obtain ⟨j, hpath, hrun⟩ := exists_run hvalid hsteady ht
    obtain ⟨s', hs'⟩ := Option.isSome_iff_exists.mp hrun
    cases hu : s.running j with
    | none =>
      unfold State.run at hs'
      rw [hu] at hs'
      cases hs'
    | some u => exact ⟨j, u, s', hpath, hu, hs', fun v hv => run_left hu hs' hv⟩
  · refine List.Pairwise.imp_of_mem ?_ hvalid.apart
    rintro d d' hd hd' hapart version hup hup' hids hversion hversion' ⟨hch, hch'⟩
    obtain ⟨old, hj, hid, haccepts, -⟩ := hvalid.past d hd hch hup
    obtain ⟨old', hj', hid', haccepts', -⟩ := hvalid.past d' hd' hch' hup'
    refine hapart hch hch' hup hup' old old' hj hj' (by rw [hid, hid', hids]) ?_
    rw [List.mem_singleton.mp (haccepts _ hversion), List.mem_singleton.mp (haccepts' _ hversion')]

end

/-! ## Four renames of two tags -/

/-- The tags `z` and `y` of account 7. -/
def twoTags : Rows :=
  ⟨[{ id := 1, scope := ⟨.tag, 1, some 7⟩, name := "z", details := noDetails, version := 1, stamp := 0 },
    { id := 2, scope := ⟨.tag, 1, some 7⟩, name := "y", details := noDetails, version := 1, stamp := 0 }], by decide⟩

/-- Nothing runs yet. -/
def quiet : State := ⟨twoTags, fun _ => none, fun _ => none, fun _ => none, [1, 2], 1, []⟩

/-- The tags become `a` and `c`; before that commits, two more renames, to `c` and to `a`, have found these names free. -/
def crossedRenames : List Label :=
  [.ask 0 (tagsRename 1 7 1 "a"), .ask 1 (tagsRename 1 7 2 "c"), .ask 2 (tagsRename 1 7 1 "c"),
    .ask 3 (tagsRename 1 7 2 "a"), .run 0, .run 0, .run 0, .run 0, .run 1, .run 1, .run 1, .run 1,
    .run 2, .run 2, .run 3, .run 3, .run 0, .run 1, .run 2, .run 3]

/-- A step of the runs in which the members rename tags. -/
def nextRename (s : State) : Label → Option State
  | .ask i (.rename tag ⟨.tag, w, some a⟩ name) => s.asked i (tagsRename w a tag name)
  | .run i => s.run (fun name => name) i
  | _ => none

theorem nextRename_step {s s' : State} {label : Label} (h : nextRename s label = some s') :
    (system fun name => name).step s label s' := by
  cases label with
  | abort i => cases h
  | run i => exact .inr (.inl ⟨i, rfl, h⟩)
  | ask i request =>
    cases request with
    | create | update | remove => cases h
    | rename tag scope name =>
      rcases scope with ⟨_ | _ | _, w, _ | a⟩
      · cases h
      · exact .inl ⟨i, _, rfl, .tagsRename w a tag name, h⟩
      all_goals cases h

/-- Whether the statement is an `UPDATE` that meets another row than the one of its snapshot. -/
def meetsAnother (s : State) : Label → Bool
  | .run i =>
    match s.running i with
    | some ⟨request, .found _ snapshot _, _⟩ =>
      (find s.rows request.id request.scope).any fun row => decide (row ∉ snapshot.rows)
    | _ => false
  | _ => false

/-- A step in which no `UPDATE` meets another row. -/
def nextCalm (s : State) (label : Label) : Option State := if meetsAnother s label then none else nextRename s label

theorem nextCalm_step {s s' : State} {label : Label} (h : nextCalm s label = some s') :
    ((system fun name => name).restrict Undisturbed).step s label s' := by
  unfold nextCalm at h
  split_ifs at h with hmeets
  refine ⟨nextRename_step h, ?_⟩
  rintro i ⟨request, phase, seen⟩ name snapshot since row rfl ht rfl hfind
  by_contra hrow
  refine hmeets ?_
  rw [meetsAnother, ht]
  simp only [hfind, Option.any_some, decide_eq_true_eq]
  exact hrow

/-- The tag `z` becomes `y`, which the other tag is called, and then `a`. -/
def twoRenames : List Label :=
  [.ask 0 (tagsRename 1 7 1 "y"), .run 0, .run 0, .run 0, .ask 1 (tagsRename 1 7 1 "a"), .run 1, .run 1, .run 1, .run 1,
    .run 1]

/-- The state after the two renames. -/
def renamed : State := (System.follow nextCalm quiet twoRenames).getD quiet

theorem renamed_reachable : ((system fun name => name).restrict Undisturbed).Reachable renamed := by
  have hstart : ((system fun name => name).restrict Undisturbed).Reachable quiet :=
    .init ⟨by decide, by decide, rfl, rfl, rfl, rfl⟩
  exact hstart.follow (fun _ _ _ h => nextCalm_step h) twoRenames quiet (by decide +kernel)

theorem names_undisturbed_renamed :
    renamed.history.map Deed.answer = [.changed, .nameTaken] ∧ renamed.rows.rows.map NamedRow.name = ["a", "y"] ∧
      (∀ r ∈ renamed.rows, ∀ r' ∈ renamed.rows, r.name = r'.name → r.id = r'.id) := by
  refine ⟨by decide +kernel, by decide +kernel, fun r hr r' hr' hname => ?_⟩
  have hscope : ∀ r ∈ renamed.rows.rows, r.scope = ⟨.tag, 1, some 7⟩ := by decide +kernel
  refine (names_undisturbed renamed_reachable).1 r hr r' hr' ?_
  rw [NamedRow.key, NamedRow.key, hscope r hr, hscope r' hr', hname]

/-- The state in which each of the two waits at the key of the name that the other's row has. -/
def crossed : State := (System.follow nextRename quiet crossedRenames).getD quiet

theorem crossed_reachable : (system fun name => name).Reachable crossed := by
  have hstart : (system fun name => name).Reachable quiet := .init ⟨by decide, by decide, rfl, rfl, rfl, rfl⟩
  exact hstart.follow (fun _ _ _ h => nextRename_step h) crossedRenames quiet (by decide +kernel)

/-- **Renames of tags can end in a database error**: the two that have waited for their rows write them by names that
were judged before the other two were committed, and then each waits for the other. -/
theorem renames_deadlock :
    ∃ s, (system fun name => name).Reachable s ∧ ∃ d ∈ s.history, d.answer = .databaseError := by
  have hwaits : crossed.Waits (fun name => name) 2 3 := by
    unfold State.Waits
    decide +kernel
  have hwaits' : crossed.Waits (fun name => name) 3 2 := by
    unfold State.Waits
    decide +kernel
  have hrunning : (crossed.running 2).isSome = true := by decide +kernel
  obtain ⟨t, ht⟩ := Option.isSome_iff_exists.mp hrunning
  have hdead : Waiting.Deadlocked (crossed.Waits fun name => name) 2 := .tail (.single hwaits) hwaits'
  exact ⟨_, crossed_reachable.step (.inr (.inr ⟨2, t, rfl, hdead, ht, rfl⟩)), _, List.mem_cons_self, rfl⟩

end SlugBase.Naming
