import SlugBase.Naming.Sound

/-!
# What holds while names change

* `Settled`: a row that was there once is never made again;
* `Txn.Valid`, `Valid`: the rows and keys an operation holds are its own, and no two committed names are equal up
  to case;
* `Commits`: what an operation can leave committed;
* **`Valid.asked`**, **`Valid.goOn`**, **`Valid.ended`**: the invariant over a step.
-/

namespace SlugBase.Naming

open Relational Transition

/-! ## The invariant -/

/-- The identifier was given, and no operation in flight is to make its row. -/
def Settled (s : State) (id : Uuid) : Prop :=
  id ∈ s.known ∧ ∀ j u, s.running j = some u → u.request.creates ≠ some id

/-- The row of the request is gone for good. -/
def Gone (s : State) (r : Request) : Prop :=
  Settled s r.id ∧ ∀ row ∈ s.rows, row.id = r.id → row.scope ≠ r.scope

/-- Another row of the name was committed when a statement of the operation began. -/
def Evidence (citext : String → String) (r : Request) (seen : List Rows) : Prop :=
  ∃ rows ∈ seen, ∃ o ∈ rows, o.id ≠ r.id ∧ some (o.key citext) = r.wanted citext

/-- A tag that is to be renamed was there when the operation began. -/
def Phase.isRename : Phase → Bool
  | .judging _ | .found _ _ _ => true
  | _ => false

/-- **What holds of the `i`-th operation in flight.** -/
structure Txn.Valid (citext : String → String) (s : State) (i : ℕ) (t : Txn) : Prop where
  sound : t.phase.Sound citext t.request
  held : ∀ row, t.phase.row = some row → row ∈ s.rows ∧ s.locks row.id = some i
  claimed : ∀ key, t.phase.claimed citext = some key → s.claims key = some i ∧
    ∀ r ∈ s.rows, r.key citext = key → r.id = t.request.id
  judged : ∀ snapshot since, t.phase.snapshot = some (snapshot, since) → since < s.clock ∧
    ∀ r ∈ snapshot, r.stamp < since
  creates : ∀ id, t.request.creates = some id → id ∈ s.known ∧ ∀ r ∈ s.rows, r.id ≠ id
  settled : t.phase.isRename = true → Settled s t.request.id
  passed : t.phase = .passed → Evidence citext t.request t.seen ∨ Gone s t.request

/-- What the answer of an operation stands for. -/
structure Deed.Answered (citext : String → String) (d : Deed) : Prop where
  nameTaken : d.answer = .nameTaken → d.after = d.before ∧ Evidence citext d.request d.seen

/-- **The invariant of the runs.** -/
structure Valid (citext : String → String) (s : State) : Prop where
  unique : ∀ r ∈ s.rows, ∀ r' ∈ s.rows, r.key citext = r'.key citext → r.id = r'.id
  known : ∀ r ∈ s.rows, r.id ∈ s.known
  stamped : ∀ r ∈ s.rows, r.stamp < s.clock
  locks : ∀ id i, s.locks id = some i → ∃ t row, s.running i = some t ∧ t.phase.row = some row ∧ row.id = id
  claims : ∀ key i, s.claims key = some i → ∃ t, s.running i = some t ∧ t.phase.claimed citext = some key
  running : ∀ i t, s.running i = some t → t.Valid citext s i
  creating : ∀ i j t u id, s.running i = some t → s.running j = some u → t.request.creates = some id →
    u.request.creates = some id → i = j
  snapshots : ∀ i j t u snapshot snapshot' since since', s.running i = some t → s.running j = some u →
    t.phase.snapshot = some (snapshot, since) → u.phase.snapshot = some (snapshot', since') → since ≤ since' →
    ∀ r ∈ snapshot, r ∈ s.rows → r ∈ snapshot'
  history : ∀ d ∈ s.history, d.Answered citext
  past : ∀ d ∈ s.history, d.answer = .changed → d.request.isUpdate = true → ∃ old, d.judged = some old ∧
    old.id = d.request.id ∧ Accepts d.request old ∧ Settled s old.id ∧
    ∀ r ∈ s.rows, r.id = old.id → old.version < r.version
  apart : s.history.Pairwise fun d d' => d.answer = .changed → d'.answer = .changed → d.request.isUpdate = true →
    d'.request.isUpdate = true → ∀ old old', d.judged = some old → d'.judged = some old' → old.id = old'.id →
    old.version ≠ old'.version

section

variable {citext : String → String} {s s' : State} {i : ℕ} {t : Txn}

theorem Valid.settled (hs : Valid citext s) {r : NamedRow} (hr : r ∈ s.rows) : Settled s r.id :=
  ⟨hs.known r hr, fun j u hu hcreates => ((hs.running j u hu).creates r.id hcreates).2 r hr rfl⟩

theorem Settled.mono {id : Uuid} (h : Settled s id) (hknown : s.known ⊆ s'.known)
    (hrunning : ∀ j u, s'.running j = some u → (∃ v, s.running j = some v ∧ v.request = u.request) ∨
      u.request.creates ≠ some id) : Settled s' id := by
  refine ⟨hknown h.1, fun j u hu => ?_⟩
  rcases hrunning j u hu with ⟨v, hv, hrequest⟩ | hno
  · rw [← hrequest]
    exact h.2 j v hv
  · exact hno

theorem Evidence.mono {r : Request} {seen seen' : List Rows} (h : Evidence citext r seen) (hseen : seen ⊆ seen') :
    Evidence citext r seen' := by
  obtain ⟨rows, hrows, o, ho, hid, hkey⟩ := h
  exact ⟨rows, hseen hrows, o, ho, hid, hkey⟩

/-! ## A request arrives -/

/-- **A request that arrives leaves the invariant.** -/
theorem Valid.asked (hs : Valid citext s) {request : Request} (h : s.asked i request = some s') :
    Valid citext s' := by
  unfold State.asked at h
  split_ifs at h with hbusy
  rw [Bool.not_eq_true, Bool.or_eq_false_iff] at hbusy
  obtain ⟨hidle, hfresh⟩ := hbusy
  have hnone : s.running i = none := by simpa using hidle
  have hnew {id : Uuid} (hid : request.creates = some id) : id ∉ s.known := by
    rw [hid] at hfresh
    simpa using hfresh
  obtain rfl := Option.some.inj h
  have hold {j : ℕ} {u : Txn} (hj : j ≠ i)
      (hu : Function.update s.running i (some { request := request, phase := .asked, seen := [] }) j = some u) :
      s.running j = some u := by rwa [Function.update_of_ne hj] at hu
  have hself {u : Txn}
      (hu : Function.update s.running i (some { request := request, phase := .asked, seen := [] }) i = some u) :
      u = { request := request, phase := .asked, seen := [] } := by
    rw [Function.update_self] at hu
    exact (Option.some.inj hu).symm
  have hsettled {id : Uuid} (hid : Settled s id) : Settled { s with
      running := Function.update s.running i (some { request := request, phase := .asked, seen := [] })
      known := request.creates.toList ++ s.known
      clock := s.clock + 1 } id := by
    refine hid.mono (List.subset_append_right _ _) fun j u hu => ?_
    by_cases hj : j = i
    · subst hj
      refine .inr fun hcreates => ?_
      rw [hself hu] at hcreates
      exact hnew hcreates hid.1
    · exact .inl ⟨u, hold hj hu, rfl⟩
  refine ⟨hs.unique, fun r hr => List.mem_append_right _ (hs.known r hr), fun r hr => Nat.lt_succ_of_lt (hs.stamped r hr),
    fun id j hlock => ?_, fun key j hclaim => ?_, fun j u hu => ?_, fun j k u v id hu hv hcu hcv => ?_,
    fun j k u v sn sn' si si' hu hv hsn hsn' hle => ?_, hs.history, fun d hd hchanged hupdate => ?_, hs.apart⟩
  · obtain ⟨u, row, hu, hrow, hid⟩ := hs.locks id j hlock
    have hj : j ≠ i := by
      rintro rfl
      rw [hnone] at hu
      cases hu
    exact ⟨u, row, (Function.update_of_ne hj ..).trans hu, hrow, hid⟩
  · obtain ⟨u, hu, hkey⟩ := hs.claims key j hclaim
    have hj : j ≠ i := by
      rintro rfl
      rw [hnone] at hu
      cases hu
    exact ⟨u, (Function.update_of_ne hj ..).trans hu, hkey⟩
  · by_cases hj : j = i
    · subst hj
      rw [hself hu]
      refine ⟨trivial, fun _ h => (by cases h), fun _ h => (by cases h), fun _ _ h => (by cases h), fun id hid => ?_,
        fun h => (by cases h), fun h => (by cases h)⟩
      refine ⟨List.mem_append_left _ (by rw [hid]; exact List.mem_singleton.mpr rfl), fun r hr heq => ?_⟩
      exact hnew hid (heq ▸ hs.known r hr)
    · have hv := hs.running j u (hold hj hu)
      refine ⟨hv.sound, hv.held, hv.claimed, fun sn si h => ?_, fun id hid => ?_, fun h => hsettled (hv.settled h),
        fun h => ?_⟩
      · exact ⟨Nat.lt_succ_of_lt (hv.judged sn si h).1, (hv.judged sn si h).2⟩
      · exact ⟨List.mem_append_right _ (hv.creates id hid).1, (hv.creates id hid).2⟩
      · exact (hv.passed h).imp id fun hgone => ⟨hsettled hgone.1, hgone.2⟩
  · by_cases hj : j = i
    · by_cases hk : k = i
      · rw [hj, hk]
      · subst hj
        rw [hself hu] at hcu
        exact absurd ((hs.running k v (hold hk hv)).creates id hcv).1 (hnew hcu)
    · by_cases hk : k = i
      · subst hk
        rw [hself hv] at hcv
        exact absurd ((hs.running j u (hold hj hu)).creates id hcu).1 (hnew hcv)
      · exact hs.creating j k u v id (hold hj hu) (hold hk hv) hcu hcv
  · have hj : j ≠ i := by
      rintro rfl
      rw [hself hu] at hsn
      cases hsn
    have hk : k ≠ i := by
      rintro rfl
      rw [hself hv] at hsn'
      cases hsn'
    exact hs.snapshots j k u v sn sn' si si' (hold hj hu) (hold hk hv) hsn hsn' hle
  · obtain ⟨old, hold, hid, haccepts, hset, hlt⟩ := hs.past d hd hchanged hupdate
    exact ⟨old, hold, hid, haccepts, hsettled hset, hlt⟩

/-! ## An operation goes on -/

theorem waitsFor_create (ht : s.running i = some t) (hphase : t.phase = .asked) {id : Uuid} {key : Key}
    (hcreates : t.request.creates = some id) (hwanted : some key = t.request.wanted citext) :
    s.waitsFor citext i = (s.keyState citext id key).holder := by
  rw [State.waitsFor, ht, Option.bind_some, hphase]
  dsimp only
  cases hrequest : t.request with
  | create id' scope name details =>
    rw [hrequest] at hcreates hwanted
    obtain rfl := Option.some.inj hcreates
    obtain rfl := Option.some.inj hwanted
    rfl
  | rename | update | remove =>
    rw [hrequest] at hcreates
    cases hcreates

theorem waitsFor_update (ht : s.running i = some t) (hphase : t.phase = .asked) (hupdate : t.request.isUpdate = true) :
    s.waitsFor citext i = s.rowHolder t.request := by
  rw [State.waitsFor, ht, Option.bind_some, hphase]
  dsimp only
  cases hrequest : t.request with
  | update => rfl
  | create | rename | remove => simp [hrequest, Request.isUpdate] at hupdate

theorem waitsFor_remove (ht : s.running i = some t) (hphase : t.phase = .asked)
    (hremove : t.request = .remove t.request.id t.request.scope) : s.waitsFor citext i = s.rowHolder t.request := by
  rw [State.waitsFor, ht, Option.bind_some, hphase]
  dsimp only
  rw [hremove]

theorem waitsFor_found (ht : s.running i = some t) {name : String} {snapshot : Rows} {since : ℕ}
    (hphase : t.phase = .found name snapshot since) : s.waitsFor citext i = s.rowHolder t.request := by
  rw [State.waitsFor, ht, Option.bind_some, hphase]

theorem waitsFor_writing (ht : s.running i = some t) {old new : NamedRow} {snapshot : Rows} {since : ℕ}
    (hphase : t.phase = .writing old new snapshot since) :
    s.waitsFor citext i = (s.keyState citext new.id (new.key citext)).holder := by
  rw [State.waitsFor, ht, Option.bind_some, hphase]

theorem locks_of_rowHolder {r : Request} {row : NamedRow} (h : s.rowHolder r = none)
    (hfind : find s.rows r.id r.scope = some row) : s.locks row.id = none := by
  rwa [State.rowHolder, hfind] at h

/-- **A key that is neither taken nor waited for** is in nobody's hands, and no other committed row has it. -/
theorem keyState_free {own : Uuid} {key : Key} (htaken : s.keyState citext own key ≠ .taken)
    (hholder : (s.keyState citext own key).holder = none) :
    s.claims key = none ∧ ∀ r ∈ s.rows, r.key citext = key → r.id = own := by
  unfold State.keyState at htaken hholder
  cases hclaim : s.claims key with
  | some j =>
    rw [hclaim] at hholder
    cases hholder
  | none =>
    refine ⟨rfl, fun r hr hkey => ?_⟩
    by_contra hid
    rw [hclaim] at htaken hholder
    dsimp only at htaken hholder
    cases hfound : s.rows.find? fun r => decide (r.key citext = key ∧ r.id ≠ own) with
    | none => exact absurd (Table.find?_none hfound hr) (by simp [hkey, hid])
    | some o =>
      rw [hfound] at htaken hholder
      dsimp only at htaken hholder
      cases hwriter : s.writer o.id with
      | none =>
        rw [hwriter] at htaken
        exact htaken rfl
      | some j =>
        rw [hwriter] at hholder
        cases hholder

/-- **What an operation comes to hold is free, or its own.** -/
theorem Goes.holds {phase' : Phase} (h : Goes citext s t.request t.phase phase') (hv : t.Valid citext s i)
    (ht : s.running i = some t) (hwaits : s.waitsFor citext i = none) :
    (∀ row, phase'.row = some row → row ∈ s.rows ∧ (s.locks row.id = none ∨ s.locks row.id = some i)) ∧
    (∀ row, t.phase.row = some row → phase'.row = some row) ∧
    (∀ key, phase'.claimed citext = some key → s.claims key = none ∧
      ∀ r ∈ s.rows, r.key citext = key → r.id = t.request.id) ∧
    t.phase.claimed citext = none := by
  have hheld := hv.held
  generalize hphase : t.phase = phase at h hheld
  cases h with
  | insert hcreates hid hwanted htaken =>
    refine ⟨fun row hr => (by cases hr), fun row hr => (by cases hr), fun key hkey => ?_, rfl⟩
    obtain rfl := Option.some.inj hkey
    rw [waitsFor_create ht hphase hcreates hwanted] at hwaits
    rw [← hid]
    exact keyState_free htaken hwaits
  | read | miss | judge | gone =>
    exact ⟨fun row hr => (by cases hr), fun row hr => (by cases hr), fun key hkey => (by cases hkey), rfl⟩
  | grant hfind =>
    refine ⟨fun row hr => ?_, fun row hr => (by cases hr), fun key hkey => (by cases hkey), rfl⟩
    obtain rfl := Option.some.inj hr
    rw [waitsFor_found ht hphase] at hwaits
    exact ⟨(find_some hfind).1, .inl (locks_of_rowHolder hwaits hfind)⟩
  | lock hupdate _ _ hfind =>
    refine ⟨fun row hr => ?_, fun row hr => (by cases hr), fun key hkey => (by cases hkey), rfl⟩
    obtain rfl := Option.some.inj hr
    rw [waitsFor_update ht hphase hupdate] at hwaits
    exact ⟨(find_some hfind).1, .inl (locks_of_rowHolder hwaits hfind)⟩
  | mark hremove hfind =>
    refine ⟨fun row hr => ?_, fun row hr => (by cases hr), fun key hkey => (by cases hkey), rfl⟩
    obtain rfl := Option.some.inj hr
    rw [waitsFor_remove ht hphase hremove] at hwaits
    exact ⟨(find_some hfind).1, .inl (locks_of_rowHolder hwaits hfind)⟩
  | write | touch =>
    exact ⟨fun row hr => ⟨(hheld row hr).1, .inr (hheld row hr).2⟩, fun row hr => hr, fun key hkey => (by cases hkey), rfl⟩
  | @claim old new snapshot since htaken =>
    refine ⟨fun row hr => ⟨(hheld row hr).1, .inr (hheld row hr).2⟩, fun row hr => hr, fun key hkey => ?_, rfl⟩
    obtain rfl := Option.some.inj hkey
    rw [waitsFor_writing ht hphase] at hwaits
    obtain ⟨hclaims, hrows⟩ := keyState_free htaken hwaits
    have hsound := hv.sound
    rw [hphase] at hsound
    refine ⟨hclaims, fun r hr hsame => ?_⟩
    rw [hrows r hr hsame, hsound.2.1.id, hsound.1]

theorem Goes.snapshot {r : Request} {phase phase' : Phase} (h : Goes citext s r phase phase') :
    phase'.snapshot = none ∨ phase'.snapshot = phase.snapshot ∨ phase'.snapshot = some (s.rows, s.clock) := by
  cases h with
  | insert | read | miss | gone | lock | touch | claim | mark => exact .inl rfl
  | grant => exact .inr (.inl rfl)
  | judge | write => exact .inr (.inr rfl)

/-- A tag whose `UPDATE` meets no row has another of the name beside it, or is gone. -/
theorem Goes.passes {phase' : Phase} (h : Goes citext s t.request t.phase phase') (hv : t.Valid citext s i) :
    (phase'.isRename = true → Settled s t.request.id ∨ ∃ row ∈ s.rows, row.id = t.request.id) ∧
    (phase' = .passed → Evidence citext t.request (s.rows :: t.seen) ∨ Gone s t.request) := by
  have hsettled := hv.settled
  have hsound := hv.sound
  generalize t.phase = phase at h hsettled hsound
  cases h with
  | insert | grant | lock | write | touch | claim | mark =>
    exact ⟨fun hr => (by cases hr), fun hp => (by cases hp)⟩
  | read _ _ _ _ hfind =>
    exact ⟨fun _ => .inr ⟨_, (find_some hfind).1, (find_some hfind).2.1⟩, fun hp => (by cases hp)⟩
  | judge => exact ⟨fun _ => .inl (hsettled rfl), fun hp => (by cases hp)⟩
  | miss hmiss =>
    refine ⟨fun hr => (by cases hr), fun _ => ?_⟩
    rcases hmiss with hnone | htaken
    · exact .inr ⟨hsettled rfl, fun row hrow hid => find_none hnone hrow hid⟩
    · obtain ⟨o, ho, hp⟩ := Table.any_iff.mp htaken
      obtain ⟨hkey, hid⟩ := of_decide_eq_true hp
      exact .inl ⟨s.rows, List.mem_cons_self, o, ho, hid, by rw [hkey, hsound.wanted]⟩
  | gone hnone =>
    exact ⟨fun hr => (by cases hr), fun _ => .inr ⟨hsettled rfl, fun row hrow hid => find_none hnone hrow hid⟩⟩

/-- **An operation that goes on leaves the invariant.** -/
theorem Valid.goOn (hs : Valid citext s) (ht : s.running i = some t) {phase' : Phase}
    (hgoes : Goes citext s t.request t.phase phase') (hwaits : s.waitsFor citext i = none) :
    Valid citext (s.goOn citext i t phase') := by
  have hv := hs.running i t ht
  obtain ⟨hrow, hstill, hclaim, hnoclaim⟩ := hgoes.holds hv ht hwaits
  obtain ⟨hrename, hpassed⟩ := hgoes.passes hv
  have hself {u : Txn} (hu : (s.goOn citext i t phase').running i = some u) :
      u = { t with phase := phase', seen := s.rows :: t.seen } := by
    have hu' : Function.update s.running i (some { t with phase := phase', seen := s.rows :: t.seen }) i = some u := hu
    rw [Function.update_self] at hu'
    exact (Option.some.inj hu').symm
  have hold {j : ℕ} {u : Txn} (hj : j ≠ i) (hu : (s.goOn citext i t phase').running j = some u) :
      s.running j = some u := by
    have hu' : Function.update s.running i (some { t with phase := phase', seen := s.rows :: t.seen }) j = some u := hu
    rwa [Function.update_of_ne hj] at hu'
  have hrequest {j : ℕ} {u : Txn} (hu : (s.goOn citext i t phase').running j = some u) :
      ∃ v, s.running j = some v ∧ v.request = u.request := by
    by_cases hj : j = i
    · subst hj
      exact ⟨t, ht, by rw [hself hu]⟩
    · exact ⟨u, hold hj hu, rfl⟩
  have hsettled {id : Uuid} (hid : Settled s id) : Settled (s.goOn citext i t phase') id :=
    hid.mono (fun _ h => h) fun j u hu => .inl (hrequest hu)
  -- what the others hold is not what this one comes to hold
  have hlocks {j : ℕ} {id : Uuid} (hj : j ≠ i) (hlock : s.locks id = some j) :
      (s.goOn citext i t phase').locks id = some j := by
    unfold State.goOn
    cases hr : phase'.row with
    | none => exact hlock
    | some row =>
      have hne : id ≠ row.id := by
        rintro rfl
        rcases (hrow row hr).2 with h | h
        · rw [hlock] at h
          cases h
        · rw [hlock] at h
          exact hj (Option.some.inj h)
      exact (Function.update_of_ne hne ..).trans hlock
  have hclaims {j : ℕ} {key : Key} (hlock : s.claims key = some j) :
      (s.goOn citext i t phase').claims key = some j := by
    unfold State.goOn
    cases hk : phase'.claimed citext with
    | none => exact hlock
    | some key' =>
      have hne : key ≠ key' := by
        rintro rfl
        rw [(hclaim key hk).1] at hlock
        cases hlock
      exact (Function.update_of_ne hne ..).trans hlock
  have hnow : (s.goOn citext i t phase').running i = some { t with phase := phase', seen := s.rows :: t.seen } :=
    Function.update_self ..
  have hthen {j : ℕ} {u : Txn} (hj : j ≠ i) (hu : s.running j = some u) :
      (s.goOn citext i t phase').running j = some u := (Function.update_of_ne hj ..).trans hu
  refine ⟨hs.unique, hs.known, fun r hr => Nat.lt_succ_of_lt (hs.stamped r hr), fun id j hlock => ?_,
    fun key j hk => ?_, fun j u hu => ?_, fun j k u v id hu hv hcu hcv => ?_,
    fun j k u v sn sn' si si' hu hv hsn hsn' hle => ?_, hs.history, fun d hd hchanged hupdate => ?_, hs.apart⟩
  · by_cases hid : ∃ row, phase'.row = some row ∧ row.id = id
    · obtain ⟨row, hr, rfl⟩ := hid
      have hmine : (s.goOn citext i t phase').locks row.id = some i := by
        unfold State.goOn
        rw [hr]
        exact Function.update_self ..
      obtain rfl : i = j := Option.some.inj (hmine.symm.trans hlock)
      exact ⟨_, row, hnow, hr, rfl⟩
    · have hbefore : s.locks id = some j := by
        unfold State.goOn at hlock
        cases hr : phase'.row with
        | none =>
          rw [hr] at hlock
          exact hlock
        | some row =>
          rw [hr] at hlock
          have hne : id ≠ row.id := fun h => hid ⟨row, hr, h.symm⟩
          exact (Function.update_of_ne hne ..).symm.trans hlock
      obtain ⟨u, row, hu, hr, hrid⟩ := hs.locks id j hbefore
      by_cases hj : j = i
      · subst hj
        obtain rfl : t = u := Option.some.inj (ht.symm.trans hu)
        exact absurd ⟨row, hstill row hr, hrid⟩ hid
      · exact ⟨u, row, hthen hj hu, hr, hrid⟩
  · by_cases hkey : phase'.claimed citext = some key
    · have hmine : (s.goOn citext i t phase').claims key = some i := by
        unfold State.goOn
        rw [hkey]
        exact Function.update_self ..
      obtain rfl : i = j := Option.some.inj (hmine.symm.trans hk)
      exact ⟨_, hnow, hkey⟩
    · have hbefore : s.claims key = some j := by
        unfold State.goOn at hk
        cases hc : phase'.claimed citext with
        | none =>
          rw [hc] at hk
          exact hk
        | some key' =>
          rw [hc] at hk
          have hne : key ≠ key' := fun h => hkey (h ▸ hc)
          exact (Function.update_of_ne hne ..).symm.trans hk
      obtain ⟨u, hu, huc⟩ := hs.claims key j hbefore
      have hj : j ≠ i := by
        rintro rfl
        obtain rfl : t = u := Option.some.inj (ht.symm.trans hu)
        rw [hnoclaim] at huc
        cases huc
      exact ⟨u, hthen hj hu, huc⟩
  · by_cases hj : j = i
    · subst hj
      rw [hself hu]
      refine ⟨hgoes.sound hv.sound, fun row hr => ⟨(hrow row hr).1, ?_⟩, fun key hk => ⟨?_, (hclaim key hk).2⟩,
        fun sn si hsn => ?_, hv.creates, fun hr => hsettled ?_, fun hp => ?_⟩
      · have hr' : phase'.row = some row := hr
        unfold State.goOn
        rw [hr']
        exact Function.update_self ..
      · have hk' : phase'.claimed citext = some key := hk
        unfold State.goOn
        rw [hk']
        exact Function.update_self ..
      · have hsn' : phase'.snapshot = some (sn, si) := hsn
        rcases hgoes.snapshot with h | h | h
        · rw [h] at hsn'
          cases hsn'
        · obtain ⟨hlt, hstamps⟩ := hv.judged sn si (h.symm.trans hsn')
          exact ⟨Nat.lt_succ_of_lt hlt, hstamps⟩
        · rw [h] at hsn'
          cases hsn'
          exact ⟨Nat.lt_succ_self _, hs.stamped⟩
      · rcases hrename hr with h | ⟨row, hmem, hid⟩
        · exact h
        · exact hid ▸ hs.settled hmem
      · exact (hpassed hp).imp id fun hgone => ⟨hsettled hgone.1, hgone.2⟩
    · have hu' := hs.running j u (hold hj hu)
      exact ⟨hu'.sound, fun row hr => ⟨(hu'.held row hr).1, hlocks hj (hu'.held row hr).2⟩,
        fun key hk => ⟨hclaims (hu'.claimed key hk).1, (hu'.claimed key hk).2⟩,
        fun sn si h => ⟨Nat.lt_succ_of_lt (hu'.judged sn si h).1, (hu'.judged sn si h).2⟩, hu'.creates,
        fun h => hsettled (hu'.settled h), fun h => (hu'.passed h).imp id fun hgone => ⟨hsettled hgone.1, hgone.2⟩⟩
  · obtain ⟨u', hu', hreq⟩ := hrequest hu
    obtain ⟨v', hv', hreq'⟩ := hrequest hv
    exact hs.creating j k u' v' id hu' hv' (hreq ▸ hcu) (hreq' ▸ hcv)
  -- a snapshot of now has every row that is committed now; the other ones are those of before
  · intro r hr hmem
    have hsnap {l : ℕ} {w : Txn} {sn : Rows} {si : ℕ} (hw : (s.goOn citext i t phase').running l = some w)
        (h : w.phase.snapshot = some (sn, si)) : (∃ w', s.running l = some w' ∧ w'.phase.snapshot = some (sn, si)) ∨
        l = i ∧ sn = s.rows ∧ si = s.clock := by
      by_cases hl : l = i
      · subst hl
        rw [hself hw] at h
        have h' : phase'.snapshot = some (sn, si) := h
        rcases hgoes.snapshot with hn | hn | hn
        · rw [hn] at h'
          cases h'
        · exact .inl ⟨t, ht, hn.symm.trans h'⟩
        · rw [hn] at h'
          cases h'
          exact .inr ⟨rfl, rfl, rfl⟩
      · exact .inl ⟨w, hold hl hw, h⟩
    rcases hsnap hv hsn' with ⟨v', hv', hsnv⟩ | ⟨-, rfl, -⟩
    · rcases hsnap hu hsn with ⟨u', hu', hsnu⟩ | ⟨-, -, rfl⟩
      · exact hs.snapshots j k u' v' sn sn' si si' hu' hv' hsnu hsnv hle r hr hmem
      · exact absurd (((hs.running k v' hv').judged sn' si' hsnv).1) (Nat.not_lt.mpr hle)
    · exact hmem
  · obtain ⟨old, hold, hid, haccepts, hset, hlt⟩ := hs.past d hd hchanged hupdate
    exact ⟨old, hold, hid, haccepts, hsettled hset, hlt⟩

/-! ## An operation ends -/

/-- **What an operation can leave committed**: rows whose names differ; the rows that others hold stay, a row that
is written has a new stamp, no version goes back, and a new name is one that the operation has claimed. -/
structure Commits (citext : String → String) (s : State) (i : ℕ) (t : Txn) (after : Rows) : Prop where
  unique : ∀ r ∈ after, ∀ r' ∈ after, r.key citext = r'.key citext → r.id = r'.id
  kept : ∀ r ∈ s.rows, s.locks r.id ≠ some i → r ∈ after
  stamps : ∀ r ∈ after, r ∈ s.rows ∨ r.stamp = s.clock
  rows : ∀ r ∈ after, (∃ r₀ ∈ s.rows, r₀.id = r.id ∧ r₀.scope = r.scope ∧ r₀.version ≤ r.version) ∨
    t.request.creates = some r.id
  keys : ∀ r ∈ after, (∃ r₀ ∈ s.rows, r₀.id = r.id ∧ r₀.key citext = r.key citext) ∨
    t.phase.claimed citext = some (r.key citext)

/-- **An operation that ends leaves the invariant.** -/
theorem Valid.ended (hs : Valid citext s) (ht : s.running i = some t) {answer : Answer} {after : Rows}
    (hcommits : Commits citext s i t after)
    (htaken : answer = .nameTaken → after = s.rows ∧ Evidence citext t.request (s.rows :: t.seen))
    (hchanged : answer = .changed → t.request.isUpdate = true → ∃ old, t.phase.row = some old ∧
      old.id = t.request.id ∧ Accepts t.request old ∧ ∀ r ∈ after, r.id = old.id → old.version < r.version) :
    Valid citext (s.ended i t answer after) := by
  have hv := hs.running i t ht
  have hold {j : ℕ} {u : Txn} (hu : (s.ended i t answer after).running j = some u) : j ≠ i ∧ s.running j = some u := by
    have hu' : Function.update s.running i none j = some u := hu
    have hj : j ≠ i := by
      rintro rfl
      rw [Function.update_self] at hu'
      cases hu'
    exact ⟨hj, by rwa [Function.update_of_ne hj] at hu'⟩
  have hthen {j : ℕ} {u : Txn} (hj : j ≠ i) (hu : s.running j = some u) :
      (s.ended i t answer after).running j = some u := (Function.update_of_ne hj ..).trans hu
  have hsettled {id : Uuid} (hid : Settled s id) : Settled (s.ended i t answer after) id :=
    hid.mono (fun _ h => h) fun j u hu => .inl ⟨u, (hold hu).2, rfl⟩
  have hlocks {j : ℕ} {id : Uuid} (hj : j ≠ i) (hlock : s.locks id = some j) :
      (s.ended i t answer after).locks id = some j :=
    (if_neg (by rw [hlock]; exact fun h => hj (Option.some.inj h))).trans hlock
  have hclaims {j : ℕ} {key : Key} (hj : j ≠ i) (hclaim : s.claims key = some j) :
      (s.ended i t answer after).claims key = some j :=
    (if_neg (by rw [hclaim]; exact fun h => hj (Option.some.inj h))).trans hclaim
  -- a settled identifier gets no new row
  have hsame {id : Uuid} (hid : Settled s id) {r : NamedRow} (hr : r ∈ after) (heq : r.id = id) :
      ∃ r₀ ∈ s.rows, r₀.id = r.id ∧ r₀.scope = r.scope ∧ r₀.version ≤ r.version := by
    rcases hcommits.rows r hr with h | h
    · exact h
    · exact absurd (heq ▸ h) (hid.2 i t ht)
  refine ⟨hcommits.unique, fun r hr => ?_, fun r hr => ?_, fun id j hlock => ?_, fun key j hk => ?_, fun j u hu => ?_,
    fun j k u v id hu hv hcu hcv => hs.creating j k u v id (hold hu).2 (hold hv).2 hcu hcv,
    fun j k u v sn sn' si si' hu hv hsn hsn' hle r hr hmem => ?_,
    List.forall_mem_cons.mpr ⟨⟨htaken⟩, hs.history⟩,
    List.forall_mem_cons.mpr ⟨fun hch hup => ?_, fun d hd hch hup => ?_⟩,
    List.pairwise_cons.mpr ⟨fun d hd hch hch' hup hup' old old' hj hj' hid => ?_, hs.apart⟩⟩
  · rcases hcommits.rows r hr with ⟨r₀, hr₀, hid, -⟩ | hcreates
    · exact hid ▸ hs.known r₀ hr₀
    · exact (hv.creates r.id hcreates).1
  · rcases hcommits.stamps r hr with h | h
    · exact Nat.lt_succ_of_lt (hs.stamped r h)
    · rw [h]
      exact Nat.lt_succ_self _
  · have hlock' : (if s.locks id = some i then none else s.locks id) = some j := hlock
    split_ifs at hlock' with hmine
    obtain ⟨u, row, hu, hr, hid⟩ := hs.locks id j hlock'
    have hj : j ≠ i := by
      rintro rfl
      exact hmine hlock'
    exact ⟨u, row, hthen hj hu, hr, hid⟩
  · have hk' : (if s.claims key = some i then none else s.claims key) = some j := hk
    split_ifs at hk' with hmine
    obtain ⟨u, hu, hkey⟩ := hs.claims key j hk'
    have hj : j ≠ i := by
      rintro rfl
      exact hmine hk'
    exact ⟨u, hthen hj hu, hkey⟩
  · obtain ⟨hj, hu'⟩ := hold hu
    have hw := hs.running j u hu'
    refine ⟨hw.sound, fun row hr => ?_, fun key hk => ?_, fun sn si h => ?_, fun id hid => ?_,
      fun h => hsettled (hw.settled h), fun h => ?_⟩
    · obtain ⟨hmem, hlock⟩ := hw.held row hr
      refine ⟨hcommits.kept row hmem ?_, hlocks hj hlock⟩
      rw [hlock]
      exact fun h => hj (Option.some.inj h)
    · obtain ⟨hclaim, hrows⟩ := hw.claimed key hk
      refine ⟨hclaims hj hclaim, fun r hr hkey => ?_⟩
      rcases hcommits.keys r hr with ⟨r₀, hr₀, hid, hsamekey⟩ | hmine
      · exact hid ▸ hrows r₀ hr₀ (hsamekey.trans hkey)
      · rw [hkey] at hmine
        have hi := (hv.claimed key hmine).1
        rw [hclaim] at hi
        exact absurd (Option.some.inj hi) hj
    · exact ⟨Nat.lt_succ_of_lt (hw.judged sn si h).1, (hw.judged sn si h).2⟩
    · refine ⟨(hw.creates id hid).1, fun r hr heq => ?_⟩
      rcases hcommits.rows r hr with ⟨r₀, hr₀, hid₀, -⟩ | hcreates
      · exact (hw.creates id hid).2 r₀ hr₀ (hid₀.trans heq)
      · exact hj (hs.creating j i u t id hu' ht hid (heq ▸ hcreates))
    · refine (hw.passed h).imp_right fun hgone => ⟨hsettled hgone.1, fun row hrow hid => ?_⟩
      obtain ⟨r₀, hr₀, hid₀, hscope, -⟩ := hsame hgone.1 hrow hid
      rw [← hscope]
      exact hgone.2 r₀ hr₀ (hid₀.trans hid)
  · rcases hcommits.stamps r hmem with h | h
    · exact hs.snapshots j k u v sn sn' si si' (hold hu).2 (hold hv).2 hsn hsn' hle r hr h
    · obtain ⟨hlt, hstamps⟩ := (hs.running j u (hold hu).2).judged sn si hsn
      have hr' := hstamps r hr
      omega
  · obtain ⟨old, hrow, hid, haccepts, hlt⟩ := hchanged hch hup
    exact ⟨old, hrow, hid, haccepts, hsettled (hs.settled (hv.held old hrow).1), hlt⟩
  · obtain ⟨old, hj, hid, haccepts, hset, hlt⟩ := hs.past d hd hch hup
    refine ⟨old, hj, hid, haccepts, hsettled hset, fun r hr heq => ?_⟩
    obtain ⟨r₀, hr₀, hid₀, -, hle⟩ := hsame hset hr heq
    exact lt_of_lt_of_le (hlt r₀ hr₀ (hid₀.trans heq)) hle
  · obtain ⟨old₁, hj₁, -, -, -, hlt⟩ := hs.past d hd hch' hup'
    obtain rfl : old₁ = old' := Option.some.inj (hj₁.symm.trans hj')
    exact (hlt old (hv.held old hj).1 hid).ne'

/-! ## What the operations leave -/

theorem Valid.commits_same (hs : Valid citext s) : Commits citext s i t s.rows where
  unique := hs.unique
  kept _ hr _ := hr
  stamps _ hr := .inl hr
  rows r hr := .inl ⟨r, hr, rfl, rfl, le_rfl⟩
  keys r hr := .inl ⟨r, hr, rfl, rfl⟩

/-- **A new row has a name that no other has.** -/
theorem Valid.commits_create (hs : Valid citext s) (ht : s.running i = some t) {row : NamedRow}
    (hphase : t.phase = .inserted row) :
    Commits citext s i t ((s.rows.insert? { row with stamp := s.clock }).getD s.rows) := by
  have hv := hs.running i t ht
  have hsound := hv.sound
  have hclaimed := hv.claimed (row.key citext) (by rw [hphase]; rfl)
  rw [hphase] at hsound
  have hrow {r : NamedRow} (hr : r ∈ s.rows) (hkey : r.key citext = row.key citext) : r.id = row.id :=
    (hclaimed.2 r hr hkey).trans hsound.2.1.symm
  refine ⟨fun r hr r' hr' hkey => ?_, fun r hr _ => mem_insert_getD_of_mem hr, fun r hr => ?_, fun r hr => ?_,
    fun r hr => ?_⟩
  · rcases mem_insert_getD hr with rfl | hr <;> rcases mem_insert_getD hr' with rfl | hr'
    · rfl
    · exact (hrow hr' hkey.symm).symm
    · exact hrow hr hkey
    · exact hs.unique r hr r' hr' hkey
  · exact (mem_insert_getD hr).elim (fun h => .inr (by rw [h])) .inl
  · rcases mem_insert_getD hr with rfl | hr
    · exact .inr hsound.1
    · exact .inl ⟨r, hr, rfl, rfl, le_rfl⟩
  · rcases mem_insert_getD hr with rfl | hr
    · exact .inr (by rw [hphase]; rfl)
    · exact .inl ⟨r, hr, rfl, rfl⟩

/-- **A row that is written has a name that no other has.** -/
theorem Valid.commits_change (hs : Valid citext s) (ht : s.running i = some t) {old new : NamedRow} {named : Bool}
    (hphase : t.phase = .written old new named) :
    Commits citext s i t (replace s.rows { new with stamp := s.clock }) := by
  have hv := hs.running i t ht
  have hsound := hv.sound
  obtain ⟨hmem, hlock⟩ := hv.held old (by rw [hphase]; rfl)
  rw [hphase] at hsound
  obtain ⟨hid, hfollows, hname⟩ := hsound
  -- the name is the row's own, or the operation has claimed it
  have hkeys : (∃ r₀ ∈ s.rows, r₀.id = new.id ∧ r₀.key citext = new.key citext) ∨
      t.phase.claimed citext = some (new.key citext) := by
    rcases hname with rfl | hsame
    · exact .inr (by rw [hphase]; rfl)
    · exact .inl ⟨old, hmem, hfollows.id.symm, hsame.symm⟩
  have hrow {r : NamedRow} (hr : r ∈ s.rows) (hkey : r.key citext = new.key citext) : r.id = new.id := by
    rcases hkeys with ⟨r₀, hr₀, hid₀, hkey₀⟩ | hclaimed
    · exact (hs.unique r hr r₀ hr₀ (hkey.trans hkey₀.symm)).trans hid₀
    · exact ((hv.claimed _ hclaimed).2 r hr hkey).trans (hid.symm.trans hfollows.id.symm)
  refine ⟨fun r hr r' hr' hkey => ?_, fun r hr hfree => ?_, fun r hr => ?_, fun r hr => ?_, fun r hr => ?_⟩
  · rcases mem_replace hr with rfl | ⟨hr, -⟩ <;> rcases mem_replace hr' with rfl | ⟨hr', -⟩
    · rfl
    · exact (hrow hr' hkey.symm).symm
    · exact hrow hr hkey
    · exact hs.unique r hr r' hr' hkey
  · refine mem_replace_of_ne hr fun heq => hfree ?_
    rw [heq]
    exact (congrArg s.locks hfollows.id).trans hlock
  · exact (mem_replace hr).elim (fun h => .inr (by rw [h])) fun h => .inl h.1
  · rcases mem_replace hr with rfl | ⟨hr, -⟩
    · exact .inl ⟨old, hmem, hfollows.id.symm, hfollows.scope.symm, hfollows.version⟩
    · exact .inl ⟨r, hr, rfl, rfl, le_rfl⟩
  · rcases mem_replace hr with rfl | ⟨hr, -⟩
    · exact hkeys
    · exact .inl ⟨r, hr, rfl, rfl⟩

theorem Valid.commits_remove (hs : Valid citext s) (ht : s.running i = some t) {row : NamedRow}
    (hphase : t.phase = .removing row) :
    Commits citext s i t (s.rows.deleteWhere fun r => decide (r.id = row.id)) := by
  obtain ⟨-, hlock⟩ := (hs.running i t ht).held row (by rw [hphase]; rfl)
  have hback {r : NamedRow} (hr : r ∈ s.rows.deleteWhere fun r => decide (r.id = row.id)) : r ∈ s.rows :=
    (Table.mem_deleteWhere.mp hr).1
  refine ⟨fun r hr r' hr' hkey => hs.unique r (hback hr) r' (hback hr') hkey, fun r hr hfree => ?_,
    fun r hr => .inl (hback hr), fun r hr => .inl ⟨r, hback hr, rfl, rfl, le_rfl⟩,
    fun r hr => .inl ⟨r, hback hr, rfl, rfl⟩⟩
  refine Table.mem_deleteWhere.mpr ⟨hr, decide_eq_false fun heq => hfree ?_⟩
  rw [heq]
  exact hlock

end

end SlugBase.Naming
