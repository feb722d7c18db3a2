import SlugBase.Instance.Kept

/-!
# A transaction at work on an account

What a transaction of the instance holds while it decides on an account's row, and while it writes it.

* `Checked`: it has found another enabled admin under the advisory lock; `Secured`: it has locked the accounts it
  decides on; `Working`: it is writing one of them;
* **`contract`**: a commit has made an allowed change of one account, or none;
* `triple_writeAll`, `triple_lockAccounts`, `triple_lastInstanceAdmin`: what the parts of the programs make sure of.
-/

namespace SlugBase.Instance

open ReadCommitted

/-- What a transaction holds. -/
abbrev Local := Held Row

/-- A lock that every statement waits for. -/
def Blocks (m : LockMode) : Prop := ∀ q : Statement, m.conflicts q.mode = true

theorem blocks_update : Blocks .update := fun q => by cases q <;> rfl

theorem blocks_mode (q : Statement) : Blocks q.mode := fun q' => rules.exclusive q q'

/-! ## What a transaction holds -/

/-- Under the advisory lock there is an enabled admin apart from the account. -/
def Checked (t : Uuid) (db : Rows) (x : Local) : Prop :=
  (Key.instanceAdmins, LockMode.update) ∈ x.locks ∧ ∃ b, b ≠ t ∧ EnabledAdmin db b

/-- The transaction has locked the account `t`, whose row is `row`, and has made `now` of it and added these events. -/
structure Working (t : Uuid) (row : AccountRow) (now : Option AccountRow) (added : List (Uuid × AuditEvent))
    (check : Prop) (db : Rows) (x : Local) : Prop where
  locked : ∃ m, Blocks m ∧ (Key.account t, m) ∈ x.locks
  before : db.account t = some row
  after : Rows.account (x.view db) t = now
  others : ∀ a, a ≠ t → Key.account a ∉ x.written
  events : ∀ e event, Rows.auditEvent (x.view db) e = some event ↔
    db.auditEvent e = some event ∨ (e, event) ∈ added
  fresh : ∀ e ∈ added, db.auditEvent e.1 = none ∧ Key.auditEvent e.1 ∈ x.written
  checked : check → Checked t db x

/-- A commit has written nothing, or made an allowed change of one account. -/
def Promise (db : Rows) (x : Local) : Prop :=
  x.written = [] ∨ ∃ t row now added, Allowed row now added ∧ Working t row now added (Takes row now) db x

section

variable {t : Uuid} {row : AccountRow} {now : Option AccountRow} {added : List (Uuid × AuditEvent)} {check : Prop}
  {db : Rows} {x : Local}

theorem Working.effect (h : Working t row now added (Takes row now) db x) :
    Effect t row now added db (x.view db) where
  before := h.before
  after := h.after
  others a ha := Held.lookup_view_of_notMem (h.others a ha) db
  events := h.events
  fresh e he := (h.fresh e he).1
  check htakes := (h.checked htakes).2

theorem Promise.absent (h : Promise db x) {a : Uuid} (ha : db.account a = none) :
    Rows.account (x.view db) a = none := by
  rcases h with hidle | ⟨t, row, now, added, -, hworking⟩
  · rw [Held.view_of_written_nil hidle]
    exact ha
  · have hne : a ≠ t := by
      rintro rfl
      rw [hworking.before] at ha
      cases ha
    exact (hworking.effect.others a hne).trans ha

theorem Promise.admins (h : Promise db x) {a : Uuid} (ha : EnabledAdmin db a) :
    EnabledAdmin (x.view db) a ∨ (Key.instanceAdmins, LockMode.update) ∈ x.locks := by
  rcases h with hidle | ⟨t, row, now, added, -, hworking⟩
  · rw [Held.view_of_written_nil hidle]
    exact .inl ha
  · by_cases htakes : Takes row now
    · exact .inr (hworking.checked htakes).1
    · exact .inl (hworking.effect.enabledAdmin ha fun _ => htakes)

end

/-- **What holds of an instance, and what a commit promises to keep it.** -/
def contract : Contract rules where
  committed := Kept
  promise _ := Promise
  commits {_ db y} hdb hy := by
    rcases hy with hidle | ⟨t, row, now, added, hallowed, hworking⟩
    · rw [Held.view_of_written_nil hidle]
      exact hdb
    · exact hdb.effect hworking.effect hallowed

/-! ## What the others keep -/

section

variable {t : Uuid} {row : AccountRow} {now : Option AccountRow} {added : List (Uuid × AuditEvent)} {check : Prop}

theorem stable_checked (t : Uuid) : contract.Stable (Checked t) := by
  intro db x _ y _ h hy _ hapart _
  obtain ⟨hlock, b, hb, hadmin⟩ := h
  refine ⟨hlock, b, hb, ?_⟩
  rcases Promise.admins hy hadmin with hstill | hlock'
  · exact hstill
  · -- who takes an admin holds the advisory lock as well
    have hno := hapart _ hlock _ hlock' rfl
    cases hno

theorem stable_working : contract.Stable (Working t row now added check) := by
  intro db x answer y hdb h hy hlocked hapart hdisjoint
  obtain ⟨m, hm, hlock⟩ := h.locked
  have hnot : Key.account t ∉ y.written := Held.notMem_written_of_lock hapart hlocked hm hlock
  have hsame : Rows.account (y.view db) t = Rows.account db t := Held.lookup_view_of_notMem hnot db
  refine ⟨h.locked, hsame.trans h.before, ?_, h.others, fun e event => ?_, fun e he => ?_, fun hcheck => ?_⟩
  · by_cases hwritten : Key.account t ∈ x.written
    · exact (Held.lookup_view_of_mem hwritten _ db).trans h.after
    · have hview : Rows.account (x.view db) t = Rows.account db t := Held.lookup_view_of_notMem hwritten db
      exact (Held.lookup_view_of_notMem hwritten _).trans (hsame.trans (hview.symm.trans h.after))
  · by_cases hwritten : Key.auditEvent e ∈ x.written
    · rw [Rows.auditEvent, Rows.auditEvent, Held.lookup_view_of_mem hwritten _ db,
        Held.lookup_view_of_notMem (hdisjoint _ hwritten)]
      exact h.events e event
    · rw [Rows.auditEvent, Rows.auditEvent, Held.lookup_view_of_notMem hwritten]
      have hadded : (e, event) ∉ added := fun he => hwritten (h.fresh _ he).2
      exact (or_iff_left hadded).symm
  · obtain ⟨hnone, hwritten⟩ := h.fresh e he
    exact ⟨(Held.lookup_view_of_notMem (hdisjoint _ hwritten) db).trans hnone, hwritten⟩
  · exact stable_checked t db x answer y hdb (h.checked hcheck) hy hlocked hapart hdisjoint

/-- The transaction has written nothing, and each of these accounts is locked by it or is not there. -/
structure Secured (ids : List Uuid) (db : Rows) (x : Local) : Prop where
  idle : x.written = []
  locked : ∀ a ∈ ids, (Key.account a, LockMode.update) ∈ x.locks ∨ db.account a = none

theorem Secured.empty (db : Rows) : Secured [] db .empty := ⟨rfl, fun _ ha => absurd ha List.not_mem_nil⟩

theorem Secured.mono {ids ids' : List Uuid} {db : Rows} {x : Local} (h : Secured ids db x) (hsub : ids' ⊆ ids) :
    Secured ids' db x := ⟨h.idle, fun a ha => h.locked a (hsub ha)⟩

@[simp] theorem Secured.view {ids : List Uuid} {db : Rows} {x : Local} (h : Secured ids db x) : x.view db = db :=
  Held.view_of_written_nil h.idle db

theorem stable_secured (ids : List Uuid) : contract.Stable (Secured ids) := by
  intro db x _ y _ h hy _ _ _
  exact ⟨h.idle, fun a ha => (h.locked a ha).imp_right fun hnone => Promise.absent hy hnone⟩

theorem Secured.working {ids : List Uuid} {db : Rows} {x : Local} (h : Secured ids db x) (ht : t ∈ ids)
    (hrow : db.account t = some row) (hcheck : check → Checked t db x) : Working t row (some row) [] check db x where
  locked := by
    refine ⟨.update, blocks_update, (h.locked t ht).resolve_right fun hnone => ?_⟩
    rw [hrow] at hnone
    cases hnone
  before := hrow
  after := by rw [h.view]; exact hrow
  others a _ := by rw [h.idle]; exact List.not_mem_nil
  events e event := by rw [h.view]; exact (or_iff_left List.not_mem_nil).symm
  fresh e he := absurd he List.not_mem_nil
  checked := hcheck

/-- The transaction has locked the account, and if it takes an admin there is another. -/
def Sure (t : Uuid) (db : Rows) (x : Local) : Prop := Secured [t] db x ∧ (EnabledAdmin db t → Checked t db x)

theorem stable_sure (t : Uuid) : contract.Stable (Sure t) := by
  intro db x answer y hdb h hy hlocked hapart hdisjoint
  refine ⟨stable_secured [t] db x answer y hdb h.1 hy hlocked hapart hdisjoint, fun hadmin => ?_⟩
  obtain ⟨row, hrow, henabled⟩ := hadmin
  have hadmin : EnabledAdmin db t := by
    rcases h.1.locked t List.mem_cons_self with hlock | hnone
    · have hnot : Key.account t ∉ y.written := Held.notMem_written_of_lock hapart hlocked blocks_update hlock
      exact ⟨row, (Held.lookup_view_of_notMem hnot db).symm.trans hrow, henabled⟩
    · have hgone := Promise.absent hy hnone
      rw [hrow] at hgone
      cases hgone
  exact stable_checked t db x answer y hdb (h.2 hadmin) hy hlocked hapart hdisjoint

end

/-! ## Writing -/

namespace Statement

/-- What a statement makes of the account's row. -/
def row (now : Option AccountRow) : Statement → Option AccountRow
  | .updateAccount _ set => now.map set.apply
  | .deleteAccount _ => none
  | .insertAuditEvent _ _ => now

/-- What a statement adds to the log. -/
def events : Statement → List (Uuid × AuditEvent)
  | .insertAuditEvent id event => [(id, event)]
  | .updateAccount _ _ | .deleteAccount _ => []

/-- A statement writes no account but this one. -/
def Of (t : Uuid) : Statement → Prop
  | .updateAccount id _ | .deleteAccount id => id = t
  | .insertAuditEvent _ _ => True

end Statement

section

variable {t : Uuid} {row : AccountRow} {now : Option AccountRow} {added : List (Uuid × AuditEvent)} {check : Prop}
  {db : Rows} {x : Local} {q : Statement}

theorem Working.unchanged (h : Working t row now added check db x) (hq : q.Of t)
    (hchange : q.change (x.view db) = .nothing) : Working t row (q.row now) (added ++ q.events) check db x := by
  have hafter := h.after
  cases q with
  | updateAccount id set | deleteAccount id =>
    cases hq
    simp only [Statement.change] at hchange
    split at hchange
    · rename_i hnone
      obtain rfl := hnone.symm.trans hafter
      rw [Statement.events, List.append_nil]
      exact h
    · cases hchange
  | insertAuditEvent id event =>
    simp only [Statement.change] at hchange
    split at hchange <;> cases hchange

theorem Checked.writing (h : Checked t db x) (k : Key) (m : LockMode) (r : Option (Row k)) :
    Checked t db (x.writing k m r) := ⟨List.mem_cons_of_mem _ h.1, h.2⟩

theorem Working.account (h : Working t row now added check db x) {m : LockMode} (now' : Option AccountRow) :
    Working t row now' added check db (x.writing (.account t) m now') := by
  obtain ⟨m', hm', hlock⟩ := h.locked
  refine ⟨⟨m', hm', List.mem_cons_of_mem _ hlock⟩, h.before, ?_, fun a ha => ?_, fun e event => ?_, fun e he => ?_,
    fun hc => (h.checked hc).writing _ _ _⟩
  · rw [Held.view_writing]
    exact lookup_put_self _ _ _
  · rw [Held.written_writing, List.mem_append, List.mem_singleton]
    rintro (hmem | heq)
    · exact h.others a ha hmem
    · exact ha (Key.account.inj heq)
  · have hne : Key.auditEvent e ≠ Key.account t := fun heq => by cases heq
    rw [Held.view_writing, Rows.auditEvent, lookup_put_ne _ _ hne]
    exact h.events e event
  · rw [Held.written_writing]
    exact ⟨(h.fresh e he).1, List.mem_append_left _ (h.fresh e he).2⟩

theorem Working.auditEvent (h : Working t row now added check db x) {m : LockMode} {id : Uuid} {event : AuditEvent}
    (hnone : Rows.auditEvent (x.view db) id = none) :
    Working t row now (added ++ [(id, event)]) check db (x.writing (.auditEvent id) m (some event)) := by
  obtain ⟨m', hm', hlock⟩ := h.locked
  refine ⟨⟨m', hm', List.mem_cons_of_mem _ hlock⟩, h.before, ?_, fun a ha => ?_, fun e event' => ?_, fun e he => ?_,
    fun hc => (h.checked hc).writing _ _ _⟩
  · have hne : Key.account t ≠ Key.auditEvent id := fun heq => by cases heq
    rw [Held.view_writing, Rows.account, lookup_put_ne _ _ hne]
    exact h.after
  · rw [Held.written_writing, List.mem_append, List.mem_singleton]
    rintro (hmem | heq)
    · exact h.others a ha hmem
    · cases heq
  · rw [Held.view_writing, List.mem_append, List.mem_singleton, ← or_assoc, ← h.events e event']
    by_cases he : e = id
    · subst he
      rw [Rows.auditEvent, lookup_put_self, hnone]
      simp [eq_comm]
    · have hne : Key.auditEvent e ≠ Key.auditEvent id := fun heq => he (Key.auditEvent.inj heq)
      rw [Rows.auditEvent, lookup_put_ne _ _ hne]
      simp [he]
  · rw [Held.written_writing]
    rcases List.mem_append.mp he with he | he
    · exact ⟨(h.fresh e he).1, List.mem_append_left _ (h.fresh e he).2⟩
    · obtain rfl := List.mem_singleton.mp he
      refine ⟨Option.eq_none_iff_forall_ne_some.mpr fun event' hsome => ?_, List.mem_append_right _ List.mem_cons_self⟩
      rw [(h.events id event').mpr (.inl hsome)] at hnone
      cases hnone

theorem Working.locking (h : Working t row now added check db x) (k : Key) (m : LockMode) :
    Working t row now added check db (x.locking k m) := by
  obtain ⟨m', hm', hlock⟩ := h.locked
  exact { h with
    locked := ⟨m', hm', List.mem_cons_of_mem _ hlock⟩
    checked := fun hc => ⟨List.mem_cons_of_mem _ (h.checked hc).1, (h.checked hc).2⟩ }

theorem Working.wrote (h : Working t row now added check db x) (hq : q.Of t) {r : Option (Row q.target)}
    (hchange : q.change (x.view db) = .becomes r) :
    Working t row (q.row now) (added ++ q.events) check db (x.writing q.target q.mode r) := by
  have hafter := h.after
  cases q with
  | updateAccount id set =>
    cases hq
    simp only [Statement.change] at hchange
    split at hchange
    · cases hchange
    · rename_i hsome
      cases hchange
      obtain rfl := hsome.symm.trans hafter
      rw [Statement.events, List.append_nil]
      exact h.account _
  | deleteAccount id =>
    cases hq
    simp only [Statement.change] at hchange
    split at hchange
    · cases hchange
    · cases hchange
      rw [Statement.events, List.append_nil]
      exact h.account _
  | insertAuditEvent id event =>
    simp only [Statement.change] at hchange
    split at hchange
    · rename_i hnone
      cases hchange
      exact h.auditEvent hnone
    · cases hchange

/-- The first statement of a transaction takes the lock of its row itself. -/
theorem Secured.wrote (h : Secured [] db x) (hrow : db.account t = some row) (set : AccountSet) :
    Working t row (some (set.apply row)) [] False db (x.writing (.account t) .noKeyUpdate (some (set.apply row))) where
  locked := ⟨.noKeyUpdate, blocks_mode (.updateAccount t set), List.mem_cons_self⟩
  before := hrow
  after := by
    rw [Held.view_writing]
    exact lookup_put_self _ _ _
  others a ha hmem := by
    rw [Held.written_writing, h.idle, List.nil_append, List.mem_singleton] at hmem
    exact ha (Key.account.inj hmem)
  events e event := by
    have hne : Key.auditEvent e ≠ Key.account t := fun heq => by cases heq
    rw [Held.view_writing, Rows.auditEvent, lookup_put_ne _ _ hne, h.view]
    exact (or_iff_left List.not_mem_nil).symm
  fresh e he := absurd he List.not_mem_nil
  checked := False.elim

end

/-! ## The parts of the programs -/

section

variable {t : Uuid} {row : AccountRow} {now : Option AccountRow} {added : List (Uuid × AuditEvent)} {check : Prop}
  {rest : Program}

theorem triple_writeAll (statements : List Statement) (hof : ∀ q ∈ statements, q.Of t)
    (hrest : contract.Triple (Working t row (statements.foldl Statement.row now)
      (added ++ statements.flatMap Statement.events) check) rest) :
    contract.Triple (Working t row now added check) (writeAll statements rest) := by
  induction statements generalizing now added with
  | nil =>
    rw [List.flatMap_nil, List.append_nil] at hrest
    exact hrest
  | cons q statements ih =>
    rw [List.flatMap_cons, ← List.append_assoc] at hrest
    have hq : q.Of t := hof q List.mem_cons_self
    have hnext := ih (fun q' hq' => hof q' (List.mem_cons_of_mem _ hq')) hrest
    exact .write stable_working (fun hdb h hchange => hnext _ _ hdb (h.unchanged hq hchange))
      fun hdb h hchange => hnext _ _ hdb (h.wrote hq hchange)

theorem triple_done (answer : Answer) (hallowed : Allowed row now added) (htakes : Takes row now → check) :
    contract.Triple (Working t row now added check) (.done answer) :=
  .done stable_working fun _ h => .inr ⟨t, row, now, added, hallowed, { h with checked := h.checked ∘ htakes }⟩

theorem triple_refused (ids : List Uuid) (answer : Answer) : contract.Triple (Secured ids) (.done answer) :=
  .done (stable_secured ids) fun _ h => .inl h.idle

theorem Secured.locking {ids : List Uuid} {db : Rows} {x : Local} (h : Secured ids db x) (k : Key) (m : LockMode) :
    Secured ids db (x.locking k m) := ⟨h.idle, fun a ha => (h.locked a ha).imp_left (List.mem_cons_of_mem _)⟩

theorem triple_lockAccount {ids : List Uuid} (id : Uuid) (hrest : contract.Triple (Secured (id :: ids)) rest) :
    contract.Triple (Secured ids) (.lock (.account id) .update Option.isSome fun _ => rest) := by
  refine .lock (stable_secured ids) (fun {db x} hdb h hmissed => ?_) fun {db x} hdb h _ => ?_
  · rw [h.view] at hmissed
    have hnone : Rows.account db id = none := Option.isSome_eq_false_iff.mp hmissed |> Option.isNone_iff_eq_none.mp
    refine hrest _ _ hdb ⟨h.idle, fun a ha => ?_⟩
    rcases List.mem_cons.mp ha with rfl | ha
    · exact .inr hnone
    · exact h.locked a ha
  · refine hrest _ _ hdb ⟨h.idle, fun a ha => ?_⟩
    rcases List.mem_cons.mp ha with rfl | ha
    · exact .inl List.mem_cons_self
    · exact (h.locking _ _).locked a ha

/-- The locks of several, in their order. -/
theorem triple_lockAccounts (ids : List Uuid) (hrest : contract.Triple (Secured ids) rest) :
    contract.Triple (Secured []) (lockAccounts ids rest) := by
  have hall (sorted done : List Uuid) (h : contract.Triple (Secured (sorted ++ done)) rest) :
      contract.Triple (Secured done)
        (sorted.foldr (fun id rest => .lock (.account id) .update Option.isSome fun _ => rest) rest) := by
    induction sorted generalizing done with
    | nil => exact h
    | cons id sorted ih =>
      refine triple_lockAccount id (ih (id :: done) (h.of_imp fun _ hs => hs.mono fun a ha => ?_))
      simp only [List.mem_append, List.mem_cons] at ha ⊢
      tauto
  refine hall _ [] (hrest.of_imp fun _ h => h.mono fun a ha => ?_)
  rw [List.append_nil, List.mem_insertionSort]
  exact List.mem_dedup.mpr ha

theorem triple_forInstanceAdmin {ids : List Uuid} (appAccountId : Uuid)
    (hrest : contract.Triple (Secured ids) rest) :
    contract.Triple (Secured ids) (forInstanceAdmin appAccountId rest) := by
  refine .read (stable_secured ids) fun {db x} hdb h => ?_
  split
  · exact hrest _ _ hdb h
  · trivial

/-- The check for another admin, under the advisory lock. -/
theorem triple_lastInstanceAdmin {F : Rows → Local → Prop} {next : Bool → Program} (hF : contract.Stable F)
    (hlock : ∀ {db x} k m, F db x → F db (x.locking k m))
    (hview : ∀ {db x}, F db x → ∀ b, b ≠ t → Rows.account (x.view db) b = db.account b)
    (hlast : contract.Triple F (next true))
    (hother : contract.Triple (fun db x => F db x ∧ Checked t db x) (next false)) :
    contract.Triple F (lastInstanceAdmin t next) := by
  refine .lock hF (fun _ _ hmissed => by cases hmissed) fun {db x} hdb h _ => ?_
  have hlocked : contract.Triple (fun db x => F db x ∧ (Key.instanceAdmins, LockMode.update) ∈ x.locks)
      (.read fun (db : Rows) => next (!otherEnabledAdmin db t)) := by
    refine .read (hF.and (.own _)) fun {db x} hdb h => ?_
    cases hfound : otherEnabledAdmin (x.view db) t with
    | false => exact hlast _ _ hdb h.1
    | true =>
      obtain ⟨b, hb, row, hrow, henabled⟩ := otherEnabledAdmin_iff.mp hfound
      rw [hview h.1 b hb] at hrow
      exact hother _ _ hdb ⟨h.1, h.2, b, hb, row, hrow, henabled⟩
  exact hlocked _ _ hdb ⟨hlock _ _ h, List.mem_cons_self⟩

theorem triple_sysAccountLastInstanceAdmin {next : Bool → Program} (hlast : contract.Triple (Secured [t]) (next true))
    (hother : contract.Triple (Sure t) (next false)) :
    contract.Triple (Secured [t]) (sysAccountLastInstanceAdmin t next) := by
  refine .read (stable_secured [t]) fun {db x} hdb h => ?_
  rw [h.view]
  split
  · exact triple_lastInstanceAdmin (stable_secured [t]) (fun k m h => h.locking k m)
      (fun h b _ => by rw [h.view]) hlast (hother.of_imp fun _ h => ⟨h.1, fun _ => h.2⟩) _ _ hdb h
  · rename_i hno
    refine hother _ _ hdb ⟨h, fun hadmin => absurd ?_ hno⟩
    obtain ⟨row, hrow, henabled⟩ := hadmin
    rw [hrow]
    exact (Bool.and_eq_true_iff.mp henabled).1

end

end SlugBase.Instance
