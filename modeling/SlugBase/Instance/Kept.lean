import SlugBase.Lib.RelyGuarantee
import SlugBase.Instance.Accounts

/-!
# What the changes of an account keep

A transaction changes one account and adds to the log. What a change may be is said once, and everything that holds of
an instance is derived from it.

* `Administered`: an enabled instance admin, no admin in a period, every period ended at most once, when it was due;
* `Kept`: that, and how the log and the accounts' periods fit together;
* `Allowed`: the changes of an account's row, each with the events it adds to the log; `Effect`: what the commit of one
  makes of the rows;
* **`Kept.effect`**: an allowed change keeps it.
-/

namespace SlugBase.Instance

open ReadCommitted

/-! ## What holds of an instance -/

/-- The event of the end of a period says when the period was found due: the period was set to end by then, and to be
ended by a deletion if that is what it was ended by. -/
def Due (db : Rows) (action : EndAction) (period : Uuid) (foundDueAt : Timestamp) : Prop :=
  ∃ exportOnlyUntil endAction, db.auditEvent period = some (.accountExportOnlySet exportOnlyUntil endAction) ∧
    exportOnlyUntil ≤ foundDueAt ∧ (action = .delete → endAction = .delete)

/-- **An instance has an enabled admin, no admin of it is in a period, and a period is ended when it is due and once.** -/
structure Administered (db : Rows) : Prop where
  admin : ∃ a, EnabledAdmin db a
  full : ∀ a row, db.account a = some row → row.isInstanceAdmin = true → row.exportOnly = none
  due : ∀ e action period t, db.auditEvent e = some (.accountExportOnlyEnded action period t) → Due db action period t
  once : ∀ e e' action action' period t t', db.auditEvent e = some (.accountExportOnlyEnded action period t) →
    db.auditEvent e' = some (.accountExportOnlyEnded action' period t') → e = e'

/-- The account is in the period. -/
def InPeriod (db : Rows) (a : Uuid) (p : ExportOnly) : Prop :=
  ∃ row, db.account a = some row ∧ row.exportOnly = some p

/-- And a period that an account is in is in the log, belongs to it alone and has not ended. -/
structure Kept (db : Rows) : Prop extends Administered db where
  set : ∀ a p, InPeriod db a p →
    db.auditEvent p.setBy = some (.accountExportOnlySet p.exportOnlyUntil p.exportOnlyEndAction)
  one : ∀ a b p p', InPeriod db a p → InPeriod db b p' → p.setBy = p'.setBy → a = b
  past : ∀ e action period t a p, db.auditEvent e = some (.accountExportOnlyEnded action period t) →
    InPeriod db a p → p.setBy ≠ period

/-- Every period ended between one database and the next was the one its account was in, due, and ended by what the event
says. -/
def Ends (db db' : Rows) : Prop :=
  ∀ e action period t, db.auditEvent e = none → db'.auditEvent e = some (.accountExportOnlyEnded action period t) →
    ∃ a p, InPeriod db a p ∧ p.setBy = period ∧ p.exportOnlyUntil ≤ t ∧
      match action with
      | .disable => ∃ row, db'.account a = some row ∧ row.disabledAt ≠ none ∧ row.exportOnly = none
      | .delete => db'.account a = none ∧ p.exportOnlyEndAction = .delete

/-! ## The changes -/

/-- The event is of the start or the end of a period. -/
def AuditEvent.ofPeriod : AuditEvent → Bool
  | .accountExportOnlySet _ _ | .accountExportOnlyEnded _ _ _ => true
  | _ => false

/-- What a transaction may make of an account's row, with the events it adds to the log. -/
inductive Allowed (row : AccountRow) : Option AccountRow → List (Uuid × AuditEvent) → Prop
  | flags {row' : AccountRow} {added : List (Uuid × AuditEvent)} : row'.exportOnly = row.exportOnly →
      (row'.isInstanceAdmin = true → row.isInstanceAdmin = true ∨ row.exportOnly = none) →
      (∀ e ∈ added, e.2.ofPeriod = false) → Allowed row (some row') added
  | set (p : ExportOnly) : row.isInstanceAdmin = false →
      Allowed row (some { row with exportOnly := some p })
        [(p.setBy, .accountExportOnlySet p.exportOnlyUntil p.exportOnlyEndAction)]
  | cleared (eventId : Uuid) :
      Allowed row (some { row with exportOnly := none }) [(eventId, .accountExportOnlyCleared)]
  | disabled {p : ExportOnly} (eventId : Uuid) {now : Timestamp} : row.exportOnly = some p →
      p.exportOnlyUntil ≤ now →
      Allowed row (some ((AccountSet.exportOnlyEnded now).apply row))
        [(eventId, .accountExportOnlyEnded .disable p.setBy now)]
  | ended {p : ExportOnly} (eventId : Uuid) {now : Timestamp} : row.exportOnly = some p → p.exportOnlyUntil ≤ now →
      p.exportOnlyEndAction = .delete →
      Allowed row none [(eventId, .accountExportOnlyEnded .delete p.setBy now)]
  | deleted {added : List (Uuid × AuditEvent)} : (∀ e ∈ added, e.2.ofPeriod = false) → Allowed row none added

namespace Allowed

variable {row row' : AccountRow} {now : Option AccountRow} {added : List (Uuid × AuditEvent)}

theorem unchanged (row : AccountRow) : Allowed row (some row) [] :=
  .flags rfl .inl fun _ he => absurd he List.not_mem_nil

theorem period (h : Allowed row (some row') added) {p : ExportOnly} (hp : row'.exportOnly = some p) :
    row.exportOnly = some p ∨
      (p.setBy, AuditEvent.accountExportOnlySet p.exportOnlyUntil p.exportOnlyEndAction) ∈ added := by
  cases h with
  | flags hsame => exact .inl (hsame ▸ hp)
  | set q =>
    obtain rfl := Option.some.inj hp
    exact .inr List.mem_cons_self
  | cleared | disabled => cases hp

theorem full (h : Allowed row (some row') added) (hrow : row.isInstanceAdmin = true → row.exportOnly = none)
    (hadmin : row'.isInstanceAdmin = true) : row'.exportOnly = none := by
  cases h with
  | flags hsame hgrant => exact hsame.trans ((hgrant hadmin).elim hrow id)
  | set p hno => cases hno.symm.trans hadmin
  | cleared | disabled => rfl

/-- An end added to the log is of the period the account was in, which was due. -/
theorem ends (h : Allowed row now added) {e period : Uuid} {action : EndAction} {t : Timestamp}
    (he : (e, AuditEvent.accountExportOnlyEnded action period t) ∈ added) :
    ∃ p, row.exportOnly = some p ∧ p.setBy = period ∧ p.exportOnlyUntil ≤ t ∧
      match action with
      | .disable => ∃ row', now = some row' ∧ row'.disabledAt ≠ none ∧ row'.exportOnly = none
      | .delete => now = none ∧ p.exportOnlyEndAction = .delete := by
  cases h with
  | flags _ _ hplain | deleted hplain => cases hplain _ he
  | set p => cases List.mem_singleton.mp he
  | cleared => cases List.mem_singleton.mp he
  | disabled eventId hp hdue =>
    cases List.mem_singleton.mp he
    refine ⟨_, hp, rfl, hdue, _, rfl, ?_, rfl⟩
    cases hrow : row.disabledAt <;> simp [AccountSet.apply, hrow]
  | ended eventId hp hdue hdelete =>
    cases List.mem_singleton.mp he
    exact ⟨_, hp, rfl, hdue, rfl, hdelete⟩

theorem not_inPeriod_of_ends (h : Allowed row (some row') added) {e period : Uuid} {action : EndAction} {t : Timestamp}
    (he : (e, AuditEvent.accountExportOnlyEnded action period t) ∈ added) : row'.exportOnly = none := by
  obtain ⟨p, -, -, -, hends⟩ := h.ends he
  cases action with
  | disable =>
    obtain ⟨row'', heq, -, hnone⟩ := hends
    exact Option.some.inj heq ▸ hnone
  | delete => cases hends.1

theorem ends_once (h : Allowed row now added) {e e' period period' : Uuid} {action action' : EndAction}
    {t t' : Timestamp} (he : (e, AuditEvent.accountExportOnlyEnded action period t) ∈ added)
    (he' : (e', AuditEvent.accountExportOnlyEnded action' period' t') ∈ added) : e = e' := by
  cases h with
  | flags _ _ hplain | deleted hplain => cases hplain _ he
  | set p => cases List.mem_singleton.mp he
  | cleared => cases List.mem_singleton.mp he
  | disabled | ended =>
    cases List.mem_singleton.mp he
    cases List.mem_singleton.mp he'
    rfl

end Allowed

/-! ## Their effect -/

/-- An enabled admin is one no longer. -/
def Takes (row : AccountRow) (now : Option AccountRow) : Prop :=
  row.enabledAdmin = true ∧ now.any AccountRow.enabledAdmin = false

theorem not_takes (row : AccountRow) : ¬ Takes row (some row) := by
  rintro ⟨hwas, hnow⟩
  rw [Option.any_some, hwas] at hnow
  cases hnow

/-- What the commit of a change of the account `t` makes of the rows. -/
structure Effect (t : Uuid) (row : AccountRow) (now : Option AccountRow) (added : List (Uuid × AuditEvent))
    (db db' : Rows) : Prop where
  before : db.account t = some row
  after : db'.account t = now
  others : ∀ a, a ≠ t → db'.account a = db.account a
  events : ∀ e event, db'.auditEvent e = some event ↔ db.auditEvent e = some event ∨ (e, event) ∈ added
  fresh : ∀ e ∈ added, db.auditEvent e.1 = none
  check : Takes row now → ∃ b, b ≠ t ∧ EnabledAdmin db b

namespace Effect

variable {t : Uuid} {row : AccountRow} {now : Option AccountRow} {added : List (Uuid × AuditEvent)} {db db' : Rows}

theorem enabledAdmin (h : Effect t row now added db db') {a : Uuid} (ha : EnabledAdmin db a)
    (htakes : a = t → ¬ Takes row now) : EnabledAdmin db' a := by
  obtain ⟨r, hr, henabled⟩ := ha
  by_cases hat : a = t
  · subst hat
    obtain rfl := Option.some.inj (hr.symm.trans h.before)
    have hstill : now.any AccountRow.enabledAdmin = true :=
      Bool.eq_true_of_not_eq_false fun hno => htakes rfl ⟨henabled, hno⟩
    obtain ⟨row', hrow', hstill⟩ := Option.any_eq_true _ _ |>.mp hstill
    exact ⟨row', h.after.trans hrow', hstill⟩
  · exact ⟨r, (h.others a hat).trans hr, henabled⟩

theorem inPeriod (h : Effect t row now added db db') (hallowed : Allowed row now added) {a : Uuid} {p : ExportOnly}
    (hp : InPeriod db' a p) : InPeriod db a p ∨ a = t ∧ db.auditEvent p.setBy = none ∧
      db'.auditEvent p.setBy = some (.accountExportOnlySet p.exportOnlyUntil p.exportOnlyEndAction) := by
  obtain ⟨row', hrow', hperiod⟩ := hp
  by_cases hat : a = t
  · subst hat
    obtain rfl := h.after.symm.trans hrow'
    rcases hallowed.period hperiod with hbefore | hset
    · exact .inl ⟨row, h.before, hbefore⟩
    · exact .inr ⟨rfl, h.fresh _ hset, (h.events _ _).mpr (.inr hset)⟩
  · exact .inl ⟨row', (h.others a hat).symm.trans hrow', hperiod⟩

theorem inPeriod_of_ends (h : Effect t row now added db db') (hallowed : Allowed row now added) {e period : Uuid}
    {action : EndAction} {foundDueAt : Timestamp}
    (he : (e, AuditEvent.accountExportOnlyEnded action period foundDueAt) ∈ added) :
    (∃ p, InPeriod db t p ∧ p.setBy = period) ∧ ∀ p, ¬ InPeriod db' t p := by
  obtain ⟨p, hp, hperiod, -⟩ := hallowed.ends he
  refine ⟨⟨p, ⟨row, h.before, hp⟩, hperiod⟩, fun q hq => ?_⟩
  obtain ⟨row', hrow', hq⟩ := hq
  obtain rfl := h.after.symm.trans hrow'
  rw [hallowed.not_inPeriod_of_ends he] at hq
  cases hq

end Effect

section

variable {t : Uuid} {row : AccountRow} {now : Option AccountRow} {added : List (Uuid × AuditEvent)} {db db' : Rows}

theorem Due.effect (h : Effect t row now added db db') {action : EndAction} {period : Uuid} {foundDueAt : Timestamp}
    (hdue : Due db action period foundDueAt) : Due db' action period foundDueAt := by
  obtain ⟨exportOnlyUntil, endAction, hset, hrest⟩ := hdue
  exact ⟨exportOnlyUntil, endAction, (h.events _ _).mpr (.inl hset), hrest⟩

/-- **An allowed change keeps what holds of an instance.** -/
theorem Kept.effect (hdb : Kept db) (h : Effect t row now added db db') (hallowed : Allowed row now added) :
    Kept db' where
  admin := by
    obtain ⟨a, ha⟩ := hdb.admin
    by_cases htakes : Takes row now
    · obtain ⟨b, hb, henabled⟩ := h.check htakes
      exact ⟨b, h.enabledAdmin henabled fun heq => absurd heq hb⟩
    · exact ⟨a, h.enabledAdmin ha fun _ => htakes⟩
  full a row' hrow' hadmin := by
    by_cases hat : a = t
    · subst hat
      obtain rfl := h.after.symm.trans hrow'
      exact hallowed.full (hdb.full _ _ h.before) hadmin
    · exact hdb.full a row' ((h.others a hat).symm.trans hrow') hadmin
  due e action period foundDueAt he := by
    rcases (h.events _ _).mp he with he | he
    · exact (hdb.due _ _ _ _ he).effect h
    · obtain ⟨p, hp, rfl, hdue, hends⟩ := hallowed.ends he
      have hset := hdb.set t p ⟨row, h.before, hp⟩
      refine ⟨_, _, (h.events _ _).mpr (.inl hset), hdue, ?_⟩
      rintro rfl
      exact hends.2
  once e e' action action' period foundDueAt foundDueAt' he he' := by
    rcases (h.events _ _).mp he with he | he <;> rcases (h.events _ _).mp he' with he' | he'
    · exact hdb.once _ _ _ _ _ _ _ he he'
    · obtain ⟨⟨p, hp, hperiod⟩, -⟩ := h.inPeriod_of_ends hallowed he'
      exact absurd hperiod (hdb.past _ _ _ _ _ _ he hp)
    · obtain ⟨⟨p, hp, hperiod⟩, -⟩ := h.inPeriod_of_ends hallowed he
      exact absurd hperiod (hdb.past _ _ _ _ _ _ he' hp)
    · exact hallowed.ends_once he he'
  set a p hp := by
    rcases h.inPeriod hallowed hp with hp | ⟨-, -, hset⟩
    · exact (h.events _ _).mpr (.inl (hdb.set a p hp))
    · exact hset
  one a b p p' hp hp' heq := by
    rcases h.inPeriod hallowed hp with hp | ⟨rfl, hnone, -⟩ <;>
      rcases h.inPeriod hallowed hp' with hp' | ⟨rfl, hnone', -⟩
    · exact hdb.one a b p p' hp hp' heq
    · rw [← heq, hdb.set _ _ hp] at hnone'
      cases hnone'
    · rw [heq, hdb.set _ _ hp'] at hnone
      cases hnone
    · rfl
  past e action period foundDueAt a p he hp := by
    rintro rfl
    rcases (h.events _ _).mp he with he | he
    · rcases h.inPeriod hallowed hp with hp | ⟨-, hnone, -⟩
      · exact hdb.past _ _ _ _ _ _ he hp rfl
      · obtain ⟨_, _, hset, -⟩ := hdb.due _ _ _ _ he
        rw [hnone] at hset
        cases hset
    · obtain ⟨⟨q, hq, hperiod⟩, hnot⟩ := h.inPeriod_of_ends hallowed he
      rcases h.inPeriod hallowed hp with hbefore | ⟨rfl, -⟩
      · obtain rfl := hdb.one _ _ _ _ hq hbefore hperiod
        exact hnot p hp
      · exact hnot p hp

theorem Ends.effect (h : Effect t row now added db db') (hallowed : Allowed row now added) : Ends db db' := by
  intro e action period foundDueAt hnone he
  rcases (h.events _ _).mp he with he | he
  · rw [hnone] at he
    cases he
  · obtain ⟨p, hp, hperiod, hdue, hends⟩ := hallowed.ends he
    refine ⟨t, p, ⟨row, h.before, hp⟩, hperiod, hdue, ?_⟩
    cases action with
    | disable =>
      obtain ⟨row', hrow', hdisabled⟩ := hends
      exact ⟨row', h.after.trans hrow', hdisabled⟩
    | delete => exact ⟨h.after.trans hends.1, hends.2⟩

end

end SlugBase.Instance
