import SlugBase.Instance.Working

/-!
# The enabled admin of an instance

However the transactions of the requests go on, an instance keeps an enabled admin, none of its admins is in an
export-only period, and a period is ended once and not before its end date.

* `triple_sysInstanceUpdateAccount`, `triple_sysDeleteAccount`, `triple_accessModeApply`, `triple_endAccessMode`, …:
  each program commits what the contract promises;
* `instance`: the transactions of the requests of an instance that has been set up;
* **`instance_administered`**: what holds in every reachable state and of every commit.
-/

namespace SlugBase.Instance

open ReadCommitted Transition

/-! ## The admin flag and the disabled state -/

namespace UpdateAccountAsk

variable (ask : UpdateAccountAsk) (was : AccountRow)

theorem writes_plain {q : Statement} (hq : q ∈ ask.writes was) :
    q.Of ask.accountId ∧ ∀ e ∈ q.events, e.2.ofPeriod = false := by
  simp only [writes, List.mem_append, List.mem_ite_nil_right, List.mem_ite_nil_left, List.mem_singleton] at hq
  rcases hq with ((((⟨-, rfl⟩ | ⟨-, rfl⟩) | ⟨-, ⟨-, rfl⟩ | rfl⟩) | ⟨-, rfl⟩) | ⟨-, rfl⟩) | ⟨-, rfl⟩
  case inl.inl.inl.inl.inl | inl.inl.inl.inl.inr | inl.inl.inl.inr.inl | inl.inl.inl.inr.inr =>
    exact ⟨rfl, fun e he => absurd he List.not_mem_nil⟩
  all_goals
    refine ⟨trivial, fun e he => ?_⟩
    obtain rfl := List.mem_singleton.mp he
    try split
    all_goals rfl

theorem isAdmin_getD : ask.isAdmin.getD was.isInstanceAdmin =
    if ask.adminChange was then ask.isAdmin.getD false else was.isInstanceAdmin := by
  cases hb : ask.isAdmin with
  | none => simp [adminChange, hb]
  | some b => by_cases hsame : b = was.isInstanceAdmin <;> simp [adminChange, hb, hsame]

theorem isDisabled_getD : ask.isDisabled.getD was.disabledAt.isSome =
    if ask.disabledChange was then ask.isDisabled.getD false else was.disabledAt.isSome := by
  cases hb : ask.isDisabled with
  | none => simp [disabledChange, hb]
  | some b => by_cases hsame : b = was.disabledAt.isSome <;> simp [disabledChange, hb, hsame]

theorem writes_row : ∃ row, (ask.writes was).foldl Statement.row (some was) = some row ∧
    row.exportOnly = was.exportOnly ∧ row.isInstanceAdmin = ask.isAdmin.getD was.isInstanceAdmin ∧
    row.disabledAt.isSome = ask.isDisabled.getD was.disabledAt.isSome := by
  rw [isAdmin_getD, isDisabled_getD]
  unfold writes
  cases ask.adminChange was <;> cases ask.disabledChange was <;> cases ask.verifiedChange was <;>
    by_cases hself : ask.accountId = ask.appAccountId <;> cases ask.isDisabled.getD false <;>
    simp [Statement.row, AccountSet.apply, hself]

/-- The change is allowed unless it makes an admin of an account in a period. -/
theorem writes_allowed (h : ¬ (ask.isAdmin = some true ∧ was.isInstanceAdmin = false ∧ was.exportOnly.isSome = true)) :
    Allowed was ((ask.writes was).foldl Statement.row (some was)) ([] ++ (ask.writes was).flatMap Statement.events) := by
  obtain ⟨row, hrow, hperiod, hadmin, -⟩ := ask.writes_row was
  rw [hrow, List.nil_append]
  refine .flags hperiod (fun hgrant => ?_) fun e he => ?_
  · rw [hadmin] at hgrant
    by_contra hno
    rw [not_or, Bool.not_eq_true] at hno
    cases hasked : ask.isAdmin with
    | none =>
      rw [hasked, Option.getD_none, hno.1] at hgrant
      cases hgrant
    | some b =>
      rw [hasked, Option.getD_some] at hgrant
      exact h ⟨hgrant ▸ hasked, hno.1, Option.isSome_iff_ne_none.mpr hno.2⟩
  · obtain ⟨q, hq, he⟩ := List.mem_flatMap.mp he
    exact (ask.writes_plain was hq).2 e he

theorem takesAdmin_of_takes (h : Takes was ((ask.writes was).foldl Statement.row (some was))) :
    ask.takesAdmin was = true := by
  obtain ⟨row, hrow, -, hadmin, hdisabled⟩ := ask.writes_row was
  obtain ⟨hwas, hnow⟩ := h
  rw [hrow, Option.any_some, AccountRow.enabledAdmin, ← Option.not_isSome, hadmin, hdisabled] at hnow
  rw [takesAdmin, hwas, Bool.true_and]
  generalize ask.isAdmin.getD was.isInstanceAdmin = b at hnow
  generalize ask.isDisabled.getD was.disabledAt.isSome = b' at hnow
  revert b b'
  decide

end UpdateAccountAsk

theorem triple_sysInstanceUpdateAccount (ask : UpdateAccountAsk) :
    contract.Triple (Secured []) (sysInstanceUpdateAccount ask) := by
  unfold sysInstanceUpdateAccount
  split
  · exact .raise
  refine triple_forInstanceAdmin _ (triple_lockAccounts _ (triple_forInstanceAdmin _ ?_))
  refine .read (stable_secured _) fun {db x} hdb h => ?_
  rw [h.view]
  split
  · exact triple_refused _ _ _ _ hdb h
  rename_i was hwas
  split
  · exact triple_refused _ _ _ _ hdb h
  rename_i hgrant
  have hmem : ask.accountId ∈ [ask.appAccountId, ask.accountId] := List.mem_cons_of_mem _ List.mem_cons_self
  have hallowed := ask.writes_allowed was hgrant
  have hwrite (check : Prop) (hcheck : Takes was ((ask.writes was).foldl Statement.row (some was)) → check)
      (answer : Answer) : contract.Triple (Working ask.accountId was (some was) [] check)
        (writeAll (ask.writes was) (.done answer)) :=
    triple_writeAll _ (fun q hq => (ask.writes_plain was hq).1) (triple_done answer hallowed hcheck)
  split
  · -- another enabled admin is looked for under the advisory lock first
    exact triple_lastInstanceAdmin stable_working (fun k m h => h.locking k m)
      (fun h b hb => Held.lookup_view_of_notMem (h.others b hb) _)
      (triple_done _ (.unchanged was) fun h => absurd h (not_takes was))
      ((hwrite True (fun _ => trivial) _).of_imp fun _ h => { h.1 with checked := fun _ => h.2 }) _ _ hdb
      (h.working hmem hwas False.elim)
  · rename_i htakes
    exact hwrite False (fun h => htakes (ask.takesAdmin_of_takes was h)) _ _ _ hdb
      (h.working hmem hwas False.elim)

/-! ## The deletion of an account -/

section

variable {t : Uuid} {row : AccountRow} {c : Prop}

theorem triple_delete (statements : List Statement) (answer : Answer) (hof : ∀ q ∈ statements, q.Of t)
    (hallowed : Allowed row (statements.foldl Statement.row (some row)) ([] ++ statements.flatMap Statement.events))
    (htakes : row.enabledAdmin = true → c) :
    contract.Triple (Working t row (some row) [] c) (writeAll statements (.done answer)) :=
  triple_writeAll _ hof (triple_done answer hallowed fun h => htakes h.1)

end

theorem triple_sysDeleteAccount (ask : DeleteAccountAsk) : contract.Triple (Secured []) (sysDeleteAccount ask) := by
  unfold sysDeleteAccount
  split
  · exact triple_refused _ _
  refine triple_lockAccount ask.accountId (triple_sysAccountLastInstanceAdmin (triple_refused _ _) ?_)
  simp only [Bool.false_or]
  split
  · exact (triple_refused [ask.accountId] _).of_imp fun _ h => h.1
  refine .read (stable_sure _) fun {db x} hdb h => ?_
  rw [h.1.view]
  split
  · exact triple_refused _ _ _ _ hdb h.1
  rename_i hthere
  obtain ⟨row, hrow⟩ := Option.ne_none_iff_exists'.mp (Option.isNone_iff_eq_none.not.mp hthere)
  refine triple_delete (c := row.enabledAdmin = true) [.deleteAccount ask.accountId] (.flag true)
    (fun q hq => ?_) ?_ id _ _ hdb (h.1.working List.mem_cons_self hrow fun henabled => h.2 ⟨row, hrow, henabled⟩)
  · obtain rfl := List.mem_singleton.mp hq
    rfl
  · exact .deleted fun e he => absurd he List.not_mem_nil

theorem triple_sysInstanceDeleteAccount (appAccountId accountId eventId : Uuid) (scope : DeletionScope) :
    contract.Triple (Secured []) (sysInstanceDeleteAccount appAccountId accountId eventId scope) := by
  refine triple_forInstanceAdmin _ (triple_lockAccounts _ (triple_forInstanceAdmin _ ?_))
  refine .read (stable_secured _) fun {db x} hdb h => ?_
  rw [h.view]
  split
  · exact triple_refused _ _ _ _ hdb h
  rename_i row hrow
  have hmem : accountId ∈ [appAccountId, accountId] := List.mem_cons_of_mem _ List.mem_cons_self
  have hunchanged {check : Prop} (outcome : DeleteAccountOutcome) :
      contract.Triple (Working accountId row (some row) [] check) (.done (.deleteAccount outcome)) :=
    triple_done _ (.unchanged row) fun htakes => absurd htakes (not_takes row)
  have hdelete {check : Prop} (hcheck : row.enabledAdmin = true → check) :
      contract.Triple (Working accountId row (some row) [] check)
        (writeAll [.deleteAccount accountId, .insertAuditEvent eventId .accountDeleted]
          (.done (.deleteAccount .deleted))) := by
    refine triple_delete _ _ (fun q hq => ?_) (.deleted fun e he => ?_) hcheck
    · simp only [List.mem_cons, List.not_mem_nil, or_false] at hq
      rcases hq with rfl | rfl
      · rfl
      · trivial
    · obtain rfl := List.mem_singleton.mp he
      rfl
  have hdecide {check : Prop} (hcheck : row.enabledAdmin = true → check) :
      contract.Triple (Working accountId row (some row) [] check)
        (if accountId = appAccountId then .done (.deleteAccount .self)
        else if scope.blocking || !scope.soleAsAsked then .done (.deleteAccount .unavailable)
        else writeAll [.deleteAccount accountId, .insertAuditEvent eventId .accountDeleted]
          (.done (.deleteAccount .deleted))) := by
    split
    · exact hunchanged _
    split
    · exact hunchanged _
    · exact hdelete hcheck
  have hworking : Working accountId row (some row) [] False db x := h.working hmem hrow False.elim
  by_cases hadmin : row.isInstanceAdmin = true
  · have hchecked : contract.Triple (fun db x => Working accountId row (some row) [] False db x ∧ Checked accountId db x)
        _ := (hdecide fun _ => trivial).of_imp fun _ h => { h.1 with checked := fun _ => h.2 }
    simp only [hadmin, if_true]
    exact triple_lastInstanceAdmin stable_working (fun k m h => h.locking k m)
      (fun h b hb => Held.lookup_view_of_notMem (h.others b hb) _) (hunchanged _) hchecked _ _ hdb hworking
  · simp only [hadmin]
    exact hdecide (fun henabled => hadmin (Bool.and_eq_true_iff.mp henabled).1) _ _ hdb hworking

/-! ## The export-only access mode -/

theorem triple_accessModeApply {ids : List Uuid} {accountId : Uuid} (hmem : accountId ∈ ids)
    (change : AccessModeChange) (eventId : Uuid) (now : Timestamp) :
    contract.Triple (Secured ids) (accessModeApply accountId change eventId now) := by
  refine .read (stable_secured _) fun {db x} hdb h => ?_
  rw [h.view]
  split
  · exact triple_refused _ _ _ _ hdb h
  rename_i row hrow
  have hworking : Working accountId row (some row) [] False db x := h.working hmem hrow False.elim
  have hof {set : AccountSet} {event : AuditEvent} (q : Statement)
      (hq : q ∈ [Statement.updateAccount accountId set, .insertAuditEvent eventId event]) : q.Of accountId := by
    simp only [List.mem_cons, List.not_mem_nil, or_false] at hq
    rcases hq with rfl | rfl
    · rfl
    · trivial
  split
  · rename_i exportOnlyUntil endAction
    split
    · exact triple_refused _ _ _ _ hdb h
    split
    · exact triple_refused _ _ _ _ hdb h
    rename_i hadmin
    split
    · exact triple_refused _ _ _ _ hdb h
    split
    · exact triple_refused _ _ _ _ hdb h
    have hno : row.isInstanceAdmin = false := Bool.eq_false_of_not_eq_true hadmin
    refine triple_writeAll _ hof (triple_done _ (.set ⟨exportOnlyUntil, endAction, eventId⟩ hno) fun htakes => ?_)
      _ _ hdb hworking
    have henabled := (Bool.and_eq_true_iff.mp htakes.1).1
    exact hadmin henabled
  · split
    · exact triple_refused _ _ _ _ hdb h
    · refine triple_writeAll _ hof (triple_done _ (.cleared eventId) fun htakes => ?_) _ _ hdb hworking
      exact not_takes row htakes

theorem triple_sysInstanceSetAccountAccessMode (appAccountId accountId : Uuid) (change : AccessModeChange)
    (eventId : Uuid) (now : Timestamp) :
    contract.Triple (Secured []) (sysInstanceSetAccountAccessMode appAccountId accountId change eventId now) :=
  triple_forInstanceAdmin _ <| triple_lockAccounts _ <| triple_forInstanceAdmin _ <|
    triple_accessModeApply (List.mem_cons_of_mem _ List.mem_cons_self) change eventId now

theorem triple_sysAccountSetAccessMode (ask : SetAccessModeAsk) :
    contract.Triple (Secured []) (sysAccountSetAccessMode ask) := by
  unfold sysAccountSetAccessMode
  split
  · exact triple_refused _ _
  · exact triple_lockAccount _ (triple_accessModeApply List.mem_cons_self _ _ _)

theorem triple_sysAccountLastInstanceAdmin_of_not {t : Uuid} {row : AccountRow} (hno : row.isInstanceAdmin = false)
    {next : Bool → Program}
    (hnext : contract.Triple (fun db x => Secured [t] db x ∧ Working t row (some row) [] False db x) (next false)) :
    contract.Triple (fun db x => Secured [t] db x ∧ Working t row (some row) [] False db x)
      (sysAccountLastInstanceAdmin t next) := by
  refine .read ((stable_secured _).and stable_working) fun {db x} hdb h => ?_
  have hany : (Rows.account (x.view db) t).any AccountRow.isInstanceAdmin = false := by rw [h.2.after]; exact hno
  rw [hany]
  exact hnext _ _ hdb h

/-- The end of a period; what follows an end commits, and what follows anything else finds nothing written. -/
theorem triple_sysAccountAccessModeEnd {ids : List Uuid} (t : Uuid) (action : EndAction) (eventId : Uuid)
    (scope : DeletionScope) (now : Timestamp) {next : AccessModeEndStoreOutcome → Program}
    (hnext : ∀ outcome, contract.Triple (Secured [t]) (next outcome))
    (hdisabled : ∃ answer, next .disabled = .done answer) (hdeleted : ∃ answer, next .deleted = .done answer) :
    contract.Triple (Secured ids) (sysAccountAccessModeEnd t action eventId scope now next) := by
  refine triple_lockAccount t (.of_imp (G := Secured [t]) (.read (stable_secured _) fun {db x} hdb h => ?_)
    fun _ h => h.mono (List.cons_subset_cons t (List.nil_subset ids)))
  rw [h.view]
  split
  · exact hnext _ _ _ hdb h
  rename_i p hperiod
  obtain ⟨row, hrow, hp⟩ := Option.bind_eq_some_iff.mp hperiod
  split
  · exact hnext _ _ _ hdb h
  rename_i hnot
  rw [not_or, Nat.not_lt] at hnot
  obtain ⟨hdue, haction⟩ := hnot
  -- the account is in a period, so it is no admin
  have hno : row.isInstanceAdmin = false := by
    refine Bool.eq_false_of_not_eq_true fun hadmin => ?_
    rw [Administered.full hdb.toAdministered t row hrow hadmin] at hp
    cases hp
  have htakes (now : Option AccountRow) : Takes row now → False := fun htakes =>
    Bool.false_ne_true (hno.symm.trans (Bool.and_eq_true_iff.mp htakes.1).1)
  have hworking : Working t row (some row) [] False db x := h.working List.mem_cons_self hrow False.elim
  have hof (q' : Statement) (event : AuditEvent) (hq' : q'.Of t) (q : Statement)
      (hq : q ∈ [q', .insertAuditEvent eventId event]) : q.Of t := by
    simp only [List.mem_cons, List.not_mem_nil, or_false] at hq
    rcases hq with rfl | rfl
    · exact hq'
    · trivial
  cases action with
  | disable =>
    obtain ⟨answer, hanswer⟩ := hdisabled
    simp only [hanswer]
    exact triple_writeAll _ (hof (.updateAccount t (.exportOnlyEnded now)) _ rfl)
      (triple_done answer (.disabled eventId hp hdue) (htakes _)) _ _ hdb hworking
  | delete =>
    obtain ⟨answer, hanswer⟩ := hdeleted
    have hdelete : p.exportOnlyEndAction = .delete := by simpa using haction
    simp only [hanswer]
    split
    · exact hnext _ _ _ hdb h
    refine triple_sysAccountLastInstanceAdmin_of_not hno ?_ _ _ hdb ⟨h, hworking⟩
    simp only [Bool.false_eq_true, if_false]
    split
    · exact (hnext _).of_imp fun _ h => h.1
    · have hended := triple_done (t := t) answer (.ended eventId hp hdue hdelete) (htakes _)
      exact .of_imp (triple_writeAll _ (hof (.deleteAccount t) _ rfl) hended) fun _ h => h.2

theorem triple_endAccessMode (ask : EndAccessModeAsk) : contract.Triple (Secured []) (endAccessMode ask) := by
  have hend {ids : List Uuid} {next : AccessModeEndStoreOutcome → Program}
      (hnext : ∀ outcome, ∃ answer, next outcome = .done answer) : contract.Triple (Secured ids)
        (sysAccountAccessModeEnd ask.accountId .disable ask.disableEventId ask.scope ask.now next) := by
    refine triple_sysAccountAccessModeEnd _ _ _ _ _ (fun outcome => ?_) (hnext .disabled) (hnext .deleted)
    obtain ⟨answer, hanswer⟩ := hnext outcome
    rw [hanswer]
    exact triple_refused _ _
  unfold endAccessMode
  split
  · exact hend fun outcome => by cases outcome <;> exact ⟨_, rfl⟩
  refine triple_lockAccount ask.accountId (triple_sysAccountLastInstanceAdmin ?_ ?_)
  · rw [Bool.or_true, if_pos rfl]
    exact hend fun outcome => by cases outcome <;> exact ⟨_, rfl⟩
  rw [Bool.or_false]
  refine .of_imp (G := Secured [ask.accountId]) ?_ fun _ h => h.1
  split
  · exact hend fun outcome => by cases outcome <;> exact ⟨_, rfl⟩
  refine triple_sysAccountAccessModeEnd _ _ _ _ _ (fun outcome => ?_) ⟨_, rfl⟩ ⟨_, rfl⟩
  cases outcome with
  | blocked => exact hend fun outcome => by cases outcome <;> exact ⟨_, rfl⟩
  | disabled | deleted | notDue | unavailable => exact triple_refused _ _

/-! ## Every run -/

/-- A statement that leaves the flags of an account alone. -/
theorem triple_columns {t : Uuid} {set : AccountSet} (answer : Answer)
    (hset : ∀ row, (set.apply row).exportOnly = row.exportOnly ∧
      (set.apply row).isInstanceAdmin = row.isInstanceAdmin ∧ (set.apply row).disabledAt = row.disabledAt) :
    contract.Triple (Secured []) (writeAll [.updateAccount t set] (.done answer)) := by
  refine .write (stable_secured _) (fun {db x} hdb h _ => triple_refused _ _ _ _ hdb h)
    fun {db x row} hdb h hchange => ?_
  have hchange : (Statement.updateAccount t set).change (x.view db) = .becomes row := hchange
  rw [h.view, Statement.change] at hchange
  split at hchange
  · cases hchange
  rename_i was hwas
  cases hchange
  obtain ⟨hperiod, hadmin, hdisabled⟩ := hset was
  refine triple_done answer (.flags hperiod (fun hgrant => .inl (hadmin ▸ hgrant)) fun e he => absurd he List.not_mem_nil)
    (fun htakes => ?_) _ _ hdb (h.wrote hwas set)
  obtain ⟨henabled, hnow⟩ := htakes
  rw [Option.any_some, AccountRow.enabledAdmin, hadmin, hdisabled] at hnow
  exact Bool.false_ne_true (hnow.symm.trans henabled)

theorem Request.program_triple (request : Request) :
    contract.Triple (fun _ x => x = .empty) request.program := by
  have hempty {p : Program} (h : contract.Triple (Secured []) p) : contract.Triple (fun _ x => x = .empty) p :=
    h.of_imp fun {db x} _ hx => hx ▸ Secured.empty db
  refine hempty ?_
  cases request with
  | updateAccount ask => exact triple_sysInstanceUpdateAccount ask
  | deleteAccount ask => exact triple_sysDeleteAccount ask
  | instanceDeleteAccount => exact triple_sysInstanceDeleteAccount _ _ _ _
  | instanceSetAccessMode => exact triple_sysInstanceSetAccountAccessMode _ _ _ _ _
  | setAccessMode ask => exact triple_sysAccountSetAccessMode ask
  | endAccessMode ask => exact triple_endAccessMode ask
  | verifyEmail => exact triple_columns _ fun _ => ⟨rfl, rfl, rfl⟩
  | setSecondFactor => exact triple_columns _ fun _ => ⟨rfl, rfl, rfl⟩

/-- An instance that has been set up: it has an enabled admin, and no account has been in a period. An account that is
made later is one of these that nobody has named yet. -/
structure SetUp (db : Rows) : Prop where
  admin : ∃ a, EnabledAdmin db a
  full : ∀ a row, db.account a = some row → row.exportOnly = none
  quiet : ∀ e event, db.auditEvent e = some event → event.ofPeriod = false

theorem SetUp.kept {db : Rows} (h : SetUp db) : Kept db := by
  have hnone {a : Uuid} {p : ExportOnly} : ¬ InPeriod db a p := by
    rintro ⟨row, hrow, hp⟩
    rw [h.full a row hrow] at hp
    cases hp
  have hquiet {e period : Uuid} {action : EndAction} {t : Timestamp} :
      db.auditEvent e ≠ some (.accountExportOnlyEnded action period t) := fun he => by cases h.quiet e _ he
  exact {
    admin := h.admin
    full := fun a row hrow _ => h.full a row hrow
    due := fun _ _ _ _ he => absurd he hquiet
    once := fun _ _ _ _ _ _ _ he => absurd he hquiet
    set := fun _ _ hp => absurd hp hnone
    one := fun _ _ _ _ hp => absurd hp hnone
    past := fun _ _ _ _ _ _ he => absurd he hquiet }

/-- **The transactions of the requests of an instance that has been set up.** -/
def administration : System (Sys Row Statement Empty Answer) (Action Request) := system rules Request.program SetUp

theorem holds {s : Sys Row Statement Empty Answer} (h : administration.Reachable s) :
    s.Holds Kept contract.InFlight :=
  contract.holds (fun _ _ _ => rfl) Request.program_triple (fun _ hdb => hdb.kept) h

/-- **An instance keeps an enabled admin, none of its admins is in a period, and every period is ended once and when it is
due**, however the transactions of the requests go on; and a commit ends only the period its account is in, by the action
stored with it when that is a deletion. -/
theorem instance_administered {s : Sys Row Statement Empty Answer} (h : administration.Reachable s) :
    Administered s.committed ∧
      ∀ a s', s.step rules Request.program a = some s' → Ends s.committed s'.committed := by
  have hs := holds h
  refine ⟨hs.committed.toAdministered, fun a s' hstep => ?_⟩
  have hidle : Ends s.committed s.committed := by
    intro e action period t hnone hsome
    rw [hnone] at hsome
    cases hsome
  cases Sys.moves_of_step hstep with
  | starts | ends | goes => exact hidle
  | @commits t y hy hready =>
    obtain ⟨⟨answer, hprog⟩, -⟩ := hready
    rcases (hs.inFlight t y hy).promise hprog with hnothing | ⟨t, row, now, added, hallowed, hworking⟩
    · have hview : y.view s.committed = s.committed := Held.view_of_written_nil (x := y.held) hnothing s.committed
      rw [hview]
      exact hidle
    · exact Ends.effect hworking.effect hallowed

/-- An instance with an admin and two accounts. -/
def started : Sys Row Statement Empty Answer where
  committed := (((∅ : Rows).insert (.account 1) ⟨some 0, none, some 0, true, none⟩).insert (.account 2)
    ⟨some 0, none, some 0, false, none⟩).insert (.account 3) ⟨some 0, none, none, false, none⟩
  txns := ∅

/-- A transaction from its start through this many steps. -/
def transaction (t : ℕ) (request : Request) (steps : ℕ) : List (Action Request) :=
  .start t request :: List.replicate steps (.run t)

/-- The admin makes another one and is disabled by it, and an account is deleted at the end of its period. -/
def played : List (Action Request) :=
  transaction 0 (.updateAccount ⟨1, 2, some true, none, false, 20, 21, 22, 5⟩) 8 ++
    transaction 1 (.instanceSetAccessMode 1 3 (.exportOnly (oneDay + 9) .delete) 23 8) 8 ++
    transaction 2 (.updateAccount ⟨2, 1, none, some true, false, 24, 25, 26, 9⟩) 10 ++
    transaction 3 (.endAccessMode ⟨3, .delete, 27, 28, ⟨false, true⟩, oneDay + 9⟩) 8

theorem started_reachable : administration.Reachable started := by
  refine .init ⟨⟨⟨1, _, rfl, rfl⟩, fun a row hrow => ?_, fun e event he => ?_⟩, rfl⟩
  · simp only [started, Rows.account] at hrow
    by_cases h3 : a = 3
    · subst h3; cases hrow; rfl
    by_cases h2 : a = 2
    · subst h2; cases hrow; rfl
    by_cases h1 : a = 1
    · subst h1; cases hrow; rfl
    rw [AList.lookup_insert_ne (by simp [h3]), AList.lookup_insert_ne (by simp [h2]),
      AList.lookup_insert_ne (by simp [h1])] at hrow
    cases hrow
  · cases he

/-- The first admin is disabled and the account whose period ended is gone. -/
theorem instance_administered_played :
    ∃ s, administration.Reachable s ∧ ¬ EnabledAdmin s.committed 1 ∧ Rows.account s.committed 3 = none ∧
      Administered s.committed := by
  have hplayed : (started.run rules Request.program played).map (fun s =>
      ((Rows.account s.committed 1).any AccountRow.enabledAdmin, Rows.account s.committed 3)) =
        some (false, none) := by
    decide +kernel
  obtain ⟨s, hs, hfound⟩ := Option.map_eq_some_iff.mp hplayed
  obtain ⟨hdisabled, hgone⟩ := Prod.ext_iff.mp hfound
  have hreach : administration.Reachable s := reachable_of_run (fun _ _ _ h => h) started_reachable hs
  refine ⟨s, hreach, ?_, hgone, (instance_administered hreach).1⟩
  rintro ⟨row, hrow, henabled⟩
  simp only [hrow, Option.any_some, henabled] at hdisabled
  cases hdisabled

end SlugBase.Instance
