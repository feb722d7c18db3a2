import SlugBase.Members.Accounts

/-!
# A workspace that has an owner keeps one

However the transactions of the requests interleave, the deferred trigger and the lock it takes see to it that no
commit takes the last owner of a workspace that is not being deleted.

* `Settled`, `Ending`: what the trigger has found out for a transaction, and where it is while it does;
* `InFlight`: what holds of every transaction in flight; **`guarantee`**: every transaction keeps it, and every commit
  of another keeps it;
* **`workspace_keeps_owner`**: a workspace that has had an owner, still exists and is not being deleted has one.
-/

namespace SlugBase.Members

open ReadCommitted Transition Rows

/-- A transaction over the tenancy tables. -/
abbrev Transaction := Txn Row Statement MemberChange Answer

/-! ## What the trigger has found out -/

/-- The transaction has made sure about a workspace: it holds the workspace's lock and sees an owner, or the
workspace is being deleted. -/
def Settled (db : Rows) (x : Transaction) (w : Uuid) : Prop :=
  ((Key.workspace w, LockMode.noKeyUpdate) ∈ x.locks ∧ Owned (x.view db) w) ∨ Deleting (x.view db) w

/-- The transaction has made sure about every workspace whose owners these changes took. -/
def AllSettled (db : Rows) (x : Transaction) (changes : List MemberChange) : Prop :=
  ∀ e ∈ changes, e.losesOwner = true → Settled db x e.workspaceId

/-- Where a transaction is: before the end of its own program, or at some point of the trigger's function, which
writes nothing. -/
inductive Ending (db : Rows) (x : Transaction) : Prop
  | working : x.handled = [] → Ending db x
  | refused : x.prog = .raise → Ending db x
  | checked (answer : Answer) : x.prog = .done answer → AllSettled db x x.handled → Ending db x
  | locking (answer : Answer) (e : MemberChange) (before : List MemberChange) : x.handled = e :: before →
      x.prog = lockOwned e.workspaceId (.done answer) → AllSettled db x before → Ending db x
  | counting (answer : Answer) (e : MemberChange) (before : List MemberChange) : x.handled = e :: before →
      x.prog = countOwners e.workspaceId (.done answer) → (.workspace e.workspaceId, .noKeyUpdate) ∈ x.locks →
        AllSettled db x before → Ending db x

/-- **What holds of every transaction in flight.** -/
structure InFlight (db : Rows) (x : Transaction) : Prop where
  /-- a membership is of a workspace that is there -/
  tenancy : ∀ w a m, member (x.view db) w a = some m → ∃ r, workspace (x.view db) w = some r
  /-- no committed workspace is gone, and none that is being deleted has been taken back -/
  keeps : db.Keeps (x.view db)
  /-- whose owner the transaction took, it has queued the trigger for -/
  queued : ∀ w a m, db.member w a = some m → m.role = .owner →
    (∀ m', member (x.view db) w a = some m' → m'.role ≠ .owner) →
      ∃ e ∈ x.events ++ x.handled, e.workspaceId = w ∧ e.losesOwner = true
  /-- the trigger is queued for workspaces that are there -/
  there : ∀ e ∈ x.events ++ x.handled, ∃ r, workspace (x.view db) e.workspaceId = some r
  ending : Ending db x

/-! ## A statement -/

section

variable {db : Rows} {free : Key → LockMode → Bool} {x x' : Transaction}

theorem Settled.of_view {w : Uuid} (h : Settled db x w) (hview : x'.view db = x.view db)
    (hlocks : ∀ l ∈ x.locks, l ∈ x'.locks) : Settled db x' w := by
  rw [Settled, hview]
  exact h.imp_left fun hown => ⟨hlocks _ hown.1, hown.2⟩

theorem AllSettled.of_view {changes : List MemberChange} (h : AllSettled db x changes)
    (hview : x'.view db = x.view db) (hlocks : ∀ l ∈ x.locks, l ∈ x'.locks) : AllSettled db x' changes :=
  fun e he hloses => (h e he hloses).of_view hview hlocks

/-- A step that writes nothing keeps what holds of the rows. -/
theorem InFlight.of_writes (h : InFlight db x) (hwrites : x'.writes = x.writes)
    (hmem : ∀ e, e ∈ x'.events ++ x'.handled ↔ e ∈ x.events ++ x.handled) (hending : Ending db x') :
    InFlight db x' := by
  have hview : x'.view db = x.view db := by rw [Txn.view, Txn.view, hwrites]
  refine ⟨?_, ?_, ?_, ?_, hending⟩
  · rw [hview]
    exact h.tenancy
  · rw [hview]
    exact h.keeps
  · intro w a m hm hrole hlost
    rw [hview] at hlost
    obtain ⟨e, he, hw⟩ := h.queued w a m hm hrole hlost
    exact ⟨e, (hmem e).mpr he, hw⟩
  · intro e he
    rw [hview]
    exact h.there e ((hmem e).mp he)

theorem Ending.read (h : Ending db x) {next : AList Row → Program} (hprog : x.prog = .read next) :
    Ending db { x with prog := next (x.view db) } := by
  cases h with
  | working hnil => exact .working hnil
  | refused hraise => rw [hraise] at hprog; cases hprog
  | checked answer hdone => rw [hdone] at hprog; cases hprog
  | locking answer e before _ hlock => rw [hlock] at hprog; cases hprog
  | counting answer e before hhandled hcount hlock hbefore =>
    rw [hcount, countOwners] at hprog
    cases hprog
    by_cases howner : hasOwner (x.view db) e.workspaceId = true
    · refine .checked answer (if_pos howner) fun e' he' hloses => ?_
      rcases List.mem_cons.mp (hhandled ▸ he') with rfl | hbefore'
      · exact .inl ⟨hlock, hasOwner_iff.mp howner⟩
      · exact hbefore e' hbefore' hloses
    · exact .refused (if_neg howner)

/-- The trigger's function finds a workspace that is being deleted. -/
theorem Ending.missed (h : Ending db x) (hthere : ∀ e ∈ x.handled, ∃ r, workspace (x.view db) e.workspaceId = some r)
    {key : Key} {mode : LockMode} {wanted : Option (Row key) → Bool} {next : Bool → Program}
    (hprog : x.prog = .lock key mode wanted next) (hwanted : wanted ((x.view db).lookup key) = false) :
    Ending db { x with prog := next false } := by
  cases h with
  | working hnil => exact .working hnil
  | refused hraise => rw [hraise] at hprog; cases hprog
  | checked answer hdone => rw [hdone] at hprog; cases hprog
  | counting answer e before _ hcount => rw [hcount] at hprog; cases hprog
  | locking answer e before hhandled hlock hbefore =>
    rw [hlock, lockOwned] at hprog
    cases hprog
    refine .checked answer rfl fun e' he' hloses => ?_
    rcases List.mem_cons.mp (hhandled ▸ he') with rfl | hbefore'
    · obtain ⟨r, hr⟩ := hthere e' (hhandled ▸ List.mem_cons_self)
      have hlive : live (some r) = false := hr ▸ hwanted
      rw [live, Option.isNone_eq_false_iff] at hlive
      exact .inr ⟨r, hr, Option.isSome_iff_ne_none.mp hlive⟩
    · exact hbefore e' hbefore' hloses

theorem Ending.locked (h : Ending db x) {key : Key} {mode : LockMode} {wanted : Option (Row key) → Bool}
    {next : Bool → Program} (hprog : x.prog = .lock key mode wanted next) :
    Ending db { x with prog := next true, locks := (key, mode) :: x.locks } := by
  cases h with
  | working hnil => exact .working hnil
  | refused hraise => rw [hraise] at hprog; cases hprog
  | checked answer hdone => rw [hdone] at hprog; cases hprog
  | counting answer e before _ hcount => rw [hcount] at hprog; cases hprog
  | locking answer e before hhandled hlock hbefore =>
    rw [hlock, lockOwned] at hprog
    cases hprog
    exact .counting answer e before hhandled rfl List.mem_cons_self
      (hbefore.of_view rfl fun l hl => List.mem_cons_of_mem _ hl)

/-- The trigger's function is about to look at the next change. -/
theorem Ending.handles (h : Ending db x) {answer : Answer} {e : MemberChange} {events : List MemberChange}
    (hprog : x.prog = .done answer) :
    Ending db { x with
      prog := workspaceMembersCheckOwner e x.prog, events := events, handled := e :: x.handled } := by
  have hsettled : AllSettled db x x.handled := by
    cases h with
    | working hnil => exact fun e he => absurd (hnil ▸ he) List.not_mem_nil
    | checked _ _ hsettled => exact hsettled
    | refused hraise => rw [hraise] at hprog; cases hprog
    | locking _ e _ _ hlock => rw [hlock] at hprog; cases hprog
    | counting _ e _ _ hcount => rw [hcount] at hprog; cases hprog
  by_cases hloses : e.losesOwner = true
  · refine .locking answer e x.handled rfl ?_ (hsettled.of_view rfl fun _ hl => hl)
    rw [workspaceMembersCheckOwner, if_pos hloses, hprog]
  · refine .checked answer ?_ fun e' he' hloses' => ?_
    · rw [workspaceMembersCheckOwner, if_neg hloses, hprog]
    · rcases List.mem_cons.mp he' with rfl | he'
      · exact absurd hloses' hloses
      · exact (hsettled e' he' hloses').of_view rfl fun _ hl => hl

theorem Ending.not_handled (h : Ending db x) {q : Statement} {next : Bool → Program} (hprog : x.prog = .write q next) :
    x.handled = [] := by
  cases h with
  | working hnil => exact hnil
  | refused hraise => rw [hraise] at hprog; cases hprog
  | checked _ hdone => rw [hdone] at hprog; cases hprog
  | locking _ e _ _ hlock => rw [hlock] at hprog; cases hprog
  | counting _ e _ _ hcount => rw [hcount] at hprog; cases hprog

theorem queued_of_lost {k : Key} {row : Option (Row k)} {w a : Uuid} {m : MemberRow} (hm : member db w a = some m)
    (hrole : m.role = .owner) (hlost : ∀ m', member (put db k row) w a = some m' → m'.role ≠ .owner) :
    ∃ e ∈ workspaceMembersOwnerRequired k (db.lookup k) row, e.workspaceId = w ∧ e.losesOwner = true := by
  by_cases hk : Key.member w a = k
  · subst hk
    have hold : db.lookup (.member w a) = some m := hm
    rw [hold]
    refine ⟨⟨w, m, row⟩, List.mem_singleton_self _, rfl, ?_⟩
    cases row with
    | none => exact decide_eq_true hrole
    | some m' => exact decide_eq_true ⟨hrole, hlost m' (lookup_put_self _ _ _)⟩
  · exact absurd hrole (hlost m ((lookup_put_ne _ _ hk).trans hm))

theorem member_of_queued {k : Key} {row : Option (Row k)} {e : MemberChange}
    (he : e ∈ workspaceMembersOwnerRequired k (db.lookup k) row) :
    ∃ a m, member db e.workspaceId a = some m := by
  cases k with
  | member w a =>
    cases hm : db.lookup (.member w a) with
    | none => rw [hm] at he; cases he
    | some m =>
      rw [hm] at he
      obtain rfl := List.mem_singleton.mp he
      exact ⟨a, m, hm⟩
  | workspace | account | instanceAdmins => cases he

theorem InFlight.wrote (h : InFlight db x) {q : Statement} {next : Bool → Program} {row : Option (Row q.target)}
    (hprog : x.prog = .write q next) (hchange : q.change (x.view db) = .becomes row) :
    InFlight db (x.wrote (rules Answer) db q row (next true)) := by
  have hview : (x.wrote (rules Answer) db q row (next true)).view db = put (x.view db) q.target row :=
    applied_concat _ _ _
  have hstays := Statement.keeps_of_becomes hchange
  have hmem (e : MemberChange) :
      e ∈ (x.wrote (rules Answer) db q row (next true)).events ++ x.handled ↔
        e ∈ x.events ++ x.handled ∨
          e ∈ workspaceMembersOwnerRequired q.target ((x.view db).lookup q.target) row := by
    show e ∈ x.events ++ workspaceMembersOwnerRequired q.target ((x.view db).lookup q.target) row ++ x.handled ↔ _
    rw [List.mem_append, List.mem_append, List.mem_append]
    exact or_right_comm
  refine ⟨fun w a m hm => ?_, ?_, fun w a m hm hrole hlost => ?_, fun e he => ?_, ?_⟩
  · rw [hview] at hm ⊢
    have hbefore : ∃ r, workspace (x.view db) w = some r := by
      rcases Statement.workspace_of_member hchange hm with ⟨m', hm'⟩ | hr
      · exact h.tenancy w a m' hm'
      · exact hr
    obtain ⟨r, hr⟩ := hbefore
    obtain ⟨r', hr', -⟩ := hstays w r hr
    exact ⟨r', hr'⟩
  · rw [hview]
    exact h.keeps.trans hstays
  · rw [hview] at hlost
    by_cases hbefore : ∃ m', member (x.view db) w a = some m' ∧ m'.role = .owner
    · obtain ⟨m', hm', hrole'⟩ := hbefore
      obtain ⟨e, he, hloses⟩ := queued_of_lost hm' hrole' hlost
      exact ⟨e, (hmem e).mpr (.inr he), hloses⟩
    · obtain ⟨e, he, hloses⟩ := h.queued w a m hm hrole fun m' hm' hrole' => hbefore ⟨m', hm', hrole'⟩
      exact ⟨e, (hmem e).mpr (.inl he), hloses⟩
  · have hbefore : ∃ r, workspace (x.view db) e.workspaceId = some r := by
      rcases (hmem e).mp he with he | he
      · exact h.there e he
      · obtain ⟨a, m, hm⟩ := member_of_queued he
        exact h.tenancy _ a m hm
    obtain ⟨r, hr⟩ := hbefore
    obtain ⟨r', hr', -⟩ := hstays _ r hr
    rw [hview]
    exact ⟨r', hr'⟩
  · exact .working (h.ending.not_handled hprog)

/-- **A step of the transaction** keeps what holds of it. -/
theorem InFlight.step (h : InFlight db x) (hstep : x.Step (rules Answer) db free x') : InFlight db x' := by
  cases hstep with
  | read hprog => exact h.of_writes rfl (fun _ => Iff.rfl) (h.ending.read hprog)
  | missed hprog hwanted =>
    exact h.of_writes rfl (fun _ => Iff.rfl)
      (h.ending.missed (fun e he => h.there e (List.mem_append_right _ he)) hprog hwanted)
  | locked hprog => exact h.of_writes rfl (fun _ => Iff.rfl) (h.ending.locked hprog)
  | unchanged hprog => exact h.of_writes rfl (fun _ => Iff.rfl) (.working (h.ending.not_handled hprog))
  | wrote hprog hchange => exact h.wrote hprog hchange
  | @handles answer e events hprog hevents =>
    refine h.of_writes rfl (fun e' => ?_) (h.ending.handles hprog)
    simp only [hevents, List.mem_append, List.mem_cons]
    rw [or_assoc, or_left_comm]

end

/-! ## The commit of another transaction -/

section

variable {db : Rows} {x y : Transaction}

theorem InFlight.view_keeps (hy : InFlight db y) (x : Transaction) : Keeps (x.view db) (x.view (y.view db)) := by
  intro w r hr
  by_cases hw : Key.workspace w ∈ x.written
  · exact ⟨r, (Txn.lookup_view_of_mem hw _ _).trans hr, id⟩
  · have hdb : workspace db w = some r := (Txn.lookup_view_of_notMem hw _).symm.trans hr
    obtain ⟨r', hr', hd⟩ := hy.keeps w r hdb
    exact ⟨r', (Txn.lookup_view_of_notMem hw _).trans hr', hd⟩

theorem InFlight.settled (hy : InFlight db y) (hready : y.Ready) {w a : Uuid} {m : MemberRow}
    (hm : member db w a = some m) (hrole : m.role = .owner)
    (hlost : ∀ m', member (y.view db) w a = some m' → m'.role ≠ .owner) : Settled db y w := by
  obtain ⟨⟨answer, hprog⟩, hevents⟩ := hready
  obtain ⟨e, he, rfl, hloses⟩ := hy.queued w a m hm hrole hlost
  rw [hevents, List.nil_append] at he
  cases hy.ending with
  | working hnil => exact absurd (hnil ▸ he) List.not_mem_nil
  | checked _ _ hsettled => exact hsettled e he hloses
  | refused hraise => rw [hraise] at hprog; cases hprog
  | locking _ e _ _ hlock => rw [hlock] at hprog; cases hprog
  | counting _ e _ _ hcount => rw [hcount] at hprog; cases hprog

/-- What a transaction has made sure about stays so: who would take the owner it sees must hold the same lock. -/
theorem InFlight.settled_commit (hx : InFlight db x) (hy : InFlight db y) (hready : y.Ready) (hapart : x.Apart y)
    (hdisjoint : ∀ k ∈ x.written, k ∉ y.written) {w : Uuid} (h : Settled db x w) : Settled (y.view db) x w := by
  rcases h with ⟨hlock, a, m, hm, hrole⟩ | ⟨r, hr, hdeleting⟩
  · by_cases hwritten : Key.member w a ∈ x.written
    · exact .inl ⟨hlock, a, m, (Txn.lookup_view_of_mem hwritten _ _).trans hm, hrole⟩
    · have hdb : member db w a = some m := (Txn.lookup_view_of_notMem hwritten _).symm.trans hm
      by_cases hstill : ∃ m', member (y.view db) w a = some m' ∧ m'.role = .owner
      · obtain ⟨m', hm', hrole'⟩ := hstill
        exact .inl ⟨hlock, a, m', (Txn.lookup_view_of_notMem hwritten _).trans hm', hrole'⟩
      · rcases hy.settled hready hdb hrole fun m' hm' hrole' => hstill ⟨m', hm', hrole'⟩ with
          ⟨hlock', -⟩ | ⟨r, hr, hdeleting⟩
        · have hno := hapart _ hlock _ hlock' rfl
          cases hno
        · right
          by_cases hw : Key.workspace w ∈ x.written
          · have hdb' : workspace db w = some r := (Txn.lookup_view_of_notMem (hdisjoint _ hw) _).symm.trans hr
            obtain ⟨r', hr', hd⟩ := hx.keeps w r hdb'
            exact ⟨r', (Txn.lookup_view_of_mem hw _ _).trans hr', hd hdeleting⟩
          · exact ⟨r, (Txn.lookup_view_of_notMem hw _).trans hr, hdeleting⟩
  · obtain ⟨r', hr', hd⟩ := hy.view_keeps x w r hr
    exact .inr ⟨r', hr', hd hdeleting⟩

theorem Ending.commit (hx : InFlight db x) (hy : InFlight db y) (hready : y.Ready) (hapart : x.Apart y)
    (hdisjoint : ∀ k ∈ x.written, k ∉ y.written) : Ending (y.view db) x := by
  have hall {changes : List MemberChange} (h : AllSettled db x changes) : AllSettled (y.view db) x changes :=
    fun e he hloses => hx.settled_commit hy hready hapart hdisjoint (h e he hloses)
  cases hx.ending with
  | working hnil => exact .working hnil
  | refused hprog => exact .refused hprog
  | checked answer hprog hsettled => exact .checked answer hprog (hall hsettled)
  | locking answer e before hhandled hprog hbefore => exact .locking answer e before hhandled hprog (hall hbefore)
  | counting answer e before hhandled hprog hlock hbefore =>
    exact .counting answer e before hhandled hprog hlock (hall hbefore)

/-- **The commit of another transaction** keeps what holds of this one. -/
theorem InFlight.commit (hx : InFlight db x) (hy : InFlight db y) (hready : y.Ready) (hapart : x.Apart y)
    (hdisjoint : ∀ k ∈ x.written, k ∉ y.written) : InFlight (y.view db) x := by
  have hstays := hy.view_keeps x
  refine ⟨fun w a m hm => ?_, fun w r hr => ?_, fun w a m hm hrole hlost => ?_, fun e he => ?_,
    .commit hx hy hready hapart hdisjoint⟩
  · by_cases hwritten : Key.member w a ∈ x.written
    · obtain ⟨r, hr⟩ := hx.tenancy w a m ((Txn.lookup_view_of_mem hwritten _ _).trans hm)
      obtain ⟨r', hr', -⟩ := hstays w r hr
      exact ⟨r', hr'⟩
    · obtain ⟨r, hr⟩ := hy.tenancy w a m ((Txn.lookup_view_of_notMem hwritten _).symm.trans hm)
      by_cases hw : Key.workspace w ∈ x.written
      · have hdb : workspace db w = some r := (Txn.lookup_view_of_notMem (hdisjoint _ hw) _).symm.trans hr
        obtain ⟨r', hr', -⟩ := hx.keeps w r hdb
        exact ⟨r', (Txn.lookup_view_of_mem hw _ _).trans hr'⟩
      · exact ⟨r, (Txn.lookup_view_of_notMem hw _).trans hr⟩
  · by_cases hw : Key.workspace w ∈ x.written
    · obtain ⟨r', hr', hd⟩ := hx.keeps w r ((Txn.lookup_view_of_notMem (hdisjoint _ hw) _).symm.trans hr)
      exact ⟨r', (Txn.lookup_view_of_mem hw _ _).trans hr', hd⟩
    · exact ⟨r, (Txn.lookup_view_of_notMem hw _).trans hr, id⟩
  · by_cases hwritten : Key.member w a ∈ x.written
    · refine hx.queued w a m ((Txn.lookup_view_of_notMem (hdisjoint _ hwritten) _).symm.trans hm) hrole ?_
      intro m' hm'
      exact hlost m' ((Txn.lookup_view_of_mem hwritten _ _).trans hm')
    · exact absurd hrole (hlost m ((Txn.lookup_view_of_notMem hwritten _).trans hm))
  · obtain ⟨r, hr⟩ := hx.there e he
    obtain ⟨r', hr', -⟩ := hstays _ r hr
    exact ⟨r', hr'⟩

end

/-! ## Every run -/

/-- A membership is of a workspace that is there. -/
def Tenancy (db : Rows) : Prop := ∀ w a m, member db w a = some m → ∃ r, workspace db w = some r

/-- The database before its first workspace: accounts only. -/
def NoWorkspaces (db : Rows) : Prop := (∀ w, workspace db w = none) ∧ ∀ w a, member db w a = none

/-- **The transactions of the requests**, each from its start to its commit or its end without one. -/
def membership : System (Sys Row Statement MemberChange Answer) (Action Request) :=
  system (rules Answer) Request.program NoWorkspaces

/-- **Every transaction keeps to itself what holds of it, and every commit keeps it of the others.** -/
theorem guarantee : Guarantee (rules Answer) Request.program Tenancy InFlight where
  starts {db} request hdb := by
    refine ⟨hdb, .refl db, fun w a m hm hrole hlost => absurd hrole (hlost m hm), fun e he => ?_, .working rfl⟩
    cases he
  keeps _ hx hstep := hx.step hstep
  others _ hx hy hready hapart hdisjoint := hx.commit hy hready hapart hdisjoint
  commits _ hy _ := hy.tenancy

/-- A workspace that is there and, unless it is being deleted, has an owner. -/
def Kept (db : Rows) (w : Uuid) : Prop := (∃ r, workspace db w = some r) ∧ (Live db w → Owned db w)

/-- **No commit takes the last owner** of a workspace that is not being deleted. -/
theorem Kept.commit {db : Rows} {y : Transaction} {w : Uuid} (h : Kept db w) (hy : InFlight db y) (hready : y.Ready) :
    Kept (y.view db) w := by
  obtain ⟨⟨r, hr⟩, howned⟩ := h
  obtain ⟨r', hr', hd⟩ := hy.keeps w r hr
  refine ⟨⟨r', hr'⟩, fun hlive => ?_⟩
  have hlive' : Live db w := by
    refine ⟨r, hr, by_contra fun hdeleting => ?_⟩
    exact Deleting.not_live ⟨r', hr', hd hdeleting⟩ hlive
  obtain ⟨a, m, hm, hrole⟩ := howned hlive'
  by_cases hstill : ∃ m', member (y.view db) w a = some m' ∧ m'.role = .owner
  · obtain ⟨m', hm', hrole'⟩ := hstill
    exact ⟨a, m', hm', hrole'⟩
  · rcases hy.settled hready hm hrole fun m' hm' hrole' => hstill ⟨m', hm', hrole'⟩ with ⟨-, hseen⟩ | hdeleting
    · exact hseen
    · exact absurd hlive hdeleting.not_live

theorem holds {s : Sys Row Statement MemberChange Answer} (h : membership.Reachable s) : s.Holds Tenancy InFlight :=
  guarantee.holds (fun db hdb w a m hm => by rw [hdb.2 w a] at hm; cases hm) h

/-- **A workspace that has had an owner, still exists and is not being deleted has an owner**, however the
transactions of the requests have gone on. -/
theorem workspace_keeps_owner {s s' : Sys Row Statement MemberChange Answer} (h : membership.Reachable s)
    (hrun : (membership.startingAt s).Reachable s') {w : Uuid} (howned : Owned s.committed w)
    (hlive : Live s'.committed w) : Owned s'.committed w := by
  have hkept : Kept s.committed w := by
    obtain ⟨a, m, hm, hrole⟩ := howned
    exact ⟨(holds h).committed w a m hm, fun _ => ⟨a, m, hm, hrole⟩⟩
  have hall : Kept s'.committed w := by
    refine hrun.invariant_of (J := Sys.Holds Tenancy InFlight) (I := fun u => Kept u.committed w)
      (fun u hu => holds (.of_startingAt h hu)) (fun u hu => hu ▸ hkept) fun u a u' hu hk hstep => ?_
    cases Sys.moves_of_step hstep with
    | starts | ends | goes => exact hk
    | commits hy hready => exact hk.commit (hu.inFlight _ _ hy) hready
  exact hall.2 hlive

/-- An instance with an admin and an account whose address nobody has verified. -/
def started : Sys Row Statement MemberChange Answer where
  committed := ((∅ : Rows).insert (.account 1) ⟨some 0, none, some 0, true, .full⟩).insert (.account 2)
    ⟨none, none, none, false, .full⟩
  txns := ∅

theorem started_reachable : membership.Reachable started :=
  .init ⟨⟨fun _ => rfl, fun _ _ => rfl⟩, rfl⟩

/-- A transaction from its start through this many steps. -/
def transaction (t : ℕ) (request : Request) (steps : ℕ) : List (Action Request) :=
  .start t request :: List.replicate steps (.run t)

/-- The admin makes a workspace of their own. -/
def creation : List (Action Request) := transaction 0 (.createWorkspace 1 7 none 5) 9

/-- The other account verifies its address and joins as an owner, and the admin leaves. -/
def handOver : List (Action Request) :=
  transaction 1 (.verifyEmail 2 6) 10 ++ transaction 0 (.acceptInvitation ⟨7, 2, .owner, true, none, 8⟩) 7 ++
    transaction 1 (.endMembership ⟨7, 1, 1, none⟩) 8

/-- The admin has left the workspace, and it has an owner. -/
theorem workspace_keeps_owner_handedOver :
    ∃ s', membership.Reachable s' ∧ Rows.member s'.committed 7 1 = none ∧ Owned s'.committed 7 := by
  have hcreation : (started.run (rules Answer) Request.program creation).map
      (fun s => hasOwner s.committed 7) = some true := by decide +kernel
  have hhandOver : (started.run (rules Answer) Request.program (creation ++ handOver)).map
      (fun s => (Rows.member s.committed 7 1, live (workspace s.committed 7))) = some (none, true) := by
    decide +kernel
  obtain ⟨s, hs, howned⟩ := Option.map_eq_some_iff.mp hcreation
  rw [Sys.run_append, hs, Option.bind_some] at hhandOver
  obtain ⟨s', hs', hleft⟩ := Option.map_eq_some_iff.mp hhandOver
  have hreach := reachable_of_run (fun _ _ _ h => h) started_reachable hs
  have hrun : (membership.startingAt s).Reachable s' := reachable_of_run (fun _ _ _ h => h) (.init rfl) hs'
  have hlive : Live s'.committed 7 := live_iff.mp (Prod.ext_iff.mp hleft).2
  exact ⟨s', .of_startingAt hreach hrun, (Prod.ext_iff.mp hleft).1,
    workspace_keeps_owner hreach hrun (hasOwner_iff.mp howned) hlive⟩

/-- A workspace that the console made with an owner invitation has no owner until the invitation is accepted,
whatever else commits meanwhile. -/
theorem not_every_workspace_owned :
    ¬ ∀ s, membership.Reachable s → ∀ w, Live s.committed w → Owned s.committed w := by
  intro hall
  have hrun : (started.run (rules Answer) Request.program (transaction 0 (.instanceCreateWorkspace 1 7 none 5) 4 ++
      transaction 1 (.verifyEmail 2 6) 10)).map
        (fun s => (live (workspace s.committed 7), hasOwner s.committed 7)) = some (true, false) := by
    decide +kernel
  obtain ⟨s, hs, hfound⟩ := Option.map_eq_some_iff.mp hrun
  obtain ⟨hlive, hunowned⟩ := Prod.ext_iff.mp hfound
  have howned := hall s (reachable_of_run (fun _ _ _ h => h) started_reachable hs) 7 (live_iff.mp hlive)
  rw [hasOwner_iff.mpr howned] at hunowned
  cases hunowned

end SlugBase.Members
