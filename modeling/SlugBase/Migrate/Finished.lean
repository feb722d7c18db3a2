import SlugBase.Migrate.Install

/-!
# Interrupted upgrades are finished

Runs of `installPgBoss` by builds of any versions follow each other, each cut off at any of its commands or not at all.
At every moment each build of an upgrade that committed has ended after its commit or stands in the record, which is
compared by version: a record is owed exactly when the version has reached its target.

* `Owing`, `Licensed`: what the history says of the builds that ended and of those that are left;
* `Kept`: what every command of every run keeps;
* `finishBuilds_spec`, `upgrade_spec`, `installPgBoss_spec`: one triple for each step of a run;
* **`builds_finished`**: a run that returns leaves no build of any upgrade behind.
-/

namespace SlugBase.Migrate

open Interrupted
open Interrupted.Program (Triple)

/-! ## The history -/

/-- Every build of every upgrade that committed is left to run, or ran to its end after the commit, or its table was
found gone after it. -/
def Owing (left : List Statement) (history : List Entry) : Prop :=
  ∀ later earlier found target builds, history = later ++ .upgraded found target builds :: earlier →
    ∀ b ∈ builds, b ∈ left ∨ Entry.ran b ∈ later ∨ Entry.gone b ∈ later

/-- The statement is a build of an upgrade that has committed. -/
def Committed (history : List Entry) (b : Statement) : Prop :=
  ∃ found target builds, Entry.upgraded found target builds ∈ history ∧ b ∈ builds

/-- Every build ran after an upgrade it belongs to had committed. -/
def Licensed (history : List Entry) : Prop :=
  ∀ later earlier b, history = later ++ .ran b :: earlier → Committed earlier b

variable {left left' : List Statement} {history : List Entry} {entry : Entry} {b : Statement}

theorem Owing.mono (h : Owing left history) (hsub : ∀ b ∈ left, b ∈ left') : Owing left' history := by
  intro later earlier found target builds hsplit b hb
  rcases h later earlier found target builds hsplit b hb with hleft | hended
  · exact Or.inl (hsub b hleft)
  · exact Or.inr hended

theorem Owing.logged (h : Owing left history) (hentry : ∀ found target builds, entry ≠ .upgraded found target builds) :
    Owing left (entry :: history) := by
  intro later earlier found target builds hsplit b hb
  cases later with
  | nil =>
    rw [List.nil_append, List.cons.injEq] at hsplit
    exact absurd hsplit.1 (hentry found target builds)
  | cons first later =>
    rw [List.cons_append, List.cons.injEq] at hsplit
    rcases h later earlier found target builds hsplit.2 b hb with hleft | hran | hgone
    · exact Or.inl hleft
    · exact Or.inr (Or.inl (List.mem_cons_of_mem _ hran))
    · exact Or.inr (Or.inr (List.mem_cons_of_mem _ hgone))

/-- The build that is next has ended. -/
theorem Owing.ended (h : Owing (b :: left) history) (hentry : entry = .ran b ∨ entry = .gone b) :
    Owing left (entry :: history) := by
  intro later earlier found target builds hsplit b' hb'
  cases later with
  | nil =>
    rw [List.nil_append, List.cons.injEq] at hsplit
    rcases hentry with rfl | rfl <;> exact absurd hsplit.1 (by simp)
  | cons first later =>
    rw [List.cons_append, List.cons.injEq] at hsplit
    rcases h later earlier found target builds hsplit.2 b' hb' with hleft | hran | hgone
    · rcases List.mem_cons.mp hleft with rfl | hleft
      · rcases hentry with rfl | rfl
        · exact Or.inr (Or.inl (hsplit.1 ▸ List.mem_cons_self))
        · exact Or.inr (Or.inr (hsplit.1 ▸ List.mem_cons_self))
      · exact Or.inl hleft
    · exact Or.inr (Or.inl (List.mem_cons_of_mem _ hran))
    · exact Or.inr (Or.inr (List.mem_cons_of_mem _ hgone))

theorem Owing.committed (h : Owing [] history) (found target : ℕ) (builds : List Statement) :
    Owing builds (.upgraded found target builds :: history) := by
  intro later earlier found' target' builds' hsplit b hb
  cases later with
  | nil =>
    rw [List.nil_append, List.cons.injEq, Entry.upgraded.injEq] at hsplit
    exact Or.inl (hsplit.1.2.2 ▸ hb)
  | cons first later =>
    rw [List.cons_append, List.cons.injEq] at hsplit
    rcases h later earlier found' target' builds' hsplit.2 b hb with hleft | hran | hgone
    · cases hleft
    · exact Or.inr (Or.inl (List.mem_cons_of_mem _ hran))
    · exact Or.inr (Or.inr (List.mem_cons_of_mem _ hgone))

theorem Committed.logged (h : Committed history b) : Committed (entry :: history) b := by
  obtain ⟨found, target, builds, hmem, hb⟩ := h
  exact ⟨found, target, builds, List.mem_cons_of_mem _ hmem, hb⟩

theorem Licensed.logged (h : Licensed history) (hentry : ∀ b, entry = .ran b → Committed history b) :
    Licensed (entry :: history) := by
  intro later earlier b hsplit
  cases later with
  | nil =>
    rw [List.nil_append, List.cons.injEq] at hsplit
    exact hsplit.2 ▸ hentry b hsplit.1
  | cons first later =>
    rw [List.cons_append, List.cons.injEq] at hsplit
    exact h later earlier b hsplit.2

/-! ## What is kept -/

/-- The version has reached the target. -/
def Database.Past (s : Database) (target : ℕ) : Prop := ∃ version, s.version = some (some version) ∧ target ≤ version

/-- The record `pending` stands for what it says: past its target the builds from `done` on are those of upgrades that
committed and may be all that is left of them; before it nothing is left. -/
structure Recorded (s : Database) (pending : PendingBuilds) : Prop where
  owed : s.Past pending.target → Owing (pending.statements.drop pending.done) s.history
  committed : s.Past pending.target → ∀ b ∈ pending.statements, Committed s.history b
  unreached : ¬ s.Past pending.target → Owing [] s.history

/-- **What every command of every run keeps.** -/
structure Kept (s : Database) : Prop where
  licensed : Licensed s.history
  settled : s.recorded = none → Owing [] s.history
  recorded : ∀ pending, s.recorded = some pending → Recorded s pending
  installed : s.version = none → s.recorded = none

/-- The builds that the record leaves to run. -/
def Database.owes (s : Database) : List Statement :=
  s.recorded.elim [] fun pending => pending.statements.drop pending.done

theorem Kept.owing {s : Database} (h : Kept s) : Owing s.owes s.history := by
  rw [Database.owes]
  cases hrecorded : s.recorded with
  | none => exact h.settled hrecorded
  | some pending =>
    by_cases hpast : s.Past pending.target
    · exact (h.recorded pending hrecorded).owed hpast
    · exact ((h.recorded pending hrecorded).unreached hpast).mono fun b hb => by cases hb

variable (e : Others) (s : Database)

@[simp] theorem recorded_apply : (e.apply s).recorded = s.recorded := rfl

@[simp] theorem history_apply : (e.apply s).history = s.history := rfl

variable {s} in
theorem version_apply {version : Option ℕ} (h : s.version = some version) : (e.apply s).version = some version := by
  change s.version.or _ = _
  rw [h, Option.some_or]

variable {e s}

theorem past_apply_iff {target : ℕ} (h : s.version ≠ none) : (e.apply s).Past target ↔ s.Past target := by
  obtain ⟨version, hversion⟩ := Option.ne_none_iff_exists'.mp h
  rw [Database.Past, Database.Past, version_apply e hversion, hversion]

theorem indexes_apply_ne {index : String} (h : s.indexes index ≠ .invalid) :
    (e.apply s).indexes index ≠ .invalid := by
  change (e.indexes index).apply (s.indexes index) ≠ .invalid
  cases e.indexes index with
  | kept => exact h
  | dropped => exact Index.noConfusion
  | built => exact Index.noConfusion

theorem Kept.apply (h : Kept s) : Kept (e.apply s) where
  licensed := h.licensed
  settled := h.settled
  recorded pending hrecorded := by
    have hversion : s.version ≠ none := by
      intro hnone
      rw [recorded_apply, h.installed hnone] at hrecorded
      cases hrecorded
    obtain ⟨howed, hcommitted, hunreached⟩ := h.recorded pending hrecorded
    refine ⟨fun hpast => howed ((past_apply_iff hversion).mp hpast),
      fun hpast => hcommitted ((past_apply_iff hversion).mp hpast),
      fun hpast => hunreached fun hs => hpast ((past_apply_iff hversion).mpr hs)⟩
  installed hnone := by
    refine h.installed ?_
    cases hversion : s.version with
    | none => rfl
    | some version => rw [version_apply e hversion] at hnone; cases hnone

/-- What a step of a run knows of the database: the version, the record, and the builds that are left to run. -/
structure Standing (version : Option ℕ) (recorded : Option PendingBuilds) (left : List Statement) (s : Database) :
    Prop where
  kept : Kept s
  version : s.version = some version
  recorded : s.recorded = recorded
  owing : Owing left s.history

section

variable {s' : Database} {version : Option ℕ} {recorded : Option PendingBuilds}

/-- The version, the record and the history are all that is kept. -/
theorem Kept.congr (h : Kept s) (hversion : s'.version = s.version) (hrecorded : s'.recorded = s.recorded)
    (hhistory : s'.history = s.history) : Kept s' where
  licensed := hhistory ▸ h.licensed
  settled hnone := hhistory ▸ h.settled (hrecorded ▸ hnone)
  recorded pending hsome := by
    obtain ⟨howed, hcommitted, hunreached⟩ := h.recorded pending (hrecorded ▸ hsome)
    refine ⟨?_, ?_, ?_⟩
    · rw [Database.Past, hversion, hhistory]
      exact howed
    · rw [Database.Past, hversion, hhistory]
      exact hcommitted
    · rw [Database.Past, hversion, hhistory]
      exact hunreached
  installed hnone := by
    rw [hrecorded]
    exact h.installed (hversion ▸ hnone)

theorem Standing.apply (h : Standing version recorded left s) : Standing version recorded left (e.apply s) :=
  ⟨h.kept.apply, version_apply e h.version, h.recorded, h.owing⟩

theorem Standing.congr (h : Standing version recorded left s) (hversion : s'.version = s.version)
    (hrecorded : s'.recorded = s.recorded) (hhistory : s'.history = s.history) : Standing version recorded left s' :=
  ⟨h.kept.congr hversion hrecorded hhistory, hversion.trans h.version, hrecorded.trans h.recorded,
    hhistory ▸ h.owing⟩

end

/-! ## Commands -/

section

variable {α : Type} {P : Database → Prop}

theorem execute_spec {act : Database → Option (α × Database)} {Q : α → Database → Prop}
    (hothers : ∀ e s, P s → P (Others.apply e s)) (hP : ∀ s, P s → Kept s)
    (hact : ∀ s a s', P s → act s = some (a, s') → Q a s') (hQ : ∀ a s, Q a s → Kept s) :
    Triple P (execute act) Q Kept :=
  Triple.command hothers hP hP hact hQ

theorem select_spec {read : Database → Option α} (hothers : ∀ e s, P s → P (Others.apply e s))
    (hP : ∀ s, P s → Kept s) : Triple P (select read) (fun a s => read s = some a ∧ P s) Kept := by
  refine execute_spec hothers hP (fun s a s' hs hact => ?_) fun _ s hs => hP s hs.2
  obtain ⟨a', hread, hpair⟩ := Option.map_eq_some_iff.mp hact
  obtain ⟨rfl, rfl⟩ := Prod.mk.inj hpair
  exact ⟨hread, hs⟩

theorem select_keeps {read : Database → Option α} (hothers : ∀ e s, P s → P (Others.apply e s))
    (hP : ∀ s, P s → Kept s) : Triple P (select read) (fun _ => P) Kept :=
  (select_spec hothers hP).weaken (fun _ hs => hs) fun _ _ hs => hs.2

theorem assertSession_spec (pid : ℕ) (hothers : ∀ e s, P s → P (Others.apply e s)) (hP : ∀ s, P s → Kept s) :
    Triple P (assertSession pid) (fun _ => P) Kept :=
  (select_keeps hothers hP).bind fun _ => (Triple.check hP).weaken (fun _ hs => hs) fun _ _ hs => hs.2

theorem takeMigrateLock_spec (pid : ℕ) (hothers : ∀ e s, P s → P (Others.apply e s)) (hP : ∀ s, P s → Kept s) :
    ∀ polls, Triple P (takeMigrateLock pid polls) (fun _ => P) Kept
  | 0 => Triple.stop hP
  | polls + 1 => by
    refine (select_keeps hothers hP).bind fun lock => ?_
    refine (Triple.check hP).bind fun _ => Triple.given fun _ => ?_
    split
    · exact Triple.pure fun _ hs => hs
    · exact takeMigrateLock_spec pid hothers hP polls

theorem createQueues_spec (hothers : ∀ e s, P s → P (Others.apply e s)) (hP : ∀ s, P s → Kept s) :
    ∀ jobs, Triple P (createQueues jobs) (fun _ => P) Kept
  | [] => Triple.pure fun _ hs => hs
  | _ :: jobs => (select_keeps hothers hP).bind fun _ => createQueues_spec hothers hP jobs

theorem partitionTables_spec (hothers : ∀ e s, P s → P (Others.apply e s)) (hP : ∀ s, P s → Kept s) :
    Triple P partitionTables (fun _ => P) Kept := by
  refine (select_keeps hothers hP).bind fun tables => (select_keeps hothers hP).bind fun queues => ?_
  exact (Triple.check hP).bind fun _ => Triple.given fun _ => Triple.pure fun _ hs => hs

/-- The record as it is read. -/
theorem readPending_spec (hothers : ∀ e s, P s → P (Others.apply e s)) (hP : ∀ s, P s → Kept s) :
    Triple P readPending (fun row s => s.recorded = row ∧ P s) Kept := by
  refine (select_spec hothers hP).bind fun present => ?_
  have hstable : ∀ e s, (some s.pending.isSome = some present ∧ P s) →
      some (Others.apply e s).pending.isSome = some present ∧ P (Others.apply e s) :=
    fun e s hs => ⟨hs.1, hothers e s hs.2⟩
  cases present with
  | false =>
    refine Triple.pure fun s hs => ⟨?_, hs.2⟩
    have hnone : s.pending = none := by simpa using hs.1
    rw [Database.recorded, hnone]
    rfl
  | true =>
    refine (select_spec hstable fun s hs => hP s hs.2).bind fun row => ?_
    refine (Triple.check fun s hs => hP s hs.2.2).bind fun _ => Triple.given fun _ => ?_
    refine Triple.pure fun s hs => ⟨?_, hs.2.2⟩
    rw [Database.recorded, hs.1]
    rfl

end

/-! ## The record -/

section

variable {version : Option ℕ} {recorded : Option PendingBuilds}

theorem clearPending_spec :
    Triple (Standing version recorded []) clearPending (fun _ => Standing version none []) Kept := by
  refine execute_spec (fun _ _ hs => hs.apply) (fun _ hs => hs.kept) (fun s _ s' hs hact => ?_) fun _ _ hs => hs.kept
  obtain ⟨row, -, hpair⟩ := Option.map_eq_some_iff.mp hact
  obtain ⟨-, rfl⟩ := Prod.mk.inj hpair
  refine ⟨⟨hs.kept.licensed, fun _ => hs.owing, fun pending hrecorded => ?_, fun _ => rfl⟩, hs.version, rfl, hs.owing⟩
  cases hrecorded

/-- The record of an upgrade that has not committed: nothing is left of the earlier ones. -/
theorem writePending_spec {found target : ℕ} (hlt : found < target) (builds : List Statement) :
    Triple (Standing (some found) none []) (writePending target builds)
      (fun _ => Standing (some found) (some ⟨target, builds, 0⟩) []) Kept := by
  refine (select_keeps (fun _ _ hs => hs.apply) fun _ hs => hs.kept).bind fun _ => ?_
  have hcreate : Triple (Standing (some found) none []) createPendingTable
      (fun _ => Standing (some found) none []) Kept := by
    refine execute_spec (fun _ _ hs => hs.apply) (fun _ hs => hs.kept) (fun s _ s' hs hact => ?_)
      fun _ _ hs => hs.kept
    obtain ⟨-, rfl⟩ := Prod.mk.inj (Option.some.inj hact)
    exact hs.congr rfl rfl rfl
  refine hcreate.bind fun _ => ?_
  refine execute_spec (fun _ _ hs => hs.apply) (fun _ hs => hs.kept) (fun s _ s' hs hact => ?_) fun _ _ hs => hs.kept
  obtain ⟨row, -, hpair⟩ := Option.map_eq_some_iff.mp hact
  obtain ⟨-, rfl⟩ := Prod.mk.inj hpair
  refine ⟨⟨hs.kept.licensed, fun _ => hs.owing, fun pending hrecorded => ?_, fun hnone => ?_⟩, hs.version, rfl,
    hs.owing⟩
  · obtain rfl : (⟨target, builds, 0⟩ : PendingBuilds) = pending := Option.some.inj hrecorded
    have hbefore : ¬ s.Past target := by
      rintro ⟨v, hv, hle⟩
      obtain rfl : found = v := Option.some.inj (Option.some.inj (hs.version.symm.trans hv))
      omega
    exact ⟨fun hpast => absurd hpast hbefore, fun hpast => absurd hpast hbefore, fun _ => hs.owing⟩
  · exact absurd (hs.version.symm.trans hnone) (by simp)

/-- The commit of an upgrade leaves its builds to run, and the record holds them. -/
theorem commitUpgrade_spec {found target : ℕ} {builds : List Statement}
    (hnone : recorded = none → builds = []) (hsome : ∀ pending, recorded = some pending → pending = ⟨target, builds, 0⟩) :
    Triple (Standing (some found) recorded []) (commitUpgrade found target (some target) builds)
      (fun _ => Standing (some target) recorded builds) Kept := by
  refine execute_spec (fun _ _ hs => hs.apply) (fun _ hs => hs.kept) (fun s _ s' hs hact => ?_) fun _ _ hs => hs.kept
  obtain ⟨row, -, hpair⟩ := Option.map_eq_some_iff.mp hact
  obtain ⟨-, rfl⟩ := Prod.mk.inj hpair
  have howing := hs.owing.committed found target builds
  refine ⟨⟨?_, fun hrecorded => ?_, fun pending hrecorded => ?_, fun hversion => ?_⟩, rfl, hs.recorded, howing⟩
  · exact hs.kept.licensed.logged fun b hb => by cases hb
  · rw [hnone (hs.recorded.symm.trans hrecorded)] at howing ⊢
    exact howing
  · obtain rfl := hsome pending (hs.recorded.symm.trans hrecorded)
    refine ⟨fun _ => howing, fun _ b hb => ⟨found, target, builds, List.mem_cons_self, hb⟩, fun hpast => ?_⟩
    exact absurd ⟨target, rfl, Nat.le_refl target⟩ hpast
  · cases hversion

end

/-! ## Builds -/

section

variable {version : ℕ} {pending : PendingBuilds}

/-- The build that is next has ended. -/
theorem Standing.ended {s' : Database} (h : Standing (some version) (some pending) (b :: left) s)
    (hle : pending.target ≤ version) (hb : b ∈ pending.statements) (hentry : entry = .ran b ∨ entry = .gone b)
    (hversion : s'.version = s.version) (hrecorded : s'.recorded = s.recorded)
    (hhistory : s'.history = entry :: s.history) : Standing (some version) (some pending) left s' := by
  have hpast : s.Past pending.target := ⟨version, h.version, hle⟩
  have hpast' : s'.Past pending.target := ⟨version, hversion.trans h.version, hle⟩
  obtain ⟨howed, hcommitted, -⟩ := h.kept.recorded pending h.recorded
  refine ⟨⟨?_, fun hnone => ?_, fun pending' hpending' => ?_, fun hnone => ?_⟩, hversion.trans h.version,
    hrecorded.trans h.recorded, hhistory ▸ h.owing.ended hentry⟩
  · rw [hhistory]
    refine h.kept.licensed.logged fun b' hb' => ?_
    obtain rfl : b = b' := by
      rcases hentry with rfl | rfl
      · exact Entry.ran.inj hb'
      · cases hb'
    exact hcommitted hpast b hb
  · rw [hrecorded, h.recorded] at hnone
    cases hnone
  · obtain rfl : pending = pending' := Option.some.inj (h.recorded.symm.trans (hrecorded.symm.trans hpending'))
    refine ⟨fun _ => ?_, fun _ b' hb' => ?_, fun hno => absurd hpast' hno⟩
    · rw [hhistory]
      exact (howed hpast).logged fun found target builds heq => by rcases hentry with rfl | rfl <;> cases heq
    · rw [hhistory]
      exact (hcommitted hpast b' hb').logged
  · rw [hversion, h.version] at hnone
    cases hnone

theorem dropInvalid_spec (index : String) :
    Triple (Standing (some version) (some pending) left) (dropInvalid index)
      (fun _ s => s.indexes index ≠ .invalid ∧ Standing (some version) (some pending) left s) Kept := by
  have hstable : ∀ (invalid : Bool) (e : Others) (s : Database),
      ((invalid = false → s.indexes index ≠ .invalid) ∧ Standing (some version) (some pending) left s) →
      (invalid = false → (e.apply s).indexes index ≠ .invalid) ∧
        Standing (some version) (some pending) left (e.apply s) :=
    fun _ _ _ hs => ⟨fun hno => indexes_apply_ne (hs.1 hno), hs.2.apply⟩
  have hask : Triple (Standing (some version) (some pending) left) (indexInvalid index)
      (fun invalid s => (invalid = false → s.indexes index ≠ .invalid) ∧
        Standing (some version) (some pending) left s) Kept := by
    refine (select_spec (fun _ _ hs => hs.apply) fun _ hs => hs.kept).weaken (fun _ hs => hs) fun invalid s hs => ?_
    refine ⟨fun hno => ?_, hs.2⟩
    subst hno
    simpa using hs.1
  refine hask.bind fun invalid => Triple.onlyIf (fun _ => ?_) fun hno s hs => ⟨hs.1 hno, hs.2⟩
  refine Triple.command (hstable invalid) (fun _ hs => hs.2.kept) (fun s hs => ?_) (fun s _ s' hs hact => ?_)
    fun _ _ hs => hs.2.kept
  · split
    · exact hs.2.kept
    · exact hs.2.kept.congr rfl rfl rfl
  · split at hact
    · cases hact
    · obtain ⟨-, rfl⟩ := Prod.mk.inj (Option.some.inj hact)
      refine ⟨?_, hs.2.congr rfl rfl rfl⟩
      change Function.update s.indexes index .absent index ≠ .invalid
      rw [Function.update_self]
      exact Index.noConfusion

/-- A build over an index that is not INVALID runs when the server reports its end. -/
theorem built_ran {s' : Database} {statement : Statement} {target : Target}
    (hvalid : s.indexes target.index ≠ .invalid) (hbuilt : s.built statement target = some s') :
    s'.version = s.version ∧ s'.recorded = s.recorded ∧ s'.history = .ran statement :: s.history := by
  rw [Database.built] at hbuilt
  split at hbuilt
  · cases hindex : s.indexes target.index with
    | absent =>
      rw [hindex] at hbuilt
      cases hbuilt
      exact ⟨rfl, rfl, rfl⟩
    | invalid => exact absurd hindex hvalid
    | valid =>
      rw [hindex] at hbuilt
      dsimp only at hbuilt
      split at hbuilt
      · cases hbuilt
        exact ⟨rfl, rfl, rfl⟩
      · cases hbuilt
  · cases hbuilt

theorem halfBuilt_kept (h : Kept s) (target : Target) : Kept (s.halfBuilt target) := by
  rw [Database.halfBuilt]
  split
  · exact h.congr rfl rfl rfl
  · exact h

variable (hle : pending.target ≤ version) (hb : b ∈ pending.statements)
include hle hb

theorem runStatement_spec :
    Triple (fun s => (∀ target ∈ b.target, s.indexes target.index ≠ .invalid) ∧
        Standing (some version) (some pending) (b :: left) s)
      (runStatement b) (fun _ => Standing (some version) (some pending) left) Kept := by
  refine Triple.command
    (fun e s hs => ⟨fun target htarget => indexes_apply_ne (hs.1 target htarget), hs.2.apply⟩)
    (fun _ hs => hs.2.kept) (fun s hs => ?_) (fun s _ s' hs hact => ?_) fun _ _ hs => hs.kept
  · cases htarget : b.target with
    | none => exact hs.2.kept
    | some target => exact halfBuilt_kept hs.2.kept target
  · obtain ⟨s₁, hran, hpair⟩ := Option.map_eq_some_iff.mp hact
    obtain ⟨-, rfl⟩ := Prod.mk.inj hpair
    cases htarget : b.target with
    | none =>
      rw [htarget] at hran
      cases hran
      exact hs.2.ended hle hb (Or.inl rfl) rfl rfl rfl
    | some target =>
      rw [htarget] at hran
      obtain ⟨hversion, hrecorded, hhistory⟩ := built_ran (hs.1 target htarget) hran
      exact hs.2.ended hle hb (Or.inl rfl) hversion hrecorded hhistory

theorem runTargeted_spec {target : Target} (htarget : b.target = some target) :
    Triple (Standing (some version) (some pending) (b :: left)) (runTargeted b target)
      (fun _ => Standing (some version) (some pending) left) Kept := by
  refine (Triple.check fun _ hs => hs.kept).bind fun _ => Triple.given fun _ => ?_
  have hpresent : Triple (Standing (some version) (some pending) (b :: left)) (tablePresent b target.table)
      (fun present => Standing (some version) (some pending) (if present then b :: left else left)) Kept := by
    refine execute_spec (fun _ _ hs => hs.apply) (fun _ hs => hs.kept) (fun s _ s' hs hact => ?_)
      fun _ _ hs => hs.kept
    split at hact
    · obtain ⟨rfl, rfl⟩ := Prod.mk.inj (Option.some.inj hact)
      exact hs
    · obtain ⟨rfl, rfl⟩ := Prod.mk.inj (Option.some.inj hact)
      exact hs.ended hle hb (Or.inr rfl) rfl rfl rfl
  refine hpresent.bind fun present => Triple.onlyIf (fun hyes => ?_) fun hno s hs => ?_
  · rw [if_pos hyes]
    refine (dropInvalid_spec target.index).bind fun _ => ?_
    refine (runStatement_spec hle hb).pre fun s hs => ⟨fun target' htarget' => ?_, hs.2⟩
    obtain rfl : target = target' := Option.some.inj (htarget.symm.trans htarget')
    exact hs.1
  · rw [hno] at hs
    exact hs

theorem runBuild_spec :
    Triple (Standing (some version) (some pending) (b :: left)) (runBuild b)
      (fun _ => Standing (some version) (some pending) left) Kept := by
  refine (Triple.check fun _ hs => hs.kept).bind fun _ => Triple.given fun _ => ?_
  cases htarget : b.target with
  | none =>
    refine (runStatement_spec hle hb).pre fun s hs => ⟨fun target htarget' => ?_, hs⟩
    rw [htarget] at htarget'
    cases htarget'
  | some target => exact runTargeted_spec hle hb htarget

omit hb

/-- The progress of the record follows the builds. -/
theorem updateDone_spec (done : ℕ) :
    Triple (Standing (some version) (some pending) (pending.statements.drop done)) (updateDone done)
      (fun _ => Standing (some version) (some ⟨pending.target, pending.statements, done⟩)
        (pending.statements.drop done)) Kept := by
  refine execute_spec (fun _ _ hs => hs.apply) (fun _ hs => hs.kept) (fun s _ s' hs hact => ?_) fun _ _ hs => hs.kept
  obtain ⟨row, hrow, hpair⟩ := Option.map_eq_some_iff.mp hact
  obtain ⟨-, rfl⟩ := Prod.mk.inj hpair
  obtain rfl : row = some pending := by
    have hrecorded := hs.recorded
    rw [Database.recorded, hrow] at hrecorded
    exact hrecorded
  obtain ⟨howed, hcommitted, -⟩ := hs.kept.recorded pending hs.recorded
  have hpast : s.Past pending.target := ⟨version, hs.version, hle⟩
  refine ⟨⟨hs.kept.licensed, fun hnone => ?_, fun pending' hpending' => ?_, fun hnone => ?_⟩, hs.version, rfl,
    hs.owing⟩
  · cases hnone
  · cases hpending'
    exact ⟨fun _ => hs.owing, fun _ => hcommitted hpast, fun hno => absurd hpast hno⟩
  · exact absurd (hs.version.symm.trans hnone) (by simp)

omit hle

/-- **The loop over the builds**: the record holds what is left after each of them. -/
theorem buildFrom_spec (pid target : ℕ) (statements : List Statement) (hle : target ≤ version) :
    ∀ (rest : List Statement) (done : ℕ), statements.drop done = rest →
      Triple (Standing (some version) (some ⟨target, statements, done⟩) rest) (buildFrom pid done rest)
        (fun _ s => ∃ done', Standing (some version) (some ⟨target, statements, done'⟩) [] s) Kept
  | [], done, _ => Triple.pure fun _ hs => ⟨done, hs⟩
  | b :: rest, done, hrest => by
    have hb : b ∈ statements := List.mem_of_mem_drop (hrest ▸ List.mem_cons_self)
    have hnext : statements.drop (done + 1) = rest := by
      rw [← List.drop_drop, hrest]
      rfl
    refine (assertSession_spec pid (fun _ _ hs => hs.apply) fun _ hs => hs.kept).bind fun _ => ?_
    have hbuild : Triple (Standing (some version) (some ⟨target, statements, done⟩) (b :: rest)) (runBuild b)
        (fun _ => Standing (some version) (some ⟨target, statements, done⟩) rest) Kept := runBuild_spec hle hb
    have hdone : Triple (Standing (some version) (some ⟨target, statements, done⟩) rest) (updateDone (done + 1))
        (fun _ => Standing (some version) (some ⟨target, statements, done + 1⟩) rest) Kept := by
      rw [← hnext]
      exact updateDone_spec hle (done + 1)
    exact hbuild.bind fun _ => hdone.bind fun _ => buildFrom_spec pid target statements hle rest (done + 1) hnext

theorem finishBuilds_spec (pid : ℕ) (hle : pending.target ≤ version) :
    Triple (Standing (some version) (some pending) (pending.statements.drop pending.done)) (finishBuilds pid pending)
      (fun _ => Standing (some version) none []) Kept := by
  refine (assertSession_spec pid (fun _ _ hs => hs.apply) fun _ hs => hs.kept).bind fun _ => ?_
  refine (select_keeps (fun _ _ hs => hs.apply) fun _ hs => hs.kept).bind fun _ => ?_
  refine (buildFrom_spec pid pending.target pending.statements hle _ pending.done rfl).bind fun _ => ?_
  intro s fates ⟨done, hs⟩
  exact clearPending_spec s fates hs

end

/-! ## Runs -/

theorem upgrade_spec (package : Package) (pid : ℕ) {found : ℕ} (hlt : found < package.expected) :
    Triple (Standing (some found) none []) (upgrade package pid found)
      (fun _ => Standing (some package.expected) none []) Kept := by
  refine (partitionTables_spec (fun _ _ hs => hs.apply) fun _ hs => hs.kept).bind fun partitions => ?_
  refine (Triple.required fun _ hs => hs.kept).bind fun plan => Triple.given fun hplan => ?_
  refine (assertSession_spec pid (fun _ _ hs => hs.apply) fun _ hs => hs.kept).bind fun _ => ?_
  obtain ⟨stamps, builds⟩ := plan
  obtain rfl : some package.expected = stamps := by
    rw [← package.stamps_expected found partitions]
    rw [upgradePlan] at hplan
    split at hplan
    · exact (Prod.mk.inj (Option.some.inj hplan)).1
    · cases hplan
  cases hempty : builds.isEmpty with
  | true =>
    have hnil : builds = [] := List.isEmpty_iff.mp hempty
    have hskip : Triple (Standing (some found) none []) (pure () : Run Unit) (fun _ => Standing (some found) none [])
        Kept := Triple.pure fun _ hs => hs
    refine hskip.bind fun _ => ?_
    refine (commitUpgrade_spec (fun _ => hnil) fun pending h => by cases h).bind fun _ => ?_
    rw [hnil]
    exact Triple.pure fun _ hs => hs
  | false =>
    refine Triple.bind (writePending_spec hlt builds) fun _ => ?_
    refine (commitUpgrade_spec (fun h => by cases h) fun pending h => (Option.some.inj h).symm).bind fun _ => ?_
    refine (readPending_spec (fun _ _ hs => hs.apply) fun _ hs => hs.kept).bind fun pending => ?_
    intro s fates ⟨hrecorded, hs⟩
    obtain rfl : some ⟨package.expected, builds, 0⟩ = pending := hs.recorded.symm.trans hrecorded
    exact finishBuilds_spec pid (Nat.le_refl package.expected) s fates hs

theorem upgradeOlder_spec (package : Package) (pid : ℕ) (found : Option ℕ) :
    Triple (Standing found none []) (upgradeOlder package pid found)
      (fun _ s => ∃ version, Standing version none [] s) Kept := by
  cases found with
  | none => exact Triple.pure fun _ hs => ⟨none, hs⟩
  | some found =>
    rw [upgradeOlder]
    split
    case isTrue hlt =>
      exact (upgrade_spec package pid hlt).bind fun _ => Triple.pure fun _ hs => ⟨_, hs⟩
    case isFalse => exact Triple.pure fun _ hs => ⟨_, hs⟩

/-- **What an earlier run recorded is finished when its upgrade committed, and discarded otherwise.** -/
theorem settlePending_spec (pid : ℕ) (found : Option ℕ) :
    Triple (fun s => s.version = some found ∧ Kept s) (settlePending pid found) (fun _ => Standing found none [])
      Kept := by
  have hothers : ∀ (e : Others) (s : Database), (s.version = some found ∧ Kept s) →
      (e.apply s).version = some found ∧ Kept (e.apply s) :=
    fun e s hs => ⟨version_apply e hs.1, hs.2.apply⟩
  refine (readPending_spec hothers fun _ hs => hs.2).bind fun pending => ?_
  cases pending with
  | none =>
    refine Triple.pure fun s ⟨hrecorded, hversion, hkept⟩ => ?_
    exact ⟨hkept, hversion, hrecorded, hkept.settled hrecorded⟩
  | some pending =>
    dsimp only
    split
    case isTrue hpast =>
      cases found with
      | none => cases hpast
      | some version =>
        have hle : pending.target ≤ version := of_decide_eq_true hpast
        refine Triple.bind ((finishBuilds_spec pid hle).pre fun s ⟨hrecorded, hversion, hkept⟩ => ?_) fun _ =>
          Triple.pure fun _ hs => hs
        exact ⟨hkept, hversion, hrecorded, (hkept.recorded pending hrecorded).owed ⟨version, hversion, hle⟩⟩
    case isFalse hbefore =>
      have hclear : Triple (Standing found (some pending) []) clearPending (fun _ => Standing found none []) Kept :=
        clearPending_spec
      refine (hclear.pre fun s ⟨hrecorded, hversion, hkept⟩ => ?_).bind fun _ => Triple.pure fun _ hs => hs
      refine ⟨hkept, hversion, hrecorded, (hkept.recorded pending hrecorded).unreached ?_⟩
      rintro ⟨version, hv, hle⟩
      obtain rfl : found = some version := Option.some.inj (hversion.symm.trans hv)
      exact hbefore (decide_eq_true hle)

theorem install_spec (package : Package) (pid polls : ℕ) :
    Triple Kept (install package pid polls) (fun _ => Kept) Kept := by
  have hothers : ∀ (e : Others) (s : Database), Kept s → Kept (e.apply s) := fun _ _ hs => hs.apply
  refine (select_keeps hothers fun _ hs => hs).bind fun installed => ?_
  split
  · exact Triple.pure fun _ hs => hs
  have hconstruct : Triple Kept (construct package.constructs) (fun _ => Kept) Kept := by
    refine execute_spec hothers (fun _ hs => hs) (fun s _ s' hs hact => ?_) fun _ _ hs => hs
    split at hact
    case isTrue =>
      obtain ⟨-, rfl⟩ := Prod.mk.inj (Option.some.inj hact)
      exact hs
    case isFalse hversion =>
      obtain ⟨-, rfl⟩ := Prod.mk.inj (Option.some.inj hact)
      have hnone : s.recorded = none := hs.installed (by simpa using hversion)
      refine ⟨hs.licensed, hs.settled, fun pending hrecorded => ?_, fun hno => by cases hno⟩
      exact absurd (hnone.symm.trans hrecorded) (by simp)
  refine hconstruct.bind fun constructed => ?_
  split
  · exact Triple.pure fun _ hs => hs
  refine (select_keeps hothers fun _ hs => hs).bind fun again => ?_
  refine (takeMigrateLock_spec again hothers (fun _ hs => hs) polls).bind fun _ => ?_
  exact Triple.pure fun _ hs => hs

/-- **A run that returns leaves the schema at its version, with no record and no build left; wherever a run is cut off,
what is kept stays kept.** -/
theorem installPgBoss_spec (package : Package) (polls : ℕ) (jobs : List String) :
    Triple Kept (installPgBoss package polls jobs) (fun _ => Standing (some package.expected) none []) Kept := by
  have hothers : ∀ (e : Others) (s : Database), Kept s → Kept (e.apply s) := fun _ _ hs => hs.apply
  refine (select_keeps hothers fun _ hs => hs).bind fun pid => ?_
  refine (takeMigrateLock_spec pid hothers (fun _ hs => hs) polls).bind fun _ => ?_
  refine (install_spec package pid polls).bind fun session => ?_
  have hversion : Triple Kept schemaVersion (fun found s => s.version = some found ∧ Kept s) Kept :=
    select_spec hothers fun _ hs => hs
  refine hversion.bind fun found => ?_
  refine (Triple.check fun _ hs => hs.2).bind fun _ => Triple.given fun _ => ?_
  refine (settlePending_spec session.1 found).bind fun finished => ?_
  refine (upgradeOlder_spec package session.1 found).bind fun upgraded => ?_
  have hagain : Triple (fun s => ∃ version, Standing version none [] s) schemaVersion
      (fun version => Standing version none []) Kept := by
    refine (select_spec (fun e s ⟨version, hs⟩ => ⟨version, hs.apply⟩) fun s ⟨_, hs⟩ => hs.kept).weaken
      (fun _ hs => hs) fun version s ⟨hread, before, hs⟩ => ?_
    obtain rfl : before = version := Option.some.inj (hs.version.symm.trans hread)
    exact hs
  refine hagain.bind fun version => ?_
  refine (Triple.check fun _ hs => hs.kept).bind fun _ => Triple.given fun hexpected => ?_
  obtain rfl : version = some package.expected := of_decide_eq_true hexpected
  refine (createQueues_spec (fun _ _ hs => hs.apply) (fun _ hs => hs.kept) jobs).bind fun _ => ?_
  exact Triple.pure fun _ hs => hs

/-- One run: the build of pg-boss, how often it polls for the lock, and the jobs whose queues it creates. -/
structure Invocation where
  package : Package
  polls : ℕ
  jobs : List String

/-- The run of an invocation. -/
def Invocation.run (i : Invocation) : Run (Option ℕ) := installPgBoss i.package i.polls i.jobs

/-- A database before the first run: no record is written and nothing has happened. -/
def Database.Untouched (s : Database) : Prop := s.recorded = none ∧ s.history = []

/-- The databases that runs leave behind, one after the other, each cut off at any command or not at all. -/
abbrev Migrated : Database → Prop := Reached Invocation.run Database.Untouched

theorem Migrated.kept {s : Database} (hs : Migrated s) : Kept s := by
  refine Reached.invariant (fun s hs => ?_) (fun i => ?_) hs
  · obtain ⟨hrecorded, hhistory⟩ := hs
    refine ⟨?_, fun _ => ?_, fun pending hpending => ?_, fun _ => hrecorded⟩
    · rw [hhistory]
      intro later earlier b hsplit
      exact absurd hsplit (by simp)
    · rw [hhistory]
      intro later earlier found target builds hsplit
      exact absurd hsplit (by simp)
    · exact absurd (hrecorded.symm.trans hpending) (by simp)
  · exact (installPgBoss_spec i.package i.polls i.jobs).weaken (fun _ hs => hs) fun _ _ hs => hs.kept

/-- **Interrupted upgrades are finished.** Wherever the runs so far were cut off, every build of an upgrade that
committed has ended after it or is left in the record, and no build has run before its upgrade committed; and a run that
returns leaves no build to run, no record, and the schema at its version. -/
theorem builds_finished {s : Database} (hs : Migrated s) :
    Owing s.owes s.history ∧ Licensed s.history ∧
      ∀ (i : Invocation) (fates rest : List Fate) (result : Option ℕ) (s' : Database),
        i.run s fates = .returned result s' rest →
        Owing [] s'.history ∧ Licensed s'.history ∧ s'.recorded = none ∧
          s'.version = some (some i.package.expected) := by
  refine ⟨hs.kept.owing, hs.kept.licensed, fun i fates rest result s' hrun => ?_⟩
  have hreturned := (installPgBoss_spec i.package i.polls i.jobs).returned hs.kept hrun
  exact ⟨hreturned.owing, hreturned.kept.licensed, hreturned.recorded, hreturned.version⟩


/-! A run that loses the answer of its commit, and the next one. -/

namespace Retried

/-- A build of the upgrade. -/
def build : Statement where
  text := "CREATE INDEX CONCURRENTLY IF NOT EXISTS job_i8 ON pgboss.job_common (name)"
  indexStatement := true
  single := true
  target := some ⟨"job_i8", "pgboss", "job_common"⟩
  ifNotExists := true

/-- A build of pg-boss whose migration plan has one index build. -/
def package : Package where
  expected := 2
  constructs := 2
  getMigrationPlans _ _ := ⟨true, some 2, [build]⟩
  stamps_expected _ _ := rfl

/-- The run of this build, without jobs. -/
def invocation : Invocation := ⟨package, 1, []⟩

/-- Nobody else is at work. -/
def quiet : Others := ⟨["job_common"], fun _ => .kept, [], [], 7, true, none⟩

/-- A schema at version 1. -/
def before : Database := ⟨some (some 1), none, ["job_common"], fun _ => .absent, [], [], 7, true, []⟩

/-- The first run stops at its commit, which takes effect. -/
def cut : Database := (invocation.run before (List.replicate 11 (.answered quiet) ++ [.unanswered quiet])).state

/-- The second run is answered to its end. -/
def after : Database := (invocation.run cut (List.replicate 15 (.answered quiet))).state

end Retried

theorem builds_finished_retried :
    Retried.cut.recorded = some ⟨2, [Retried.build], 0⟩ ∧ Retried.after.recorded = none ∧
      Retried.after.history = [.ran Retried.build, .upgraded 1 2 [Retried.build]] ∧
      Owing [] Retried.after.history := by
  have hcut : Migrated Retried.cut := .run Retried.invocation _ (.start ⟨rfl, rfl⟩)
  have hrun : ∃ rest, Retried.invocation.run Retried.cut (List.replicate 15 (.answered Retried.quiet)) =
      .returned (some 2) Retried.after rest := ⟨_, rfl⟩
  obtain ⟨rest, hrun⟩ := hrun
  have hfinished := (builds_finished hcut).2.2 Retried.invocation _ rest _ _ hrun
  exact ⟨rfl, hfinished.2.2.1, rfl, hfinished.1⟩

end SlugBase.Migrate
