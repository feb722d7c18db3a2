import SlugBase.Usage.Buffer
import Mathlib.Order.Bounds.Basic
import Mathlib.Data.Int.Order.Basic

/-!
# No open is lost or counted twice

* `summary_append`, `get_putBack`, `entryOf_taken`: what the buffer keeps of a bookmark is what its opens amount to,
  when opens are added, put back and taken;
* `Conserved`: every open recorded is in one place, and each place holds what its opens amount to; `Conserved.step`;
* **`opens_conserved`**: counts and latest times in every state, and that a stop whose last flush succeeds leaves none.
-/

namespace SlugBase.Usage

open Transition

/-! ## What opens amount to -/

section

variable {b : String}

theorem together_none (e : Option Entry) : together e none = e := by
  cases e <;> rfl

theorem Entry.add_assoc (e e' e'' : Entry) : (e.add e').add e'' = e.add (e'.add e'') := by
  simp only [Entry.add, Nat.add_assoc, max_assoc]

theorem together_assoc (e e' e'' : Option Entry) : together (together e e') e'' = together e (together e' e'') := by
  cases e with
  | none => rfl
  | some e => cases e' with
    | none => rfl
    | some e' => cases e'' with
      | none => rfl
      | some e'' => exact congrArg some (Entry.add_assoc e e' e'')

theorem together_eq_none {e e' : Option Entry} : together e e' = none ↔ e = none ∧ e' = none := by
  cases e <;> cases e' <;> simp [together]

theorem entryOf_append (xs ys : List OpenCount) : entryOf b (xs ++ ys) = together (entryOf b xs) (entryOf b ys) := by
  induction xs with
  | nil => rfl
  | cons o xs ih =>
    rw [List.cons_append, entryOf, entryOf, ih]
    split
    · rw [together_assoc]
    · rfl

theorem entryOf_eq_none {opens : List OpenCount} : entryOf b opens = none ↔ b ∉ opens.map OpenCount.bookmarkId := by
  induction opens with
  | nil => simp [entryOf]
  | cons o rest ih =>
    rw [entryOf, List.map_cons, List.mem_cons, not_or]
    split
    · rename_i h
      simp [together_eq_none, h]
    · rename_i h
      rw [ih]
      exact ⟨fun hrest => ⟨Ne.symm h, hrest⟩, fun hboth => hboth.2⟩

theorem summary_append (xs ys : List Opened) : summary (xs ++ ys) = together (summary xs) (summary ys) := by
  induction xs with
  | nil => rfl
  | cons o xs ih => rw [List.cons_append, summary, summary, ih, together_assoc]

theorem summary_cons (o : Opened) (rest : List Opened) : summary (o :: rest) = together (some ⟨1, o.openedAt⟩) (summary rest) :=
  rfl

theorem summary_eq_none {opens : List Opened} : summary opens = none ↔ opens = [] := by
  cases opens with
  | nil => simp [summary]
  | cons o rest => simp [summary_cons, together_eq_none]

theorem opensOf_append (xs ys : List Opened) : opensOf b (xs ++ ys) = opensOf b xs ++ opensOf b ys :=
  List.filter_append ..

theorem mem_opensOf {opens : List Opened} {o : Opened} : o ∈ opensOf b opens ↔ o ∈ opens ∧ o.bookmarkId = b := by
  rw [opensOf, List.mem_filter, decide_eq_true_eq]

theorem summary_opensOf_append (xs ys : List Opened) :
    summary (opensOf b (xs ++ ys)) = together (summary (opensOf b xs)) (summary (opensOf b ys)) := by
  rw [opensOf_append, summary_append]

theorem eq_nil_of_summary {opens : List Opened} (h : ∀ b, summary (opensOf b opens) = none) : opens = [] := by
  cases opens with
  | nil => rfl
  | cons o rest =>
    have hnone := summary_eq_none.mp (h o.bookmarkId)
    have hmem : o ∈ opensOf o.bookmarkId (o :: rest) := mem_opensOf.mpr ⟨List.mem_cons_self, rfl⟩
    rw [hnone] at hmem
    cases hmem

/-- The number of opens that is kept. -/
def count : Option Entry → ℕ
  | none => 0
  | some e => e.count

theorem count_together (e e' : Option Entry) : count (together e e') = count e + count e' := by
  cases e <;> cases e' <;> simp [together, count, Entry.add]

theorem count_summary (opens : List Opened) : count (summary opens) = opens.length := by
  induction opens with
  | nil => rfl
  | cons o rest ih =>
    rw [summary_cons, count_together, ih, List.length_cons, Nat.add_comm]
    rfl

/-- **The time that is kept is the latest of the opens.** -/
theorem isGreatest_summary {opens : List Opened} {e : Entry} (h : summary opens = some e) :
    IsGreatest {t | ∃ o ∈ opens, o.openedAt = t} e.lastOpenedAt := by
  induction opens generalizing e with
  | nil => cases h
  | cons o rest ih =>
    rw [summary_cons] at h
    cases hrest : summary rest with
    | none =>
      rw [hrest] at h
      cases h
      rw [summary_eq_none.mp hrest]
      refine ⟨⟨o, List.mem_cons_self, rfl⟩, ?_⟩
      rintro t ⟨o', ho', rfl⟩
      rw [List.mem_singleton.mp ho']
    | some e' =>
      rw [hrest] at h
      cases h
      obtain ⟨⟨o', ho', htime⟩, hupper⟩ := ih hrest
      refine ⟨?_, ?_⟩
      · rcases le_total o.openedAt e'.lastOpenedAt with hle | hle
        · exact ⟨o', List.mem_cons_of_mem _ ho', htime.trans (max_eq_right hle).symm⟩
        · exact ⟨o, List.mem_cons_self, (max_eq_left hle).symm⟩
      · rintro t ⟨o'', ho'', rfl⟩
        rcases List.mem_cons.mp ho'' with rfl | ho''
        · exact le_max_left ..
        · exact (hupper ⟨o'', ho'', rfl⟩).trans (le_max_right ..)

end

/-! ## The buffer's functions -/

section

variable {m : JsMap String Entry} {b : String}

theorem get_keep (id : String) (n : ℕ) (t : ℤ) :
    (keep m id n t).get b = if id = b then together (m.get b) (some ⟨n, t⟩) else m.get b := by
  unfold keep
  cases h : m.get id with
  | none =>
    rw [JsMap.get_set]
    split
    · rename_i hid
      rw [← hid, h]
      rfl
    · rfl
  | some held =>
    rw [JsMap.get_set]
    split
    · rename_i hid
      rw [← hid, h]
      rfl
    · rfl

theorem get_putBack (opens : List OpenCount) : (putBack m opens).get b = together (m.get b) (entryOf b opens) := by
  unfold putBack
  induction opens generalizing m with
  | nil => exact (together_none _).symm
  | cons o rest ih =>
    rw [List.foldl_cons, ih, get_keep, entryOf]
    split
    · rw [together_assoc]
      rfl
    · rfl

theorem taken_bookmarkIds : (taken m).map OpenCount.bookmarkId = m.keys := by
  rw [taken, List.map_map]
  rfl

/-- What is taken of a bookmark is what the map holds. -/
theorem entryOf_taken : entryOf b (taken m) = m.get b := by
  obtain ⟨l, hkeyed⟩ := m
  unfold taken JsMap.get
  induction l with
  | nil => rfl
  | cons e rest ih =>
    rw [List.map_cons, List.nodup_cons] at hkeyed
    have hrest := ih hkeyed.2
    simp only at hrest
    simp only [List.map_cons, entryOf, JsMap.lookup]
    by_cases h : e.1 = b
    · rw [if_pos h, if_pos h, hrest, JsMap.lookup_eq_none.mpr (h ▸ hkeyed.1)]
      rfl
    · rw [if_neg h, if_neg h, hrest]

theorem UsageColumns.add_add (c : UsageColumns) (e e' : Option Entry) : (c.add e).add e' = c.add (together e e') := by
  cases e with
  | none => rfl
  | some e => cases e' with
    | none => rfl
    | some e' =>
      cases ht : c.lastOpenedAt <;>
        simp [UsageColumns.add, together, Entry.add, ht, Nat.add_assoc, max_assoc]

end

/-! ## Where the opens are -/

/-- What is taken and neither stored nor put back. -/
def UsageBuffer.rest (b : UsageBuffer) : List OpenCount := (b.flushing.map WriteOut.rest).getD []

theorem WriteOut.failed_of_pending {f : WriteOut} (h : f.pending = true) : f.failed = false := by
  unfold WriteOut.pending at h
  cases hfailed : f.failed with
  | false => rfl
  | true => simp [hfailed] at h

theorem rest_of_flushing {b : UsageBuffer} {f : WriteOut} (hf : b.flushing = some f) (hfailed : f.failed = false) :
    b.rest = f.taken.drop f.start := by
  unfold UsageBuffer.rest WriteOut.rest
  rw [hf, Option.map_some, Option.getD_some, hfailed]
  rfl

/-- A stop whose last flush runs has left nothing in the buffer, and when it has written all, nothing is left. -/
def StopKept (s : Process) : Prop :=
  match s.buffer.stopping with
  | none => True
  | some (.waiting awaited) => (∀ run, awaited = some run → run < s.buffer.runs) ∧
      ∀ f, s.buffer.flushing = some f → some f.run ≠ awaited → f.failed = false → s.opens.waiting = []
  | some (.last run) => ∃ f, s.buffer.flushing = some f ∧ f.run = run ∧ (f.failed = false → s.opens.waiting = [])
  | some (.done written) => written = true → s.opens.waiting = [] ∧ s.opens.flying = []

/-- **Every open recorded is in one place**, and each place holds what its opens amount to. -/
structure Conserved (bookmarks : Bookmarks) (s : Process) : Prop where
  places : s.opens.recorded.map Opened.place = List.range s.opens.recorded.length
  parted : s.opens.recorded.Perm (s.opens.waiting ++ (s.opens.flying ++ s.opens.delivered))
  waiting : ∀ b, s.buffer.entries.get b = summary (opensOf b s.opens.waiting)
  flying : ∀ b, entryOf b s.buffer.rest = summary (opensOf b s.opens.flying)
  delivered : ∀ b, entryOf b s.batches.flatten = summary (opensOf b s.opens.delivered)
  distinct : ∀ f, s.buffer.flushing = some f → (f.taken.map OpenCount.bookmarkId).Nodup
  runs : ∀ f, s.buffer.flushing = some f → f.run < s.buffer.runs
  columns : ∀ b, s.bookmarks b = none ∨
    s.bookmarks b = (bookmarks b).map fun c => c.add (summary (opensOf b s.opens.delivered))
  stopping : StopKept s

namespace Conserved

variable {bookmarks : Bookmarks} {s s' : Process}

theorem start : Conserved bookmarks (start bookmarks) where
  places := rfl
  parted := List.Perm.refl _
  waiting _ := rfl
  flying _ := rfl
  delivered _ := rfl
  distinct _ h := by cases h
  runs _ h := by cases h
  columns b := .inr (by
    change bookmarks b = (bookmarks b).map id
    rw [Option.map_id, id])
  stopping := trivial

theorem record (h : Conserved bookmarks s) (id : String) (t : ℤ) : Conserved bookmarks (s.record id t) := by
  unfold Process.record
  cases hstop : s.buffer.stopping with
  | some _ => exact h
  | none =>
    refine ⟨?_, ?_, fun b => ?_, h.flying, h.delivered, h.distinct, h.runs, h.columns, ?_⟩
    · simp only [List.map_append, List.map_cons, List.map_nil, List.length_append, List.length_singleton]
      rw [h.places, List.range_succ]
    · simp only
      refine (h.parted.append_right _).trans ?_
      rw [List.append_assoc s.opens.waiting, List.append_assoc s.opens.waiting]
      exact List.Perm.append_left _ List.perm_append_comm
    · simp only
      rw [get_keep, summary_opensOf_append, h.waiting b]
      by_cases hid : id = b
      · simp [hid, opensOf, summary, together_none]
      · simp [hid, opensOf, summary, together_none]
    · unfold StopKept
      simp only [hstop]

theorem flush (h : Conserved bookmarks s) : Conserved bookmarks s.flush := by
  unfold Process.flush UsageBuffer.startFlush
  cases hf : s.buffer.flushing with
  | some f => exact h
  | none =>
    have hflying : s.opens.flying = [] := by
      refine eq_nil_of_summary fun b => ?_
      rw [← h.flying b]
      unfold UsageBuffer.rest
      rw [hf]
      rfl
    have hparted := h.parted
    rw [hflying, List.nil_append] at hparted
    refine ⟨h.places, hparted, fun b => rfl, fun b => ?_, h.delivered, fun f hf' => ?_, fun f hf' => ?_, h.columns, ?_⟩
    · exact (entryOf_taken (m := s.buffer.entries)).trans (h.waiting b)
    · cases hf'
      rw [taken_bookmarkIds]
      exact s.buffer.entries.keyed
    · cases hf'
      exact Nat.lt_succ_self _
    · have hstop := h.stopping
      unfold StopKept at hstop ⊢
      simp only
      cases hphase : s.buffer.stopping with
      | none => trivial
      | some phase =>
        rw [hphase] at hstop
        cases phase with
        | waiting awaited => exact ⟨fun run hrun => Nat.lt_succ_of_lt (hstop.1 run hrun), fun _ _ _ _ => trivial⟩
        | last run =>
          obtain ⟨f, hf', -⟩ := hstop
          rw [hf] at hf'
          cases hf'
        | done written => exact fun hwritten => ⟨trivial, (hstop hwritten).1⟩

/-- The opens of a bookmark that a batch names. -/
theorem opensOf_filter {p : String → Bool} (b : String) (opens : List Opened) :
    opensOf b (opens.filter fun o => p o.bookmarkId) = if p b = true then opensOf b opens else [] := by
  unfold opensOf
  rw [List.filter_filter]
  split
  · rename_i hb
    refine List.filter_congr fun o _ => ?_
    by_cases ho : o.bookmarkId = b
    · simp [ho, hb]
    · simp [ho]
  · rename_i hb
    refine List.filter_eq_nil_iff.mpr fun o _ => ?_
    by_cases ho : o.bookmarkId = b
    · simp [ho, hb]
    · simp [ho]

theorem stored {f : WriteOut} (h : Conserved bookmarks s) (hf : s.buffer.flushing = some f) (hpending : f.pending = true)
    (hs : s.stored f = some s') : Conserved bookmarks s' := by
  obtain ⟨bookmarks', hflush, rfl⟩ := Option.map_eq_some_iff.mp hs
  have hfailed : f.failed = false := WriteOut.failed_of_pending hpending
  have hrest : s.buffer.rest = f.taken.drop f.start := rest_of_flushing hf hfailed
  have hsplit : f.taken.drop f.start = f.batch ++ f.taken.drop (f.start + USAGE_FLUSH_BATCH_SIZE) := by
    rw [← List.drop_drop]
    exact (List.take_append_drop ..).symm
  have hdistinct : ((f.batch ++ f.taken.drop (f.start + USAGE_FLUSH_BATCH_SIZE)).map OpenCount.bookmarkId).Nodup := by
    rw [← hsplit]
    exact (h.distinct f hf).sublist ((List.drop_sublist ..).map _)
  rw [List.map_append] at hdistinct
  have hflying (b : String) : together (entryOf b f.batch) (entryOf b (f.taken.drop (f.start + USAGE_FLUSH_BATCH_SIZE))) =
      summary (opensOf b s.opens.flying) := by
    rw [← entryOf_append, ← hsplit, ← hrest]
    exact h.flying b
  -- a bookmark is in the batch or in what comes after it, not in both
  have hparts (b : String) :
      entryOf b f.batch = summary (opensOf b (s.opens.flying.filter fun o =>
        decide (o.bookmarkId ∈ f.batch.map OpenCount.bookmarkId))) ∧
      entryOf b (f.taken.drop (f.start + USAGE_FLUSH_BATCH_SIZE)) = summary (opensOf b (s.opens.flying.filter fun o =>
        !decide (o.bookmarkId ∈ f.batch.map OpenCount.bookmarkId))) := by
    have hin := opensOf_filter (p := fun id : String => decide (id ∈ f.batch.map OpenCount.bookmarkId)) b s.opens.flying
    have hout := opensOf_filter (p := fun id : String => !decide (id ∈ f.batch.map OpenCount.bookmarkId)) b s.opens.flying
    rw [hin, hout]
    have hb := hflying b
    by_cases hmem : b ∈ f.batch.map OpenCount.bookmarkId
    · have hnone := entryOf_eq_none.mpr ((List.nodup_append.mp hdistinct).2.2 b hmem b · rfl)
      rw [hnone, together_none] at hb
      simp [hmem, hnone, hb, summary]
    · have hnone := entryOf_eq_none.mpr hmem
      rw [hnone] at hb
      have hb' : entryOf b (f.taken.drop (f.start + USAGE_FLUSH_BATCH_SIZE)) = summary (opensOf b s.opens.flying) := hb
      simp [hmem, hnone, hb', summary]
  refine ⟨h.places, ?_, h.waiting, fun b => ?_, fun b => ?_, fun f' hf' => ?_, fun f' hf' => ?_, fun b => ?_, ?_⟩
  · refine h.parted.trans (List.Perm.append_left _ ?_)
    refine ((List.filter_append_perm (fun o : Opened => decide (o.bookmarkId ∈ f.batch.map OpenCount.bookmarkId))
      s.opens.flying).symm.append_right _).trans ?_
    rw [List.append_assoc]
    refine List.perm_append_comm.trans ?_
    rw [List.append_assoc]
  · have hrest' : WriteOut.rest { f with start := f.start + USAGE_FLUSH_BATCH_SIZE } =
        f.taken.drop (f.start + USAGE_FLUSH_BATCH_SIZE) := by
      unfold WriteOut.rest
      rw [hfailed]
      rfl
    unfold UsageBuffer.rest
    simp only [Option.map_some, Option.getD_some, hrest']
    exact (hparts b).2
  · simp only [List.flatten_append, List.flatten_cons, List.flatten_nil, List.append_nil]
    rw [entryOf_append, summary_opensOf_append, h.delivered b, (hparts b).1]
  · cases hf'
    exact h.distinct f hf
  · cases hf'
    exact h.runs f hf
  · unfold sysFlushOpenCounts at hflush
    split at hflush
    · cases hflush
    · split at hflush
      · cases hflush
      · cases hflush
        rcases h.columns b with hnone | hsome
        · exact .inl (by simp only [hnone, Option.map_none])
        · refine .inr ?_
          simp only [hsome, Option.map_map, summary_opensOf_append, ← (hparts b).1]
          exact congrArg (fun g => (bookmarks b).map g) (funext fun c => UsageColumns.add_add ..)
  · have hstop := h.stopping
    unfold StopKept at hstop ⊢
    simp only
    cases hphase : s.buffer.stopping with
    | none => trivial
    | some phase =>
      rw [hphase] at hstop
      cases phase with
      | waiting awaited =>
        refine ⟨hstop.1, fun f' hf' hne _ => ?_⟩
        cases hf'
        exact hstop.2 f hf hne hfailed
      | last run =>
        obtain ⟨f', hf', hrun, hwaiting⟩ := hstop
        obtain rfl : f = f' := Option.some.inj (hf.symm.trans hf')
        exact ⟨_, rfl, hrun, fun _ => hwaiting hfailed⟩
      | done written =>
        intro hwritten
        obtain ⟨hwaiting, hnone⟩ := hstop hwritten
        exact ⟨hwaiting, by rw [hnone]; rfl⟩

theorem failed {f : WriteOut} (h : Conserved bookmarks s) (hf : s.buffer.flushing = some f) (hpending : f.pending = true) :
    Conserved bookmarks (s.failed f) := by
  have hfailed : f.failed = false := WriteOut.failed_of_pending hpending
  have hrest : s.buffer.rest = f.taken.drop f.start := rest_of_flushing hf hfailed
  unfold Process.failed
  refine ⟨h.places, ?_, fun b => ?_, fun b => ?_, h.delivered, fun f' hf' => ?_, fun f' hf' => ?_, h.columns, ?_⟩
  · simp only [List.nil_append]
    rw [List.append_assoc]
    exact h.parted
  · simp only
    rw [get_putBack, summary_opensOf_append, h.waiting b, ← hrest, h.flying b]
  · rfl
  · cases hf'
    exact h.distinct f hf
  · cases hf'
    exact h.runs f hf
  · have hstop := h.stopping
    unfold StopKept at hstop ⊢
    simp only
    cases hphase : s.buffer.stopping with
    | none => trivial
    | some phase =>
      rw [hphase] at hstop
      cases phase with
      | waiting awaited =>
        refine ⟨hstop.1, fun f' hf' _ hno => ?_⟩
        cases hf'
        cases hno
      | last run =>
        obtain ⟨f', hf', hrun, -⟩ := hstop
        obtain rfl : f = f' := Option.some.inj (hf.symm.trans hf')
        exact ⟨_, rfl, hrun, fun hno => by cases hno⟩
      | done written =>
        intro hwritten
        obtain ⟨hwaiting, hnone⟩ := hstop hwritten
        exact ⟨by rw [hwaiting, hnone]; rfl, trivial⟩

theorem settled {f : WriteOut} (h : Conserved bookmarks s) (hf : s.buffer.flushing = some f)
    (hpending : f.pending = false) : Conserved bookmarks (s.settled f) := by
  have hrest : s.buffer.rest = [] := by
    unfold UsageBuffer.rest WriteOut.rest
    rw [hf, Option.map_some, Option.getD_some]
    unfold WriteOut.pending at hpending
    split
    · rfl
    · rename_i hno
      simp only [Bool.not_eq_true] at hno
      simp only [hno, Bool.not_false, Bool.true_and, decide_eq_false_iff_not, not_lt] at hpending
      exact List.drop_eq_nil_of_le hpending
  have hflying : s.opens.flying = [] := by
    refine eq_nil_of_summary fun b => ?_
    rw [← h.flying b, hrest]
    rfl
  unfold Process.settled
  refine ⟨h.places, h.parted, h.waiting, fun b => ?_, h.delivered, fun f' hf' => ?_, fun f' hf' => ?_, h.columns, ?_⟩
  · simp only [hflying]
    rfl
  · cases hf'
  · cases hf'
  · have hstop := h.stopping
    unfold StopKept at hstop ⊢
    simp only
    cases hphase : s.buffer.stopping with
    | none => trivial
    | some phase =>
      rw [hphase] at hstop
      cases phase with
      | waiting awaited => exact ⟨hstop.1, fun f' hf' => by cases hf'⟩
      | last run =>
        obtain ⟨f', hf', hrun, hwaiting⟩ := hstop
        obtain rfl : f = f' := Option.some.inj (hf.symm.trans hf')
        simp only [hrun, ↓reduceIte, Bool.not_eq_true']
        exact fun hwritten => ⟨hwaiting hwritten, hflying⟩
      | done written => exact hstop

theorem stop (h : Conserved bookmarks s) : Conserved bookmarks s.stop := by
  unfold Process.stop
  cases hphase : s.buffer.stopping with
  | some phase => exact h
  | none =>
    refine ⟨h.places, h.parted, h.waiting, h.flying, h.delivered, h.distinct, h.runs, h.columns, ?_⟩
    refine ⟨fun run hrun => ?_, fun f hf hne => ?_⟩
    · obtain ⟨f, hf, rfl⟩ := Option.map_eq_some_iff.mp hrun
      exact h.runs f hf
    · have hf' : s.buffer.flushing = some f := hf
      rw [hf'] at hne
      exact absurd rfl hne

theorem stopGoesOn {awaited : Option ℕ} (h : Conserved bookmarks s) (hphase : s.buffer.stopping = some (.waiting awaited))
    (hgo : ¬(awaited.isSome ∧ s.buffer.flushing.map WriteOut.run = awaited)) : Conserved bookmarks s.stopGoesOn := by
  have hflushed := h.flush
  refine ⟨hflushed.places, hflushed.parted, hflushed.waiting, hflushed.flying, hflushed.delivered, hflushed.distinct,
    hflushed.runs, hflushed.columns, ?_⟩
  have hstop := h.stopping
  unfold StopKept at hstop
  rw [hphase] at hstop
  unfold StopKept Process.stopGoesOn Process.flush UsageBuffer.startFlush
  cases hf : s.buffer.flushing with
  | none => exact ⟨_, rfl, rfl, fun _ => rfl⟩
  | some f =>
    simp only [hf, Option.map_some, Option.or]
    refine ⟨f, rfl, rfl, hstop.2 f hf fun heq => hgo ⟨heq ▸ rfl, ?_⟩⟩
    rw [hf, ← heq]
    rfl

theorem deleted (h : Conserved bookmarks s) (id : String) :
    Conserved bookmarks { s with bookmarks := Function.update s.bookmarks id none } := by
  refine ⟨h.places, h.parted, h.waiting, h.flying, h.delivered, h.distinct, h.runs, fun b => ?_, h.stopping⟩
  by_cases hb : b = id
  · subst hb
    exact .inl (Function.update_self ..)
  · simp only [Function.update_of_ne hb]
    exact h.columns b

/-- **Every event keeps every open in one place.** -/
theorem step (h : Conserved bookmarks s) {e : Event} (hstep : s.step e = some s') : Conserved bookmarks s' := by
  cases e with
  | record id t => exact Option.some.inj hstep ▸ h.record id t
  | flush => exact Option.some.inj hstep ▸ h.flush
  | stored =>
    obtain ⟨f, hf, hrun⟩ := Option.bind_eq_some_iff.mp hstep
    split at hrun
    · rename_i hpending
      exact h.stored hf hpending hrun
    · cases hrun
  | failed =>
    obtain ⟨f, hf, hrun⟩ := Option.bind_eq_some_iff.mp hstep
    split at hrun
    · rename_i hpending
      exact Option.some.inj hrun ▸ h.failed hf hpending
    · cases hrun
  | settled =>
    obtain ⟨f, hf, hrun⟩ := Option.bind_eq_some_iff.mp hstep
    split at hrun
    · cases hrun
    · rename_i hpending
      exact Option.some.inj hrun ▸ h.settled hf (Bool.not_eq_true _ ▸ hpending)
  | stop => exact Option.some.inj hstep ▸ h.stop
  | stopGoesOn =>
    rw [Process.step] at hstep
    split at hstep
    · rename_i awaited hphase
      split at hstep
      · cases hstep
      · rename_i hgo
        exact Option.some.inj hstep ▸ h.stopGoesOn hphase hgo
    · cases hstep
  | deleted id => exact Option.some.inj hstep ▸ h.deleted id

theorem of_reachable (h : (system bookmarks).Reachable s) : Conserved bookmarks s := by
  refine h.invariant (fun s hs => ?_) fun s e s' hkept hstep => hkept.step hstep
  rw [hs]
  exact Conserved.start

end Conserved

/-! ## Every run -/

/-- **No open is lost or counted twice**: for each bookmark the opens recorded are those in the store's batches and those the
buffer or the flush in flight keeps, with the latest of their times; no open is delivered twice, a bookmark that still
exists has what was delivered added to its columns, and a stop whose last flush succeeds has delivered every open recorded. -/
theorem opens_conserved {bookmarks : Bookmarks} {s : Process} (h : (system bookmarks).Reachable s) :
    (∀ b, (opensOf b s.opens.recorded).length = count (entryOf b s.batches.flatten) +
      count (together (s.buffer.entries.get b) (entryOf b s.buffer.rest))) ∧
    (∀ b e, together (s.buffer.entries.get b) (entryOf b s.buffer.rest) = some e →
      IsGreatest {t | ∃ o ∈ s.opens.recorded, o ∉ s.opens.delivered ∧ o.bookmarkId = b ∧ o.openedAt = t} e.lastOpenedAt) ∧
    (s.opens.delivered.Nodup ∧ s.opens.delivered ⊆ s.opens.recorded ∧
      ∀ b, entryOf b s.batches.flatten = summary (opensOf b s.opens.delivered)) ∧
    (∀ b, s.bookmarks b = none ∨
      s.bookmarks b = (bookmarks b).map fun c => c.add (entryOf b s.batches.flatten)) ∧
    (∀ written, s.buffer.stopping = some (.done written) → written = true →
      ∀ o ∈ s.opens.recorded, o ∈ s.opens.delivered) := by
  have hkept := Conserved.of_reachable h
  have hkeeps (b : String) : together (s.buffer.entries.get b) (entryOf b s.buffer.rest) =
      summary (opensOf b (s.opens.waiting ++ s.opens.flying)) := by
    rw [hkept.waiting, hkept.flying, summary_opensOf_append]
  have hnodup : s.opens.recorded.Nodup := .of_map _ (hkept.places ▸ List.nodup_range)
  have hall := hkept.parted
  rw [← List.append_assoc] at hall
  have hparts := List.nodup_append.mp (hall.nodup_iff.mp hnodup)
  refine ⟨fun b => ?_, fun b e he => ?_, ⟨hparts.2.1, fun o ho => ?_, hkept.delivered⟩, fun b => ?_, fun written hdone hwritten o ho => ?_⟩
  · rw [hkeeps, hkept.delivered, count_summary, count_summary, Nat.add_comm, ← List.length_append, ← opensOf_append]
    exact (hall.filter _).length_eq
  · rw [hkeeps] at he
    have hset : {t | ∃ o ∈ s.opens.recorded, o ∉ s.opens.delivered ∧ o.bookmarkId = b ∧ o.openedAt = t} =
        {t | ∃ o ∈ opensOf b (s.opens.waiting ++ s.opens.flying), o.openedAt = t} := by
      ext t
      refine ⟨fun ⟨o, ho, hnot, hb, htime⟩ => ⟨o, mem_opensOf.mpr ⟨?_, hb⟩, htime⟩, fun ⟨o, ho, htime⟩ => ?_⟩
      · exact (List.mem_append.mp (hall.mem_iff.mp ho)).resolve_right hnot
      · obtain ⟨hmem, hb⟩ := mem_opensOf.mp ho
        exact ⟨o, hall.mem_iff.mpr (List.mem_append_left _ hmem), fun hdel => hparts.2.2 o hmem o hdel rfl, hb, htime⟩
    rw [hset]
    exact isGreatest_summary he
  · exact hall.mem_iff.mpr (List.mem_append_right _ ho)
  · rw [hkept.delivered b]
    exact hkept.columns b
  · have hstop := hkept.stopping
    unfold StopKept at hstop
    rw [hdone] at hstop
    obtain ⟨hwaiting, hflying⟩ := hstop hwritten
    have hmem := hkept.parted.mem_iff.mp ho
    rw [hwaiting, hflying] at hmem
    exact hmem

/-- Two opens of a bookmark, a call that fails with one that comes meanwhile, and a stop. -/
def played : Process :=
  (System.follow Process.step (start fun _ => some ⟨4, none⟩)
    [.record "b" 7, .record "b" 9, .flush, .record "b" 8, .failed, .settled, .stop, .stopGoesOn, .stored, .settled]).getD
    (start fun _ => none)

theorem opens_conserved_played : (∀ o ∈ played.opens.recorded, o ∈ played.opens.delivered) ∧
    played.bookmarks "b" = some ⟨7, some 9⟩ :=
  ⟨(opens_conserved ((System.Reachable.init rfl).follow (fun _ _ _ h => h) _ _ (by decide +kernel) :
    (system fun _ => some ⟨4, none⟩).Reachable played)).2.2.2.2 true (by decide +kernel) rfl, by decide +kernel⟩

end SlugBase.Usage
