import SlugBase.Lib.Commits
import SlugBase.Tagging.Keeps

/-!
# Merges, taggings and deletions beside each other

Any number of requests run beside each other, statement by statement.

* `Commit`: what one commit does to the links;
* **`merges_kept`**: a merge loses no link and doubles none, whatever is tagged, untagged, merged and deleted meanwhile.
-/

namespace SlugBase.Tagging

open ReadCommitted Transition

/-- The database and the transactions in flight. -/
abbrev State := Sys Row Statement Empty Answer

variable (names : Names)

/-- One thing that happens. -/
abbrev step (act : Action Request) (s : State) : Option State := s.step (rules names.same) (program names) act

/-- The answer of the transaction that commits here, with its number. -/
abbrev answered (s : State) (act : Action Request) : Option (ℕ × Answer) := s.answered (rules names.same) act

/-- What happens one after the other, with the answers of what commits. -/
abbrev trace (actions : List (Action Request)) (s : State) : Option (List (ℕ × Answer) × State) :=
  Sys.trace (rules names.same) (program names) actions s

/-- The runs from rows whose links keep their foreign keys. -/
def tags : System State (Action Request) := system (rules names.same) (program names) committed

/-- Why a link is there no more after a commit that answers so. -/
def Answer.unlinks (answer : Answer) (b t : Uuid) : Prop :=
  answer.untags b t = true ∨ answer.removes (.bookmark b) = true ∨ answer.removes (.tag t) = true

/-- What a commit does to the links. -/
structure Commit (answer : Answer) (db db' : Rows) : Prop where
  refused : answer = .refused ∨ answer = .again → db' = db
  merged : ∀ source target, answer = .merged source target → db'.lookup (.tag source) = some none ∧
    ∀ b, Linked db b source ∨ Linked db b target → Linked db' b target
  saved : ∀ b detached wanted, answer = .saved b detached wanted → ∀ t ∈ wanted, Linked db' b t
  tagged : ∀ pairs, answer = .tagged pairs →
    ∀ p ∈ pairs, Linked db' p.1 p.2.1 ∨ p.2.2 < (Rows.link db' p.1 p.2.1).untagged
  counts : ∀ b t, (Rows.link db b t).untagged < (Rows.link db' b t).untagged → answer.untags b t = true
  lost : ∀ b t, Linked db b t → ¬ Linked db' b t → answer.unlinks b t

theorem commit_of_promise {answer : Answer} {db : Rows} {y : Local} (h : promise answer db y) : Commit answer db (y.view db) := by
  obtain ⟨hwithin, htells⟩ := h
  have hlink (b t : Uuid) : Relinked answer y.locks b t (Rows.link db b t) (Rows.link (y.view db) b t) :=
    hwithin.evolves (.link b t)
  refine ⟨?_, ?_, ?_, ?_, fun b t => (hlink b t).counts, fun b t hlinked hnot => ?_⟩
  · rintro (rfl | rfl)
    · exact Held.view_of_written_nil htells db
    · exact Held.view_of_written_nil htells db
  · rintro source target rfl
    exact htells
  · rintro b detached wanted rfl
    exact htells
  · rintro pairs rfl
    exact htells
  · cases (hlink b t).went hlinked (not_linked_iff.mp hnot) with
    | untagged told => exact .inl told
    | bookmark told => exact .inr (.inl told)
    | tag told => exact .inr (.inr told)

section

variable {names} {s s' : State} {act : Action Request}

theorem holds (h : (tags names).Reachable s) :
    s.Holds committed ((contract names.same).Flying guard) :=
  Contract.upheld (fun _ _ _ => rfl) (keeps_program names) (fun _ h => h) h

theorem step_cases (hs : (tags names).Reachable s) (h : step names act s = some s') :
    (answered names s act = none ∧ s'.committed = s.committed) ∨
      ∃ n answer, answered names s act = some (n, answer) ∧ Commit answer s.committed s'.committed := by
  rcases Sys.commit_cases h with hnone | ⟨n, x, answer, hx, hanswered, hprog, hcommitted⟩
  · exact .inl hnone
  · have hpromise := ((holds hs).inFlight n x hx).promise hprog
    refine .inr ⟨n, answer, hanswered, ?_⟩
    rw [hcommitted]
    exact commit_of_promise hpromise

/-! ## Every run -/

variable {actions : List (Action Request)} {log : List (ℕ × Answer)}

theorem trace_reachable (hs : (tags names).Reachable s) (h : trace names actions s = some (log, s')) :
    (tags names).Reachable s' := by
  induction actions generalizing s log with
  | nil =>
    cases h
    exact hs
  | cons act actions ih =>
    obtain ⟨s₁, rest, hstep, htrace, -⟩ := Sys.trace_cons h
    exact ih (.step hs hstep) htrace

/-- A link that is lost in a run was untagged, or its bookmark or its tag was deleted. -/
theorem trace_linked {b t : Uuid} (hs : (tags names).Reachable s) (h : trace names actions s = some (log, s'))
    (hlinked : Linked s.committed b t) : Linked s'.committed b t ∨ ∃ e ∈ log, e.2.unlinks b t := by
  induction actions generalizing s log with
  | nil =>
    cases h
    exact .inl hlinked
  | cons act actions ih =>
    obtain ⟨s₁, rest, hstep, htrace, rfl⟩ := Sys.trace_cons h
    have hs₁ : (tags names).Reachable s₁ := .step hs hstep
    by_cases hfirst : Linked s₁.committed b t
    · refine (ih hs₁ htrace hfirst).imp_right ?_
      rintro ⟨e, he, hunlinks⟩
      exact ⟨e, List.mem_append_right _ he, hunlinks⟩
    · rcases step_cases hs hstep with ⟨-, heq⟩ | ⟨n, answer, hanswered, hcommit⟩
      · rw [heq] at hfirst
        exact absurd hlinked hfirst
      · have hmem : (n, answer) ∈ (answered names s act).toList := Option.mem_toList.mpr hanswered
        exact .inr ⟨(n, answer), List.mem_append_left _ hmem, hcommit.lost b t hlinked hfirst⟩

end

/-- **A merge loses nothing and doubles nothing.** In every state no pair is there twice, every link names a bookmark and a
tag that are there, and a merge that copies a link holds both tags and every bookmark of the source's links. A step commits
nothing and leaves every row, or is a commit: that of a merge leaves the source gone, and the target on every bookmark that
carried either tag just before; that of a tagging leaves its links, but for one that an untagging has taken since; and a
refusal and a round whose locks are undone leave every row as it was. What is linked after a commit stays so but for a
later commit that untags it, deletes its bookmark, or deletes or merges its tag. -/
theorem merges_kept {s s' : State} {actions : List (Action Request)} {log : List (ℕ × Answer)}
    (hs : (tags names).Reachable s) (h : trace names actions s = some (log, s')) :
    (∀ t, (Rows.bookmarksOf s'.committed t).Nodup) ∧
    (∀ b t, Linked s'.committed b t → Placed s'.committed b t) ∧
    (∀ n x source target b next, s'.txns.lookup n = some x → x.prog = .write (.copyLink source target b) next →
      MergeLocked source target s'.committed x.held) ∧
    (∀ act s'', step names act s' = some s'' → (answered names s' act = none ∧ s''.committed = s'.committed) ∨
      ∃ n answer, answered names s' act = some (n, answer) ∧ Commit answer s'.committed s''.committed) ∧
    ∀ before after n answer, log = before ++ (n, answer) :: after → ∃ act s₁ s₂, step names act s₁ = some s₂ ∧
      answered names s₁ act = some (n, answer) ∧ Commit answer s₁.committed s₂.committed ∧
        ∀ b t, Linked s₂.committed b t → Linked s'.committed b t ∨ ∃ e ∈ after, e.2.unlinks b t := by
  have hs' := trace_reachable hs h
  refine ⟨fun t => Rows.bookmarksOf_nodup, (holds hs').committed,
    fun n x source target b next hx hprog => ((holds hs').inFlight n x hx).finds hprog, fun act s'' => step_cases hs', ?_⟩
  rintro before after n answer rfl
  obtain ⟨actions₁, actions₂, act, s₁, s₂, hbefore, hstep, hanswered, hafter⟩ := Sys.trace_split h
  have hs₁ := trace_reachable hs hbefore
  refine ⟨act, s₁, s₂, hstep, hanswered, ?_, fun b t => trace_linked (.step hs₁ hstep) hafter⟩
  rcases step_cases hs₁ hstep with ⟨hnone, -⟩ | ⟨n', answer', hanswered', hcommit⟩
  · exact absurd (hanswered.symm.trans hnone) (Option.some_ne_none _)
  · obtain ⟨rfl, rfl⟩ := Prod.mk.inj (Option.some.inj (hanswered.symm.trans hanswered'))
    exact hcommit

/-! ## One merge -/

/-- Names are compared as they are. -/
def exactNames : Names := ⟨fun a b => decide (a = b), fun a b => decide (a ≤ b)⟩

/-- A bookmark and two tags of one member. -/
def shelf : State where
  committed := AList.insert (Key.tag 1) (some ⟨9, 5, "lean"⟩) (AList.insert (Key.tag 2) (some ⟨9, 5, "Lean 4"⟩)
    (AList.insert (Key.bookmark 7) (some ⟨9, 5, false⟩) ∅))
  txns := ∅

theorem shelf_reachable : (tags exactNames).Reachable shelf := by
  refine .init ⟨fun b t hlinked => ?_, rfl⟩
  have habsent : Rows.link shelf.committed b t = LinkRow.absent := by
    rw [Rows.link, shelf, AList.lookup_insert_ne Key.noConfusion, AList.lookup_insert_ne Key.noConfusion,
      AList.lookup_insert_ne Key.noConfusion]
    rfl
  rw [Linked, habsent] at hlinked
  cases hlinked

/-- The bookmark is tagged, and a merge has done everything but commit. -/
def merging : List (Action Request) :=
  .start 0 (.update 9 5 7 ⟨[1], []⟩) :: List.replicate 6 (.run 0) ++
    .start 1 (.merge 9 5 1 2 0) :: List.replicate 11 (.run 1)

theorem merges_kept_once : ∃ run s'', trace exactNames merging shelf = some run ∧ step exactNames (.run 1) run.2 = some s'' ∧
    Linked run.2.committed 7 1 ∧ Linked s''.committed 7 2 := by
  have hrun : ((trace exactNames merging shelf).bind fun run => (step exactNames (.run 1) run.2).map fun _ =>
      (answered exactNames run.2 (.run 1), (Rows.link run.2.committed 7 1).present)) = some (some (1, .merged 1 2), true) := by
    decide +kernel
  obtain ⟨run, htrace, hstep⟩ := Option.bind_eq_some_iff.mp hrun
  obtain ⟨s'', hstep, heq⟩ := Option.map_eq_some_iff.mp hstep
  obtain ⟨hanswered, hlinked⟩ := Prod.mk.inj heq
  refine ⟨run, s'', htrace, hstep, hlinked, ?_⟩
  have hkept := (merges_kept exactNames shelf_reachable htrace).2.2.2.1 _ s'' hstep
  rcases hkept with ⟨hnone, -⟩ | ⟨n, answer, hanswered', hcommit⟩
  · exact absurd (hanswered.symm.trans hnone) (Option.some_ne_none _)
  · obtain ⟨rfl, rfl⟩ := Prod.mk.inj (Option.some.inj (hanswered.symm.trans hanswered'))
    exact (hcommit.merged 1 2 rfl).2 7 (.inl hlinked)

end SlugBase.Tagging
