import SlugBase.Invitation.Orderly
import SlugBase.Invitation.Triples

/-!
# Every invitation is accepted once

* `database`: the runs of the requests, from any rows;
* `Commits`: a transaction commits with an answer; `Effect`: what its commit makes of the rows, by the answer;
* **`invitation_accepted_once`**: what holds of every commit of every run.
-/

namespace SlugBase.Invitation

open ReadCommitted Auth Transition

/-- **The transactions of the requests**, from any rows. -/
def database : System (Sys Row Statement Empty Answer) (Action Request) := system rules Request.program fun _ => True

/-- A transaction commits with this answer. -/
def Commits (s s' : Sys Row Statement Empty Answer) (answer : Answer) : Prop :=
  ∃ t y, s.txns.lookup t = some y ∧ y.prog = .done answer ∧ y.events = [] ∧ s' = ⟨y.view s.committed, s.txns.erase t⟩

/-- **What a commit makes of the rows**, by its answer: an acceptance is one, a refusal changes nothing, and no other
transaction makes an invitation accepted. -/
def Effect (db db' : Rows) : Answer → Prop
  | .accepted c => Accepts db db' c
  | .refused _ => db' = db
  | .other => ∀ i, WasAccepted (db'.lookup (.invitation i)) → WasAccepted (db.lookup (.invitation i))

theorem Request.program_triple (request : Request) : contract.Triple (fun _ x => x = .empty) request.program := by
  have hidle {p : Program} (h : contract.Triple (fun _ x => Idle x) p) : contract.Triple (fun _ x => x = .empty) p :=
    h.of_imp fun {_ x} _ hx => by
      rw [hx]
      exact Held.written_empty
  cases haccepts : request.accepts with
  | false =>
    refine (Request.orderly haccepts).triple.of_imp fun {db x} _ hx => ?_
    subst hx
    exact ⟨.of_idle rfl none db, fun w hw => absurd hw List.not_mem_nil⟩
  | true =>
    have hrefused (outcome : Refusal) : contract.Triple (fun _ x => Idle x) (refuse outcome) := triple_refuse id outcome
    cases request with
    | accept ask a =>
      have htriple : contract.Triple (fun _ x => Idle x)
          (sysInvitationAccept ask refuse a fun acceptance => .done (.accepted acceptance)) :=
        triple_sysInvitationAccept a hrefused fun c row _ => triple_accepted c row
      exact hidle htriple
    | acceptNewAccount ask a =>
      have htriple : contract.Triple (fun _ x => Idle x)
          (sysInvitationAcceptNewAccount ask refuse a fun acceptance => .done (.accepted acceptance)) :=
        triple_sysInvitationAcceptNewAccount a hrefused fun c row _ => triple_accepted c row
      exact hidle htriple
    | acceptWithIdentity ask => exact hidle (triple_sysInvitationAcceptWithIdentity ask)
    | _ => cases haccepts

theorem holds {s : Sys Row Statement Empty Answer} (h : database.Reachable s) :
    s.Holds (fun _ => True) contract.InFlight :=
  contract.holds (fun _ _ _ => rfl) Request.program_triple (fun _ _ => trivial) h

section

variable {s s' : Sys Row Statement Empty Answer} {answer : Answer}

theorem promise_of_commits (h : database.Reachable s) (hcommits : Commits s s' answer) :
    ∃ y : Local, Promise answer s.committed y ∧ s'.committed = y.view s.committed := by
  obtain ⟨t, y, hy, hprog, -, rfl⟩ := hcommits
  exact ⟨y.held, ((holds h).inFlight t y hy).promise hprog, rfl⟩

theorem effect_of_commits (h : database.Reachable s) (hcommits : Commits s s' answer) :
    Effect s.committed s'.committed answer := by
  obtain ⟨y, hy, hview⟩ := promise_of_commits h hcommits
  rw [hview]
  cases answer with
  | accepted c => exact hy.2
  | refused outcome => exact Held.view_of_written_nil hy _
  | other => exact fun i haccepted => (hy (.invitation i)).2 (fun h => by cases h) haccepted

theorem commits_of_step {a : Action Request} (hstep : s.step rules Request.program a = some s') :
    s'.committed = s.committed ∨ ∃ answer, Commits s s' answer := by
  cases Sys.moves_of_step hstep with
  | starts | ends | goes => exact .inl rfl
  | @commits t y hy hready =>
    obtain ⟨⟨answer, hprog⟩, hevents⟩ := hready
    exact .inr ⟨answer, t, y, hy, hprog, hevents, rfl⟩

theorem closed_of_step (h : database.Reachable s) {a : Action Request}
    (hstep : s.step rules Request.program a = some s') {i : Uuid} (hclosed : Closed s.committed i) :
    Closed s'.committed i := by
  rcases commits_of_step hstep with hsame | ⟨answer, hcommits⟩
  · rw [hsame]
    exact hclosed
  · obtain ⟨y, hy, hview⟩ := promise_of_commits h hcommits
    obtain ⟨accepting, hchanged⟩ := hy.changed
    rw [hview]
    exact (hchanged (.invitation i)).1 hclosed

theorem closed_of_run (h : database.Reachable s) (hrun : (database.startingAt s).Reachable s') {i : Uuid}
    (hclosed : Closed s.committed i) : Closed s'.committed i := by
  induction hrun with
  | init hinit => exact hinit ▸ hclosed
  | step hrun hstep ih => exact closed_of_step (h.of_startingAt hrun) hstep ih

theorem Accepts.closed {db db' : Rows} {c : Acceptance} (h : Accepts db db' c) :
    ¬ Closed db c.invitationId ∧ Closed db' c.invitationId := by
  obtain ⟨row, hrow, hpending, -, -, ⟨now, haccepted⟩, -⟩ := h.invitation
  constructor
  · rintro ⟨slot, hslot, hclosed⟩
    rw [invitation_eq_some.mp hrow] at hslot
    cases hslot
    exact hclosed row rfl hpending
  · refine ⟨_, invitation_eq_some.mp haccepted, ?_⟩
    rintro _ ⟨⟩ hstill
    cases hstill

end

/-- **An invitation is accepted once, as it says**: in every run of the acceptances with the other requests, a commit that
answers `accepted` makes one membership of the invited role, for an account that holds the invited address verified or a
new one of that address, in teams of that workspace only and within the seats it was given; a refusal writes nothing;
nothing else accepts an invitation; and no invitation is accepted twice. -/
theorem invitation_accepted_once {s : Sys Row Statement Empty Answer} (h : database.Reachable s) :
    (∀ a s', s.step rules Request.program a = some s' → s'.committed = s.committed ∨ ∃ answer, Commits s s' answer) ∧
    (∀ s' answer, Commits s s' answer → Effect s.committed s'.committed answer) ∧
    ∀ s₁ s₂ s₃ c c', Commits s s₁ (.accepted c) → (database.startingAt s₁).Reachable s₂ → Commits s₂ s₃ (.accepted c') →
      c'.invitationId ≠ c.invitationId := by
  refine ⟨fun a s' hstep => commits_of_step hstep, fun s' answer hcommits => effect_of_commits h hcommits,
    fun s₁ s₂ s₃ c c' hfirst hrun hsecond hsame => ?_⟩
  have hs₁ : database.Reachable s₁ := by
    obtain ⟨t, y, hy, hprog, hevents, rfl⟩ := hfirst
    refine h.step (a := .run t) ?_
    show s.step rules Request.program (.run t) = some _
    simp only [Sys.step, hy, Txn.turn, hprog, hevents]
  have hclosed : Closed s₂.committed c.invitationId :=
    closed_of_run hs₁ hrun (effect_of_commits h hfirst : Accepts _ _ c).closed.2
  have hs₂ : database.Reachable s₂ := hs₁.of_startingAt hrun
  exact (effect_of_commits hs₂ hsecond : Accepts _ _ c').closed.1 (hsame ▸ hclosed)

/-- A workspace with an owner and a team, and an invitation into both of the holder of another address. -/
def inviting : Sys Row Statement Empty Answer where
  committed := ((((((∅ : Rows).insert (.workspace 1) ⟨none⟩).insert (.account 10) ⟨"a", some 0, none, .full⟩).insert
    (.account 11) ⟨"b", some 0, none, .full⟩).insert (.member 1 10) .owner).insert (.team 7) 1).insert (.invitation 5)
      (some ⟨1, "b", .admin, false, [7, 8], 99, none, true, some 10, .pending, 100, none, none⟩)
  txns := ∅

/-- What the acceptance of that invitation is asked with: two seats. -/
def inviteeAsk : AcceptAsk := ⟨some 11, 99, some 2, 50, 51, 52⟩

/-- The acceptance, up to its commit. -/
def acceptedRun : List (Action Request) := .start 0 (.accept inviteeAsk 11) :: List.replicate 13 (.run 0)

/-- What a transaction that is done answers. -/
def answered : Program → Option Answer
  | .done answer => some answer
  | _ => none

theorem eq_done_of_answered {p : Program} {answer : Answer} (h : answered p = some answer) : p = .done answer := by
  cases p with
  | done a => exact congrArg Prog.done (Option.some.inj h)
  | _ => cases h

/-- The holder of the address joins the workspace and the team. -/
theorem invitation_accepted_once_played :
    ∃ s s', database.Reachable s ∧ Commits s s' (.accepted ⟨1, 5, .admin, 11, some 2⟩) ∧
      Rows.member s'.committed 1 11 = some .admin ∧ Rows.teamMember s'.committed 1 7 11 = some () ∧
      Effect s.committed s'.committed (.accepted ⟨1, 5, .admin, 11, some 2⟩) := by
  have hplayed : (inviting.run rules Request.program acceptedRun).map (fun s => (s.txns.lookup 0).map fun y =>
      (answered y.prog, Rows.member (y.view s.committed) 1 11, Rows.teamMember (y.view s.committed) 1 7 11)) =
        some (some (some (.accepted ⟨1, 5, .admin, 11, some 2⟩), some .admin, some ())) := by
    decide +kernel
  obtain ⟨s, hs, hfound⟩ := Option.map_eq_some_iff.mp hplayed
  obtain ⟨y, hy, hfound⟩ := Option.map_eq_some_iff.mp hfound
  obtain ⟨hprog, hrows⟩ := Prod.ext_iff.mp hfound
  obtain ⟨hmember, hteam⟩ := Prod.ext_iff.mp hrows
  have hevents : y.events = [] := by
    cases hevents : y.events with
    | nil => rfl
    | cons e events => exact e.elim
  have hreach : database.Reachable s := reachable_of_run (fun _ _ _ h => h) (.init ⟨trivial, rfl⟩) hs
  have hcommits : Commits s ⟨y.view s.committed, s.txns.erase 0⟩ (.accepted ⟨1, 5, .admin, 11, some 2⟩) :=
    ⟨0, y, hy, eq_done_of_answered hprog, hevents, rfl⟩
  exact ⟨s, _, hreach, hcommits, hmember, hteam, (invitation_accepted_once hreach).2.1 _ _ hcommits⟩

end SlugBase.Invitation
