import SlugBase.Team.Triples

/-!
# Runs of requests on teams

Any number of requests run beside each other, statement by statement.

* `trace`: the commits of a run, with their answers;
* `Commit`: what one commit does to the teams;
* **`members_kept`**: every member of a team is a member of its workspace, the version of a team counts its changes, and
  a change that was accepted with a version that its caller had read overwrites none of the changes since.
-/

namespace SlugBase.Team

open ReadCommitted Transition

/-- The database and the transactions in flight. -/
abbrev State := Sys Row Statement Empty Answer

variable (sameName : String → String → Bool)

/-- One thing that happens. -/
def step : Action Request → State → Option State := fun act s => s.step rules (program sameName) act

/-- The answer of the transaction that commits here, with its number. -/
def answered (s : State) : Action Request → Option (ℕ × Answer)
  | .run n =>
    match s.txns.lookup n with
    | none => none
    | some x =>
      match x.turn rules s.committed (s.free n), x.prog with
      | .commits, .done answer => some (n, answer)
      | _, _ => none
  | _ => none

/-- What happens one after the other, with the answers of what commits. -/
def trace : List (Action Request) → State → Option (List (ℕ × Answer) × State)
  | [], s => some ([], s)
  | act :: actions, s =>
    (step sameName act s).bind fun s' =>
      (trace actions s').map fun run => ((answered s act).toList ++ run.1, run.2)

/-- The runs from rows whose memberships keep their foreign keys. -/
def teams : System State (Action Request) := system rules (program sameName) committed

/-! ## One commit -/

/-- What a commit does to the teams and their members. -/
structure Commit (answer : Answer) (db db' : Rows) : Prop where
  gone : ∀ t, db.lookup (.team t) = some none → db'.lookup (.team t) = some none
  team : ∀ t row, db.lookup (.team t) = some (some row) → db'.lookup (.team t) = some none ∨
    ∃ row', db'.lookup (.team t) = some (some row') ∧ row'.workspaceId = row.workspaceId ∧
      row'.version = row.version + (if answer.moves t then 1 else 0) ∧
      row'.membersVersion = row.membersVersion + (if answer.gains t then 1 else 0)
  gained : ∀ w t a, Linked db' w t a → ¬ Linked db w t a → answer.gains t = true
  lost : ∀ w t a, Linked db w t a → ¬ Linked db' w t a →
    answer.replaces t = true ∨ db'.lookup (.member w a) = none ∨ db'.lookup (.team t) = some none
  accepted : ∀ t versions, answer.accepted = some (t, versions) →
    ∃ row, db.lookup (.team t) = some (some row) ∧ row.version ∈ versions
  known : ∀ w a known touched, answer = .joined w a known touched →
    ∀ t ∈ known, t ∈ touched ∨ db'.lookup (.team t) = some none

theorem commit_of_promise {answer : Answer} {db : Rows} {y : Local} (h : promise answer db y) :
    Commit answer db (y.view db) := by
  obtain ⟨d, hwithin, hanswers⟩ := h
  refine ⟨fun t ht => hwithin.teams t none ht, fun t row hrow => ?_, fun w t a hlinked hnot => ?_,
    fun w t a hlinked hnot => ?_, hanswers.accepted, hanswers.known⟩
  · have hview := hwithin.teams t _ hrow
    cases hmade : d.teams t row with
    | none => exact .inl (hview.trans (congrArg some hmade))
    | some row' =>
      have hmoved := hanswers.moved t row row' hmade
      exact .inr ⟨row', hview.trans (congrArg some hmade), hwithin.same t row row' hmade, hmoved⟩
  · have hwritten : .teamMember w t a ∈ y.written := by
      by_contra hno
      rw [Linked, Held.lookup_view_of_notMem hno] at hlinked
      exact hnot hlinked
    exact hanswers.adds t (hwithin.adds w t a hwritten hlinked).1
  · have hwritten : .teamMember w t a ∈ y.written := by
      by_contra hno
      rw [Linked, Held.lookup_view_of_notMem hno] at hnot
      exact hnot hlinked
    exact hanswers.drops w t a (hwithin.drops w t a hwritten hnot)

section

variable {sameName} {s s' : State} {act : Action Request}

theorem holds (h : (teams sameName).Reachable s) : s.Holds contract.committed contract.InFlight :=
  Contract.holds (fun _ _ _ => rfl) (triple_program sameName) (fun _ h => h) h

/-- A step commits nothing, or what a transaction has promised. -/
theorem step_cases (hs : s.Holds contract.committed contract.InFlight) (h : step sameName act s = some s') :
    (answered s act = none ∧ s'.committed = s.committed) ∨
      ∃ n answer, answered s act = some (n, answer) ∧ Commit answer s.committed s'.committed := by
  cases act with
  | start n request =>
    refine .inl ⟨rfl, ?_⟩
    rw [step, Sys.step] at h
    split at h
    · cases h
      rfl
    · cases h
  | abort n =>
    cases h
    exact .inl ⟨rfl, rfl⟩
  | run n =>
    rw [step, Sys.step] at h
    rw [answered]
    split at h
    · cases h
    · rename_i x hx
      rw [hx]
      dsimp only
      split at h
      · cases h
      · rename_i hturn
        cases h
        exact .inl ⟨by rw [hturn], rfl⟩
      · rename_i hturn
        cases h
        obtain ⟨⟨answer, hprog⟩, -⟩ := Txn.ready_of_turn hturn
        refine .inr ⟨n, answer, by rw [hturn, hprog], ?_⟩
        exact commit_of_promise ((hs.inFlight n x hx).promise hprog)
      · rename_i hturn
        cases h
        exact .inl ⟨by rw [hturn], rfl⟩

theorem reachable_step (hs : (teams sameName).Reachable s) (h : step sameName act s = some s') :
    (teams sameName).Reachable s' := .step hs h

end

/-! ## What a join knows -/

/-- Whatever the program answers, it is this. -/
def Tells (P : Answer → Prop) : Program → Prop
  | .done answer => P answer
  | .raise => True
  | .read next => ∀ db, Tells P (next db)
  | .lock _ _ _ next => ∀ found, Tells P (next found)
  | .write _ next => ∀ found, Tells P (next found)

section

variable {P : Answer → Prop} {rest : Program} {w t a : Uuid}

theorem tells_deleteTeamMembers (h : Tells P rest) (links : List (Uuid × Uuid × Uuid)) :
    Tells P (deleteTeamMembers links rest) := by
  induction links with
  | nil => exact h
  | cons link links ih => exact fun _ => ih

theorem tells_insertTeamMembers (h : Tells P rest) (accounts : List Uuid) :
    Tells P (insertTeamMembers w t accounts rest) := by
  induction accounts with
  | nil => exact h
  | cons a accounts ih => exact fun _ => ih

theorem tells_lockMembers {next : Bool → Program} (h : ∀ held, Tells P (next held)) (accounts : List Uuid) (held : Bool) :
    Tells P (lockMembers w accounts held next) := by
  induction accounts generalizing held with
  | nil => exact h held
  | cons a accounts ih => exact fun found => ih (held && found)

theorem tells_lockTeams (h : Tells P rest) (teams : List Uuid) : Tells P (lockTeams teams rest) := by
  induction teams with
  | nil => exact h
  | cons t teams ih => exact fun _ => ih

theorem tells_moveTeams {next : List Uuid → Program} (h : ∀ touched, Tells P (next touched)) (teams touched : List Uuid) :
    Tells P (moveTeams teams touched next) := by
  induction teams generalizing touched with
  | nil => exact h touched
  | cons t teams ih => exact fun found => ih (if found then t :: touched else touched)

theorem tells_joinTeams (h : Tells P rest) (teams : List Uuid) : Tells P (joinTeams w a teams rest) := by
  induction teams with
  | nil => exact h
  | cons t teams ih =>
    intro found
    cases found with
    | false => exact ih
    | true => exact fun _ => ih

theorem tells_lockTeam {expected : Option (List ℤ)} {next : TeamRow → Program} (h : ∀ row, Tells P (next row))
    (hrefused : P .refused) : Tells P (lockTeam w t expected next) := by
  intro found
  cases found with
  | false => exact hrefused
  | true =>
    intro db
    dsimp only
    split
    · trivial
    · split
      · exact h _
      · exact hrefused

theorem tells_lockWorkspace (h : Tells P rest) (hrefused : P .refused) : Tells P (lockWorkspace w a rest) := by
  intro found
  cases found with
  | false => exact hrefused
  | true =>
    intro db
    dsimp only
    split
    · exact hrefused
    · exact h

theorem tells_moveTeamsOf {next : List Uuid → Program} (h : ∀ touched, Tells P (next touched)) :
    Tells P (moveTeamsOf w next) := fun db => tells_moveTeams h (Rows.teamsOf db w) []

end

/-- A join to the workspace knows the team. -/
def Knows (w t : Uuid) (answer : Answer) : Prop := ∀ a known touched, answer = .joined w a known touched → t ∈ known

/-- The transaction will know the team, or has not read anything and will find it. -/
def Knowing (w t : Uuid) (x : Txn Row Statement Empty Answer) : Prop :=
  Tells (Knows w t) x.prog ∨
    x.writes = [] ∧ ∃ next, x.prog = .read next ∧ ∀ db, Standing db w t → Tells (Knows w t) (next db)

theorem knows_of_ne {w t : Uuid} {answer : Answer} (h : ∀ w a known touched, answer ≠ .joined w a known touched) :
    Knows w t answer := fun a known touched heq => absurd heq (h w a known touched)

section

variable {sameName} {w t : Uuid}

theorem knowing_fresh (w t : Uuid) (request : Request) : Knowing w t (.fresh (program sameName request)) := by
  have hrefused : Knows w t .refused := knows_of_ne fun _ _ _ _ h => by cases h
  have hunchanged (t' expected) : Knows w t (.unchanged t' expected) := knows_of_ne fun _ _ _ _ h => by cases h
  have hjoined {w' a start touched} (h : Standing start w t) : Knows w t (.joined w' a (Rows.teamsOf start w') touched) := by
    intro a' known' touched' heq
    cases heq
    exact standing_iff.mp h
  cases request with
  | sysInvitationAccept w' a role teamIds =>
    refine .inr ⟨rfl, _, rfl, fun start hstart => tells_lockWorkspace (fun _ db => ?_) hrefused⟩
    refine tells_joinTeams ?_ _
    intro db
    refine tells_lockTeams ?_ _
    exact tells_moveTeamsOf fun touched => hjoined hstart
  | sysInstanceAddMembership w' a =>
    refine .inr ⟨rfl, _, rfl, fun start hstart => tells_lockWorkspace (fun db => ?_) hrefused⟩
    refine tells_lockTeams ?_ _
    intro found
    exact tells_moveTeamsOf fun touched => hjoined hstart
  | replaceMembers w' t' accountIds expected =>
    refine .inl (tells_lockTeam (fun row db => tells_lockMembers (fun held => ?_) _ _) hrefused)
    cases held with
    | false => exact hrefused
    | true =>
      refine fun db => tells_deleteTeamMembers (tells_insertTeamMembers ?_ _) _
      split
      · exact hunchanged t' expected
      · exact fun _ => knows_of_ne fun _ _ _ _ h => by cases h
  | update w' t' name description expected =>
    refine .inl (tells_lockTeam (fun row => ?_) hrefused)
    dsimp only
    split
    · exact hunchanged t' expected
    · intro db
      dsimp only
      split
      · exact hrefused
      · intro found
        cases found with
        | false => trivial
        | true => exact knows_of_ne fun _ _ _ _ h => by cases h
  | remove w' t' =>
    refine .inl fun found => ?_
    cases found with
    | false => exact hrefused
    | true =>
      intro db
      refine tells_deleteTeamMembers ?_ _
      exact knows_of_ne fun _ _ _ _ h => by cases h
  | create w' t' name description =>
    refine .inl fun db => ?_
    dsimp only
    split
    · exact hrefused
    · intro _ found
      cases found with
      | false => trivial
      | true => exact knows_of_ne fun _ _ _ _ h => by cases h
  | removeMember w' a =>
    refine .inl fun found => ?_
    cases found with
    | false => exact hrefused
    | true =>
      intro found
      cases found with
      | false => exact hrefused
      | true =>
        intro db
        refine tells_deleteTeamMembers ?_ _
        exact knows_of_ne fun _ _ _ _ h => by cases h

end

section

variable {sameName} {s s' : State} {act : Action Request} {w t : Uuid} {n : ℕ}

theorem Knowing.step {db : Rows} {free : Key → LockMode → Bool} {x x' : Txn Row Statement Empty Answer}
    (h : Knowing w t x) (hdb : Standing db w t) (hstep : x.Step rules db free x') : Knowing w t x' := by
  rcases h with h | ⟨hwrites, next, hread, h⟩
  · refine .inl ?_
    cases hstep with
    | read hprog =>
      rw [hprog] at h
      exact h _
    | missed hprog | locked hprog | unchanged hprog | wrote hprog =>
      rw [hprog] at h
      exact h _
    | @handles _ e => exact e.elim
  · cases hstep with
    | read hprog =>
      rw [hread] at hprog
      cases hprog
      refine .inl (h _ ?_)
      rw [Txn.view, hwrites]
      exact hdb
    | missed hprog | locked hprog | unchanged hprog | wrote hprog =>
      rw [hread] at hprog
      cases hprog
    | @handles _ e => exact e.elim

theorem knowing_step (h : step sameName act s = some s') (hstanding : Standing s.committed w t)
    (hknowing : ∀ x, s.txns.lookup n = some x → Knowing w t x) : ∀ x, s'.txns.lookup n = some x → Knowing w t x := by
  intro x hx
  cases Sys.moves_of_step h with
  | starts request hnone =>
    rcases of_lookup_insert hx with ⟨rfl, rfl⟩ | ⟨-, hx⟩
    · exact knowing_fresh w t request
    · exact hknowing x hx
  | ends | commits => exact hknowing x (of_lookup_erase hx).2
  | goes hz hstep =>
    rcases of_lookup_insert hx with ⟨rfl, rfl⟩ | ⟨-, hx⟩
    · exact (hknowing _ hz).step hstanding hstep
    · exact hknowing x hx

theorem knows_of_answered {answer : Answer} (h : answered s act = some (n, answer))
    (hknowing : ∀ x, s.txns.lookup n = some x → Knowing w t x) : Knows w t answer := by
  cases act with
  | start | abort => cases h
  | run n' =>
    rw [answered] at h
    split at h
    · cases h
    · rename_i x hx
      split at h
      · rename_i hprog
        cases h
        rcases hknowing x hx with htells | ⟨-, next, hread, -⟩
        · rw [hprog] at htells
          exact htells
        · rw [hread] at hprog
          cases hprog
      · cases h

/-! ## Every run -/

variable {actions : List (Action Request)} {log : List (ℕ × Answer)}

theorem trace_cons (h : trace sameName (act :: actions) s = some (log, s')) :
    ∃ s₁ rest, step sameName act s = some s₁ ∧ trace sameName actions s₁ = some (rest, s') ∧
      log = (answered s act).toList ++ rest := by
  obtain ⟨s₁, hstep, hrest⟩ := Option.bind_eq_some_iff.mp h
  obtain ⟨⟨rest, s₂⟩, htrace, heq⟩ := Option.map_eq_some_iff.mp hrest
  cases heq
  exact ⟨s₁, rest, hstep, htrace, rfl⟩

theorem trace_reachable (hs : (teams sameName).Reachable s) (h : trace sameName actions s = some (log, s')) :
    (teams sameName).Reachable s' := by
  induction actions generalizing s log with
  | nil =>
    cases h
    exact hs
  | cons act actions ih =>
    obtain ⟨s₁, rest, hstep, htrace, -⟩ := trace_cons h
    exact ih (reachable_step hs hstep) htrace

theorem trace_gone (hs : (teams sameName).Reachable s) (h : trace sameName actions s = some (log, s'))
    (ht : s.committed.lookup (.team t) = some none) : s'.committed.lookup (.team t) = some none := by
  induction actions generalizing s log with
  | nil =>
    cases h
    exact ht
  | cons act actions ih =>
    obtain ⟨s₁, rest, hstep, htrace, -⟩ := trace_cons h
    refine ih (reachable_step hs hstep) htrace ?_
    rcases step_cases (holds hs) hstep with ⟨-, heq⟩ | ⟨n, answer, -, hcommit⟩
    · rw [heq]
      exact ht
    · exact hcommit.gone t ht

/-- The number of the commits that moved the team. -/
def moves (t : Uuid) (log : List (ℕ × Answer)) : ℕ := log.countP fun e => e.2.moves t

/-- The number of the replacements of the team's member set, and of the joins that moved the team. -/
def gains (t : Uuid) (log : List (ℕ × Answer)) : ℕ := log.countP fun e => e.2.gains t

theorem trace_team (hs : (teams sameName).Reachable s) (h : trace sameName actions s = some (log, s')) {row row' : TeamRow}
    (hrow : s.committed.lookup (.team t) = some (some row)) (hrow' : s'.committed.lookup (.team t) = some (some row')) :
    row'.workspaceId = row.workspaceId ∧ row'.version = row.version + moves t log ∧
      row'.membersVersion = row.membersVersion + gains t log := by
  induction actions generalizing s log row with
  | nil =>
    cases h
    rw [hrow] at hrow'
    cases hrow'
    exact ⟨rfl, (add_zero _).symm, (add_zero _).symm⟩
  | cons act actions ih =>
    obtain ⟨s₁, rest, hstep, htrace, rfl⟩ := trace_cons h
    have hs₁ := reachable_step hs hstep
    rcases step_cases (holds hs) hstep with ⟨hnone, heq⟩ | ⟨n, answer, hanswered, hcommit⟩
    · rw [hnone]
      exact ih hs₁ htrace (heq ▸ hrow)
    · rcases hcommit.team t row hrow with hgone | ⟨row₁, hrow₁, hw, hversion, hmembers⟩
      · rw [trace_gone hs₁ htrace hgone] at hrow'
        cases hrow'
      · obtain ⟨hw', hversion', hmembers'⟩ := ih hs₁ htrace hrow₁
        rw [hanswered, moves, gains, Option.toList_some, List.singleton_append, List.countP_cons, List.countP_cons]
        refine ⟨hw'.trans hw, ?_, ?_⟩
        · rw [hversion', hversion, moves]
          split_ifs <;> omega
        · rw [hmembers', hmembers, gains]
          split_ifs <;> omega

theorem trace_linked {a : Uuid} (hs : (teams sameName).Reachable s) (h : trace sameName actions s = some (log, s'))
    (hlinked : Linked s'.committed w t a) (hnot : ¬ Linked s.committed w t a) : ∃ e ∈ log, e.2.gains t = true := by
  induction actions generalizing s log with
  | nil =>
    cases h
    exact absurd hlinked hnot
  | cons act actions ih =>
    obtain ⟨s₁, rest, hstep, htrace, rfl⟩ := trace_cons h
    by_cases hfirst : Linked s₁.committed w t a
    · rcases step_cases (holds hs) hstep with ⟨-, heq⟩ | ⟨n, answer, hanswered, hcommit⟩
      · rw [heq] at hfirst
        exact absurd hfirst hnot
      · refine ⟨(n, answer), ?_, hcommit.gained w t a hfirst hnot⟩
        rw [hanswered]
        exact List.mem_cons_self
    · obtain ⟨e, he, hgains⟩ := ih (reachable_step hs hstep) htrace hfirst
      exact ⟨e, List.mem_append_right _ he, hgains⟩

/-- A join that starts after a team has been committed moves it, or it is deleted. -/
theorem trace_joined {a : Uuid} {known touched : List Uuid} (hs : (teams sameName).Reachable s)
    (h : trace sameName actions s = some (log, s')) (hstanding : Standing s.committed w t)
    (hknowing : ∀ x, s.txns.lookup n = some x → Knowing w t x) (hjoined : (n, .joined w a known touched) ∈ log) :
    t ∈ touched ∨ s'.committed.lookup (.team t) = some none := by
  induction actions generalizing s log with
  | nil =>
    cases h
    cases hjoined
  | cons act actions ih =>
    obtain ⟨s₁, rest, hstep, htrace, rfl⟩ := trace_cons h
    have hs₁ := reachable_step hs hstep
    have hknowing₁ := knowing_step hstep hstanding hknowing
    rcases step_cases (holds hs) hstep with ⟨hnone, heq⟩ | ⟨n', answer, hanswered, hcommit⟩
    · rw [hnone] at hjoined
      exact ih hs₁ htrace (heq ▸ hstanding) hknowing₁ hjoined
    · rw [hanswered] at hjoined
      rcases List.mem_cons.mp hjoined with heq | hrest
      · cases heq
        have hknown := knows_of_answered hanswered hknowing a known touched rfl
        exact (hcommit.known w a known touched rfl t hknown).imp_right (trace_gone hs₁ htrace)
      · obtain ⟨row, hrow, hw⟩ := hstanding
        rcases hcommit.team t row hrow with hgone | ⟨row₁, hrow₁, hw₁, -⟩
        · exact .inr (trace_gone hs₁ htrace hgone)
        · exact ih hs₁ htrace ⟨row₁, hrow₁, hw₁.trans hw⟩ hknowing₁ hrest

end

/-- **No change of a team is lost.** In every state the members of a team are members of its workspace. From any state
of a run on, the versions of a team count the commits that moved it; a join that starts then moves every team of its
workspace, but for those that are deleted; a change that is accepted with versions read by then comes before any other
that moved the team, and finds no member that was not one then; and a commit that takes a membership away replaces the
members of the team, or takes the member or the team with it. -/
theorem members_kept {s s' : State} {actions : List (Action Request)} {log : List (ℕ × Answer)}
    (hs : (teams sameName).Reachable s) (h : trace sameName actions s = some (log, s')) :
    (∀ w t a, Linked s'.committed w t a → Placed s'.committed w t a) ∧
    (∀ t row row', s.committed.lookup (.team t) = some (some row) → s'.committed.lookup (.team t) = some (some row') →
      row'.version = row.version + moves t log ∧ row'.membersVersion = row.membersVersion + gains t log) ∧
    (∀ n w a known touched t, (n, .joined w a known touched) ∈ log → s.txns.lookup n = none →
      Standing s.committed w t → t ∈ touched ∨ s'.committed.lookup (.team t) = some none) ∧
    (∀ act s'' n answer t versions row, step sameName act s' = some s'' → answered s' act = some (n, answer) →
      answer.accepted = some (t, versions) → s.committed.lookup (.team t) = some (some row) →
      (∀ v ∈ versions, v ≤ row.version) →
      (∀ e ∈ log, e.2.moves t = false) ∧ ∀ w a, Linked s'.committed w t a → Linked s.committed w t a) ∧
    ∀ act s'' w t a, step sameName act s' = some s'' → Linked s'.committed w t a → ¬ Linked s''.committed w t a →
      ∃ n answer, answered s' act = some (n, answer) ∧ (answer.replaces t = true ∨
        s''.committed.lookup (.member w a) = none ∨ s''.committed.lookup (.team t) = some none) := by
  have hs' := trace_reachable hs h
  refine ⟨(holds hs').committed, fun t row row' hrow hrow' => (trace_team hs h hrow hrow').2,
    fun n w a known touched t hjoined hnone hstanding => trace_joined hs h hstanding (fun x hx => ?_) hjoined,
    fun act s'' n answer t versions row hstep hanswered haccepted hrow hread => ?_,
    fun act s'' w t a hstep hlinked hnot => ?_⟩
  · rw [hnone] at hx
    cases hx
  · rcases step_cases (holds hs') hstep with ⟨hnone, -⟩ | ⟨n', answer', hanswered', hcommit⟩
    · rw [hnone] at hanswered
      cases hanswered
    · rw [hanswered] at hanswered'
      cases hanswered'
      obtain ⟨row', hrow', hmem⟩ := hcommit.accepted t versions haccepted
      have hversion := (trace_team hs h hrow hrow').2.1
      have hzero : moves t log = 0 := by
        have hle := hread _ hmem
        omega
      have hstill : ∀ e ∈ log, e.2.moves t = false := fun e he =>
        Bool.eq_false_iff.mpr (List.countP_eq_zero.mp hzero e he)
      refine ⟨hstill, fun w a hlinked => ?_⟩
      by_contra hnot
      obtain ⟨e, he, hgains⟩ := trace_linked hs h hlinked hnot
      have hmoves := Answer.moves_of_gains hgains
      rw [hstill e he] at hmoves
      cases hmoves
  · rcases step_cases (holds hs') hstep with ⟨-, heq⟩ | ⟨n, answer, hanswered, hcommit⟩
    · rw [heq] at hnot
      exact absurd hlinked hnot
    · exact ⟨n, answer, hanswered, hcommit.lost w t a hlinked hnot⟩

/-! ## One team -/

/-- A team of a workspace. -/
def design : TeamRow := ⟨1, "Design", "", 1, 0⟩

/-- A workspace with one member and one team, which nobody is in. -/
def office : State where
  committed := AList.insert (Key.team 5) (some design)
    (AList.insert (Key.member 1 10) MemberRole.owner (AList.insert (Key.workspace 1) none ∅))
  txns := ∅

theorem office_reachable (sameName : String → String → Bool) : (teams sameName).Reachable office := by
  refine .init ⟨fun w t a hlinked => absurd ?_ hlinked, rfl⟩
  rw [office, AList.lookup_insert_ne Key.noConfusion, AList.lookup_insert_ne Key.noConfusion,
    AList.lookup_insert_ne Key.noConfusion]
  rfl

/-- An instance administrator joins. -/
def joins : List (Action Request) := .start 0 (.sysInstanceAddMembership 1 12) :: List.replicate 9 (.run 0)

theorem members_kept_joins : ∃ run, trace (fun _ _ => false) joins office = some run ∧
    run.1 = [(0, .joined 1 12 [5] [5])] ∧
    ∀ row', run.2.committed.lookup (.team 5) = some (some row') → row'.version = 2 := by
  have hlog : (trace (fun _ _ => false) joins office).map Prod.fst = some [(0, .joined 1 12 [5] [5])] := by
    decide +kernel
  obtain ⟨run, hrun, hlog⟩ := Option.map_eq_some_iff.mp hlog
  refine ⟨run, hrun, hlog, fun row' hrow' => ?_⟩
  have hkept := (members_kept _ (office_reachable _) hrun).2.1 5 design row' rfl hrow'
  rw [hlog] at hkept
  exact hkept.1

/-- A member renames the team. -/
def renames : List (Action Request) :=
  .start 0 (.update 1 5 (some "Designers") none (some [1])) :: List.replicate 5 (.run 0)

/-- A new name moves the version as well. -/
theorem renames_move : ¬ ∀ (sameName : String → String → Bool) (s s' : State) (actions : List (Action Request))
    (log : List (ℕ × Answer)) (t : Uuid) (row row' : TeamRow), (teams sameName).Reachable s →
    trace sameName actions s = some (log, s') → s.committed.lookup (.team t) = some (some row) →
    s'.committed.lookup (.team t) = some (some row') → row'.version = row.version + gains t log := by
  intro hclaim
  have hrun : (trace (fun _ _ => false) renames office).map (fun run => (run.1, run.2.committed.lookup (.team 5))) =
      some ([(0, .updated 5 (some [1]))], some (some ⟨1, "Designers", "", 2, 0⟩)) := by
    decide +kernel
  obtain ⟨⟨log, s'⟩, htrace, heq⟩ := Option.map_eq_some_iff.mp hrun
  obtain ⟨rfl, hrow'⟩ := Prod.mk.inj heq
  have hversion := hclaim _ office s' renames _ 5 design _ (office_reachable _) htrace rfl hrow'
  revert hversion
  decide

end SlugBase.Team
