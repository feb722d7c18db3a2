import SlugBase.Team.Deeds

/-!
# The requests keep their promise

Each list of statements by induction on the list, then each request from its first statement to its answer.

* `triple_deleteTeamMembers`: what a foreign key deletes;
* `triple_moveTeams`: what a join moves;
* **`triple_program`**: every request keeps the contract.
-/

namespace SlugBase.Team

open ReadCommitted Contract

variable {d : Deeds} {G : Rows → Local → Prop} {rest : Program} {w t a : Uuid}

/-! ## What stays through statements -/

/-- It stays through locks. -/
def ThroughLocks (G : Rows → Local → Prop) : Prop := ∀ db x key mode, G db x → G db (x.locking key mode)

/-- It stays through writes of memberships of teams. -/
def ThroughLinks (G : Rows → Local → Prop) : Prop :=
  ∀ db x w t a row, G db x → G db (x.writing (.teamMember w t a) .update row)

/-- The team's row is locked `FOR UPDATE`, and is as it was. -/
def OwnTeam (t : Uuid) (row : TeamRow) (db : Rows) (x : Local) : Prop :=
  ((.team t, .update) ∈ x.locks ∧ db.lookup (.team t) = some (some row)) ∧ .team t ∉ x.written

theorem stable_ownTeam (t : Uuid) (row : TeamRow) : contract.Stable (OwnTeam t row) := by
  have hrow : contract.Stable fun db x =>
      (Key.team t, .update) ∈ x.locks ∧ db.lookup (.team t) = some (some row) := .row (fun _ => rfl) _
  exact hrow.and (.own fun x => Key.team t ∉ x.written)

theorem throughLocks_ownTeam (t : Uuid) (row : TeamRow) : ThroughLocks (OwnTeam t row) := fun _ _ _ _ h =>
  ⟨⟨List.mem_cons_of_mem _ h.1.1, h.1.2⟩, h.2⟩

theorem throughLinks_ownTeam (t : Uuid) (row : TeamRow) : ThroughLinks (OwnTeam t row) := fun _ _ _ _ _ _ h =>
  ⟨⟨List.mem_cons_of_mem _ h.1.1, h.1.2⟩, fun hw => h.2 ((mem_written_writing.mp hw).resolve_right Key.noConfusion)⟩

theorem OwnTeam.view {row : TeamRow} {db : Rows} {x : Local} (h : OwnTeam t row db x) :
    (x.view db).lookup (.team t) = some (some row) := by
  rw [Held.lookup_view_of_notMem h.2]
  exact h.1.2

/-! ## Lists of statements -/

theorem triple_deleteTeamMembers (hstable : contract.Stable G) (hG : ThroughLinks G) (links : List (Uuid × Uuid × Uuid))
    (hdrops : ∀ w t a, (w, t, a) ∈ links → d.drops w t a)
    (hrest : contract.Triple (fun db x => Within (d.cascading []) db x ∧ G db x) rest) :
    contract.Triple (fun db x => Within (d.cascading links) db x ∧ G db x) (deleteTeamMembers links rest) := by
  induction links with
  | nil => exact hrest
  | cons link links ih =>
    obtain ⟨w, t, a⟩ := link
    have ih := ih fun w t a hlink => hdrops w t a (List.mem_cons_of_mem _ hlink)
    refine .write ((stable_within _).and hstable) (fun {db x} hdb hF hchange => ?_) (fun {db x row} hdb hF hchange => ?_)
    · exact ih db x hdb ⟨hF.1.had_gone (deleteTeamMember_nothing hchange), hF.2⟩
    · obtain rfl := deleteTeamMember_becomes hchange
      exact ih db (x.writing (.teamMember w t a) .update none) hdb
        ⟨hF.1.unlinked (hdrops w t a List.mem_cons_self), hG db x w t a none hF.2⟩

theorem triple_insertTeamMembers (hstable : contract.Stable G) (hG : ThroughLinks G) (accounts : List Uuid)
    (hadds : d.adds t) (hteam : ∀ {db x}, G db x → ∃ m, (.team t, m) ∈ x.locks)
    (hmember : ∀ {db x}, G db x → ∀ a ∈ accounts, ∃ m, (.member w a, m) ∈ x.locks)
    (hrest : contract.Triple (fun db x => Within d db x ∧ G db x) rest) :
    contract.Triple (fun db x => Within d db x ∧ G db x) (insertTeamMembers w t accounts rest) := by
  induction accounts with
  | nil => exact hrest
  | cons a accounts ih =>
    have ih := ih fun hg a' ha' => hmember hg a' (List.mem_cons_of_mem _ ha')
    refine .write ((stable_within _).and hstable) (fun {db x} hdb hF _ => ih db x hdb hF)
      (fun {db x row} hdb hF hchange => ?_)
    obtain ⟨rfl, hplaced⟩ := insertTeamMember_becomes hchange
    exact ih db (x.writing (.teamMember w t a) .update (some ())) hdb
      ⟨hF.1.linked hplaced hadds (hmember hF.2 a List.mem_cons_self) (hteam hF.2), hG db x w t a _ hF.2⟩

theorem triple_lockMembers {accounts : List Uuid} {held : Bool} {next : Bool → Program} (hstable : contract.Stable G)
    (hG : ThroughLocks G) (hrefused : contract.Triple G (next false))
    (hheld : held = true →
      contract.Triple (fun db x => G db x ∧ ∀ a ∈ accounts, (.member w a, .keyShare) ∈ x.locks) (next true)) :
    contract.Triple G (lockMembers w accounts held next) := by
  induction accounts generalizing held G with
  | nil =>
    cases held with
    | false => exact hrefused
    | true => exact (hheld rfl).of_imp fun _ hg => ⟨hg, fun _ ha => absurd ha List.not_mem_nil⟩
  | cons a accounts ih =>
    refine .lock hstable (fun {db x} hdb hg _ => ?_) (fun {db x} hdb hg _ => ?_)
    · rw [Bool.and_false]
      exact ih hstable hG hrefused (fun h => by cases h) db x hdb hg
    · have hown : contract.Stable fun _ x => (Key.member w a, LockMode.keyShare) ∈ x.locks :=
        .own fun x => (Key.member w a, LockMode.keyShare) ∈ x.locks
      rw [Bool.and_true]
      refine ih (hstable.and hown) (fun db x key mode h => ⟨hG db x key mode h.1, List.mem_cons_of_mem _ h.2⟩)
        (hrefused.of_imp fun _ h => h.1) (fun h => (hheld h).of_imp fun _ hF => ⟨hF.1.1, fun a' ha' => ?_⟩)
        db _ hdb ⟨hG db x _ _ hg, List.mem_cons_self⟩
      rcases List.mem_cons.mp ha' with rfl | ha'
      · exact hF.1.2
      · exact hF.2 a' ha'

theorem triple_lockTeams (hstable : contract.Stable G) (hG : ThroughLocks G) (teams : List Uuid)
    (hrest : contract.Triple G rest) : contract.Triple G (lockTeams teams rest) := by
  induction teams with
  | nil => exact hrest
  | cons t teams ih =>
    exact .lock hstable (fun {db x} hdb hg _ => ih db x hdb hg) fun {db x} hdb hg _ => ih db _ hdb (hG db x _ _ hg)

/-! ## Answers -/

/-- What an answer that moves no team says. -/
theorem answers_of_still {answer : Answer} {db : Rows} {x : Local} (hmoves : ∀ t, answer.moves t = false)
    (hjoined : ∀ w a known touched, answer ≠ .joined w a known touched) (hpending : ∀ w t a, ¬ d.pending w t a)
    (hteams : d.teams = fun _ => some) (hadds : ∀ t, ¬ d.adds t)
    (hdrops : ∀ w t a, d.drops w t a → (x.view db).lookup (.member w a) = none)
    (haccepted : ∀ t versions, answer.accepted = some (t, versions) →
      ∃ row, db.lookup (.team t) = some (some row) ∧ row.version ∈ versions) : Answers answer d db x where
  pending := hpending
  moved t row row' h := by
    have hgains : answer.gains t = false := by
      by_contra hno
      have hmove := Answer.moves_of_gains (Bool.eq_true_of_not_eq_false hno)
      rw [hmoves t] at hmove
      cases hmove
    rw [hteams] at h
    cases h
    rw [hmoves t, hgains]
    exact ⟨(add_zero _).symm, (add_zero _).symm⟩
  removed t row h := by
    rw [hteams] at h
    cases h
  adds t h := absurd h (hadds t)
  drops w t a h := .inr (.inl (hdrops w t a h))
  accepted := haccepted
  known w a known touched h := absurd h (hjoined w a known touched)

theorem triple_refused : contract.Triple (Within .nothing) (.done .refused) :=
  .done (stable_within _) fun _ h => ⟨.nothing, h, answers_of_still (fun _ => rfl) (fun _ _ _ _ h => by cases h)
    (fun _ _ _ h => h) rfl (fun _ h => h) (fun _ _ _ h => h.elim) (fun _ _ h => by cases h)⟩

/-! ## Changes of a team -/

/-- The version of the team is one of those that the request names. -/
def Expected (expected : Option (List ℤ)) (row : TeamRow) : Prop := ∀ versions, expected = some versions → row.version ∈ versions

theorem triple_lockTeam {expected : Option (List ℤ)} {next : TeamRow → Program}
    (hnext : ∀ row, Expected expected row →
      contract.Triple (fun db x => Within .nothing db x ∧ OwnTeam t row db x) (next row)) :
    contract.Triple (fun _ x => x = .empty) (lockTeam w t expected next) := by
  refine .lock (.own fun x => x = .empty) (fun {db x} hdb hx _ => ?_) (fun {db x} hdb hx hwanted => ?_)
  · subst hx
    exact triple_refused db _ hdb (within_empty hdb)
  · subst hx
    obtain ⟨row, hrow, -⟩ := standing_of_any rfl hwanted
    rw [Held.view_empty] at hrow
    have hread {check : Rows → Program} (hcheck : ∀ db, Rows.team db t = some row → check db =
        if expected.all fun versions => decide (row.version ∈ versions) then next row else .done .refused) :
        contract.Triple (fun db x => Within .nothing db x ∧ OwnTeam t row db x) (.read check) := by
      refine .read ((stable_within _).and (stable_ownTeam t row)) fun {db x} hdb hF => ?_
      have hteam : Rows.team (x.view db) t = some row := by
        rw [Rows.team, hF.2.view]
        rfl
      rw [hcheck _ hteam]
      split
      · rename_i hall
        refine hnext row (fun versions heq => ?_) db x hdb hF
        rw [heq] at hall
        exact of_decide_eq_true hall
      · exact triple_refused db x hdb hF.1
    refine hread (fun db hteam => ?_) db _ hdb
      ⟨(within_empty hdb).locking _ _, ⟨List.mem_cons_self, hrow⟩, List.not_mem_nil⟩
    rw [hteam]

theorem triple_unchanged {row : TeamRow} {expected : Option (List ℤ)} (h : Expected expected row) :
    contract.Triple (fun db x => Within .nothing db x ∧ OwnTeam t row db x) (.done (.unchanged t expected)) := by
  refine .done ((stable_within _).and (stable_ownTeam t row)) fun {db x} hdb hF => ?_
  refine ⟨.nothing, hF.1, answers_of_still (fun _ => rfl) (fun _ _ _ _ h => by cases h) (fun _ _ _ h => h) rfl
    (fun _ h => h) (fun _ _ _ h => h.elim) (fun t' versions haccepted => ?_)⟩
  cases expected with
  | none => cases haccepted
  | some versions' =>
    cases haccepted
    exact ⟨row, hF.2.1.2, h _ rfl⟩

/-- What an answer that moves one team by the trigger says. -/
theorem answers_of_one {answer : Answer} {db : Rows} {x : Local} {row : TeamRow} {g : TeamRow → Option TeamRow}
    (hmoves : ∀ t', answer.moves t' = decide (t' = t)) (hpending : ∀ w t a, ¬ d.pending w t a)
    (hjoined : ∀ w a known touched, answer ≠ .joined w a known touched)
    (hteams : d.teams = Function.update (fun _ => some) t g)
    (hg : ∀ row row', g row = some row' → row'.version = row.version + 1 ∧
      row'.membersVersion = row.membersVersion + (if answer.gains t then 1 else 0))
    (hlive : ∀ row, g row ≠ none) (hadds : ∀ t', d.adds t' → answer.gains t' = true)
    (hdrops : ∀ w t' a, d.drops w t' a → answer.replaces t' = true) (hrow : db.lookup (.team t) = some (some row))
    (haccepted : ∀ t' versions, answer.accepted = some (t', versions) → t' = t ∧ row.version ∈ versions) :
    Answers answer d db x where
  pending := hpending
  moved t' row row' h := by
    rw [hmoves t']
    by_cases heq : t' = t
    · subst heq
      rw [hteams, Function.update_self] at h
      rw [decide_eq_true rfl, if_pos rfl]
      exact hg row row' h
    · have hgains : answer.gains t' = false := by
        have hmove := hmoves t'
        rw [decide_eq_false heq] at hmove
        cases answer with
        | updated => rfl
        | replaced | unchanged | joined | left | removed | created | refused => exact hmove
      rw [hteams, Function.update_of_ne heq] at h
      cases h
      rw [decide_eq_false heq, hgains]
      exact ⟨(add_zero _).symm, (add_zero _).symm⟩
  removed t' row h := by
    rw [hteams] at h
    by_cases heq : t' = t
    · subst heq
      rw [Function.update_self] at h
      exact absurd h (hlive row)
    · rw [Function.update_of_ne heq] at h
      cases h
  adds := hadds
  drops w t' a h := .inl (hdrops w t' a h)
  accepted t' versions h := by
    obtain ⟨rfl, hmem⟩ := haccepted t' versions h
    exact ⟨row, hrow, hmem⟩
  known w a known touched h := absurd h (hjoined w a known touched)

/-- What a replacement does. -/
def replacing (t : Uuid) : Deeds := ⟨fun t' => t' = t, fun _ t' _ => t' = t, fun _ _ _ => False, fun _ => some⟩

/-- The team's member revision is moved. -/
theorem triple_replaced {row : TeamRow} {expected : Option (List ℤ)} (h : Expected expected row) :
    contract.Triple (fun db x => Within ((replacing t).cascading []) db x ∧ OwnTeam t row db x)
      (.write (.updateTeam t .membersVersion) fun _ => .done (.replaced t expected)) := by
  have hstable := (stable_within ((replacing t).cascading [])).and (stable_ownTeam t row)
  refine .write hstable (fun {db x} hdb hF hchange => absurd hF.2.view (updateTeam_nothing hchange row))
    (fun {db x row'} hdb hF hchange => ?_)
  obtain ⟨old, hold, rfl⟩ := updateTeam_becomes hchange
  have hview := hF.2.view
  rw [hview] at hold
  cases hold
  have hwithin := hF.1.teamMade (g := fun row => some (row.bumped .membersVersion)) rfl hview rfl
    (fun _ => Option.some_ne_none _) (fun row row' h => by cases h; rfl)
  have hdone : contract.Triple (fun db x => Within (((replacing t).cascading []).making t
      fun row => some (row.bumped .membersVersion)) db x ∧
        (Key.team t, LockMode.update) ∈ x.locks ∧ db.lookup (.team t) = some (some row)) (.done (.replaced t expected)) := by
    have hrow : contract.Stable fun db x =>
        (Key.team t, .update) ∈ x.locks ∧ db.lookup (.team t) = some (some row) := .row (fun _ => rfl) _
    refine .done ((stable_within _).and hrow) fun {db x} hdb hF => ⟨_, hF.1, answers_of_one (t := t)
      (fun t' => ?_) (fun _ _ _ h => List.not_mem_nil h) (fun _ _ _ _ h => by cases h) rfl (fun row row' h => ?_)
      (fun _ => Option.some_ne_none _) (fun t' ht' => decide_eq_true ht'.symm) (fun _ t' _ ht' => decide_eq_true ht'.symm)
      hF.2.2 (fun t' versions haccepted => ?_)⟩
    · exact decide_eq_decide.mpr eq_comm
    · cases h
      have hgains : (Answer.replaced t expected).gains t = true := decide_eq_true rfl
      rw [hgains]
      exact ⟨rfl, rfl⟩
    · cases expected with
      | none => cases haccepted
      | some versions' =>
        cases haccepted
        exact ⟨rfl, h _ rfl⟩
  exact hdone db _ hdb ⟨hwithin, List.mem_cons_of_mem _ hF.2.1.1, hF.2.1.2⟩

theorem triple_replaceWith {row : TeamRow} {expected : Option (List ℤ)} (h : Expected expected row)
    (wanted present : List Uuid) :
    contract.Triple (fun db x => Within .nothing db x ∧ OwnTeam t row db x ∧
      ∀ a ∈ wanted, (.member w a, .keyShare) ∈ x.locks) (replaceWith w t wanted present expected) := by
  unfold replaceWith
  dsimp only
  by_cases hsame : (present.filter fun a => decide (a ∉ wanted)).length +
      (wanted.filter fun a => decide (a ∉ present)).length = 0
  · obtain ⟨hremove, hadd⟩ := Nat.add_eq_zero_iff.mp hsame
    rw [List.length_eq_zero_iff.mp hremove, List.length_eq_zero_iff.mp hadd,
      if_pos (show ([] : List Uuid).length + ([] : List Uuid).length = 0 from rfl)]
    exact (triple_unchanged h).of_imp fun _ hF => ⟨hF.1, hF.2.1⟩
  · have hlocks : contract.Stable fun _ x => ∀ a ∈ wanted, (Key.member w a, LockMode.keyShare) ∈ x.locks :=
      .own fun x => ∀ a ∈ wanted, (Key.member w a, LockMode.keyShare) ∈ x.locks
    have hthrough : ThroughLinks fun db x => OwnTeam t row db x ∧ ∀ a ∈ wanted, (Key.member w a, LockMode.keyShare) ∈ x.locks :=
      fun db x w' t' a' row' hG => ⟨throughLinks_ownTeam t row db x w' t' a' row' hG.1,
        fun a ha => List.mem_cons_of_mem _ (hG.2 a ha)⟩
    rw [if_neg hsame]
    refine (triple_deleteTeamMembers (d := replacing t) ((stable_ownTeam t row).and hlocks) hthrough _
      (fun w' t' a' hlink => ?_) (triple_insertTeamMembers ((stable_ownTeam t row).and hlocks) hthrough _ rfl
        (fun hG => ⟨_, hG.1.1.1⟩) (fun hG a ha => ⟨_, hG.2 a (List.mem_of_mem_filter ha)⟩)
        ((triple_replaced h).of_imp fun _ hF => ⟨hF.1, hF.2.1⟩))).of_imp fun _ hF => ⟨hF.1.mono (fun _ h => h.elim)
          (fun _ _ _ h => h.elim) (fun _ _ _ _ h => h.elim) rfl, hF.2⟩
    obtain ⟨a, -, heq⟩ := List.mem_map.mp hlink
    cases heq
    rfl

theorem triple_replaceMembers (w t : Uuid) (accountIds : List Uuid) (expected : Option (List ℤ)) :
    contract.Triple (fun _ x => x = .empty) (replaceMembers w t accountIds expected) := by
  refine triple_lockTeam fun row h => ?_
  have hstable := (stable_within .nothing).and (stable_ownTeam t row)
  refine .read hstable fun {db x} hdb hF => ?_
  refine triple_lockMembers hstable (fun db x key mode hF => ⟨hF.1.locking key mode, throughLocks_ownTeam t row db x _ _ hF.2⟩)
    (triple_refused.of_imp fun _ hF => hF.1) (fun hall => ?_) db x hdb hF
  have hlocks : contract.Stable fun _ x => ∀ a ∈ distinctIdentifiers accountIds, (Key.member w a, LockMode.keyShare) ∈ x.locks :=
    .own fun x => ∀ a ∈ distinctIdentifiers accountIds, (Key.member w a, LockMode.keyShare) ∈ x.locks
  rw [List.filter_eq_self.mpr (List.all_eq_true.mp hall)]
  exact .read (hstable.and hlocks) fun {db x} hdb hF =>
    triple_replaceWith h _ _ db x hdb ⟨hF.1.1, hF.1.2, hF.2⟩

/-- The name or the description is changed. -/
theorem triple_details {row : TeamRow} {expected : Option (List ℤ)} {name description : String} {next : Bool → Program}
    (h : Expected expected row) (hdiffers : (name, description) ≠ (row.name, row.description))
    (hraise : next false = .raise) (hdone : next true = .done (.updated t expected)) :
    contract.Triple (fun db x => Within .nothing db x ∧ OwnTeam t row db x)
      (.write (.updateTeam t (.details name description)) next) := by
  have hstable := (stable_within .nothing).and (stable_ownTeam t row)
  refine .write hstable (fun _ _ _ => ?_) (fun {db x row'} hdb hF hchange => ?_)
  · rw [hraise]
    trivial
  · obtain ⟨old, hold, rfl⟩ := updateTeam_becomes hchange
    have hview := hF.2.view
    rw [hview] at hold
    cases hold
    let g : TeamRow → Option TeamRow := fun row =>
      some { row with name := name, description := description, version := row.version + 1 }
    have hbumped : g row = some (row.bumped (.details name description)) := by
      rw [TeamRow.bumped, if_pos hdiffers]
    have hwithin := hF.1.teamMade rfl hview hbumped (fun _ => Option.some_ne_none _) (fun row row' h => by cases h; rfl)
    have hrow : contract.Stable fun db x =>
        (Key.team t, .update) ∈ x.locks ∧ db.lookup (.team t) = some (some row) := .row (fun _ => rfl) _
    have hanswer : contract.Triple (fun db x => Within (Deeds.nothing.making t g) db x ∧
        (Key.team t, LockMode.update) ∈ x.locks ∧ db.lookup (.team t) = some (some row)) (.done (.updated t expected)) := by
      refine .done ((stable_within _).and hrow) fun {db x} hdb hF => ⟨_, hF.1, answers_of_one (t := t)
        (fun t' => decide_eq_decide.mpr eq_comm) (fun _ _ _ h => h) (fun _ _ _ _ h => by cases h) rfl
        (fun row row' h => ?_) (fun _ => Option.some_ne_none _) (fun _ h => h.elim) (fun _ _ _ h => h.elim)
        hF.2.2 (fun t' versions haccepted => ?_)⟩
      · cases h
        exact ⟨rfl, (add_zero _).symm⟩
      · cases expected with
        | none => cases haccepted
        | some versions' =>
          cases haccepted
          exact ⟨rfl, h _ rfl⟩
    rw [hdone]
    exact hanswer db _ hdb ⟨hwithin, List.mem_cons_of_mem _ hF.2.1.1, hF.2.1.2⟩

theorem triple_update (sameName : String → String → Bool) (w t : Uuid) (name description : Option String)
    (expected : Option (List ℤ)) :
    contract.Triple (fun _ x => x = .empty) (update sameName w t name description expected) := by
  refine triple_lockTeam fun row h => ?_
  dsimp only
  split
  · exact triple_unchanged h
  · rename_i hdiffers
    refine .read ((stable_within .nothing).and (stable_ownTeam t row)) fun {db x} hdb hF => ?_
    split
    · exact triple_refused db x hdb hF.1
    · exact triple_details h hdiffers rfl rfl db x hdb hF

/-! ## Teams that come and go -/

/-- What the deletion of a team does. -/
def removing (t : Uuid) : Deeds :=
  ⟨fun _ => False, fun _ t' _ => t' = t, fun _ t' _ => t' = t, Function.update (fun _ => some) t fun _ => none⟩

theorem triple_removed (t : Uuid) :
    contract.Triple (fun db x => Within ((removing t).cascading []) db x ∧ (x.view db).lookup (.team t) = some none)
      (.done (.removed t)) := by
  refine .done ((stable_within _).and (stable_gone t)) fun {db x} hdb hF => ⟨_, hF.1, ?_⟩
  refine ⟨fun _ _ _ h => List.not_mem_nil h, fun t' row row' h => ?_, fun t' row h => ?_, fun _ h => h.elim,
    fun w' t' a' h => .inr (.inr ?_), fun _ _ h => (by cases h), fun _ _ _ _ h => (by cases h)⟩
  · change Function.update (fun _ => some) t (fun _ => none) t' row = some row' at h
    by_cases heq : t' = t
    · subst heq
      rw [Function.update_self] at h
      cases h
    · rw [Function.update_of_ne heq] at h
      cases h
      exact ⟨(add_zero _).symm, (add_zero _).symm⟩
  · change Function.update (fun _ => some) t (fun _ => none) t' row = none at h
    by_cases heq : t' = t
    · rw [heq]
    · rw [Function.update_of_ne heq] at h
      cases h
  · cases h
    exact hF.2

theorem triple_remove (w t : Uuid) : contract.Triple (fun _ x => x = .empty) (remove w t) := by
  refine .write (.own fun x => x = .empty) (fun {db x} hdb hx _ => ?_) (fun {db x row} hdb hx hchange => ?_)
  · subst hx
    exact triple_refused db _ hdb (within_empty hdb)
  · subst hx
    obtain ⟨rfl, old, hold⟩ := deleteTeam_becomes hchange
    have hwithin : Within (removing t) db (Held.empty.writing (.team t) .update (some none)) :=
      ((within_empty hdb).teamGone rfl hold).mono (fun _ h => h) (fun _ _ _ h => h.elim)
        (fun _ _ _ _ h => h.resolve_left fun h => h) rfl
    have hthrough : ThroughLinks fun db x => (x.view db).lookup (.team t) = some none := fun db x w' t' a' row h => by
      show ((x.writing (.teamMember w' t' a') .update row).view db).lookup (.team t) = some none
      rw [lookup_writing_ne Key.noConfusion]
      exact h
    have hread : contract.Triple (fun db x => Within (removing t) db x ∧ (x.view db).lookup (.team t) = some none)
        (.read fun (db : Rows) =>
          deleteTeamMembers ((db.membershipsOf t).map fun link => (link.1, t, link.2)) (.done (.removed t))) := by
      refine .read ((stable_within _).and (stable_gone t)) fun {db x} hdb hF => ?_
      refine triple_deleteTeamMembers (stable_gone t) hthrough _ (fun w' t' a' hlink => ?_) (triple_removed t) db x hdb
        ⟨hF.1.mono (fun _ h => h) (fun _ _ _ h => h) (fun w' t' a' hlinked hp => ?_) rfl, hF.2⟩
      · obtain ⟨link, -, heq⟩ := List.mem_map.mp hlink
        cases heq
        rfl
      · cases hp
        exact List.mem_map.mpr ⟨(w', a'), Rows.mem_membershipsOf.mpr hlinked, rfl⟩
    refine hread db _ hdb ⟨hwithin, lookup_writing_self⟩

theorem triple_created {new : TeamRow} {next : Bool → Program} (hraise : next false = .raise)
    (hdone : next true = .done (.created t)) : contract.Triple (fun _ x => x = .empty)
      (.write (.insertTeam t new) fun _ => .lock (.workspace w) .keyShare Option.isSome next) := by
  have hcreated : contract.Triple (Within .nothing) (.done (.created t)) :=
    .done (stable_within _) fun _ h => ⟨.nothing, h, answers_of_still (fun _ => rfl) (fun _ _ _ _ h => by cases h)
      (fun _ _ _ h => h) rfl (fun _ h => h) (fun _ _ _ h => h.elim) (fun _ _ h => by cases h)⟩
  have hlock : contract.Triple (Within .nothing) (.lock (.workspace w) .keyShare Option.isSome next) := by
    refine .lock (stable_within _) (fun _ _ _ => ?_) (fun {db x} hdb hF _ => ?_)
    · rw [hraise]
      trivial
    · rw [hdone]
      exact hcreated db _ hdb (hF.locking _ _)
  refine .write (.own fun x => x = .empty) (fun {db x} hdb hx _ => ?_) (fun {db x row} hdb hx hchange => ?_)
  · subst hx
    exact hlock db _ hdb (within_empty hdb)
  · subst hx
    obtain ⟨hnone, row', rfl, -⟩ := insertTeam_becomes hchange
    exact hlock db _ hdb ((within_empty hdb).teamAdded row' hnone)

theorem triple_create (sameName : String → String → Bool) (w t : Uuid) (name description : String) :
    contract.Triple (fun _ x => x = .empty) (create sameName w t name description) := by
  refine .read (.own fun x => x = .empty) fun {db x} hdb hx => ?_
  split
  · subst hx
    exact triple_refused db _ hdb (within_empty hdb)
  · exact triple_created rfl rfl db x hdb hx

/-! ## Departures -/

/-- What a departure does. -/
def leaving (w a : Uuid) : Deeds :=
  ⟨fun _ => False, fun w' _ a' => w' = w ∧ a' = a, fun w' _ a' => w' = w ∧ a' = a, fun _ => some⟩

/-- The membership is deleted here. -/
def GoneHere (w a : Uuid) (db : Rows) (x : Local) : Prop :=
  .member w a ∈ x.written ∧ (x.view db).lookup (.member w a) = none

theorem stable_goneHere (w a : Uuid) : contract.Stable (GoneHere w a) := by
  intro db x answer y _ hx _ _ _ _
  refine ⟨hx.1, ?_⟩
  rw [Held.lookup_view_of_mem hx.1 _ db]
  exact hx.2

theorem throughLinks_goneHere (w a : Uuid) : ThroughLinks (GoneHere w a) := by
  intro db x w' t' a' row h
  refine ⟨mem_written_writing.mpr (.inl h.1), ?_⟩
  rw [lookup_writing_ne Key.noConfusion]
  exact h.2

theorem triple_left (w a : Uuid) :
    contract.Triple (fun db x => Within ((leaving w a).cascading []) db x ∧ GoneHere w a db x) (.done (.left w a)) := by
  refine .done ((stable_within _).and (stable_goneHere w a)) fun {db x} hdb hF => ⟨_, hF.1, ?_⟩
  refine answers_of_still (fun _ => rfl) (fun _ _ _ _ h => by cases h) (fun _ _ _ h => List.not_mem_nil h) rfl
    (fun _ h => h) (fun w' t' a' h => ?_) (fun _ _ h => by cases h)
  obtain ⟨rfl, rfl⟩ := h
  exact hF.2.2

theorem triple_removeMember (w a : Uuid) : contract.Triple (fun _ x => x = .empty) (removeMember w a) := by
  have hread : contract.Triple (fun db x => Within (leaving w a) db x ∧ GoneHere w a db x) (.read fun (db : Rows) =>
      deleteTeamMembers ((db.teamsOfMember w a).map fun t => (w, t, a)) (.done (.left w a))) := by
    refine .read ((stable_within _).and (stable_goneHere w a)) fun {db x} hdb hF => ?_
    refine triple_deleteTeamMembers (stable_goneHere w a) (throughLinks_goneHere w a) _ (fun w' t' a' hlink => ?_)
      (triple_left w a) db x hdb
      ⟨hF.1.mono (fun _ h => h) (fun _ _ _ h => h) (fun w' t' a' hlinked hp => ?_) rfl, hF.2⟩
    · obtain ⟨t, -, heq⟩ := List.mem_map.mp hlink
      cases heq
      exact ⟨rfl, rfl⟩
    · obtain ⟨rfl, rfl⟩ := hp
      exact List.mem_map.mpr ⟨t', Rows.mem_teamsOfMember.mpr hlinked, rfl⟩
  have hwrite {next : Bool → Program} (hrefused : next false = .done .refused)
      (hnext : next true = .read fun (db : Rows) =>
        deleteTeamMembers ((db.teamsOfMember w a).map fun t => (w, t, a)) (.done (.left w a))) :
      contract.Triple (Within .nothing) (.write (.deleteMember w a) next) := by
    refine .write (stable_within _) (fun {db x} hdb hF _ => ?_) (fun {db x row} hdb hF hchange => ?_)
    · rw [hrefused]
      exact triple_refused db x hdb hF
    · obtain rfl := deleteMember_becomes hchange
      rw [hnext]
      refine hread db _ hdb ⟨hF.memberGone.mono (fun _ h => h) (fun _ _ _ h => h.elim)
        (fun _ _ _ _ h => h.resolve_left fun h => h) rfl, mem_written_writing.mpr (.inr rfl), lookup_writing_self⟩
  refine .lock (.own fun x => x = .empty) (fun {db x} hdb hx _ => ?_) (fun {db x} hdb hx _ => ?_)
  · subst hx
    exact triple_refused db _ hdb (within_empty hdb)
  · subst hx
    exact hwrite rfl rfl db _ hdb ((within_empty hdb).locking _ _)

/-! ## Joins -/

/-- What a join has done: the teams that it named are joined, and these were moved. -/
def joining (named touched : List Uuid) : Deeds where
  adds t := t ∈ named
  drops _ _ _ := False
  pending _ _ _ := False
  teams t := if t ∈ touched then fun row => some (row.bumped .membersVersion) else some

/-- The teams are locked, and each is one of the workspace. -/
def Named (w : Uuid) (named : List Uuid) (db : Rows) (x : Local) : Prop :=
  ∀ t ∈ named, (∃ m, (.team t, m) ∈ x.locks) ∧ Standing (x.view db) w t

/-- Each team is deleted or one of the workspace. -/
def AllKnown (w : Uuid) (known : List Uuid) (db : Rows) (x : Local) : Prop := ∀ t ∈ known, Known (x.view db) w t

theorem stable_named (w : Uuid) (named : List Uuid) : contract.Stable (Named w named) :=
  fun db x answer y hdb hx hy hlocked hapart hdisjoint t ht =>
    stable_standing w t db x answer y hdb (hx t ht) hy hlocked hapart hdisjoint

theorem stable_allKnown (w : Uuid) (known : List Uuid) : contract.Stable (AllKnown w known) :=
  fun db x answer y hdb hx hy hlocked hapart hdisjoint t ht =>
    stable_known w t db x answer y hdb (hx t ht) hy hlocked hapart hdisjoint

theorem throughLocks_named (w : Uuid) (named : List Uuid) : ThroughLocks (Named w named) := fun _ _ _ _ h t ht =>
  ⟨(h t ht).1.imp fun _ => List.mem_cons_of_mem _, (h t ht).2⟩

theorem throughLinks_named (w : Uuid) (named : List Uuid) : ThroughLinks (Named w named) := fun _ _ _ _ _ _ h t ht =>
  ⟨(h t ht).1.imp fun _ => List.mem_cons_of_mem _, (h t ht).2.congr (lookup_writing_ne Key.noConfusion)⟩

theorem AllKnown.writing {known : List Uuid} {db : Rows} {x : Local} {k : Key} {mode : LockMode} {row : Option (Row k)}
    (h : AllKnown w known db x) (hk : ∀ t, k ≠ .team t) : AllKnown w known db (x.writing k mode row) := by
  intro t ht
  refine (h t ht).imp (fun hgone => ?_) fun hstanding => hstanding.congr (lookup_writing_ne (hk t).symm)
  rw [lookup_writing_ne (hk t).symm]
  exact hgone

theorem Standing.moved {db : Rows} {x : Local} {t' : Uuid} {row row' : TeamRow} {mode : LockMode}
    (h : Standing (x.view db) w t') (hview : (x.view db).lookup (.team t) = some (some row))
    (hsame : row'.workspaceId = row.workspaceId) :
    Standing ((x.writing (.team t) mode (some (some row'))).view db) w t' := by
  by_cases heq : t' = t
  · subst heq
    obtain ⟨row₁, hrow₁, hw⟩ := h
    rw [hview] at hrow₁
    cases hrow₁
    exact ⟨row', lookup_writing_self, hsame.trans hw⟩
  · exact h.congr (lookup_writing_ne fun hk => heq (Key.team.inj hk))

/-- What holds while the teams are moved: `teams` are to be moved still. -/
structure Moving (w : Uuid) (named known teams touched : List Uuid) (db : Rows) (x : Local) : Prop where
  within : Within (joining named touched) db x
  standing : Named w named db x
  allKnown : AllKnown w known db x
  left : ∀ t ∈ named, t ∈ touched ∨ t ∈ teams
  found : ∀ t ∈ known, t ∈ touched ∨ t ∈ teams ∨ (x.view db).lookup (.team t) = some none

theorem stable_moving (w : Uuid) (named known teams touched : List Uuid) :
    contract.Stable (Moving w named known teams touched) := by
  intro db x answer y hdb hx hy hlocked hapart hdisjoint
  refine ⟨stable_within _ db x answer y hdb hx.within hy hlocked hapart hdisjoint,
    stable_named w named db x answer y hdb hx.standing hy hlocked hapart hdisjoint,
    stable_allKnown w known db x answer y hdb hx.allKnown hy hlocked hapart hdisjoint, hx.left, fun t ht => ?_⟩
  exact (hx.found t ht).imp_right (Or.imp_right fun h => stable_gone t db x answer y hdb h hy hlocked hapart hdisjoint)

section

variable {named known teams touched : List Uuid} {db : Rows} {x : Local}

theorem Moving.gone (h : Moving w named known (t :: teams) touched db x)
    (hgone : ∀ row, (x.view db).lookup (.team t) ≠ some (some row)) : Moving w named known teams touched db x := by
  have hnot {w'} : ¬ Standing (x.view db) w' t := fun ⟨row, hrow, _⟩ => hgone row hrow
  refine ⟨h.within, h.standing, h.allKnown, fun t' ht' => ?_, fun t' ht' => ?_⟩
  · refine (h.left t' ht').imp_right fun hmem => (List.mem_cons.mp hmem).resolve_left ?_
    rintro rfl
    exact hnot (h.standing t' ht').2
  · rcases h.found t' ht' with hmem | hmem | hmem
    · exact .inl hmem
    · rcases List.mem_cons.mp hmem with rfl | hmem
      · exact .inr (.inr ((h.allKnown t' ht').resolve_right hnot))
      · exact .inr (.inl hmem)
    · exact .inr (.inr hmem)

theorem Moving.moved {row : TeamRow} (h : Moving w named known (t :: teams) touched db x) (hnot : t ∉ touched)
    (hview : (x.view db).lookup (.team t) = some (some row)) :
    Moving w named known teams (t :: touched) db
      (x.writing (.team t) .noKeyUpdate (some (some (row.bumped .membersVersion)))) := by
  have hgone {t'} (hnone : (x.view db).lookup (.team t') = some none) :
      ((x.writing (.team t) .noKeyUpdate (some (some (row.bumped .membersVersion)))).view db).lookup (.team t') =
        some none := by
    have hne : t' ≠ t := by
      rintro rfl
      rw [hview] at hnone
      cases hnone
    rw [lookup_writing_ne fun hk => hne (Key.team.inj hk)]
    exact hnone
  constructor
  · refine (h.within.teamMade (g := fun row => some (row.bumped .membersVersion)) (if_neg hnot) hview rfl
      (fun _ => Option.some_ne_none _) (fun row row' h => by cases h; rfl)).mono
        (fun _ h => h) (fun _ _ _ h => h) (fun _ _ _ _ h => h) (funext fun t' => ?_)
    dsimp only [joining, Deeds.making]
    by_cases heq : t' = t
    · subst heq
      rw [Function.update_self, if_pos List.mem_cons_self]
    · rw [Function.update_of_ne heq]
      exact if_congr (List.mem_cons.trans (or_iff_right heq)) rfl rfl
  · exact fun t' ht' => ⟨(h.standing t' ht').1.imp fun _ => List.mem_cons_of_mem _,
      (h.standing t' ht').2.moved hview rfl⟩
  · exact fun t' ht' => (h.allKnown t' ht').imp hgone fun hstanding => hstanding.moved hview rfl
  · intro t' ht'
    rcases h.left t' ht' with hmem | hmem
    · exact .inl (List.mem_cons_of_mem _ hmem)
    · refine (List.mem_cons.mp hmem).imp_left ?_
      rintro rfl
      exact List.mem_cons_self
  · intro t' ht'
    rcases h.found t' ht' with hmem | hmem | hmem
    · exact .inl (List.mem_cons_of_mem _ hmem)
    · rcases List.mem_cons.mp hmem with rfl | hmem
      · exact .inl List.mem_cons_self
      · exact .inr (.inl hmem)
    · exact .inr (.inr (hgone hmem))

end

theorem triple_moveTeams {named known teams touched : List Uuid} {next : List Uuid → Program} (hnodup : teams.Nodup)
    (hdisjoint : ∀ t ∈ teams, t ∉ touched)
    (hnext : ∀ touched, contract.Triple (Moving w named known [] touched) (next touched)) :
    contract.Triple (Moving w named known teams touched) (moveTeams teams touched next) := by
  induction teams generalizing touched with
  | nil => exact hnext touched
  | cons t teams ih =>
    obtain ⟨hnotMem, hnodup⟩ := List.nodup_cons.mp hnodup
    have hrest : ∀ t' ∈ teams, t' ∉ touched := fun t' ht' => hdisjoint t' (List.mem_cons_of_mem _ ht')
    refine .write (stable_moving _ _ _ _ _) (fun {db x} hdb hF hchange => ?_) (fun {db x row} hdb hF hchange => ?_)
    · exact ih hnodup hrest db x hdb (hF.gone (updateTeam_nothing hchange))
    · obtain ⟨old, hold, rfl⟩ := updateTeam_becomes hchange
      refine ih hnodup (fun t' ht' hmem => ?_) db _ hdb (hF.moved (hdisjoint t List.mem_cons_self) hold)
      rcases List.mem_cons.mp hmem with rfl | hmem
      · exact hnotMem ht'
      · exact hrest t' ht' hmem

/-- What holds before the teams are moved. -/
def Joining (w a : Uuid) (named known : List Uuid) (db : Rows) (x : Local) : Prop :=
  (Within (joining named []) db x ∧ ∃ m, (.member w a, m) ∈ x.locks) ∧ Named w named db x ∧ AllKnown w known db x

theorem stable_joining (w a : Uuid) (named known : List Uuid) : contract.Stable (Joining w a named known) :=
  ((stable_within _).and (.own fun x => ∃ m, (Key.member w a, m) ∈ x.locks)).and
    ((stable_named w named).and (stable_allKnown w known))

theorem throughLocks_joining (w a : Uuid) (named known : List Uuid) : ThroughLocks (Joining w a named known) :=
  fun db x key mode h => ⟨⟨h.1.1.locking key mode, h.1.2.imp fun _ => List.mem_cons_of_mem _⟩,
    throughLocks_named w named db x key mode h.2.1, h.2.2⟩

theorem triple_joined (w a : Uuid) (named known touched : List Uuid) :
    contract.Triple (Moving w named known [] touched) (.done (.joined w a known touched)) := by
  refine .done (stable_moving _ _ _ _ _) fun {db x} hdb hF => ⟨_, hF.within, ?_⟩
  refine ⟨fun _ _ _ h => h, fun t row row' h => ?_, fun t row h => ?_, fun t ht => ?_, fun _ _ _ h => h.elim,
    fun _ _ h => (by cases h), fun w' a' known' touched' heq t ht => ?_⟩
  · change (if t ∈ touched then fun row => some (row.bumped .membersVersion) else some) row = some row' at h
    change row'.version = row.version + (if decide (t ∈ touched) = true then 1 else 0) ∧
      row'.membersVersion = row.membersVersion + (if decide (t ∈ touched) = true then 1 else 0)
    by_cases hmem : t ∈ touched
    · rw [if_pos hmem] at h
      cases h
      rw [decide_eq_true hmem]
      exact ⟨rfl, rfl⟩
    · rw [if_neg hmem] at h
      cases h
      rw [decide_eq_false hmem]
      exact ⟨(add_zero _).symm, (add_zero _).symm⟩
  · change (if t ∈ touched then fun row => some (row.bumped .membersVersion) else some) row = none at h
    split at h <;> cases h
  · exact decide_eq_true ((hF.left t ht).resolve_right List.not_mem_nil)
  · cases heq
    exact (hF.found t ht).imp_right fun h => h.resolve_left List.not_mem_nil

theorem triple_moveTeamsOf (w a : Uuid) (named known : List Uuid) : contract.Triple (Joining w a named known)
    (moveTeamsOf w fun touched => .done (.joined w a known touched)) := by
  refine .read (stable_joining w a named known) fun {db x} hdb hF => ?_
  refine triple_moveTeams Rows.teamsOf_nodup (fun _ _ => List.not_mem_nil) (triple_joined w a named known) db x hdb
    ⟨hF.1.1, hF.2.1, hF.2.2, fun t ht => .inr (standing_iff.mp (hF.2.1 t ht).2), fun t ht => .inr ?_⟩
  exact (hF.2.2 t ht).symm.imp_left standing_iff.mp

/-- A membership of a team that is locked and stands. -/
theorem triple_join {named known : List Uuid} {rest : Program}
    (hrest : contract.Triple (Joining w a (t :: named) known) rest) :
    contract.Triple (fun db x => Joining w a named known db x ∧ (∃ m, (.team t, m) ∈ x.locks) ∧ Standing (x.view db) w t)
      (.write (.insertTeamMember w t a false) fun _ => rest) := by
  refine .write ((stable_joining w a named known).and (stable_standing w t))
    (fun _ _ hchange => absurd hchange insertTeamMember_not_nothing) (fun {db x row} hdb hF hchange => ?_)
  obtain ⟨rfl, hplaced⟩ := insertTeamMember_becomes hchange
  obtain ⟨⟨⟨hwithin, m, hm⟩, hnamed, hknown⟩, hlock, hstanding⟩ := hF
  have hmore : Within (joining (t :: named) []) db x :=
    hwithin.mono (fun _ => List.mem_cons_of_mem _) (fun _ _ _ h => h) (fun _ _ _ _ h => h) rfl
  have hnamed' : Named w (t :: named) db x := by
    intro t' ht'
    rcases List.mem_cons.mp ht' with rfl | ht'
    · exact ⟨hlock, hstanding⟩
    · exact hnamed t' ht'
  exact hrest db _ hdb ⟨⟨hmore.linked hplaced List.mem_cons_self ⟨m, hm⟩ hlock, m, List.mem_cons_of_mem _ hm⟩,
    throughLinks_named w _ db x w t a _ hnamed', hknown.writing fun _ => Key.noConfusion⟩

theorem triple_joinTeams {known : List Uuid} {rest : Program} (hrest : ∀ named, contract.Triple (Joining w a named known) rest)
    (teams named : List Uuid) : contract.Triple (Joining w a named known) (joinTeams w a teams rest) := by
  induction teams generalizing named with
  | nil => exact hrest named
  | cons t teams ih =>
    refine .lock (stable_joining w a named known) (fun {db x} hdb hF _ => ih named db x hdb hF)
      (fun {db x} hdb hF hwanted => ?_)
    exact triple_join (ih (t :: named)) db _ hdb ⟨throughLocks_joining w a named known db x _ _ hF,
      ⟨_, List.mem_cons_self⟩, standing_of_any rfl hwanted⟩

/-- The account becomes a member. -/
theorem triple_insertMember {role : MemberRole} {known : List Uuid} {rest : Program}
    (hrest : contract.Triple (Joining w a [] known) rest) :
    contract.Triple (fun db x => Within .nothing db x ∧ AllKnown w known db x)
      (.write (.insertMember w a role) fun _ => rest) := by
  refine .write ((stable_within _).and (stable_allKnown w known))
    (fun _ _ hchange => absurd hchange insertMember_not_nothing) (fun {db x row} hdb hF hchange => ?_)
  obtain rfl := insertMember_becomes hchange
  have hwithin : Within (joining [] []) db x := hF.1.mono (fun _ h => h.elim) (fun _ _ _ h => h) (fun _ _ _ _ h => h)
    (funext fun t => by
      dsimp only [joining]
      rw [if_neg List.not_mem_nil]
      rfl)
  exact hrest db _ hdb ⟨⟨hwithin.memberAdded role, _, List.mem_cons_self⟩, fun _ ht => absurd ht List.not_mem_nil,
    hF.2.writing fun _ => Key.noConfusion⟩

theorem triple_lockWorkspace {known : List Uuid} {rest : Program}
    (hrest : contract.Triple (fun db x => Within .nothing db x ∧ AllKnown w known db x) rest) :
    contract.Triple (fun db x => Within .nothing db x ∧ AllKnown w known db x) (lockWorkspace w a rest) := by
  have hstable := (stable_within .nothing).and (stable_allKnown w known)
  refine .lock hstable (fun {db x} hdb hF _ => triple_refused db x hdb hF.1) (fun {db x} hdb hF _ => ?_)
  have hread : contract.Triple (fun db x => Within .nothing db x ∧ AllKnown w known db x)
      (.read fun (db : Rows) => if (db.member w a).isSome then .done .refused else rest) := by
    refine .read hstable fun {db x} hdb hF => ?_
    split
    · exact triple_refused db x hdb hF.1
    · exact hrest db x hdb hF
  exact hread db _ hdb ⟨hF.1.locking _ _, hF.2⟩

theorem allKnown_empty (w : Uuid) (db : Rows) : AllKnown w (db.teamsOf w) db .empty :=
  fun _ ht => .inr (standing_iff.mpr ht)

theorem triple_sysInvitationAccept (w a : Uuid) (role : MemberRole) (teamIds : List Uuid) :
    contract.Triple (fun _ x => x = .empty) (sysInvitationAccept w a role teamIds) := by
  refine .read (.own fun x => x = .empty) fun {db x} hdb hx => ?_
  subst hx
  refine triple_lockWorkspace (triple_insertMember ?_) db _ hdb ⟨within_empty hdb, allKnown_empty w db⟩
  refine .read (stable_joining w a [] _) fun {db x} hdb hF => ?_
  refine triple_joinTeams (fun named => ?_) _ [] db x hdb hF
  exact .read (stable_joining w a named _) fun {db x} hdb hF =>
    triple_lockTeams (stable_joining w a named _) (throughLocks_joining w a named _) _
      (triple_moveTeamsOf w a named _) db x hdb hF

theorem triple_sysInstanceAddMembership (w a : Uuid) :
    contract.Triple (fun _ x => x = .empty) (sysInstanceAddMembership w a) := by
  refine .read (.own fun x => x = .empty) fun {db x} hdb hx => ?_
  subst hx
  have hstable := (stable_within .nothing).and (stable_allKnown w (Rows.teamsOf db w))
  refine triple_lockWorkspace ?_ db _ hdb ⟨within_empty hdb, allKnown_empty w db⟩
  exact .read hstable fun {db x} hdb hF =>
    triple_lockTeams hstable (fun db x key mode hF => ⟨hF.1.locking key mode, hF.2⟩) _
      (triple_insertMember (triple_moveTeamsOf w a [] _)) db x hdb hF

/-! ## Every request -/

/-- **Every request keeps the contract.** -/
theorem triple_program (sameName : String → String → Bool) (request : Request) :
    contract.Triple (fun _ x => x = .empty) (program sameName request) := by
  cases request with
  | replaceMembers w t accountIds expected => exact triple_replaceMembers w t accountIds expected
  | update w t name description expected => exact triple_update sameName w t name description expected
  | remove w t => exact triple_remove w t
  | create w t name description => exact triple_create sameName w t name description
  | sysInvitationAccept w a role teamIds => exact triple_sysInvitationAccept w a role teamIds
  | sysInstanceAddMembership w a => exact triple_sysInstanceAddMembership w a
  | removeMember w a => exact triple_removeMember w a

end SlugBase.Team
