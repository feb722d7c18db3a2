import SlugBase.Team.Promise
import Mathlib.Logic.Function.Basic

/-!
# What each statement adds to what a transaction has done

One lemma for each statement that writes a row.
-/

namespace SlugBase.Team

open ReadCommitted

variable {d d' : Deeds} {db : Rows} {x : Local} {w t a : Uuid}

theorem within_empty (h : committed db) : Within .nothing db .empty where
  members _ _ h := absurd h List.not_mem_nil
  unwritten _ _ := rfl
  live _ := .inr fun row => Option.some_ne_none row
  same _ _ _ h := congrArg TeamRow.workspaceId (Option.some.inj h).symm
  teams t v h := by
    rw [Held.view_empty, h]
    exact congrArg some (Option.bind_fun_some v).symm
  adds _ _ _ h := absurd h List.not_mem_nil
  drops _ _ _ h := absurd h List.not_mem_nil
  placed w t a hl := .inr (h w t a hl)

theorem Within.locking (h : Within d db x) (key : Key) (mode : LockMode) : Within d db (x.locking key mode) where
  members w a hw := List.mem_cons_of_mem _ (h.members w a hw)
  unwritten := h.unwritten
  live t := (h.live t).imp_left (List.mem_cons_of_mem _)
  same := h.same
  teams := h.teams
  adds w t a hw hl := by
    obtain ⟨hadds, ⟨m, hm⟩, m', hm'⟩ := h.adds w t a hw hl
    exact ⟨hadds, ⟨m, List.mem_cons_of_mem _ hm⟩, m', List.mem_cons_of_mem _ hm'⟩
  drops := h.drops
  placed := h.placed

theorem Within.mono (h : Within d db x) (hadds : ∀ t, d.adds t → d'.adds t)
    (hdrops : ∀ w t a, d.drops w t a → d'.drops w t a)
    (hpending : ∀ w t a, Linked (x.view db) w t a → d.pending w t a → d'.pending w t a)
    (hteams : d'.teams = d.teams) : Within d' db x where
  members := h.members
  unwritten := hteams ▸ h.unwritten
  live := hteams ▸ h.live
  same := hteams ▸ h.same
  teams := hteams ▸ h.teams
  adds w t a hw hl := (h.adds w t a hw hl).imp_left (hadds t)
  drops w t a hw hl := hdrops w t a (h.drops w t a hw hl)
  placed w t a hl := (h.placed w t a hl).imp_left (hpending w t a hl)

/-! ## One more row -/

section

variable {k k' : Key} {mode : LockMode} {row : Option (Row k)}

theorem lookup_writing_ne (h : k' ≠ k) : ((x.writing k mode row).view db).lookup k' = (x.view db).lookup k' := by
  rw [Held.view_writing, lookup_put_ne _ _ h]

theorem lookup_writing_self : ((x.writing k mode row).view db).lookup k = row := by
  rw [Held.view_writing, lookup_put_self]

theorem mem_written_writing : k' ∈ (x.writing k mode row).written ↔ k' ∈ x.written ∨ k' = k := by
  rw [Held.written_writing, List.mem_append, List.mem_singleton]

/-- A row that is not a team's. -/
theorem Within.writing_other (h : Within d db x) (hteam : ∀ t, k ≠ .team t) (hmode : ∀ w a, k = .member w a → mode = .update)
    (hteams : d'.teams = d.teams) (hadds' : ∀ t, d.adds t → d'.adds t)
    (hdrops' : ∀ w t a, d.drops w t a → d'.drops w t a)
    (hadds : ∀ w t a, k = .teamMember w t a → row.isSome = true →
      d'.adds t ∧ (∃ m, (.member w a, m) ∈ x.locks) ∧ ∃ m, (.team t, m) ∈ x.locks)
    (hdrops : ∀ w t a, k = .teamMember w t a → row.isSome = false → d'.drops w t a)
    (hplaced : ∀ w t a, Linked ((x.writing k mode row).view db) w t a →
      d'.pending w t a ∨ Placed ((x.writing k mode row).view db) w t a) :
    Within d' db (x.writing k mode row) where
  members w a hw := by
    rcases mem_written_writing.mp hw with hw | rfl
    · exact List.mem_cons_of_mem _ (h.members w a hw)
    · rw [hmode w a rfl]
      exact List.mem_cons_self
  unwritten t ht := by
    rw [hteams]
    exact h.unwritten t fun hw => ht (mem_written_writing.mpr (.inl hw))
  live t := by
    rw [hteams]
    exact (h.live t).imp_left (List.mem_cons_of_mem _)
  same := hteams ▸ h.same
  teams t v hv := by
    rw [lookup_writing_ne (hteam t).symm, hteams]
    exact h.teams t v hv
  adds w t a hw hl := by
    by_cases heq : k = .teamMember w t a
    · subst heq
      rw [Linked, lookup_writing_self, Option.ne_none_iff_isSome] at hl
      obtain ⟨hadd, ⟨m, hm⟩, m', hm'⟩ := hadds w t a rfl hl
      exact ⟨hadd, ⟨m, List.mem_cons_of_mem _ hm⟩, m', List.mem_cons_of_mem _ hm'⟩
    · rw [Linked, lookup_writing_ne (Ne.symm heq)] at hl
      have hw' := (mem_written_writing.mp hw).resolve_right (Ne.symm heq)
      obtain ⟨hadd, ⟨m, hm⟩, m', hm'⟩ := h.adds w t a hw' hl
      exact ⟨hadds' t hadd, ⟨m, List.mem_cons_of_mem _ hm⟩, m', List.mem_cons_of_mem _ hm'⟩
  drops w t a hw hl := by
    by_cases heq : k = .teamMember w t a
    · subst heq
      rw [Linked, lookup_writing_self, not_not] at hl
      exact hdrops w t a rfl (by rw [hl]; rfl)
    · rw [Linked, lookup_writing_ne (Ne.symm heq)] at hl
      exact hdrops' w t a (h.drops w t a ((mem_written_writing.mp hw).resolve_right (Ne.symm heq)) hl)
  placed := hplaced

end

/-- A team's row. -/
theorem Within.writing_team (h : Within d db x) {mode : LockMode} {row : Option TeamRow} {g : TeamRow → Option TeamRow}
    (hlive : mode = .update ∨ ∀ row, g row ≠ none)
    (hsame : ∀ row row', g row = some row' → row'.workspaceId = row.workspaceId)
    (hrow : ∀ v, db.lookup (.team t) = some v → row = v.bind g)
    (hadds : ∀ t, d.adds t → d'.adds t) (hdrops : ∀ w t a, d.drops w t a → d'.drops w t a)
    (hteams : d'.teams = Function.update d.teams t g)
    (hpending : ∀ w t a, d.pending w t a → d'.pending w t a)
    (hplaced : ∀ w a, Linked (x.view db) w t a → Standing (x.view db) w t →
      d'.pending w t a ∨ ∃ row', row = some row' ∧ row'.workspaceId = w) :
    Within d' db (x.writing (.team t) mode (some row)) where
  members w a hw := List.mem_cons_of_mem _ (h.members w a ((mem_written_writing.mp hw).resolve_right Key.noConfusion))
  unwritten t' ht := by
    have hne : t' ≠ t := fun heq => ht (mem_written_writing.mpr (.inr (heq ▸ rfl)))
    rw [hteams, Function.update_of_ne hne]
    exact h.unwritten t' fun hw => ht (mem_written_writing.mpr (.inl hw))
  live t' := by
    by_cases heq : t' = t
    · subst heq
      rw [hteams, Function.update_self]
      refine hlive.imp_left ?_
      rintro rfl
      exact List.mem_cons_self
    · rw [hteams, Function.update_of_ne heq]
      exact (h.live t').imp_left (List.mem_cons_of_mem _)
  same t' := by
    by_cases heq : t' = t
    · subst heq
      rw [hteams, Function.update_self]
      exact hsame
    · rw [hteams, Function.update_of_ne heq]
      exact h.same t'
  teams t' v hv := by
    by_cases heq : t' = t
    · subst heq
      rw [lookup_writing_self, hteams, Function.update_self, hrow v hv]
    · rw [lookup_writing_ne (fun hk => heq (Key.team.inj hk)), hteams, Function.update_of_ne heq]
      exact h.teams t' v hv
  adds w t' a hw hl := by
    rw [Linked, lookup_writing_ne Key.noConfusion] at hl
    obtain ⟨hadd, ⟨m, hm⟩, m', hm'⟩ := h.adds w t' a ((mem_written_writing.mp hw).resolve_right Key.noConfusion) hl
    exact ⟨hadds t' hadd, ⟨m, List.mem_cons_of_mem _ hm⟩, m', List.mem_cons_of_mem _ hm'⟩
  drops w t' a hw hl := by
    rw [Linked, lookup_writing_ne Key.noConfusion] at hl
    exact hdrops w t' a (h.drops w t' a ((mem_written_writing.mp hw).resolve_right Key.noConfusion) hl)
  placed w t' a hl := by
    rw [Linked, lookup_writing_ne Key.noConfusion] at hl
    rcases h.placed w t' a hl with hpend | hplace
    · exact .inl (hpending w t' a hpend)
    · have hmember : ((x.writing (.team t) mode (some row)).view db).lookup (.member w a) ≠ none := by
        rw [lookup_writing_ne Key.noConfusion]
        exact hplace.member
      by_cases heq : t' = t
      · subst heq
        refine (hplaced w a hl hplace.team).imp_right fun hstand => ?_
        obtain ⟨row', hrow', hw⟩ := hstand
        exact ⟨⟨row', by rw [lookup_writing_self, hrow'], hw⟩, hmember⟩
      · exact .inr ⟨hplace.team.congr (lookup_writing_ne fun hk => heq (Key.team.inj hk)), hmember⟩

/-! ## What each statement writes -/

/-- These memberships wait for their deletion. -/
def Deeds.cascading (d : Deeds) (links : List (Uuid × Uuid × Uuid)) : Deeds :=
  { d with pending := fun w t a => (w, t, a) ∈ links }

/-- The teams are made this. -/
def Deeds.making (d : Deeds) (t : Uuid) (g : TeamRow → Option TeamRow) : Deeds :=
  { d with teams := Function.update d.teams t g }

section

variable {links : List (Uuid × Uuid × Uuid)}

/-- A membership is deleted. -/
theorem Within.unlinked (h : Within (d.cascading ((w, t, a) :: links)) db x) (hdrops : d.drops w t a) :
    Within (d.cascading links) db (x.writing (.teamMember w t a) .update none) := by
  refine h.writing_other (fun _ => Key.noConfusion) (fun _ _ _ => rfl) rfl (fun _ h => h) (fun _ _ _ h => h)
    (fun _ _ _ _ h => by cases h) (fun w' t' a' hk _ => ?_) (fun w' t' a' hl => ?_)
  · cases hk
    exact hdrops
  · have hne : Key.teamMember w' t' a' ≠ .teamMember w t a := by
      intro heq
      rw [Linked, heq, lookup_writing_self] at hl
      exact hl rfl
    rw [Linked, lookup_writing_ne hne] at hl
    rcases h.placed w' t' a' hl with hp | hp
    · exact .inl ((List.mem_cons.mp hp).resolve_left fun heq => hne (by cases heq; rfl))
    · refine .inr ⟨hp.team.congr (lookup_writing_ne Key.noConfusion), ?_⟩
      rw [lookup_writing_ne Key.noConfusion]
      exact hp.member

theorem Within.had_gone (h : Within (d.cascading ((w, t, a) :: links)) db x) (hnot : ¬ Linked (x.view db) w t a) :
    Within (d.cascading links) db x := by
  refine h.mono (fun _ h => h) (fun _ _ _ h => h) (fun w' t' a' hl hp => ?_) rfl
  refine (List.mem_cons.mp hp).resolve_left fun heq => ?_
  cases heq
  exact hnot hl

/-- A membership is inserted. -/
theorem Within.linked (h : Within d db x) (hplaced : Placed (x.view db) w t a) (hadds : d.adds t)
    (hmember : ∃ m, (.member w a, m) ∈ x.locks) (hteam : ∃ m, (.team t, m) ∈ x.locks) :
    Within d db (x.writing (.teamMember w t a) .update (some ())) := by
  have hplaced' {w' t' a'} (hp : Placed (x.view db) w' t' a') :
      Placed ((x.writing (.teamMember w t a) .update (some ())).view db) w' t' a' := by
    refine ⟨hp.team.congr (lookup_writing_ne Key.noConfusion), ?_⟩
    rw [lookup_writing_ne Key.noConfusion]
    exact hp.member
  refine h.writing_other (fun _ => Key.noConfusion) (fun _ _ _ => rfl) rfl (fun _ h => h) (fun _ _ _ h => h)
    (fun w' t' a' hk _ => ?_) (fun _ _ _ _ h => by cases h) (fun w' t' a' hl => ?_)
  · cases hk
    exact ⟨hadds, hmember, hteam⟩
  · by_cases heq : Key.teamMember w' t' a' = .teamMember w t a
    · cases heq
      exact .inr (hplaced' hplaced)
    · rw [Linked, lookup_writing_ne heq] at hl
      exact (h.placed w' t' a' hl).imp_right hplaced'

theorem Within.memberAdded (h : Within d db x) (role : MemberRole) :
    Within d db (x.writing (.member w a) .update (some role)) := by
  refine h.writing_other (fun _ => Key.noConfusion) (fun _ _ _ => rfl) rfl (fun _ h => h) (fun _ _ _ h => h)
    (fun _ _ _ hk => by cases hk) (fun _ _ _ hk => by cases hk) (fun w' t' a' hl => ?_)
  rw [Linked, lookup_writing_ne Key.noConfusion] at hl
  refine (h.placed w' t' a' hl).imp_right fun hp => ⟨hp.team.congr (lookup_writing_ne Key.noConfusion), ?_⟩
  by_cases heq : Key.member w' a' = .member w a
  · rw [heq, lookup_writing_self]
    exact Option.some_ne_none role
  · rw [lookup_writing_ne heq]
    exact hp.member

theorem Within.memberGone (h : Within d db x) :
    Within { d with pending := fun w' t a' => d.pending w' t a' ∨ (w' = w ∧ a' = a) } db
      (x.writing (.member w a) .update none) := by
  refine h.writing_other (fun _ => Key.noConfusion) (fun _ _ _ => rfl) rfl (fun _ h => h) (fun _ _ _ h => h)
    (fun _ _ _ hk => by cases hk) (fun _ _ _ hk => by cases hk) (fun w' t' a' hl => ?_)
  rw [Linked, lookup_writing_ne Key.noConfusion] at hl
  by_cases heq : Key.member w' a' = .member w a
  · exact .inl (.inr (Key.member.inj heq))
  · refine (h.placed w' t' a' hl).imp .inl fun hp => ⟨hp.team.congr (lookup_writing_ne Key.noConfusion), ?_⟩
    rw [lookup_writing_ne heq]
    exact hp.member

theorem Within.teamAdded (h : Within d db x) (row : TeamRow) (hnone : (x.view db).lookup (.team t) = none) :
    Within d db (x.writing (.team t) .update (some (some row))) := by
  have hsame : d.teams = Function.update d.teams t (d.teams t) := (Function.update_eq_self t d.teams).symm
  refine h.writing_team (.inl rfl) (h.same t) (fun v hv => ?_) (fun _ h => h) (fun _ _ _ h => h) hsame
    (fun _ _ _ h => h) (fun w' a' _ hstanding => ?_)
  · have hsome := h.teams t v hv
    rw [hnone] at hsome
    cases hsome
  · obtain ⟨row', hrow', -⟩ := hstanding
    rw [hnone] at hrow'
    cases hrow'

theorem Within.teamMade (h : Within d db x) {row row' : TeamRow} {g : TeamRow → Option TeamRow} (hmade : d.teams t = some)
    (hview : (x.view db).lookup (.team t) = some (some row)) (hrow : g row = some row') (hlive : ∀ row, g row ≠ none)
    (hsame : ∀ row row', g row = some row' → row'.workspaceId = row.workspaceId) :
    Within (d.making t g) db (x.writing (.team t) .noKeyUpdate (some (some row'))) := by
  refine h.writing_team (.inr hlive) hsame (fun v hv => ?_) (fun _ h => h) (fun _ _ _ h => h) rfl
    (fun _ _ _ h => h) (fun w' a' _ hstanding => .inr ?_)
  · have hv' := h.teams t v hv
    rw [hview, hmade, Option.bind_fun_some] at hv'
    rw [← Option.some.inj hv', Option.bind_some, hrow]
  · obtain ⟨row₁, hrow₁, hw⟩ := hstanding
    rw [hview] at hrow₁
    cases hrow₁
    exact ⟨row', rfl, (hsame _ _ hrow).trans hw⟩

theorem Within.teamGone (h : Within d db x) {row : TeamRow} (hmade : d.teams t = some)
    (hview : (x.view db).lookup (.team t) = some (some row)) :
    Within { d.making t (fun _ => none) with pending := fun w' t' a' => d.pending w' t' a' ∨ t' = t } db
      (x.writing (.team t) .update (some none)) := by
  refine h.writing_team (.inl rfl) (fun _ _ h => by cases h) (fun v hv => ?_) (fun _ h => h) (fun _ _ _ h => h) rfl
    (fun _ _ _ h => .inl h) (fun _ _ _ _ => .inl (.inr rfl))
  have hv' := h.teams t v hv
  rw [hview, hmade, Option.bind_fun_some] at hv'
  rw [← Option.some.inj hv', Option.bind_some]

end

/-! ## What the statements do -/

theorem deleteTeamMember_nothing (h : rules.change (.deleteTeamMember w t a) db = .nothing) : ¬ Linked db w t a := by
  change Statement.change db (.deleteTeamMember w t a) = _ at h
  dsimp only [Statement.change] at h
  split at h
  · rename_i hnone
    exact not_not.mpr hnone
  · cases h

theorem deleteTeamMember_becomes {row : Option Unit} (h : rules.change (.deleteTeamMember w t a) db = .becomes row) :
    row = none := by
  change Statement.change db (.deleteTeamMember w t a) = _ at h
  dsimp only [Statement.change] at h
  split at h
  · cases h
  · cases h
    rfl

theorem insertTeamMember_becomes {leave : Bool} {row : Option Unit}
    (h : rules.change (.insertTeamMember w t a leave) db = .becomes row) : row = some () ∧ Placed db w t a := by
  change Statement.change db (.insertTeamMember w t a leave) = _ at h
  dsimp only [Statement.change] at h
  split at h
  · cases h
  · cases h
  · split at h
    · rename_i hplaced
      cases h
      exact ⟨rfl, placed_of_placed hplaced⟩
    · cases h

theorem insertTeamMember_not_nothing : rules.change (.insertTeamMember w t a false) db ≠ .nothing := by
  intro h
  change Statement.change db (.insertTeamMember w t a false) = _ at h
  dsimp only [Statement.change] at h
  split at h
  · rename_i hfalse
    cases hfalse
  · cases h
  · split at h <;> cases h

theorem insertMember_becomes {role : MemberRole} {row : Option MemberRole}
    (h : rules.change (.insertMember w a role) db = .becomes row) : row = some role := by
  change Statement.change db (.insertMember w a role) = _ at h
  dsimp only [Statement.change] at h
  split at h
  · cases h
    rfl
  · cases h

theorem insertMember_not_nothing {role : MemberRole} : rules.change (.insertMember w a role) db ≠ .nothing := by
  intro h
  change Statement.change db (.insertMember w a role) = _ at h
  dsimp only [Statement.change] at h
  split at h <;> cases h

theorem deleteMember_becomes {row : Option MemberRole} (h : rules.change (.deleteMember w a) db = .becomes row) :
    row = none := by
  change Statement.change db (.deleteMember w a) = _ at h
  dsimp only [Statement.change] at h
  split at h
  · cases h
  · cases h
    rfl

theorem insertTeam_becomes {new : TeamRow} {row : Option (Option TeamRow)}
    (h : rules.change (.insertTeam t new) db = .becomes row) :
    db.lookup (.team t) = none ∧ ∃ row', row = some (some row') ∧ row'.workspaceId = new.workspaceId := by
  change Statement.change db (.insertTeam t new) = _ at h
  dsimp only [Statement.change] at h
  split at h
  · rename_i hnone
    cases h
    exact ⟨hnone, _, rfl, rfl⟩
  · cases h

theorem updateTeam_nothing {set : TeamSet} (h : rules.change (.updateTeam t set) db = .nothing) :
    ∀ row, db.lookup (.team t) ≠ some (some row) := by
  intro row hrow
  change Statement.change db (.updateTeam t set) = _ at h
  dsimp only [Statement.change] at h
  rw [Rows.team, hrow] at h
  cases h

theorem updateTeam_becomes {set : TeamSet} {row : Option (Option TeamRow)}
    (h : rules.change (.updateTeam t set) db = .becomes row) :
    ∃ old, db.lookup (.team t) = some (some old) ∧ row = some (some (old.bumped set)) := by
  change Statement.change db (.updateTeam t set) = _ at h
  dsimp only [Statement.change] at h
  split at h
  · cases h
  · rename_i old hold
    cases h
    exact ⟨old, Option.join_eq_some_iff.mp hold, rfl⟩

theorem deleteTeam_becomes {row : Option (Option TeamRow)} (h : rules.change (.deleteTeam w t) db = .becomes row) :
    row = some none ∧ ∃ old, db.lookup (.team t) = some (some old) := by
  change Statement.change db (.deleteTeam w t) = _ at h
  dsimp only [Statement.change] at h
  split at h
  · cases h
  · rename_i old hold
    split at h
    · cases h
      exact ⟨rfl, old, Option.join_eq_some_iff.mp hold⟩
    · cases h

end SlugBase.Team
