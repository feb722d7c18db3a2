import SlugBase.Team.Requests

/-!
# What a transaction on teams promises

* `Placed`: the foreign keys of a membership of a team; `committed`: every committed membership keeps them;
* `Deeds`, `Within`: what a transaction has done so far to the rows of teams, members and memberships, with the locks
  that go with it;
* `Answers`: what its answer says about that;
* **`stable_within`**: the commits of the others leave it as it is.
-/

namespace SlugBase.Team

open ReadCommitted

/-! ## Foreign keys -/

/-- The team is one of the workspace. -/
def Standing (db : Rows) (w t : Uuid) : Prop := ∃ row, db.lookup (.team t) = some (some row) ∧ row.workspaceId = w

/-- The account is in the team. -/
def Linked (db : Rows) (w t a : Uuid) : Prop := db.lookup (.teamMember w t a) ≠ none

/-- The foreign keys of a membership. -/
structure Placed (db : Rows) (w t a : Uuid) : Prop where
  team : Standing db w t
  member : db.lookup (.member w a) ≠ none

/-- Every committed membership keeps its foreign keys. -/
def committed (db : Rows) : Prop := ∀ w t a, Linked db w t a → Placed db w t a

section

variable {db db' : Rows} {w t a : Uuid}

theorem standing_iff : Standing db w t ↔ t ∈ Rows.teamsOf db w := by
  rw [Rows.mem_teamsOf]
  exact exists_congr fun row => and_congr_left fun _ => Option.join_eq_some_iff.symm

theorem standing_of_any {row : Option (Option TeamRow)} (hrow : db.lookup (.team t) = row)
    (h : (row.join.any fun row => decide (row.workspaceId = w)) = true) : Standing db w t := by
  cases row with
  | none => cases h
  | some row =>
    cases row with
    | none => cases h
    | some row => exact ⟨row, hrow, of_decide_eq_true h⟩

theorem placed_of_placed (h : Rows.placed db w t a = true) : Placed db w t a := by
  obtain ⟨hteam, hmember⟩ := Bool.and_eq_true_iff.mp h
  exact ⟨standing_of_any rfl hteam, Option.isSome_iff_ne_none.mp hmember⟩

theorem Standing.congr (h : Standing db w t) (hteam : db'.lookup (.team t) = db.lookup (.team t)) :
    Standing db' w t := by
  obtain ⟨row, hrow, hw⟩ := h
  exact ⟨row, hteam.trans hrow, hw⟩

end

/-! ## What a transaction has done -/

/-- What a transaction does: the teams it may add a member to, the memberships it may delete, those that wait for their
cascade, and what it makes of each team. -/
structure Deeds where
  adds : Uuid → Prop
  drops : Uuid → Uuid → Uuid → Prop
  pending : Uuid → Uuid → Uuid → Prop
  teams : Uuid → TeamRow → Option TeamRow

/-- Nothing. -/
def Deeds.nothing : Deeds := ⟨fun _ => False, fun _ _ _ => False, fun _ _ _ => False, fun _ => some⟩

/-- The transaction has done no more than these, and holds the locks that go with them. -/
structure Within (d : Deeds) (db : Rows) (x : Local) : Prop where
  members : ∀ w a, .member w a ∈ x.written → (.member w a, .update) ∈ x.locks
  unwritten : ∀ t, .team t ∉ x.written → d.teams t = some
  live : ∀ t, (.team t, .update) ∈ x.locks ∨ ∀ row, d.teams t row ≠ none
  same : ∀ t row row', d.teams t row = some row' → row'.workspaceId = row.workspaceId
  teams : ∀ t v, db.lookup (.team t) = some v → (x.view db).lookup (.team t) = some (v.bind (d.teams t))
  adds : ∀ w t a, .teamMember w t a ∈ x.written → Linked (x.view db) w t a →
    d.adds t ∧ (∃ m, (.member w a, m) ∈ x.locks) ∧ ∃ m, (.team t, m) ∈ x.locks
  drops : ∀ w t a, .teamMember w t a ∈ x.written → ¬ Linked (x.view db) w t a → d.drops w t a
  placed : ∀ w t a, Linked (x.view db) w t a → d.pending w t a ∨ Placed (x.view db) w t a

/-- What an answer says about what was done. -/
structure Answers (answer : Answer) (d : Deeds) (db : Rows) (x : Local) : Prop where
  pending : ∀ w t a, ¬ d.pending w t a
  moved : ∀ t row row', d.teams t row = some row' →
    row'.version = row.version + (if answer.moves t then 1 else 0) ∧
      row'.membersVersion = row.membersVersion + (if answer.gains t then 1 else 0)
  removed : ∀ t row, d.teams t row = none → answer = .removed t
  adds : ∀ t, d.adds t → answer.gains t = true
  drops : ∀ w t a, d.drops w t a → answer.replaces t = true ∨ (x.view db).lookup (.member w a) = none ∨
    (x.view db).lookup (.team t) = some none
  accepted : ∀ t versions, answer.accepted = some (t, versions) →
    ∃ row, db.lookup (.team t) = some (some row) ∧ row.version ∈ versions
  known : ∀ w a known touched, answer = .joined w a known touched →
    ∀ t ∈ known, t ∈ touched ∨ (x.view db).lookup (.team t) = some none

/-- A transaction that answers so has done what the answer says. -/
def promise (answer : Answer) (db : Rows) (x : Local) : Prop := ∃ d, Within d db x ∧ Answers answer d db x

/-- The contract of the transactions on teams. -/
def contract : Contract rules where
  committed := committed
  promise := promise
  commits {_ _ _} _ h w t a hlinked := by
    obtain ⟨d, hwithin, hanswers⟩ := h
    exact (hwithin.placed w t a hlinked).resolve_left (hanswers.pending w t a)

/-! ## The commits of the others -/

section

variable {d e : Deeds} {db : Rows} {x y : Local} {w t a : Uuid} {m : LockMode}

theorem not_update_of_lock {k : Key} (hapart : x.Apart y) (hx : (k, m) ∈ x.locks) : (k, .update) ∉ y.locks := by
  intro hy
  have hno := hapart _ hx _ hy rfl
  cases m <;> cases hno

theorem apart_symm (hapart : x.Apart y) : y.Apart x := by
  intro l hl l' hl' heq
  rw [LockMode.conflicts_comm]
  exact hapart l' hl' l hl heq.symm

theorem team_meanwhile (hy : Within e db y) {v : Option TeamRow}
    (h : (x.view db).lookup (.team t) = some v) :
    (x.view (y.view db)).lookup (.team t) = some v ∨
      (x.view (y.view db)).lookup (.team t) = some (v.bind (e.teams t)) := by
  by_cases hx : .team t ∈ x.written
  · left
    rw [Held.lookup_view_of_mem hx _ db, h]
  · right
    rw [Held.lookup_view_of_notMem hx] at h ⊢
    exact hy.teams t v h

theorem standing_meanwhile (hy : Within e db y) (hapart : x.Apart y)
    (hlock : (.team t, m) ∈ x.locks) (h : Standing (x.view db) w t) : Standing (x.view (y.view db)) w t := by
  obtain ⟨row, hrow, hw⟩ := h
  rcases team_meanwhile hy hrow with h' | h'
  · exact ⟨row, h', hw⟩
  · rcases hy.live t with hupdate | hlive
    · exact absurd hupdate (not_update_of_lock hapart hlock)
    · obtain ⟨row', hrow'⟩ := Option.ne_none_iff_exists'.mp (hlive row)
      exact ⟨row', h'.trans (congrArg some hrow'), (hy.same t row row' hrow').trans hw⟩

theorem member_meanwhile (hy : Within e db y) (hapart : x.Apart y) (hlock : (.member w a, m) ∈ x.locks)
    (h : (x.view db).lookup (.member w a) ≠ none) : (x.view (y.view db)).lookup (.member w a) ≠ none := by
  by_cases hx : .member w a ∈ x.written
  · rwa [Held.lookup_view_of_mem hx _ db]
  · rw [Held.lookup_view_of_notMem hx] at h ⊢
    have hnot : .member w a ∉ y.written := fun hwritten =>
      not_update_of_lock hapart hlock (hy.members w a hwritten)
    rwa [Held.lookup_view_of_notMem hnot]

/-- What the other transaction has placed is placed under the writes of this one, which hold no lock that a membership
of its waits for. -/
theorem placed_of_added (hx : Within d db x) (hy : Within e db y) (hypending : ∀ w t a, ¬ e.pending w t a)
    (hapart : x.Apart y) (hdisjoint : ∀ k ∈ x.written, k ∉ y.written) (hwritten : .teamMember w t a ∈ y.written)
    (hlinked : Linked (y.view db) w t a) : Placed (x.view (y.view db)) w t a := by
  obtain ⟨-, ⟨m, hm⟩, m', hm'⟩ := hy.adds w t a hwritten hlinked
  obtain ⟨⟨row, hrow, hw⟩, hmember⟩ := (hy.placed w t a hlinked).resolve_left (hypending w t a)
  have hnot := not_update_of_lock (apart_symm hapart) hm
  have hnot' := not_update_of_lock (apart_symm hapart) hm'
  constructor
  · by_cases hteam : .team t ∈ x.written
    · have hdb : db.lookup (.team t) = some (some row) := by
        rwa [Held.lookup_view_of_notMem (hdisjoint _ hteam)] at hrow
      obtain ⟨row', hrow'⟩ := Option.ne_none_iff_exists'.mp ((hx.live t).resolve_left hnot' row)
      refine ⟨row', ?_, (hx.same t row row' hrow').trans hw⟩
      rw [Held.lookup_view_of_mem hteam _ db, hx.teams t _ hdb]
      exact congrArg some hrow'
    · exact ⟨row, (Held.lookup_view_of_notMem hteam _).trans hrow, hw⟩
  · have hmem : .member w a ∉ x.written := fun h => hnot (hx.members w a h)
    rwa [Held.lookup_view_of_notMem hmem]

theorem placed_of_both (h : Placed (x.view db) w t a) (h' : Placed (y.view db) w t a) :
    Placed (x.view (y.view db)) w t a := by
  constructor
  · by_cases hteam : .team t ∈ x.written
    · exact h.team.congr (Held.lookup_view_of_mem hteam _ _)
    · exact h'.team.congr (Held.lookup_view_of_notMem hteam _)
  · by_cases hmember : .member w a ∈ x.written
    · rw [Held.lookup_view_of_mem hmember _ db]
      exact h.member
    · rw [Held.lookup_view_of_notMem hmember]
      exact h'.member

end

/-- **The commits of the others leave what a transaction has done as it is.** -/
theorem stable_within (d : Deeds) : contract.Stable (Within d) := by
  intro db x answer y _ hx hpromise _ hapart hdisjoint
  obtain ⟨e, hy, hanswers⟩ := hpromise
  refine ⟨hx.members, hx.unwritten, hx.live, hx.same, fun t v hv => ?_, fun w t a hwritten hlinked => ?_,
    fun w t a hwritten hlinked => ?_, fun w t a hlinked => ?_⟩
  · by_cases hteam : .team t ∈ x.written
    · rw [Held.lookup_view_of_notMem (hdisjoint _ hteam)] at hv
      rw [Held.lookup_view_of_mem hteam _ db]
      exact hx.teams t v hv
    · rw [Held.lookup_view_of_notMem hteam, hv, hx.unwritten t hteam, Option.bind_fun_some]
  · rw [Linked, Held.lookup_view_of_mem hwritten _ db] at hlinked
    exact hx.adds w t a hwritten hlinked
  · rw [Linked, Held.lookup_view_of_mem hwritten _ db] at hlinked
    exact hx.drops w t a hwritten hlinked
  · by_cases hwritten : .teamMember w t a ∈ x.written
    · rw [Linked, Held.lookup_view_of_mem hwritten _ db] at hlinked
      obtain ⟨-, ⟨m, hm⟩, m', hm'⟩ := hx.adds w t a hwritten hlinked
      exact (hx.placed w t a hlinked).imp_right fun h =>
        ⟨standing_meanwhile hy hapart hm' h.team, member_meanwhile hy hapart hm h.member⟩
    · rw [Linked, Held.lookup_view_of_notMem hwritten] at hlinked
      by_cases hother : .teamMember w t a ∈ y.written
      · exact .inr (placed_of_added hx hy hanswers.pending hapart hdisjoint hother hlinked)
      · have hplaced := (hy.placed w t a hlinked).resolve_left (hanswers.pending w t a)
        rw [Held.lookup_view_of_notMem hother] at hlinked
        have hview : Linked (x.view db) w t a := by
          rwa [Linked, Held.lookup_view_of_notMem hwritten]
        exact (hx.placed w t a hview).imp_right fun h => placed_of_both h hplaced

theorem stable_standing (w t : Uuid) :
    contract.Stable fun db x => (∃ m, (.team t, m) ∈ x.locks) ∧ Standing (x.view db) w t := by
  intro db x answer y _ hx hpromise _ hapart _
  obtain ⟨e, hy, -⟩ := hpromise
  obtain ⟨⟨m, hm⟩, hstanding⟩ := hx
  exact ⟨⟨m, hm⟩, standing_meanwhile hy hapart hm hstanding⟩

/-- A team that was one of the workspace: it is deleted, or still one of it. -/
def Known (db : Rows) (w t : Uuid) : Prop := db.lookup (.team t) = some none ∨ Standing db w t

theorem stable_known (w t : Uuid) : contract.Stable fun db x => Known (x.view db) w t := by
  intro db x answer y _ hx hpromise _ _ _
  obtain ⟨e, hy, -⟩ := hpromise
  rcases hx with hgone | ⟨row, hrow, hw⟩
  · exact .inl ((team_meanwhile hy hgone).elim (fun h => h) fun h => h)
  · rcases team_meanwhile hy hrow with h | h
    · exact .inr ⟨row, h, hw⟩
    · cases hrow' : e.teams t row with
      | none => exact .inl (h.trans (congrArg some hrow'))
      | some row' => exact .inr ⟨row', h.trans (congrArg some hrow'), (hy.same t row row' hrow').trans hw⟩

theorem stable_gone (t : Uuid) : contract.Stable fun db x => (x.view db).lookup (.team t) = some none := by
  intro db x answer y _ hx hpromise _ _ _
  obtain ⟨e, hy, -⟩ := hpromise
  exact (team_meanwhile hy hx).elim (fun h => h) fun h => h

end SlugBase.Team
