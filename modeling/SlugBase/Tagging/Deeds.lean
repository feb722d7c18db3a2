import SlugBase.Tagging.Promise

/-!
# What each statement adds to what a transaction has done

* `Within.writing_link`, `Within.writing_other`: one more row;
* one lemma for each statement that writes a row, with what the statement finds.
-/

namespace SlugBase.Tagging

open ReadCommitted

variable {answer answer' : Answer} {pending pending' : Uuid → Uuid → Prop} {db : Rows} {x : Local} {w a b t : Uuid}
  {k : Key}

theorem within_of_unwritten (hdb : committed db) (h : x.written = []) : Within answer pending db x := by
  refine ⟨.of_unwritten (evolution answer) h, fun b t hlinked => ?_⟩
  rw [Held.view_of_written_nil h] at hlinked ⊢
  exact .inr (hdb b t hlinked)

theorem Within.locking (h : Within answer pending db x) (key : Key) (mode : LockMode) :
    Within answer pending db (x.locking key mode) :=
  ⟨h.evolves.locking (evolution answer) key mode, h.placed⟩

theorem Within.mono (h : Within answer pending db x) (huntags : ∀ b t, answer.untags b t = true → answer'.untags b t = true)
    (hremoves : ∀ k, answer.removes k = true → answer'.removes k = true)
    (hpending : ∀ b t, Linked (x.view db) b t → pending b t → pending' b t) : Within answer' pending' db x := by
  refine ⟨fun k => ?_, fun b t hlinked => (h.placed b t hlinked).imp_left (hpending b t hlinked)⟩
  have hk := h.evolves k
  cases k with
  | workspace | member => trivial
  | bookmark | tag => exact Kept.telling hk hremoves
  | link => exact Relinked.telling hk huntags hremoves

theorem Within.of_refused (h : Within .refused pending db x) : Within answer pending db x :=
  h.mono (fun _ _ h => by cases h) (fun _ h => by cases h) fun _ _ _ h => h

/-! ## One more row -/

theorem Live.writing (h : Live (x.view db) k) {key : Key} {mode : LockMode} {row : Option (Row key)} (hne : k ≠ key) :
    Live ((x.writing key mode row).view db) k := live_congr (Held.lookup_writing_ne hne) h

theorem link_writing_ne {key : Key} {mode : LockMode} {row : Option (Row key)} (hne : .link b t ≠ key) :
    Rows.link ((x.writing key mode row).view db) b t = Rows.link (x.view db) b t :=
  link_congr (Held.lookup_writing_ne hne)

theorem link_writing_self {mode : LockMode} {row : LinkRow} :
    Rows.link ((x.writing (.link b t) mode (some row)).view db) b t = row := by
  rw [Rows.link, Held.lookup_writing_self, Option.getD_some]

theorem Placed.writing_link (h : Placed (x.view db) b t) {b' t' : Uuid} {mode : LockMode} {row : Option LinkRow} :
    Placed ((x.writing (.link b' t') mode row).view db) b t :=
  ⟨h.bookmark.writing Key.noConfusion, h.tag.writing Key.noConfusion⟩

theorem Within.writing_link (h : Within answer pending db x) {row : LinkRow}
    (hrow : Relinked answer ((.link b t, .update) :: x.locks) b t (Rows.link (x.view db) b t) row)
    (hplaced : row.present = true → Placed (x.view db) b t)
    (hpending : ∀ b' t', Key.link b' t' ≠ .link b t → pending b' t' → pending' b' t') :
    Within answer pending' db (x.writing (.link b t) .update (some row)) := by
  refine ⟨h.evolves.writing (evolution answer) hrow, fun b' t' hlinked => ?_⟩
  by_cases heq : Key.link b' t' = .link b t
  · cases heq
    rw [Linked, link_writing_self] at hlinked
    exact .inr (hplaced hlinked).writing_link
  · rw [Linked, link_writing_ne heq] at hlinked
    exact (h.placed b' t' hlinked).imp (hpending b' t' heq) fun hplaced => hplaced.writing_link

theorem Within.writing_other (h : Within answer pending db x) {row : Option (Row k)} (hk : ∀ b t, .link b t ≠ k)
    (hrow : Evolved answer ((k, .update) :: x.locks) k ((x.view db).lookup k) row)
    (hpending : ∀ b t, pending b t → pending' b t)
    (hplaced : ∀ b t, Placed (x.view db) b t → pending' b t ∨ .bookmark b ≠ k ∧ .tag t ≠ k) :
    Within answer pending' db (x.writing k .update row) := by
  refine ⟨h.evolves.writing (evolution answer) hrow, fun b t hlinked => ?_⟩
  rw [Linked, link_writing_ne (hk b t)] at hlinked
  rcases h.placed b t hlinked with hpend | hplace
  · exact .inl (hpending b t hpend)
  · exact (hplaced b t hplace).imp_right fun hne => ⟨hplace.bookmark.writing hne.1, hplace.tag.writing hne.2⟩

/-! ## What each statement writes -/

theorem Within.linked (h : Within answer pending db x) (hplaced : Placed (x.view db) b t) (hbookmark : Has x.locks (.bookmark b))
    (htag : Has x.locks (.tag t)) : Within answer pending db
      (x.writing (.link b t) .update (some ⟨true, (Rows.link (x.view db) b t).untagged⟩)) :=
  h.writing_link ⟨le_rfl, fun hlt => absurd hlt (lt_irrefl _), fun _ _ => ⟨hbookmark.cons, htag.cons⟩,
    fun _ hnew => (by cases hnew)⟩ (fun _ => hplaced) fun _ _ _ h => h

theorem Within.unlinked (h : Within answer pending db x) (told : answer.untags b t = true)
    (hbookmark : Has x.locks (.bookmark b)) (hlock : (.bookmark b, .update) ∈ x.locks ∨ Has x.locks (.tag t)) :
    Within answer pending db (x.writing (.link b t) .update (some ⟨false, (Rows.link (x.view db) b t).untagged + 1⟩)) :=
  h.writing_link ⟨Nat.le_succ _, fun _ => told, fun _ hnew => (by cases hnew),
    fun _ _ => .untagged told (Nat.lt_succ_self _) hbookmark.cons (hlock.imp (List.mem_cons_of_mem _) Has.cons)⟩
    (fun hnew => (by cases hnew)) fun _ _ _ h => h

theorem Within.dropped (h : Within answer pending db x)
    (hgone : (answer.removes (.bookmark b) = true ∧ (.bookmark b, .update) ∈ x.locks) ∨
      answer.removes (.tag t) = true ∧ (.tag t, .update) ∈ x.locks)
    (hpending : ∀ b' t', Key.link b' t' ≠ .link b t → pending b' t' → pending' b' t') :
    Within answer pending' db
      (x.writing (.link b t) .update (some ⟨false, (Rows.link (x.view db) b t).untagged⟩)) := by
  refine h.writing_link ⟨le_rfl, fun hlt => absurd hlt (lt_irrefl _), fun _ hnew => (by cases hnew), fun _ _ => ?_⟩
    (fun hnew => (by cases hnew)) hpending
  rcases hgone with ⟨told, hlock⟩ | ⟨told, hlock⟩
  · exact .bookmark told (List.mem_cons_of_mem _ hlock)
  · exact .tag told (List.mem_cons_of_mem _ hlock)

theorem Within.tagAdded (h : Within answer pending db x) (hnone : (x.view db).lookup (.tag t) = none) (row : TagRow) :
    Within answer pending db (x.writing (.tag t) .update (some (some row))) := by
  refine h.writing_other (fun _ _ => Key.noConfusion) (fun r hr => ?_) (fun _ _ h => h)
    fun b t' hplaced => .inr ⟨Key.noConfusion, fun heq => ?_⟩
  · rw [hnone] at hr
    cases hr
  · obtain ⟨row', hrow'⟩ := heq ▸ hplaced.tag
    rw [hnone] at hrow'
    cases hrow'

theorem Within.bookmarkAdded (h : Within answer pending db x) (hnone : (x.view db).lookup (.bookmark b) = none)
    (row : BookmarkRow) : Within answer pending db (x.writing (.bookmark b) .update (some (some row))) := by
  refine h.writing_other (fun _ _ => Key.noConfusion) (fun r hr => ?_) (fun _ _ h => h)
    fun b' t hplaced => .inr ⟨fun heq => ?_, Key.noConfusion⟩
  · rw [hnone] at hr
    cases hr
  · obtain ⟨row', hrow'⟩ := heq ▸ hplaced.bookmark
    rw [hnone] at hrow'
    cases hrow'

theorem Within.tagGone (h : Within answer pending db x) (told : answer.removes (.tag t) = true) :
    Within answer (fun b' t' => pending b' t' ∨ t' = t) db (x.writing (.tag t) .update (some none)) := by
  refine h.writing_other (fun _ _ => Key.noConfusion) (fun _ _ => .inr ⟨rfl, List.mem_cons_self, told⟩) (fun _ _ => .inl)
    fun b t' _ => ?_
  by_cases heq : t' = t
  · exact .inl (.inr heq)
  · exact .inr ⟨Key.noConfusion, fun hk => heq (Key.tag.inj hk)⟩

theorem Within.bookmarkGone (h : Within answer pending db x) (told : answer.removes (.bookmark b) = true) :
    Within answer (fun b' t' => pending b' t' ∨ b' = b) db (x.writing (.bookmark b) .update (some none)) := by
  refine h.writing_other (fun _ _ => Key.noConfusion) (fun _ _ => .inr ⟨rfl, List.mem_cons_self, told⟩) (fun _ _ => .inl)
    fun b' t _ => ?_
  by_cases heq : b' = b
  · exact .inl (.inr heq)
  · exact .inr ⟨fun hk => heq (Key.bookmark.inj hk), Key.noConfusion⟩

/-! ## What the statements find -/

section

variable {sameName : String → String → Bool}

theorem linked_nothing (h : Rows.linked db b t = .nothing) : Linked db b t := by
  rw [Rows.linked] at h
  split at h
  · rename_i hpresent
    exact hpresent
  · split at h <;> cases h

theorem linked_becomes {row : Option LinkRow} (h : Rows.linked db b t = .becomes row) :
    Placed db b t ∧ row = some ⟨true, (Rows.link db b t).untagged⟩ := by
  rw [Rows.linked] at h
  split at h
  · cases h
  · split at h
    · rename_i hplaced
      cases h
      obtain ⟨row, hrow, htag⟩ := exists_of_any hplaced
      obtain ⟨row', hrow', -⟩ := exists_of_any htag
      exact ⟨⟨⟨row, hrow⟩, row', hrow'⟩, rfl⟩
    · cases h

theorem deleteLink_becomes {row : Option LinkRow} (h : (rules sameName).change (.deleteLink b t) db = .becomes row) :
    row = some ⟨false, (Rows.link db b t).untagged + 1⟩ := by
  change Statement.change sameName db (.deleteLink b t) = _ at h
  dsimp only [Statement.change] at h
  split at h
  · cases h
    rfl
  · cases h

theorem dropLink_becomes {row : Option LinkRow} (h : (rules sameName).change (.dropLink b t) db = .becomes row) :
    row = some ⟨false, (Rows.link db b t).untagged⟩ := by
  change Statement.change sameName db (.dropLink b t) = _ at h
  dsimp only [Statement.change] at h
  split at h
  · cases h
    rfl
  · cases h

theorem dropLink_nothing (h : (rules sameName).change (.dropLink b t) db = .nothing) : ¬ Linked db b t := by
  change Statement.change sameName db (.dropLink b t) = _ at h
  dsimp only [Statement.change] at h
  split at h
  · cases h
  · rename_i hnot
    exact hnot

theorem insertTag_becomes {new : TagRow} {row : Option (Option TagRow)}
    (h : (rules sameName).change (.insertTag t new) db = .becomes row) :
    db.lookup (.tag t) = none ∧ row = some (some new) := by
  change Statement.change sameName db (.insertTag t new) = _ at h
  dsimp only [Statement.change] at h
  split at h
  · cases h
  · split at h
    · rename_i hnone
      cases h
      exact ⟨hnone, rfl⟩
    · cases h

theorem insertBookmark_becomes {new : BookmarkRow} {row : Option (Option BookmarkRow)}
    (h : (rules sameName).change (.insertBookmark b new) db = .becomes row) :
    db.lookup (.bookmark b) = none ∧ row = some (some new) := by
  change Statement.change sameName db (.insertBookmark b new) = _ at h
  dsimp only [Statement.change] at h
  split at h
  · rename_i hnone
    cases h
    exact ⟨hnone, rfl⟩
  · cases h

theorem insertBookmark_not_nothing {new : BookmarkRow} : (rules sameName).change (.insertBookmark b new) db ≠ .nothing := by
  intro h
  change Statement.change sameName db (.insertBookmark b new) = _ at h
  dsimp only [Statement.change] at h
  split at h <;> cases h

theorem deleteTag_becomes {row : Option (Option TagRow)} (h : (rules sameName).change (.deleteTag w a t) db = .becomes row) :
    row = some none := by
  change Statement.change sameName db (.deleteTag w a t) = _ at h
  dsimp only [Statement.change] at h
  split at h
  · cases h
    rfl
  · cases h

theorem deleteBookmark_becomes {row : Option (Option BookmarkRow)}
    (h : (rules sameName).change (.deleteBookmark w a b) db = .becomes row) : row = some none := by
  change Statement.change sameName db (.deleteBookmark w a b) = _ at h
  dsimp only [Statement.change] at h
  split at h
  · cases h
    rfl
  · cases h

end

end SlugBase.Tagging
