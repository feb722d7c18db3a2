import SlugBase.Tagging.Requests

/-!
# What a transaction on tags and their links promises

* `Placed`: the foreign keys of a link; `committed`: every committed link keeps them;
* `Evolved`: what a transaction that answers so may make of a row, with the locks that go with it;
* `Within`, `Tells`: what it has done so far, and what its answer says about that;
* **`stable_within`**: the commits of the others leave it as it is.
-/

namespace SlugBase.Tagging

open ReadCommitted

/-! ## Foreign keys -/

/-- The bookmark or the tag is there. -/
def Live (db : Rows) : Key → Prop
  | .bookmark b => ∃ row, db.lookup (.bookmark b) = some (some row)
  | .tag t => ∃ row, db.lookup (.tag t) = some (some row)
  | _ => True

/-- The bookmark carries the tag. -/
def Linked (db : Rows) (b t : Uuid) : Prop := (Rows.link db b t).present = true

/-- The foreign keys of a link. -/
structure Placed (db : Rows) (b t : Uuid) : Prop where
  bookmark : Live db (.bookmark b)
  tag : Live db (.tag t)

/-- Every committed link keeps its foreign keys. -/
def committed (db : Rows) : Prop := ∀ b t, Linked db b t → Placed db b t

section

variable {db db' : Rows} {b t : Uuid} {k : Key}

theorem live_congr (h : db'.lookup k = db.lookup k) (hlive : Live db k) : Live db' k := by
  cases k with
  | workspace | member | link => trivial
  | bookmark | tag =>
    obtain ⟨row, hrow⟩ := hlive
    exact ⟨row, h.trans hrow⟩

theorem link_congr (h : db'.lookup (.link b t) = db.lookup (.link b t)) : Rows.link db' b t = Rows.link db b t := by
  rw [Rows.link, h, Rows.link]

theorem not_linked_iff : ¬ Linked db b t ↔ (Rows.link db b t).present = false := Bool.eq_false_iff.symm

theorem exists_of_any {row : Type} {p : row → Bool} {o : Option (Option row)} (h : o.join.any p = true) :
    ∃ r, o = some (some r) ∧ p r = true := by
  obtain ⟨r, hr, hp⟩ := (Option.any_eq_true _ _).mp h
  exact ⟨r, Option.join_eq_some_iff.mp hr, hp⟩

end

/-! ## What becomes of a row -/

/-- There is a lock on the row. -/
def Has (locks : List (Key × LockMode)) (k : Key) : Prop := ∃ m, (k, m) ∈ locks

/-- A bookmark or a tag stays as it is, or is deleted by a transaction that says so. -/
def Kept {row : Type} (answer : Answer) (locks : List (Key × LockMode)) (k : Key) (old new : Option (Option row)) : Prop :=
  ∀ r, old = some r → new = some r ∨ new = some none ∧ (k, .update) ∈ locks ∧ answer.removes k = true

/-- Why a link goes: it is untagged, or its bookmark or its tag is deleted. -/
inductive Went (answer : Answer) (locks : List (Key × LockMode)) (b t : Uuid) (old new : LinkRow) : Prop
  | untagged (told : answer.untags b t = true) (counts : old.untagged < new.untagged) (bookmark : Has locks (.bookmark b))
    (lock : (.bookmark b, .update) ∈ locks ∨ Has locks (.tag t))
  | bookmark (told : answer.removes (.bookmark b) = true) (lock : (.bookmark b, .update) ∈ locks)
  | tag (told : answer.removes (.tag t) = true) (lock : (.tag t, .update) ∈ locks)

/-- What becomes of a link. -/
structure Relinked (answer : Answer) (locks : List (Key × LockMode)) (b t : Uuid) (old new : LinkRow) : Prop where
  grows : old.untagged ≤ new.untagged
  counts : old.untagged < new.untagged → answer.untags b t = true
  came : old.present = false → new.present = true → Has locks (.bookmark b) ∧ Has locks (.tag t)
  went : old.present = true → new.present = false → Went answer locks b t old new

/-- What a transaction that answers so may make of a row. -/
def Evolved (answer : Answer) (locks : List (Key × LockMode)) : (k : Key) → Option (Row k) → Option (Row k) → Prop
  | .workspace _, _, _ | .member _ _, _, _ => True
  | .bookmark b, old, new => Kept answer locks (.bookmark b) old new
  | .tag t, old, new => Kept answer locks (.tag t) old new
  | .link b t, old, new => Relinked answer locks b t (old.getD LinkRow.absent) (new.getD LinkRow.absent)

section

variable {answer answer' : Answer} {l : Key × LockMode} {locks : List (Key × LockMode)} {k : Key} {b t : Uuid}

theorem Has.cons (h : Has locks k) : Has (l :: locks) k := h.imp fun _ => List.mem_cons_of_mem _

theorem Has.head {m : LockMode} : Has ((k, m) :: locks) k := ⟨m, List.mem_cons_self⟩

theorem Kept.trans {row : Type} {old mid new : Option (Option row)} (h : Kept answer locks k old mid)
    (h' : Kept answer locks k mid new) : Kept answer locks k old new := by
  intro r hr
  rcases h r hr with hmid | ⟨hmid, hlock⟩
  · exact h' r hmid
  · exact .inr ⟨(h' none hmid).elim (fun h => h) fun h => h.1, hlock⟩

theorem Kept.mono {row : Type} {old new : Option (Option row)} (h : Kept answer locks k old new) :
    Kept answer (l :: locks) k old new := fun r hr =>
  (h r hr).imp_right fun h => ⟨h.1, List.mem_cons_of_mem _ h.2.1, h.2.2⟩

theorem Kept.telling {row : Type} {old new : Option (Option row)} (h : Kept answer locks k old new)
    (hremoves : ∀ k, answer.removes k = true → answer'.removes k = true) : Kept answer' locks k old new := fun r hr =>
  (h r hr).imp_right fun h => ⟨h.1, h.2.1, hremoves k h.2.2⟩

theorem Went.mono {old new : LinkRow} (h : Went answer locks b t old new) : Went answer (l :: locks) b t old new := by
  cases h with
  | untagged told counts bookmark lock => exact .untagged told counts bookmark.cons (lock.imp (List.mem_cons_of_mem _) Has.cons)
  | bookmark told lock => exact .bookmark told (List.mem_cons_of_mem _ lock)
  | tag told lock => exact .tag told (List.mem_cons_of_mem _ lock)

theorem Went.widen {old new old' new' : LinkRow} (h : Went answer locks b t old new) (hold : old'.untagged ≤ old.untagged)
    (hnew : new.untagged ≤ new'.untagged) : Went answer locks b t old' new' := by
  cases h with
  | untagged told counts bookmark lock => exact .untagged told (by omega) bookmark lock
  | bookmark told lock => exact .bookmark told lock
  | tag told lock => exact .tag told lock

theorem Relinked.refl (row : LinkRow) : Relinked answer locks b t row row where
  grows := le_rfl
  counts h := absurd h (lt_irrefl _)
  came h h' := by
    rw [h] at h'
    cases h'
  went h h' := by
    rw [h] at h'
    cases h'

theorem Relinked.trans {old mid new : LinkRow} (h : Relinked answer locks b t old mid)
    (h' : Relinked answer locks b t mid new) : Relinked answer locks b t old new where
  grows := h.grows.trans h'.grows
  counts hlt := by
    by_cases hmid : old.untagged < mid.untagged
    · exact h.counts hmid
    · exact h'.counts (lt_of_le_of_lt (not_lt.mp hmid) hlt)
  came hold hnew := by
    cases hmid : mid.present with
    | true => exact h.came hold hmid
    | false => exact h'.came hmid hnew
  went hold hnew := by
    cases hmid : mid.present with
    | true => exact (h'.went hmid hnew).widen h.grows le_rfl
    | false => exact (h.went hold hmid).widen le_rfl h'.grows

theorem Relinked.mono {old new : LinkRow} (h : Relinked answer locks b t old new) :
    Relinked answer (l :: locks) b t old new :=
  ⟨h.grows, h.counts, fun ho hn => (h.came ho hn).imp Has.cons Has.cons, fun ho hn => (h.went ho hn).mono⟩

theorem Relinked.telling {old new : LinkRow} (h : Relinked answer locks b t old new)
    (huntags : ∀ b t, answer.untags b t = true → answer'.untags b t = true)
    (hremoves : ∀ k, answer.removes k = true → answer'.removes k = true) : Relinked answer' locks b t old new := by
  refine ⟨h.grows, fun hlt => huntags b t (h.counts hlt), h.came, fun ho hn => ?_⟩
  cases h.went ho hn with
  | untagged told counts bookmark lock => exact .untagged (huntags b t told) counts bookmark lock
  | bookmark told lock => exact .bookmark (hremoves _ told) lock
  | tag told lock => exact .tag (hremoves _ told) lock

theorem evolution (answer : Answer) : Evolution (Evolved answer) where
  refl _ k row := by
    cases k with
    | workspace | member => trivial
    | bookmark | tag => exact fun r hr => .inl hr
    | link => exact .refl _
  trans {_ k _ _ _} h h' := by
    cases k with
    | workspace | member => trivial
    | bookmark | tag => exact Kept.trans h h'
    | link => exact Relinked.trans h h'
  mono {_ _ k _ _} h := by
    cases k with
    | workspace | member => trivial
    | bookmark | tag => exact Kept.mono h
    | link => exact Relinked.mono h

theorem live_of_evolved {db db' : Rows} (h : Evolved answer locks k (db.lookup k) (db'.lookup k)) (hlive : Live db k) :
    Live db' k ∨ (k, .update) ∈ locks := by
  cases k with
  | workspace | member | link => exact .inl trivial
  | bookmark | tag =>
    obtain ⟨row, hrow⟩ := hlive
    exact (h _ hrow).imp (fun h => ⟨row, h⟩) fun h => h.2.1

end

/-! ## What a transaction has done -/

/-- The transaction has done no more than its answer says, and the links keep their foreign keys but for those that wait
for their deletion. -/
structure Within (answer : Answer) (pending : Uuid → Uuid → Prop) (db : Rows) (x : Local) : Prop where
  evolves : x.Evolves (Evolved answer) db
  placed : ∀ b t, Linked (x.view db) b t → pending b t ∨ Placed (x.view db) b t

/-- What an answer says about what was done. -/
def Tells (answer : Answer) (db : Rows) (x : Local) : Prop :=
  match answer with
  | .saved b _ wanted => ∀ t ∈ wanted, Linked (x.view db) b t
  | .tagged pairs => ∀ p ∈ pairs, Linked (x.view db) p.1 p.2.1 ∨ p.2.2 < (Rows.link (x.view db) p.1 p.2.1).untagged
  | .untagged _ => True
  | .bookmarksRemoved ids => ∀ b ∈ ids, (x.view db).lookup (.bookmark b) = some none
  | .tagRemoved t => (x.view db).lookup (.tag t) = some none
  | .merged source target => (x.view db).lookup (.tag source) = some none ∧
      ∀ b, Linked db b source ∨ Linked db b target → Linked (x.view db) b target
  | .again | .refused => x.written = []

/-- A transaction that answers so has done what the answer says. -/
def promise (answer : Answer) (db : Rows) (x : Local) : Prop := Within answer (fun _ _ => False) db x ∧ Tells answer db x

/-- The contract of the transactions on tags. -/
def contract (sameName : String → String → Bool) : Contract (rules sameName) where
  committed := committed
  promise := promise
  commits {_ _ _} _ h b t hlinked := (h.1.placed b t hlinked).resolve_left fun h => h

/-! ## The commits of the others -/

section

variable {sameName : String → String → Bool} {answer : Answer} {pending pending' : Uuid → Uuid → Prop} {db : Rows}
  {x y : Local} {b t : Uuid} {k : Key}

theorem not_update_of_has (hapart : x.Apart y) (h : Has x.locks k) : (k, .update) ∉ y.locks := by
  intro hy
  obtain ⟨m, hm⟩ := h
  have hno := hapart _ hm _ hy rfl
  cases m <;> cases hno

theorem not_has_of_update (hapart : x.Apart y) (h : (k, .update) ∈ x.locks) : ¬ Has y.locks k := by
  rintro ⟨m, hm⟩
  have hno := hapart _ h _ hm rfl
  cases hno

theorem link_meanwhile (hy : Within answer pending db y) (x : Local) (b t : Uuid) :
    Relinked answer y.locks b t (Rows.link (x.view db) b t) (Rows.link (x.view (y.view db)) b t) :=
  hy.evolves.meanwhile (evolution answer) x (.link b t)

theorem live_meanwhile (hy : Within answer pending db y) (hapart : x.Apart y) (hlock : Has x.locks k)
    (h : Live (x.view db) k) : Live (x.view (y.view db)) k :=
  (live_of_evolved (hy.evolves.meanwhile (evolution answer) x k) h).resolve_right (not_update_of_has hapart hlock)

theorem live_of_both (h : Live (x.view db) k) (h' : Live (y.view db) k) : Live (x.view (y.view db)) k := by
  by_cases hk : k ∈ x.written
  · exact live_congr (Held.lookup_view_of_mem hk _ _) h
  · exact live_congr (Held.lookup_view_of_notMem hk _) h'

theorem live_of_other (hx : Within answer pending db x) (hapart : x.Apart y) (hdisjoint : ∀ k ∈ x.written, k ∉ y.written)
    (hlock : Has y.locks k) (h : Live (y.view db) k) : Live (x.view (y.view db)) k := by
  by_cases hk : k ∈ x.written
  · have hdb : Live db k := live_congr (Held.lookup_view_of_notMem (hdisjoint k hk) db).symm h
    have hlive := (live_of_evolved (hx.evolves k) hdb).resolve_right fun hupdate => not_has_of_update hapart hupdate hlock
    exact live_congr (Held.lookup_view_of_mem hk _ _) hlive
  · exact live_congr (Held.lookup_view_of_notMem hk _) h

/-- The foreign keys of a link after the commit of the other. -/
theorem placed_meanwhile {answer' : Answer} (hdb : committed db) (hx : Within answer pending db x)
    (hy : promise answer' db y) (hapart : x.Apart y) (hdisjoint : ∀ k ∈ x.written, k ∉ y.written)
    (hlinked : Linked (x.view (y.view db)) b t) : pending b t ∨ Placed (x.view (y.view db)) b t := by
  have hdb' : committed (y.view db) := (contract fun _ _ => false).commits hdb hy
  by_cases hkey : .link b t ∈ x.written
  · have hview : Linked (x.view db) b t := by
      rwa [Linked, link_congr (Held.lookup_view_of_mem hkey (y.view db) db)] at hlinked
    refine (hx.placed b t hview).imp_right fun hplaced => ?_
    by_cases hold : Linked db b t
    · have hnew : Linked (y.view db) b t := by
        rwa [Linked, link_congr (Held.lookup_view_of_notMem (hdisjoint _ hkey) db)]
      have hplaced' := hdb' b t hnew
      exact ⟨live_of_both hplaced.bookmark hplaced'.bookmark, live_of_both hplaced.tag hplaced'.tag⟩
    · obtain ⟨hbookmark, htag⟩ := (hx.evolves (.link b t)).came (not_linked_iff.mp hold) hview
      exact ⟨live_meanwhile hy.1 hapart hbookmark hplaced.bookmark, live_meanwhile hy.1 hapart htag hplaced.tag⟩
  · rw [Linked, link_congr (Held.lookup_view_of_notMem hkey _)] at hlinked
    have hplaced' := hdb' b t hlinked
    by_cases hold : Linked db b t
    · have hview : Linked (x.view db) b t := by
        rwa [Linked, link_congr (Held.lookup_view_of_notMem hkey db)]
      refine (hx.placed b t hview).imp_right fun hplaced => ?_
      exact ⟨live_of_both hplaced.bookmark hplaced'.bookmark, live_of_both hplaced.tag hplaced'.tag⟩
    · obtain ⟨hbookmark, htag⟩ := (hy.1.evolves (.link b t)).came (not_linked_iff.mp hold) hlinked
      exact .inr ⟨live_of_other hx hapart hdisjoint hbookmark hplaced'.bookmark,
        live_of_other hx hapart hdisjoint htag hplaced'.tag⟩

end

variable {sameName : String → String → Bool}

/-- **The commits of the others leave what a transaction has done as it is.** -/
theorem stable_within (answer : Answer) (pending : Uuid → Uuid → Prop) :
    (contract sameName).Stable (Within answer pending) := by
  intro db x answer' y hdb hx hy hlocked hapart hdisjoint
  have heach : (contract sameName).Stable fun db x => x.Evolves (Evolved answer) db :=
    .each fun locks k row => (evolution answer).refl locks k row
  exact ⟨heach db x answer' y hdb hx.evolves hy hlocked hapart hdisjoint,
    fun b t hlinked => placed_meanwhile hdb hx hy hapart hdisjoint hlinked⟩

/-! ## What stays under locks -/

/-- The row is locked at all and there. -/
def Holding (k : Key) (db : Rows) (x : Local) : Prop := Has x.locks k ∧ Live (x.view db) k

theorem stable_holding (k : Key) : (contract sameName).Stable (Holding k) :=
  fun _ _ _ _ _ hx hy _ hapart _ => ⟨hx.1, live_meanwhile hy.1 hapart hx.1 hx.2⟩

/-- The bookmark or the tag was deleted. -/
def Gone (k : Key) (db : Rows) (x : Local) : Prop :=
  match k with
  | .bookmark b => (x.view db).lookup (.bookmark b) = some none
  | .tag t => (x.view db).lookup (.tag t) = some none
  | _ => True

theorem stable_gone (k : Key) : (contract sameName).Stable (Gone k) := by
  intro db x answer y _ hx hy _ _ _
  have hmeanwhile := hy.1.evolves.meanwhile (evolution answer) x k
  cases k with
  | workspace | member | link => trivial
  | bookmark | tag => exact (hmeanwhile none hx).elim (fun h => h) fun h => h.1

/-- The bookmark and the tag of a link are locked, one of them `FOR UPDATE`, and the link is there. -/
structure Fixed (b t : Uuid) (db : Rows) (x : Local) : Prop where
  bookmark : Has x.locks (.bookmark b)
  tag : Has x.locks (.tag t)
  update : (.bookmark b, .update) ∈ x.locks ∨ (.tag t, .update) ∈ x.locks
  linked : Linked (x.view db) b t

theorem stable_fixed (b t : Uuid) : (contract sameName).Stable (Fixed b t) := by
  intro db x answer y _ hx hy _ hapart _
  refine ⟨hx.bookmark, hx.tag, hx.update, ?_⟩
  by_contra hnot
  cases (link_meanwhile hy.1 x b t).went hx.linked (not_linked_iff.mp hnot) with
  | untagged told counts bookmark lock =>
    rcases hx.update with hupdate | hupdate
    · exact not_has_of_update hapart hupdate bookmark
    · rcases lock with lock | lock
      · exact not_update_of_has hapart hx.bookmark lock
      · exact not_has_of_update hapart hupdate lock
  | bookmark told lock => exact not_update_of_has hapart hx.bookmark lock
  | tag told lock => exact not_update_of_has hapart hx.tag lock

/-- What a transaction says it deleted is gone. -/
theorem gone_of_removes {answer : Answer} {db : Rows} {y : Local} {k : Key} (h : promise answer db y)
    (hremoves : answer.removes k = true) : Gone k db y := by
  have htells := h.2
  cases k with
  | workspace | member | link => trivial
  | bookmark b =>
    cases answer with
    | bookmarksRemoved ids => exact htells b (of_decide_eq_true hremoves)
    | saved | tagged | untagged | tagRemoved | merged | again | refused => cases hremoves
  | tag t =>
    cases answer with
    | tagRemoved t' =>
      obtain rfl := of_decide_eq_true hremoves
      exact htells
    | merged source target =>
      obtain rfl := of_decide_eq_true hremoves
      exact htells.1
    | saved | tagged | untagged | bookmarksRemoved | again | refused => cases hremoves

/-- The bookmark is locked `FOR UPDATE`, and carries the tag as long as there is one. -/
structure Carries (b t : Uuid) (db : Rows) (x : Local) : Prop where
  bookmark : (.bookmark b, .update) ∈ x.locks
  tag : .tag t ∈ x.written → Has x.locks (.tag t)
  linked : Linked (x.view db) b t ∨ Gone (.tag t) db x

theorem stable_carries (b t : Uuid) : (contract sameName).Stable (Carries b t) := by
  intro db x answer y hdb hx hy hlocked hapart hdisjoint
  refine ⟨hx.bookmark, hx.tag, ?_⟩
  rcases hx.linked with hlinked | hdeleted
  · by_contra hnot
    rw [not_or] at hnot
    cases (link_meanwhile hy.1 x b t).went hlinked (not_linked_iff.mp hnot.1) with
    | untagged told counts bookmark lock => exact not_has_of_update hapart hx.bookmark bookmark
    | bookmark told lock => exact not_has_of_update hapart hx.bookmark ⟨_, lock⟩
    | tag told lock =>
      have hwritten : .tag t ∉ x.written := fun h => not_update_of_has hapart (hx.tag h) lock
      have hgone : Gone (.tag t) db y := gone_of_removes hy told
      exact hnot.2 ((Held.lookup_view_of_notMem hwritten (y.view db)).trans hgone)
  · exact .inr (stable_gone (.tag t) db x answer y hdb hdeleted hy hlocked hapart hdisjoint)

/-- The bookmark and the tag are locked, and the link is there or was untagged since. -/
structure Tagged (n : ℕ) (b t : Uuid) (db : Rows) (x : Local) : Prop where
  bookmark : Has x.locks (.bookmark b)
  tag : Has x.locks (.tag t)
  grows : n ≤ (Rows.link (x.view db) b t).untagged
  linked : Linked (x.view db) b t ∨ n < (Rows.link (x.view db) b t).untagged

theorem stable_tagged (n : ℕ) (b t : Uuid) : (contract sameName).Stable (Tagged n b t) := by
  intro db x answer y _ hx hy _ hapart _
  have hlink := link_meanwhile hy.1 x b t
  refine ⟨hx.bookmark, hx.tag, hx.grows.trans hlink.grows, ?_⟩
  rcases hx.linked with hlinked | hlt
  · by_contra hnot
    rw [not_or] at hnot
    cases hlink.went hlinked (not_linked_iff.mp hnot.1) with
    | untagged told counts bookmark lock => exact hnot.2 (lt_of_le_of_lt hx.grows counts)
    | bookmark told lock => exact not_update_of_has hapart hx.bookmark lock
    | tag told lock => exact not_update_of_has hapart hx.tag lock
  · exact .inr (lt_of_lt_of_le hlt hlink.grows)

theorem stable_source {P : Uuid → Rows → Local → Prop} (hP : ∀ b, (contract sameName).Stable (P b)) (t : Uuid) :
    (contract sameName).Stable fun db x => (.tag t, .update) ∈ x.locks ∧ ∀ b, Linked db b t → P b db x := by
  intro db x answer y hdb hx hy hlocked hapart hdisjoint
  refine ⟨hx.1, fun b hlinked => ?_⟩
  have hold : Linked db b t := by
    by_contra hnot
    exact not_has_of_update hapart hx.1 ((hy.1.evolves (.link b t)).came (not_linked_iff.mp hnot) hlinked).2
  exact hP b db x answer y hdb (hx.2 b hold) hy hlocked hapart hdisjoint

end SlugBase.Tagging
