import SlugBase.Listing.Turns

/-!
# The walks that are exact

* `turns_induction`: the induction over a walk; `walk_inOrder`, `walk_upTo`, `walk_complete`, `walk_leavesBehind`;
* **`exactWalk_iff`**: a walk is exact when, and only when, each of its pages keeps the bookmarks that last;
* **`revoked_endsEarly`**: a share that ends within a page ends the walk too early.
-/

set_option linter.unusedSectionVars false

namespace SlugBase.Listing

open Relational Bulk

variable {κ σ : Type} [LinearOrder κ] [LinearOrder σ] {T : SortTexts κ σ} {r : Reads} {tx : TenantTx}
  {request : BookmarkListRequest} {filter : BookmarkListFilter} {sort : BookmarkSort} {b : Bookmark}
  {page : Listed} {p q : Position}

/-! ## The walk -/

/-- **The induction over a walk**: it stops without an answer, ends with a page, or goes on from the next
position. -/
theorem turns_induction {limit : ℕ} {motive : Option Position → List Turn → Prop} (stopped : ∀ after, motive after [])
    (last : ∀ after r page, Starts T ⟨filter, sort, after, limit⟩ →
      listBookmarksOver T r tx ⟨filter, sort, after, limit⟩ = .ok page → page.next = none →
        motive after [⟨⟨filter, sort, after, limit⟩, r, page⟩])
    (more : ∀ after r page q walk, Starts T ⟨filter, sort, after, limit⟩ →
      listBookmarksOver T r tx ⟨filter, sort, after, limit⟩ = .ok page → page.next = some q → motive (some q) walk →
        motive after (⟨⟨filter, sort, after, limit⟩, r, page⟩ :: walk))
    (hlimit : 0 < limit) (reads : List Reads) (after : Option Position) (hstart : Starts T ⟨filter, sort, after, limit⟩) :
    motive after (turns T tx ⟨filter, sort, after, limit⟩ reads) := by
  induction reads generalizing after with
  | nil => exact stopped after
  | cons r rest ih =>
    rw [turns]
    cases h : listBookmarksOver T r tx ⟨filter, sort, after, limit⟩ with
    | error stop => exact stopped after
    | ok page =>
      cases hnext : page.next with
      | none =>
        simp only [hnext]
        exact last after r page hstart h hnext
      | some q =>
        simp only [hnext]
        exact more after r page q _ hstart h hnext (ih (some q) (page_upTo h hstart hlimit hnext).1)

theorem positions_cons {turn : Turn} {walk : List Turn} :
    (returned (turn :: walk)).map BookmarkListRow.position =
      turn.page.items.map BookmarkListRow.position ++ (returned walk).map BookmarkListRow.position := by
  rw [returned, List.flatMap_cons, List.map_append]
  rfl

theorem returned_one (turn : Turn) : returned [turn] = turn.page.items := by
  rw [returned, List.flatMap_cons, List.flatMap_nil, List.append_nil]

section

variable {limit : ℕ} (hlimit : 0 < limit) (reads : List Reads) {after : Option Position}
  (hstart : Starts T ⟨filter, sort, after, limit⟩)

include hlimit hstart

variable (tx) in
/-- **The rows of a walk are in the order of the sort**, after its start. -/
theorem walk_inOrder :
    (((returned (turns T tx ⟨filter, sort, after, limit⟩ reads)).map BookmarkListRow.position).Pairwise fun p q =>
      positionRank (sortOrders T sort) p < positionRank (sortOrders T sort) q) ∧
    ∀ p ∈ (returned (turns T tx ⟨filter, sort, after, limit⟩ reads)).map BookmarkListRow.position,
      IsAfter T ⟨filter, sort, after, limit⟩ p := by
  refine turns_induction (motive := fun after walk => (((returned walk).map BookmarkListRow.position).Pairwise fun p q =>
    positionRank (sortOrders T sort) p < positionRank (sortOrders T sort) q) ∧
      ∀ p ∈ (returned walk).map BookmarkListRow.position, IsAfter T ⟨filter, sort, after, limit⟩ p)
    ?_ ?_ ?_ hlimit reads after hstart
  · exact fun after => ⟨List.Pairwise.nil, fun p hp => absurd hp List.not_mem_nil⟩
  · intro after r page hstart h _
    rw [returned_one]
    exact ⟨items_inOrder h, fun p hp => items_isAfter h hstart hp⟩
  · intro after r page q walk hstart h hnext ih
    obtain ⟨-, hafter, hbefore, -⟩ := page_upTo h hstart hlimit hnext
    have hlater : ∀ p ∈ (returned walk).map BookmarkListRow.position,
        positionRank (sortOrders T sort) q < positionRank (sortOrders T sort) p := fun p hp => ih.2 p hp q rfl
    rw [positions_cons]
    refine ⟨List.pairwise_append.mpr ⟨items_inOrder h, ih.1, fun p hp p' hp' => ?_⟩, fun p hp => ?_⟩
    · exact (not_lt.mp (hbefore p hp)).trans_lt (hlater p' hp')
    · rcases List.mem_append.mp hp with hp | hp
      · exact items_isAfter h hstart hp
      · exact fun q' hq' => (hafter q' hq').trans (hlater p hp)

variable (tx) in
/-- Each page of a walk is the answer to its request. -/
theorem turns_answers : ∀ turn ∈ turns T tx ⟨filter, sort, after, limit⟩ reads,
    turn.request.filter = filter ∧ turn.request.sort = sort ∧
      listBookmarksOver T turn.reads tx turn.request = .ok turn.page := by
  refine turns_induction (motive := fun _ walk => ∀ turn ∈ walk, turn.request.filter = filter ∧
    turn.request.sort = sort ∧ listBookmarksOver T turn.reads tx turn.request = .ok turn.page)
    ?_ ?_ ?_ hlimit reads after hstart
  · exact fun _ turn hturn => absurd hturn List.not_mem_nil
  · intro after r page _ h _ turn hturn
    rw [List.mem_singleton.mp hturn]
    exact ⟨rfl, rfl, h⟩
  · intro after r page q walk _ h _ ih turn hturn
    rcases List.mem_cons.mp hturn with rfl | hturn
    · exact ⟨rfl, rfl, h⟩
    · exact ih turn hturn

variable {lasting : Position → Prop}

/-- **A cursor leaves no lasting bookmark behind.** -/
theorem walk_upTo
    (hlasting : ∀ p, lasting p → ∀ turn ∈ turns T tx ⟨filter, sort, after, limit⟩ reads,
      Stands T tx filter sort turn.reads.page p) :
    ∀ turn ∈ turns T tx ⟨filter, sort, after, limit⟩ reads, ∀ q, turn.page.next = some q → ∀ p, lasting p →
      IsAfter T ⟨filter, sort, after, limit⟩ p →
      ¬positionRank (sortOrders T sort) q < positionRank (sortOrders T sort) p →
        p ∈ (returned (turns T tx ⟨filter, sort, after, limit⟩ reads)).map BookmarkListRow.position := by
  revert hlasting
  refine turns_induction (motive := fun after walk => (∀ p, lasting p → ∀ turn ∈ walk,
      Stands T tx filter sort turn.reads.page p) → ∀ turn ∈ walk, ∀ q, turn.page.next = some q → ∀ p, lasting p →
        IsAfter T ⟨filter, sort, after, limit⟩ p →
        ¬positionRank (sortOrders T sort) q < positionRank (sortOrders T sort) p →
          p ∈ (returned walk).map BookmarkListRow.position) ?_ ?_ ?_ hlimit reads after hstart
  · exact fun after _ turn hturn => absurd hturn List.not_mem_nil
  · intro after r page _ _ hnone _ turn hturn q hq
    rw [List.mem_singleton.mp hturn, hnone] at hq
    cases hq
  · intro after r page q walk hstart h hnext ih hlasting turn hturn q' hq' p hp hafter hnot
    obtain ⟨-, -, -, hupTo⟩ := page_upTo h hstart hlimit hnext
    have hhead := hupTo p (hlasting p hp _ List.mem_cons_self) hafter
    rw [positions_cons]
    rcases List.mem_cons.mp hturn with rfl | hturn
    · obtain rfl := Option.some.inj (hnext.symm.trans hq')
      exact List.mem_append_left _ (hhead hnot)
    · by_cases hlt : positionRank (sortOrders T sort) q < positionRank (sortOrders T sort) p
      · refine List.mem_append_right _ (ih (fun p hp turn hturn => hlasting p hp turn (List.mem_cons_of_mem _ hturn)) turn
          hturn q' hq' p hp (fun x hx => ?_) hnot)
        obtain rfl := Option.some.inj hx
        exact hlt
      · exact List.mem_append_left _ (hhead hlt)

/-- **At its end a walk has returned all that lasts**, where its pages keep what lasts. -/
theorem walk_complete
    (hlasting : ∀ p, lasting p → ∀ turn ∈ turns T tx ⟨filter, sort, after, limit⟩ reads,
      Stands T tx filter sort turn.reads.page p ∧ Stands T tx filter sort turn.reads.rows p ∧
        Stands T tx filter sort turn.reads.routes p)
    (hkeeps : ∀ turn ∈ turns T tx ⟨filter, sort, after, limit⟩ reads, KeepsLasting T tx filter sort lasting turn)
    (hended : Ended (turns T tx ⟨filter, sort, after, limit⟩ reads)) (hp : lasting p)
    (hafter : IsAfter T ⟨filter, sort, after, limit⟩ p) :
    p ∈ (returned (turns T tx ⟨filter, sort, after, limit⟩ reads)).map BookmarkListRow.position := by
  revert hlasting hkeeps hended hafter
  refine turns_induction (motive := fun after walk => (∀ p, lasting p → ∀ turn ∈ walk,
      Stands T tx filter sort turn.reads.page p ∧ Stands T tx filter sort turn.reads.rows p ∧
        Stands T tx filter sort turn.reads.routes p) → (∀ turn ∈ walk, KeepsLasting T tx filter sort lasting turn) →
      Ended walk → IsAfter T ⟨filter, sort, after, limit⟩ p → p ∈ (returned walk).map BookmarkListRow.position)
    ?_ ?_ ?_ hlimit reads after hstart
  · rintro after _ _ ⟨turn, hturn, -⟩
    exact absurd hturn List.not_mem_nil
  · intro after r page hstart h hnone hlasting hkeeps _ hafter
    rw [returned_one]
    exact last_page (fun p hp => hlasting p hp _ List.mem_cons_self) h hstart hlimit hnone
      (hkeeps _ List.mem_cons_self) hp hafter
  · intro after r page q walk hstart h hnext ih hlasting hkeeps hended hafter
    obtain ⟨-, -, -, hupTo⟩ := page_upTo h hstart hlimit hnext
    rw [positions_cons]
    by_cases hlt : positionRank (sortOrders T sort) q < positionRank (sortOrders T sort) p
    · refine List.mem_append_right _ (ih (fun p hp turn hturn => hlasting p hp turn (List.mem_cons_of_mem _ hturn))
        (fun turn hturn => hkeeps turn (List.mem_cons_of_mem _ hturn)) ?_ fun x hx => ?_)
      · obtain ⟨turn, hturn, hnone⟩ := hended
        rcases List.mem_cons.mp hturn with rfl | hturn
        · exact absurd (hnext.symm.trans hnone) (Option.some_ne_none q)
        · exact ⟨turn, hturn, hnone⟩
      · obtain rfl := Option.some.inj hx
        exact hlt
    · exact List.mem_append_left _ (hupTo p (hlasting p hp _ List.mem_cons_self).1 hafter hlt)

/-- **A page that does not keep what lasts ends the walk**, and a lasting bookmark has not been returned. -/
theorem walk_leavesBehind
    (hlasting : ∀ p, lasting p → ∀ turn ∈ turns T tx ⟨filter, sort, after, limit⟩ reads,
      Stands T tx filter sort turn.reads.page p ∧ Stands T tx filter sort turn.reads.rows p ∧
        Stands T tx filter sort turn.reads.routes p)
    (hnot : ∃ turn ∈ turns T tx ⟨filter, sort, after, limit⟩ reads, ¬KeepsLasting T tx filter sort lasting turn) :
    Ended (turns T tx ⟨filter, sort, after, limit⟩ reads) ∧
    ∃ p, lasting p ∧ IsAfter T ⟨filter, sort, after, limit⟩ p ∧
      p ∉ (returned (turns T tx ⟨filter, sort, after, limit⟩ reads)).map BookmarkListRow.position := by
  revert hlasting hnot
  refine turns_induction (motive := fun after walk => (∀ p, lasting p → ∀ turn ∈ walk,
      Stands T tx filter sort turn.reads.page p ∧ Stands T tx filter sort turn.reads.rows p ∧
        Stands T tx filter sort turn.reads.routes p) → (∃ turn ∈ walk, ¬KeepsLasting T tx filter sort lasting turn) →
      Ended walk ∧ ∃ p, lasting p ∧ IsAfter T ⟨filter, sort, after, limit⟩ p ∧
        p ∉ (returned walk).map BookmarkListRow.position) ?_ ?_ ?_ hlimit reads after hstart
  · rintro after _ ⟨turn, hturn, -⟩
    exact absurd hturn List.not_mem_nil
  · rintro after r page hstart h hnone hlasting ⟨turn, hturn, hnot⟩
    rw [List.mem_singleton.mp hturn] at hnot
    rw [returned_one]
    exact ⟨⟨_, List.mem_cons_self, hnone⟩,
      (left_behind (fun p hp => hlasting p hp _ List.mem_cons_self) h hstart hnot).2⟩
  · rintro after r page q walk hstart h hnext ih hlasting ⟨turn, hturn, hnot⟩
    obtain ⟨-, hq, hbefore, -⟩ := page_upTo h hstart hlimit hnext
    have htail : ∃ turn ∈ walk, ¬KeepsLasting T tx filter sort lasting turn := by
      rcases List.mem_cons.mp hturn with rfl | hturn
      · obtain ⟨hnone, -⟩ := left_behind (fun p hp => hlasting p hp _ List.mem_cons_self) h hstart hnot
        exact absurd (hnext.symm.trans hnone) (Option.some_ne_none q)
      · exact ⟨turn, hturn, hnot⟩
    obtain ⟨⟨turn', hturn', hnone⟩, p, hp, hafter, hout⟩ :=
      ih (fun p hp turn hturn => hlasting p hp turn (List.mem_cons_of_mem _ hturn)) htail
    have hlt : positionRank (sortOrders T sort) q < positionRank (sortOrders T sort) p := hafter q rfl
    refine ⟨⟨turn', List.mem_cons_of_mem _ hturn', hnone⟩, p, hp, fun x hx => (hq x hx).trans hlt, ?_⟩
    rw [positions_cons]
    exact fun hmem => (List.mem_append.mp hmem).elim (fun hmem => hbefore p hmem hlt) hout

end

/-! ## The walks that are exact -/

/-- Rows in strict order hold a bookmark once, when its rows have one position. -/
theorem countP_of_inOrder {o : SortOrder κ} {rows : List BookmarkListRow}
    (horder : (rows.map BookmarkListRow.position).Pairwise fun p q => positionRank o p < positionRank o q)
    (hidentified : ∀ row ∈ rows, row.bookmark.id = p.id → row.position = p) :
    rows.countP (fun row => row.bookmark.id = p.id) ≤ 1 ∧
      (rows.countP (fun row => row.bookmark.id = p.id) = 1 ↔ p ∈ rows.map BookmarkListRow.position) := by
  have hnodup : (rows.map BookmarkListRow.position).Nodup :=
    horder.imp fun hlt heq => absurd (congrArg (positionRank o) heq) hlt.ne
  have hcount : rows.countP (fun row => row.bookmark.id = p.id) = (rows.map BookmarkListRow.position).count p := by
    rw [List.count_eq_countP, List.countP_map]
    refine List.countP_congr fun row hrow => ?_
    rw [decide_eq_true_eq, Function.comp_apply, beq_iff_eq]
    exact ⟨hidentified row hrow, fun heq => congrArg Position.id heq⟩
  rw [hcount]
  refine ⟨List.nodup_iff_count_le_one.mp hnodup p, fun hone => ?_, fun hmem => List.count_eq_one_of_mem hnodup hmem⟩
  exact List.count_pos_iff.mp (hone ▸ Nat.one_pos)

/-- What a walk read is what it was given to read. -/
theorem reads_of_mem {reads : List Reads} {turn : Turn} (h : turn ∈ turns T tx request reads) :
    turn.reads ∈ reads := by
  induction reads generalizing request with
  | nil => exact absurd h List.not_mem_nil
  | cons r rest ih =>
    rw [turns] at h
    cases hpage : listBookmarksOver T r tx request with
    | error stop => exact absurd (hpage ▸ h) List.not_mem_nil
    | ok page =>
      simp only [hpage] at h
      rcases List.mem_cons.mp h with rfl | h
      · exact List.mem_cons_self
      · cases hnext : page.next with
        | none =>
          simp only [hnext] at h
          exact absurd h List.not_mem_nil
        | some q =>
          simp only [hnext] at h
          exact List.mem_cons_of_mem _ (ih h)

theorem kept_of_same {c : Content} (hb : b ∈ foundRows T ⟨c, c, c, c⟩ tx request) :
    kept ⟨c, c, c, c⟩ tx request.filter b.id = true := by
  obtain ⟨hrow, hpred, -, -⟩ := mem_selectedRows.mp (mem_ranked.mp (List.mem_of_mem_take hb))
  obtain ⟨hw, -, hread, -⟩ := filterPredicate_readable hpred
  rw [kept, Bool.or_eq_true]
  refine .inr (stillRead_iff.mpr ⟨b, hrow, rfl, readRow_of_readable (r := ⟨c, c, c, c⟩) hpred, hread.imp id fun hvia => ?_⟩)
  rw [mem_sharedBookmarks, ← hw]
  exact hvia

theorem keepsLasting_of_same {c : Content} {lasting : Position → Prop} {turn : Turn} (hreads : turn.reads = ⟨c, c, c, c⟩)
    (hfilter : turn.request.filter = filter) : KeepsLasting T tx filter sort lasting turn := by
  subst hfilter
  rw [KeepsLasting, hreads]
  constructor
  · rintro ⟨b, hb, hlost⟩
    exact absurd (hlost.symm.trans (kept_of_same hb)) Bool.false_ne_true
  · rintro b - - ⟨⟨x, hx, hxid, hother⟩, ⟨y, hy, hyid, hown⟩, -⟩
    exact hother ((Table.eq_of_key (t := c.bookmarks) hx hy (hxid.trans hyid.symm)) ▸ hown)

/-- **A walk is exact when, and only when, each of its pages keeps the bookmarks that last.** -/
theorem exactWalk_iff {κ σ : Type} [LinearOrder κ] [LinearOrder σ] (T : SortTexts κ σ) (tx : TenantTx)
    (filter : BookmarkListFilter) (sort : BookmarkSort) (limit : ℕ) (hlimit : 0 < limit) (reads : List Reads) :
    ExactWalk T tx filter sort (turns T tx ⟨filter, sort, none, limit⟩ reads) ↔
      ∀ turn ∈ turns T tx ⟨filter, sort, none, limit⟩ reads,
        KeepsLasting T tx filter sort (Lasts T tx filter sort (turns T tx ⟨filter, sort, none, limit⟩ reads)) turn := by
  have hstart : Starts T ⟨filter, sort, none, limit⟩ := .inl rfl
  have hfront (p : Position) : IsAfter T ⟨filter, sort, none, limit⟩ p := fun q hq => absurd hq.symm (Option.some_ne_none q)
  obtain ⟨horder, -⟩ := walk_inOrder tx hlimit reads hstart
  have hanswers := turns_answers tx hlimit reads hstart
  have hcount (p : Position) (hp : Lasts T tx filter sort (turns T tx ⟨filter, sort, none, limit⟩ reads) p) :=
    countP_of_inOrder (p := p) horder fun row hrow hid => by
      obtain ⟨turn, hturn, hitem⟩ := List.mem_flatMap.mp hrow
      obtain ⟨hfilter, hsort, h⟩ := hanswers turn hturn
      exact items_identified h (by rw [hfilter, hsort]; exact (hp turn hturn).1) hitem hid
  constructor
  · intro hexact
    by_contra hnot
    push Not at hnot
    obtain ⟨hended, p, hp, -, hout⟩ := walk_leavesBehind hlimit reads hstart (fun p hp turn hturn => hp turn hturn) hnot
    exact hout ((hcount p hp).2.mp (hexact.exactlyOnce hended p hp))
  · intro hkeeps
    have hall (hended : Ended (turns T tx ⟨filter, sort, none, limit⟩ reads)) (p : Position)
        (hp : Lasts T tx filter sort (turns T tx ⟨filter, sort, none, limit⟩ reads) p) :=
      walk_complete hlimit reads hstart (fun p hp turn hturn => hp turn hturn) hkeeps hended hp (hfront p)
    refine ⟨horder, fun p hp => (hcount p hp).1, fun turn hturn cursor hcursor p hp hnot => (hcount p hp).2.mpr ?_,
      fun hended p hp => (hcount p hp).2.mpr (hall hended p hp), fun hended p hp => ?_⟩
    · exact walk_upTo hlimit reads hstart (fun p hp turn hturn => (hp turn hturn).1) turn hturn cursor hcursor p hp
        (hfront p) hnot
    · obtain ⟨row, hrow, hposition⟩ := List.mem_map.mp (hall hended p hp)
      exact ⟨row, hrow, by rw [hposition]; exact lt_irrefl _⟩

/-! ## A share that ends within a page -/

/-- Three bookmarks of account 7, of which those of `lent` are shared with account 8. -/
def lentBookmarks (lent : List Uuid) : Content where
  bookmarks := (manyBookmarks 3).bookmarks
  bookmarkShares := ⟨lent.dedup.map fun id => ⟨⟨some 8, none, by decide⟩, id, 1, id⟩, by
    rw [List.map_map]
    exact (List.nodup_map_iff fun _ _ h => h).mpr (List.nodup_dedup lent)⟩

/-- What is shared with account 8. -/
def lentFilter : BookmarkListFilter := ⟨8, some .sharedWithMe, none, none, none, none, none, none, none⟩

theorem exactWalk_iff_three :
    ExactWalk plainTexts ⟨8, 1⟩ lentFilter .oldest (turns plainTexts ⟨8, 1⟩ ⟨lentFilter, .oldest, none, 1⟩
      (List.replicate 3 ⟨lentBookmarks [0, 1, 2], lentBookmarks [0, 1, 2], lentBookmarks [0, 1, 2],
        lentBookmarks [0, 1, 2]⟩)) := by
  refine (exactWalk_iff plainTexts ⟨8, 1⟩ lentFilter .oldest 1 Nat.one_pos _).mpr fun turn hturn => ?_
  obtain ⟨hfilter, -, -⟩ := turns_answers _ Nat.one_pos _ (.inl rfl) turn hturn
  exact keepsLasting_of_same (List.eq_of_mem_replicate (reads_of_mem hturn)) hfilter

/-- The share of the first bookmark ends after the page is found and before its rows are read. -/
def revokedReads : Reads :=
  ⟨lentBookmarks [0, 1, 2], lentBookmarks [1, 2], lentBookmarks [1, 2], lentBookmarks [1, 2]⟩

/-- **A walk that ends too early**: of the two rows found for a page of one, the first is lost; the page has the
second, no next position, and the third bookmark is never returned. -/
theorem revoked_endsEarly :
    ¬ExactWalk plainTexts ⟨8, 1⟩ lentFilter .oldest
      (turns plainTexts ⟨8, 1⟩ ⟨lentFilter, .oldest, none, 1⟩ [revokedReads]) := by
  intro hexact
  have hpages : (turns plainTexts ⟨8, 1⟩ ⟨lentFilter, .oldest, none, 1⟩ [revokedReads]).map
      (fun turn => (turn.page.items.map fun row => row.bookmark.id, turn.page.next)) = [([1], none)] := by decide
  have hended : Ended (turns plainTexts ⟨8, 1⟩ ⟨lentFilter, .oldest, none, 1⟩ [revokedReads]) := by
    obtain ⟨turn, hturn, hpage⟩ := List.mem_map.mp (hpages ▸ List.mem_cons_self)
    exact ⟨turn, hturn, congrArg Prod.snd hpage⟩
  have hids : (returned (turns plainTexts ⟨8, 1⟩ ⟨lentFilter, .oldest, none, 1⟩ [revokedReads])).map
      (fun row => row.bookmark.id) = [1] := by
    have hflat := congrArg (List.flatMap Prod.fst) hpages
    rw [List.flatMap_map] at hflat
    rw [returned, List.map_flatMap]
    exact hflat
  -- the third bookmark is shared all along
  have hlasts : Lasts plainTexts ⟨8, 1⟩ lentFilter .oldest
      (turns plainTexts ⟨8, 1⟩ ⟨lentFilter, .oldest, none, 1⟩ [revokedReads])
      (positionOf plainTexts .oldest (titledBookmark 2)) := by
    intro turn hturn
    rw [List.mem_singleton.mp (reads_of_mem hturn)]
    exact ⟨⟨titledBookmark 2, by decide, rfl, by decide, rfl⟩, ⟨titledBookmark 2, by decide, rfl, by decide, rfl⟩,
      ⟨titledBookmark 2, by decide, rfl, by decide, rfl⟩⟩
  have hone := hexact.exactlyOnce hended _ hlasts
  have hcount : (returned (turns plainTexts ⟨8, 1⟩ ⟨lentFilter, .oldest, none, 1⟩ [revokedReads])).countP
      (fun row => row.bookmark.id = 2) = ([1] : List ℕ).countP (fun id => id = 2) := by
    rw [← hids, List.countP_map]
    rfl
  exact absurd (hone.symm.trans hcount) (by decide)

end SlugBase.Listing
