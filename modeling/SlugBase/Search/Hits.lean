import SlugBase.Search.Statement

/-!
# What the search finds

The hits of the statement as the best rows of branches that are cut, or not cut.

* `Stored`: hits of bookmarks of the store; `separates_rank`, `separates_idOrder`: the orders of the
  statement tell such hits apart;
* `ranked_distinctHits`: `DISTINCT ON` and the final order give the best hit of each bookmark in order;
* `firstHits`, `laterHits`: the hits of every tier when no branch is cut;
* **`shortHits_eq`**, **`longHits_eq`**: the hits of the statement.
-/

set_option linter.unusedSectionVars false

namespace SlugBase.Search

open Relational

section

variable {κ σ : Type} [LinearOrder κ] [LinearOrder σ] {T : TextSearch κ σ} {c : Content} {a w : Uuid}
  {text : String} {windows : Windows} {n : ℕ} {l : List (Hit σ)}

/-! ## The orders of stored hits -/

/-- The hits are of bookmarks of the store. -/
def Stored (c : Content) (l : List (Hit σ)) : Prop := ∀ h ∈ l, h.bookmark ∈ c.bookmarks

theorem Stored.append {m : List (Hit σ)} (hl : Stored c l) (hm : Stored c m) : Stored c (l ++ m) :=
  fun h hh => (List.mem_append.mp hh).elim (hl h) (hm h)

theorem rank_le_iff {h h' : Hit σ} :
    h.rank T ≤ h'.rank T ↔ h.tier < h'.tier ∨ h.tier = h'.tier ∧ (h'.score < h.score ∨
      h.score = h'.score ∧ titleOrder T h.bookmark ≤ titleOrder T h'.bookmark) := by
  rw [Hit.rank, Hit.rank, Prod.Lex.toLex_le_toLex, Prod.Lex.toLex_le_toLex]
  simp only [OrderDual.toDual_lt_toDual, OrderDual.toDual_inj]

theorem tier_le_of_rank {h h' : Hit σ} (hle : h.rank T ≤ h'.rank T) : h.tier ≤ h'.tier := by
  rcases rank_le_iff.mp hle with hlt | ⟨heq, _⟩
  · exact le_of_lt hlt
  · exact le_of_eq heq

theorem rank_lt_of_tier {h h' : Hit σ} (hlt : h.tier < h'.tier) : h.rank T < h'.rank T := by
  refine lt_of_not_ge fun hle => ?_
  exact absurd (tier_le_of_rank hle) (not_le_of_gt hlt)

theorem Stored.eq (hl : Stored c l) {h h' : Hit σ} (hh : h ∈ l) (hh' : h' ∈ l) (hid : h.id = h'.id)
    (htier : h.tier = h'.tier) (hscore : h.score = h'.score) : h = h' := by
  obtain ⟨b, t, x⟩ := h
  obtain ⟨b', t', x'⟩ := h'
  obtain rfl : b = b' := Table.eq_of_key (hl _ hh) (hl _ hh') hid
  obtain rfl : t = t' := htier
  obtain rfl : x = x' := hscore
  rfl

theorem separates_rank (hl : Stored c l) : Separates (Hit.rank T) l := by
  intro h hh h' hh' heq
  simp only [Hit.rank, titleOrder, EmbeddingLike.apply_eq_iff_eq, Prod.mk.injEq] at heq
  exact hl.eq hh hh' heq.2.2.2 heq.1 heq.2.1

theorem separates_idOrder (hl : Stored c l) : Separates Hit.idOrder l := by
  intro h hh h' hh' heq
  simp only [Hit.idOrder, EmbeddingLike.apply_eq_iff_eq, Prod.mk.injEq] at heq
  exact hl.eq hh hh' heq.1 heq.2.1 heq.2.2

theorem mem_distinctHits (hl : Stored c l) {h : Hit σ} :
    h ∈ distinctHits l ↔ h ∈ best (Hit.rank T) (Hit.id σ) l := by
  refine mem_best_congr (separates_idOrder hl) (separates_rank hl) fun x hx y hy hid => ?_
  have hb : x.bookmark = y.bookmark := Table.eq_of_key (hl x hx) (hl y hy) hid
  rw [rank_le_iff, Hit.idOrder, Hit.idOrder, hid, Prod.Lex.toLex_le_toLex, Prod.Lex.toLex_le_toLex, hb]
  simp only [OrderDual.toDual_le_toDual, lt_irrefl, false_or, true_and, le_refl, and_true]
  refine or_congr_right (and_congr_right fun _ => ?_)
  rw [le_iff_lt_or_eq, eq_comm]

theorem mem_of_mem_distinctHits {h : Hit σ} (hh : h ∈ distinctHits l) : h ∈ l := mem_of_mem_best hh

theorem Stored.distinctHits (hl : Stored c l) : Stored c (distinctHits l) :=
  fun h hh => hl h (mem_of_mem_distinctHits hh)

theorem ranked_distinctHits (hl : Stored c l) :
    ranked (Hit.rank T) (distinctHits l) = best (Hit.rank T) (Hit.id σ) l := by
  have hkeys : (distinctHits l).Pairwise fun x y => Hit.id σ x ≠ Hit.id σ y := best_keys l
  rw [← best_of_keys hkeys]
  have hsep : Separates (Hit.rank T) (distinctHits l) := separates_rank hl.distinctHits
  rw [best_congr hsep fun _ => mem_distinctHits (T := T) hl]
  have hself : best (Hit.rank T) (Hit.id σ) (best (Hit.rank T) (Hit.id σ) l ++ []) =
      best (Hit.rank T) (Hit.id σ) (l ++ []) :=
    best_best_append (by rw [List.append_nil]; exact separates_rank hl)
  rwa [List.append_nil, List.append_nil] at hself

theorem length_distinctHits (hl : Stored c l) :
    (distinctHits l).length = (best (Hit.rank T) (Hit.id σ) l).length := by
  rw [← ranked_distinctHits hl, length_ranked]

/-! ## The branches -/

theorem mem_hits {t : ℕ} {score : Bookmark → σ} {rows : List Bookmark} {h : Hit σ} :
    h ∈ hits t score rows ↔ ∃ b ∈ rows, ⟨b, t, score b⟩ = h := List.mem_map

theorem tier_of_mem_hits {t : ℕ} {score : Bookmark → σ} {rows : List Bookmark} {h : Hit σ}
    (hh : h ∈ hits t score rows) : h.tier = t := by
  obtain ⟨b, _, rfl⟩ := mem_hits.mp hh
  rfl

theorem stored_hits {t : ℕ} {score : Bookmark → σ} {rows : List Bookmark} (h : ∀ b ∈ rows, b ∈ c.bookmarks) :
    Stored c (hits t score rows) := by
  intro x hx
  obtain ⟨b, hb, rfl⟩ := mem_hits.mp hx
  exact h b hb

theorem mem_selected {asks : Bookmark → Bool} {b : Bookmark} :
    b ∈ selected c a w asks ↔ b ∈ c.bookmarks ∧ searchable c a w b = true ∧ asks b = true := by
  rw [selected, List.mem_filter, Bool.and_eq_true, Table.mem_iff]

theorem selected_keys (asks : Bookmark → Bool) : (selected c a w asks).Pairwise fun b b' => b.id ≠ b'.id :=
  (List.pairwise_map.mp c.bookmarks.keyed).filter _

theorem hits_keys {t : ℕ} {score : Bookmark → σ} {rows : List Bookmark} (h : rows.Pairwise fun b b' => b.id ≠ b'.id) :
    (hits t score rows).Pairwise fun x y => Hit.id σ x ≠ Hit.id σ y :=
  List.pairwise_map.mpr h

theorem hits_top_title {t : ℕ} (rows : List Bookmark) :
    hits t (fun _ => T.zero) (top (titleOrder T) n rows) = top (Hit.rank T) n (hits t (fun _ => T.zero) rows) := by
  refine map_top _ fun b _ b' _ => ?_
  rw [rank_le_iff]
  simp

theorem hits_top_score {t : ℕ} {query : Option (List String)} (rows : List Bookmark) :
    hits t (textScore T query) (top (scoreOrder T query) n rows) =
      top (Hit.rank T) n (hits t (textScore T query) rows) := by
  refine map_top _ fun b _ b' _ => ?_
  rw [rank_le_iff, scoreOrder, scoreOrder, Prod.Lex.toLex_le_toLex]
  simp

/-! ## The hits of a branch that is not cut -/

section

variable (T c a w text)

/-- The hits of the third tier: a title that begins with a short text, a slug and title that hold every
word of a longer one. -/
def thirdHits : List (Hit σ) :=
  if isShort text then hits 3 (fun _ => T.zero) (titleRows T c a w text)
  else hits 3 (textScore T (tsquery T text)) (wordRows T c a w text)

/-- The branches of the slug, the slug prefix and the title, none cut. -/
def firstBranches : List (List (Hit σ)) :=
  [hits 1 (fun _ => T.zero) (slugRows c a w text), hits 2 (fun _ => T.zero) (prefixRows c a w text),
    thirdHits T c a w text]

/-- The hits of the slug, the slug prefix and the title, none cut. -/
def firstHits : List (Hit σ) := (firstBranches T c a w text).flatten

/-- The hits of the later tiers, none cut. -/
def laterHits : List (Hit σ) :=
  if isShort text then []
  else hits 4 (textScore T (tsquery T text)) (wideRows T c a w text true) ++
    (hits 5 (fun b => T.wordSimilarity text b.title) (fuzzyTitleRows T c a w text true) ++
      hits 5 (fun b => T.wordSimilarity text b.host) (fuzzyHostRows T c a w text true))

/-- The hits of the first branches, each cut to `n`. -/
def cutHits (n : ℕ) : List (Hit σ) := ((firstBranches T c a w text).map (top (Hit.rank T) n)).flatten

end

theorem stored_selected {t : ℕ} {score : Bookmark → σ} (asks : Bookmark → Bool) :
    Stored c (hits t score (selected c a w asks)) :=
  stored_hits fun _ hb => (mem_selected.mp hb).1

theorem stored_firstHits : Stored c (firstHits T c a w text) := by
  intro h hh
  simp only [firstHits, firstBranches, List.flatten_cons, List.flatten_nil, List.append_nil, List.mem_append] at hh
  rcases hh with hh | hh | hh
  · exact stored_selected _ h hh
  · exact stored_selected _ h hh
  · rw [thirdHits] at hh
    split_ifs at hh
    · exact stored_selected _ h hh
    · exact stored_selected _ h hh

theorem covers_cutHits : Covers (Hit.rank T) (Hit.id σ) n (firstHits T c a w text) (cutHits T c a w text n) := by
  refine covers_tops (separates_rank stored_firstHits) fun branch hbranch => ?_
  simp only [firstBranches, List.mem_cons, List.not_mem_nil, or_false] at hbranch
  rcases hbranch with rfl | rfl | rfl
  · exact hits_keys (selected_keys _)
  · exact hits_keys (selected_keys _)
  · rw [thirdHits]
    split_ifs
    · exact hits_keys (selected_keys _)
    · exact hits_keys (selected_keys _)

theorem stored_cutHits : Stored c (cutHits T c a w text n) :=
  fun h hh => stored_firstHits h ((covers_cutHits (n := n)).subset hh)

theorem tier_of_mem_firstHits {h : Hit σ} (hh : h ∈ firstHits T c a w text) : h.tier ≤ 3 := by
  simp only [firstHits, firstBranches, List.flatten_cons, List.flatten_nil, List.append_nil, List.mem_append] at hh
  rcases hh with hh | hh | hh
  · exact (tier_of_mem_hits hh).trans_le (by decide)
  · exact (tier_of_mem_hits hh).trans_le (by decide)
  · rw [thirdHits] at hh
    split_ifs at hh
    · exact (tier_of_mem_hits hh).le
    · exact (tier_of_mem_hits hh).le

theorem tier_of_mem_laterHits {h : Hit σ} (hh : h ∈ laterHits T c a w text) : 4 ≤ h.tier := by
  rw [laterHits] at hh
  split_ifs at hh
  · cases hh
  · rcases List.mem_append.mp hh with hh | hh
    · exact (tier_of_mem_hits hh).ge
    · rcases List.mem_append.mp hh with hh | hh
      · exact le_trans (by decide) (tier_of_mem_hits hh).ge
      · exact le_trans (by decide) (tier_of_mem_hits hh).ge

/-! ## The hits of the statement -/

/-- **The hits of a short text**: the first `n` of the best hits. -/
theorem shortHits_eq (hshort : isShort text = true) :
    shortHits T c a w text n = (best (Hit.rank T) (Hit.id σ) (firstHits T c a w text)).take n := by
  have hcut : hits 1 (fun _ => T.zero) (top (titleOrder T) n (slugRows c a w text)) ++
      hits 2 (fun _ => T.zero) (top (titleOrder T) n (prefixRows c a w text)) ++
      hits 3 (fun _ => T.zero) (top (titleOrder T) n (titleRows T c a w text)) = cutHits T c a w text n := by
    rw [hits_top_title, hits_top_title, hits_top_title, cutHits, firstBranches, thirdHits, if_pos hshort]
    simp only [List.map_cons, List.map_nil, List.flatten_cons, List.flatten_nil, List.append_nil, List.append_assoc]
  have hzero : ∀ h ∈ cutHits T c a w text n, h.score = T.zero := by
    intro h hh
    rw [← hcut] at hh
    rcases List.mem_append.mp hh with hh | hh
    · rcases List.mem_append.mp hh with hh | hh
      · obtain ⟨b, _, rfl⟩ := mem_hits.mp hh
        rfl
      · obtain ⟨b, _, rfl⟩ := mem_hits.mp hh
        rfl
    · obtain ⟨b, _, rfl⟩ := mem_hits.mp hh
      rfl
  have horder : ranked (Hit.shortRank T) (distinctHits (cutHits T c a w text n)) =
      ranked (Hit.rank T) (distinctHits (cutHits T c a w text n)) := by
    refine ranked_congr fun h hh h' hh' => ?_
    have hs := hzero h (mem_of_mem_distinctHits hh)
    have hs' := hzero h' (mem_of_mem_distinctHits hh')
    rw [rank_le_iff, Hit.shortRank, Hit.shortRank, Prod.Lex.toLex_le_toLex, hs, hs']
    simp
  rw [shortHits, hcut, horder, ranked_distinctHits stored_cutHits]
  exact take_best_of_covers covers_cutHits (separates_rank stored_firstHits)

theorem headHits_eq (hlong : isShort text = false) :
    headHits T c a w text n = distinctHits (cutHits T c a w text n) := by
  rw [headHits, hits_top_title, hits_top_title, hits_top_score, cutHits, firstBranches, thirdHits,
    if_neg (by rw [hlong]; decide)]
  simp only [List.map_cons, List.map_nil, List.flatten_cons, List.flatten_nil, List.append_nil, List.append_assoc]

theorem stored_wideHits : Stored c (wideHits T c a w text windows n) := by
  refine stored_hits fun b hb => ?_
  exact (mem_selected.mp ((windows.wide.subperm _).subset (mem_of_mem_top hb))).1

theorem stored_fuzzyHits : Stored c (fuzzyHits T c a w text windows n) := by
  refine Stored.append ?_ ?_
  · exact stored_hits fun b hb => (mem_selected.mp ((windows.title.subperm _).subset hb)).1
  · exact stored_hits fun b hb => (mem_selected.mp ((windows.host.subperm _).subset hb)).1

/-- **The hits of a longer text**: the first `n` of the best hits of the cut branches, of the window of
wide matches and of the windows of fuzzy ones. -/
theorem longHits_eq (hlong : isShort text = false) :
    longHits T c a w text windows n =
      (best (Hit.rank T) (Hit.id σ) (cutHits T c a w text n ++
        (wideHits T c a w text windows n ++ fuzzyHits T c a w text windows n))).take n := by
  have hcut : Stored c (cutHits T c a w text n) := stored_cutHits
  have hwide : Stored c (wideHits T c a w text windows n) := stored_wideHits
  have hfuzzy : Stored c (fuzzyHits T c a w text windows n) := stored_fuzzyHits
  have hhead : Stored c (headHits T c a w text n ++ wideHits T c a w text windows n) := by
    rw [headHits_eq hlong]
    exact hcut.distinctHits.append hwide
  have hstrong : Stored c (strongHits T c a w text windows n ++ fuzzyHits T c a w text windows n) :=
    hhead.distinctHits.append hfuzzy
  have hmemStrong (x : Hit σ) : x ∈ strongHits T c a w text windows n ++ fuzzyHits T c a w text windows n ↔
      x ∈ best (Hit.rank T) (Hit.id σ) (headHits T c a w text n ++ wideHits T c a w text windows n) ++
        fuzzyHits T c a w text windows n := by
    rw [List.mem_append, List.mem_append, strongHits, mem_distinctHits (T := T) hhead]
  have hmemHead (x : Hit σ) : x ∈ headHits T c a w text n ++ (wideHits T c a w text windows n ++
      fuzzyHits T c a w text windows n) ↔ x ∈ best (Hit.rank T) (Hit.id σ) (cutHits T c a w text n) ++
        (wideHits T c a w text windows n ++ fuzzyHits T c a w text windows n) := by
    simp only [List.mem_append, headHits_eq hlong, mem_distinctHits (T := T) hcut]
  rw [longHits, ranked_distinctHits hstrong, best_congr (separates_rank hstrong) hmemStrong,
    best_best_append (separates_rank (hhead.append hfuzzy)), List.append_assoc,
    best_congr (separates_rank (by rw [← List.append_assoc]; exact hhead.append hfuzzy)) hmemHead,
    best_best_append (separates_rank (hcut.append (hwide.append hfuzzy)))]

end

end SlugBase.Search
