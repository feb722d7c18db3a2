import SlugBase.Search.Hits

/-!
# Cutting before joining is exact

`sys_search` cuts each branch before it joins them, and reads later branches only when the earlier ones
leave places; `sys_go_suggest` cuts the own and the shared bookmarks before it joins them.

* `shortHits_matched`, `longHits_matched`: what is answered in the first four tiers is a match of
  `sys_bookmark_match`;
* `longHits_bestTier`: a hit that is answered is in the best tier of its bookmark;
* `goSuggest_full`, `goSuggestReadable_access`: the suggestions and their routes;
* **`search_cut_exact`**: the answers of the three statements.
-/

set_option linter.unusedSectionVars false

namespace SlugBase.Search

open Relational

section

variable {κ σ : Type} [LinearOrder κ] [LinearOrder σ] {T : TextSearch κ σ} {c : Content} {a w : Uuid}
  {text : String} {windows : Windows} {n : ℕ}

/-! ## Matches -/

theorem fullTextMatch_mono {vector vector' : List String} {query : Option (List String)} (hsub : vector ⊆ vector')
    (h : fullTextMatch vector query = true) : fullTextMatch vector' query = true := by
  simp only [fullTextMatch, Option.any_eq_true, List.all_eq_true, List.any_eq_true] at h ⊢
  obtain ⟨terms, hquery, hterms⟩ := h
  refine ⟨terms, hquery, fun term hterm => ?_⟩
  obtain ⟨lexeme, hlexeme, hprefix⟩ := hterms term hterm
  exact ⟨lexeme, hsub hlexeme, hprefix⟩

theorem titleSlugVector_subset (b : Bookmark) : titleSlugVector T b ⊆ searchVector T b := by
  intro lexeme h
  exact List.mem_append_left _ (List.mem_append_left _ h)

theorem slugPrefixed_of_eq {b : Bookmark} (h : sqlEq b.slug (some text) = true) : slugPrefixed text b = true := by
  have hslug : b.slug = some text := by simpa using h
  rw [slugPrefixed, hslug, Option.any_some]
  exact List.isPrefixOf_iff_prefix.mpr List.prefix_rfl

/-- A hit of the first tiers is selected by its slug or by its text. -/
theorem mem_firstHits {h : Hit σ} (hh : h ∈ firstHits T c a w text) :
    h.bookmark ∈ c.bookmarks ∧ searchable c a w h.bookmark = true ∧
      (slugPrefixed text h.bookmark = true ∨
        isShort text = true ∧ T.ilikePrefix text h.bookmark.title = true ∨
        isShort text = false ∧ fullTextMatch (searchVector T h.bookmark) (tsquery T text) = true) := by
  simp only [firstHits, firstBranches, List.flatten_cons, List.flatten_nil, List.append_nil, List.mem_append] at hh
  rcases hh with hh | hh | hh
  · obtain ⟨b, hb, rfl⟩ := mem_hits.mp hh
    obtain ⟨hmem, hsearch, hslug⟩ := mem_selected.mp hb
    exact ⟨hmem, hsearch, .inl (slugPrefixed_of_eq hslug)⟩
  · obtain ⟨b, hb, rfl⟩ := mem_hits.mp hh
    obtain ⟨hmem, hsearch, hslug⟩ := mem_selected.mp hb
    exact ⟨hmem, hsearch, .inl hslug⟩
  · rw [thirdHits] at hh
    split_ifs at hh with hshort
    · obtain ⟨b, hb, rfl⟩ := mem_hits.mp hh
      obtain ⟨hmem, hsearch, htitle⟩ := mem_selected.mp hb
      exact ⟨hmem, hsearch, .inr (.inl ⟨hshort, htitle⟩)⟩
    · obtain ⟨b, hb, rfl⟩ := mem_hits.mp hh
      obtain ⟨hmem, hsearch, hwords⟩ := mem_selected.mp hb
      exact ⟨hmem, hsearch, .inr (.inr ⟨by simpa using hshort, fullTextMatch_mono (titleSlugVector_subset b) hwords⟩)⟩

theorem shortHits_matched (hshort : isShort text = true) {h : Hit σ} (hh : h ∈ shortHits T c a w text n) :
    h.id ∈ shortMatches T c a w text := by
  rw [shortHits_eq hshort] at hh
  obtain ⟨hmem, hsearch, hasks⟩ := mem_firstHits (mem_of_mem_best (List.mem_of_mem_take hh))
  refine List.mem_map.mpr ⟨h.bookmark, mem_selected.mpr ⟨hmem, hsearch, ?_⟩, rfl⟩
  rw [Bool.or_eq_true]
  rcases hasks with hslug | ⟨_, htitle⟩ | ⟨hlong, _⟩
  · exact .inl hslug
  · exact .inr htitle
  · exact absurd hshort (by rw [hlong]; decide)

theorem mem_longHits (hlong : isShort text = false) {h : Hit σ} (hh : h ∈ longHits T c a w text windows n) :
    h ∈ cutHits T c a w text n ∨ h ∈ wideHits T c a w text windows n ∨ h ∈ fuzzyHits T c a w text windows n := by
  rw [longHits_eq hlong] at hh
  have hmem := mem_of_mem_best (List.mem_of_mem_take hh)
  rwa [List.mem_append, List.mem_append] at hmem

theorem tier_of_mem_fuzzyHits {h : Hit σ} (hh : h ∈ fuzzyHits T c a w text windows n) : h.tier = 5 :=
  (List.mem_append.mp hh).elim tier_of_mem_hits tier_of_mem_hits

theorem tier_of_mem_wideHits {h : Hit σ} (hh : h ∈ wideHits T c a w text windows n) : h.tier = 4 :=
  tier_of_mem_hits hh

theorem tier_of_mem_cutHits {h : Hit σ} (hh : h ∈ cutHits T c a w text n) : h.tier ≤ 3 :=
  tier_of_mem_firstHits (covers_cutHits.subset hh)

/-- What is answered for a longer text before the fuzzy tier is a match. -/
theorem longHits_matched (hlong : isShort text = false) {h : Hit σ} (hh : h ∈ longHits T c a w text windows n)
    (htier : h.tier ≤ 4) : h.id ∈ strongMatches T c a w text := by
  have hselected : h.bookmark ∈ c.bookmarks ∧ searchable c a w h.bookmark = true ∧
      (slugPrefixed text h.bookmark || fullTextMatch (searchVector T h.bookmark) (tsquery T text)) = true := by
    simp only [Bool.or_eq_true]
    rcases mem_longHits hlong hh with hcut | hwide | hfuzzy
    · obtain ⟨hmem, hsearch, hasks⟩ := mem_firstHits (covers_cutHits.subset hcut)
      refine ⟨hmem, hsearch, ?_⟩
      rcases hasks with hslug | ⟨hshort, _⟩ | ⟨_, hwords⟩
      · exact .inl hslug
      · exact absurd hshort (by rw [hlong]; decide)
      · exact .inr hwords
    · obtain ⟨b, hb, rfl⟩ := mem_hits.mp hwide
      obtain ⟨hmem, hsearch, hasks⟩ := mem_selected.mp ((windows.wide.subperm _).subset (mem_of_mem_top hb))
      rw [Bool.and_eq_true] at hasks
      exact ⟨hmem, hsearch, .inr hasks.1⟩
    · exact absurd (tier_of_mem_fuzzyHits hfuzzy) (by omega)
  exact List.mem_map.mpr ⟨h.bookmark, mem_selected.mpr hselected, rfl⟩

/-! ## The best tier of a bookmark -/

theorem length_headHits (hlong : isShort text = false) :
    (headHits T c a w text n).length = (best (Hit.rank T) (Hit.id σ) (cutHits T c a w text n)).length := by
  rw [headHits_eq hlong, length_distinctHits (T := T) stored_cutHits]

theorem firstHits_subset (hlong : isShort text = false) (hlt : (headHits T c a w text n).length < n) :
    firstHits T c a w text ⊆ cutHits T c a w text n := by
  have hcovers : Covers (Hit.rank T) (Hit.id σ) n (firstHits T c a w text) (cutHits T c a w text n) := covers_cutHits
  rw [length_headHits hlong] at hlt
  exact hcovers.all (separates_rank stored_cutHits) hlt

theorem asked_of_mem_wideHits {h : Hit σ} (hh : h ∈ wideHits T c a w text windows n) :
    (headHits T c a w text n).length < n := by
  obtain ⟨b, hb, rfl⟩ := mem_hits.mp hh
  obtain ⟨_, _, hasks⟩ := mem_selected.mp ((windows.wide.subperm _).subset (mem_of_mem_top hb))
  rw [Bool.and_eq_true] at hasks
  exact of_decide_eq_true hasks.2

theorem asked_of_mem_fuzzyHits {h : Hit σ} (hh : h ∈ fuzzyHits T c a w text windows n) :
    (strongHits T c a w text windows n).length < n := by
  rcases List.mem_append.mp hh with hh | hh
  · obtain ⟨b, hb, rfl⟩ := mem_hits.mp hh
    obtain ⟨_, _, hasks⟩ := mem_selected.mp ((windows.title.subperm _).subset hb)
    rw [Bool.and_eq_true] at hasks
    exact of_decide_eq_true hasks.2
  · obtain ⟨b, hb, rfl⟩ := mem_hits.mp hh
    obtain ⟨_, _, hasks⟩ := mem_selected.mp ((windows.host.subperm _).subset hb)
    rw [Bool.and_eq_true] at hasks
    exact of_decide_eq_true hasks.2

theorem length_head_le_strong :
    (headHits T c a w text n).length ≤ (strongHits T c a w text windows n).length := by
  have hkeys : (headHits T c a w text n).Pairwise fun x y => Hit.id σ x ≠ Hit.id σ y := best_keys _
  have hself : (best Hit.idOrder (Hit.id σ) (headHits T c a w text n)).length = (headHits T c a w text n).length := by
    rw [best_of_keys hkeys, length_ranked]
  rw [← hself]
  exact length_best_mono fun x hx => ⟨x, List.mem_append_left _ hx, rfl⟩

theorem wideRows_keys (asked : Bool) :
    (top (scoreOrder T (tsquery T text)) n (windows.wide.rows (wideRows T c a w text asked))).Pairwise
      fun b b' => b.id ≠ b'.id := by
  obtain ⟨l, hperm, hsub⟩ := windows.wide.subperm (wideRows T c a w text asked)
  have hwindow : (windows.wide.rows (wideRows T c a w text asked)).Pairwise fun b b' => b.id ≠ b'.id :=
    (hperm.pairwise_iff fun h => h.symm).mp ((selected_keys _).sublist hsub)
  have hranked : (ranked (scoreOrder T (tsquery T text)) (windows.wide.rows (wideRows T c a w text asked))).Pairwise
      fun b b' => b.id ≠ b'.id := ((ranked_perm _).pairwise_iff fun h => h.symm).mpr hwindow
  exact hranked.sublist (List.take_sublist _ _)

theorem length_wide_le_strong :
    (wideHits T c a w text windows n).length ≤ (strongHits T c a w text windows n).length := by
  have hkeys : (wideHits T c a w text windows n).Pairwise fun x y => Hit.id σ x ≠ Hit.id σ y :=
    hits_keys (wideRows_keys _)
  have hself : (best Hit.idOrder (Hit.id σ) (wideHits T c a w text windows n)).length =
      (wideHits T c a w text windows n).length := by
    rw [best_of_keys hkeys, length_ranked]
  rw [← hself]
  exact length_best_mono fun x hx => ⟨x, List.mem_append_right _ hx, rfl⟩

/-- When `strong` leaves a place, the window has held every wide match. -/
theorem wideHits_all (hn : n ≤ windowSize) (hlt : (strongHits T c a w text windows n).length < n) :
    hits 4 (textScore T (tsquery T text)) (wideRows T c a w text true) ⊆ wideHits T c a w text windows n := by
  have hasked : decide ((headHits T c a w text n).length < n) = true :=
    decide_eq_true (lt_of_le_of_lt length_head_le_strong hlt)
  have hwide : (wideHits T c a w text windows n).length < n := lt_of_le_of_lt length_wide_le_strong hlt
  rw [wideHits, hasked, hits, List.length_map, length_top] at hwide
  have hlen : (windows.wide.rows (wideRows T c a w text true)).length = (wideRows T c a w text true).length := by
    have := windows.wide.length (wideRows T c a w text true)
    omega
  have hperm : (windows.wide.rows (wideRows T c a w text true)).Perm (wideRows T c a w text true) :=
    (windows.wide.subperm _).perm_of_length_le hlen.ge
  intro h hh
  obtain ⟨b, hb, rfl⟩ := mem_hits.mp hh
  rw [wideHits, hasked]
  refine mem_hits.mpr ⟨b, (top_of_length_le ?_).mpr (hperm.mem_iff.mpr hb), rfl⟩
  omega

theorem longHits_first (hlong : isShort text = false) :
    (longHits T c a w text windows n).filter (fun h => decide (h.tier ≤ 3)) =
      (best (Hit.rank T) (Hit.id σ) (firstHits T c a w text)).take n := by
  have htier : ∀ h ∈ wideHits T c a w text windows n ++ fuzzyHits T c a w text windows n, 4 ≤ h.tier := by
    intro h hh
    rcases List.mem_append.mp hh with hh | hh
    · exact (tier_of_mem_wideHits hh).ge
    · exact le_trans (by decide) (tier_of_mem_fuzzyHits hh).ge
  rw [longHits_eq hlong, ← take_best_of_covers (covers_cutHits (T := T)) (separates_rank stored_firstHits)]
  refine filter_take_best_append _ ?_ (fun h hh => ?_) (fun h hh => ?_) fun h hh h' hh' => ?_
  · exact separates_rank (stored_cutHits.append (stored_wideHits.append stored_fuzzyHits))
  · exact decide_eq_true (tier_of_mem_cutHits hh)
  · have := htier h hh
    exact decide_eq_false (by omega)
  · have := htier h' hh'
    have := tier_of_mem_cutHits hh
    exact rank_lt_of_tier (by omega)

/-- **A hit that is answered is in the best tier of its bookmark.** -/
theorem longHits_bestTier (hlong : isShort text = false) (hn : n ≤ windowSize) {h h' : Hit σ}
    (hh : h ∈ longHits T c a w text windows n) (hh' : h' ∈ firstHits T c a w text ++ laterHits T c a w text)
    (hid : h'.id = h.id) : h.tier ≤ h'.tier := by
  have hsep : Separates (Hit.rank T) (cutHits T c a w text n ++
      (wideHits T c a w text windows n ++ fuzzyHits T c a w text windows n)) :=
    separates_rank (stored_cutHits.append (stored_wideHits.append stored_fuzzyHits))
  have hbest := hh
  rw [longHits_eq hlong] at hbest
  have hmin := ((mem_best hsep).mp (List.mem_of_mem_take hbest)).2
  rcases List.mem_append.mp hh' with hfirst | hlater
  · rcases mem_longHits hlong hh with hcut | hrest
    · have htake : h ∈ (best (Hit.rank T) (Hit.id σ) (firstHits T c a w text)).take n := by
        have hfilter : h ∈ (longHits T c a w text windows n).filter fun h => decide (h.tier ≤ 3) :=
          List.mem_filter.mpr ⟨hh, decide_eq_true (tier_of_mem_cutHits hcut)⟩
        rwa [longHits_first hlong] at hfilter
      have hall := ((mem_best (separates_rank stored_firstHits)).mp (List.mem_of_mem_take htake)).2
      exact tier_le_of_rank (hall h' hfirst hid)
    · have hlt : (headHits T c a w text n).length < n := by
        rcases hrest with hwide | hfuzzy
        · exact asked_of_mem_wideHits hwide
        · exact lt_of_le_of_lt length_head_le_strong (asked_of_mem_fuzzyHits hfuzzy)
      exact tier_le_of_rank (hmin h' (List.mem_append_left _ (firstHits_subset hlong hlt hfirst)) hid)
  · have hfour := tier_of_mem_laterHits hlater
    rcases mem_longHits hlong hh with hcut | hwide | hfuzzy
    · exact (tier_of_mem_cutHits hcut).trans (by omega)
    · rw [tier_of_mem_wideHits hwide]
      exact hfour
    · rw [laterHits, if_neg (by rw [hlong]; decide)] at hlater
      rcases List.mem_append.mp hlater with hlater | hlater
      · have hmem := wideHits_all hn (asked_of_mem_fuzzyHits hfuzzy) hlater
        exact tier_le_of_rank (hmin h' (List.mem_append_right _ (List.mem_append_left _ hmem)) hid)
      · have hfive : h'.tier = 5 := (List.mem_append.mp hlater).elim tier_of_mem_hits tier_of_mem_hits
        rw [tier_of_mem_fuzzyHits hfuzzy, hfive]

/-- What is answered is found by some branch that is not cut. -/
theorem longHits_found (hlong : isShort text = false) {h : Hit σ} (hh : h ∈ longHits T c a w text windows n) :
    h ∈ firstHits T c a w text ++ laterHits T c a w text := by
  have hselect {field : Bookmark → String} {asked : Bool} {b : Bookmark}
      (hb : b ∈ selected c a w fun b => resembles T text (field b) && asked) :
      b ∈ selected c a w fun b => resembles T text (field b) && true := by
    obtain ⟨hmem, hsearch, hasks⟩ := mem_selected.mp hb
    rw [Bool.and_eq_true] at hasks
    exact mem_selected.mpr ⟨hmem, hsearch, by rw [hasks.1]; rfl⟩
  rw [List.mem_append]
  rcases mem_longHits hlong hh with hcut | hwide | hfuzzy
  · exact .inl (covers_cutHits.subset hcut)
  · refine .inr ?_
    rw [laterHits, if_neg (by rw [hlong]; decide)]
    have hasked := decide_eq_true (asked_of_mem_wideHits hwide)
    rw [wideHits, hasked] at hwide
    obtain ⟨b, hb, rfl⟩ := mem_hits.mp hwide
    exact List.mem_append_left _ (mem_hits.mpr ⟨b, (windows.wide.subperm _).subset (mem_of_mem_top hb), rfl⟩)
  · refine .inr ?_
    rw [laterHits, if_neg (by rw [hlong]; decide)]
    refine List.mem_append_right _ ?_
    rcases List.mem_append.mp hfuzzy with hfuzzy | hfuzzy
    · obtain ⟨b, hb, rfl⟩ := mem_hits.mp hfuzzy
      exact List.mem_append_left _ (mem_hits.mpr ⟨b, hselect ((windows.title.subperm _).subset hb), rfl⟩)
    · obtain ⟨b, hb, rfl⟩ := mem_hits.mp hfuzzy
      exact List.mem_append_right _ (mem_hits.mpr ⟨b, hselect ((windows.host.subperm _).subset hb), rfl⟩)

/-! ## Suggestions -/

theorem mem_goSuggestOwn {slugPrefix : String} {r : Bookmark × Access} (hr : r ∈ goSuggestOwn c a w slugPrefix) :
    r.1 ∈ c.bookmarks ∧ r.1.ownerId = some a ∧ r.2 = .owner := by
  obtain ⟨b, hb, rfl⟩ := List.mem_map.mp hr
  obtain ⟨hmem, hasks⟩ := List.mem_filter.mp hb
  simp only [Bool.and_eq_true, sqlEq_some, decide_eq_true_eq] at hasks
  exact ⟨hmem, hasks.1.2, rfl⟩

theorem mem_goSuggestShared {slugPrefix : String} {r : Bookmark × Access} (hr : r ∈ goSuggestShared c a w slugPrefix) :
    r.1 ∈ c.bookmarks ∧ r.1.workspaceId = w ∧ r.1.ownerId ≠ some a ∧
      ∃ via, (r.1.id, via) ∈ goSuggestVia c a w ∧ r.2 = .shared via := by
  obtain ⟨⟨id, via⟩, hvia, hr⟩ := List.mem_flatMap.mp hr
  obtain ⟨b, hb, rfl⟩ := List.mem_map.mp hr
  obtain ⟨hmem, hasks⟩ := List.mem_filter.mp hb
  simp only [Bool.and_eq_true, decide_eq_true_eq] at hasks
  obtain ⟨⟨⟨hw, hid⟩, _⟩, hown⟩ := hasks
  exact ⟨hmem, hw, hown, via, hid ▸ hvia, rfl⟩

theorem goSuggestOwn_keys (slugPrefix : String) :
    (goSuggestOwn c a w slugPrefix).Pairwise fun r r' => r.1.id ≠ r'.1.id :=
  List.pairwise_map.mpr ((List.pairwise_map.mp c.bookmarks.keyed).filter _)

theorem goSuggestShared_keys (slugPrefix : String) :
    (goSuggestShared c a w slugPrefix).Pairwise fun r r' => r.1.id ≠ r'.1.id := by
  refine List.pairwise_flatMap.mpr ⟨fun v _ => ?_, ?_⟩
  · exact List.pairwise_map.mpr ((List.pairwise_map.mp c.bookmarks.keyed).filter _)
  · have hids : (goSuggestVia c a w).Pairwise fun v v' => v.1 ≠ v'.1 := distinctOn_pairwise _
    refine hids.imp fun hne r hr r' hr' heq => hne ?_
    obtain ⟨b, hb, rfl⟩ := List.mem_map.mp hr
    obtain ⟨b', hb', rfl⟩ := List.mem_map.mp hr'
    have hid := (List.mem_filter.mp hb).2
    have hid' := (List.mem_filter.mp hb').2
    simp only [Bool.and_eq_true, decide_eq_true_eq] at hid hid'
    exact hid.1.1.2.symm.trans (heq.trans hid'.1.1.2)

theorem goSuggestReadable_keys (slugPrefix : String) :
    (goSuggestReadable c a w slugPrefix).Pairwise fun r r' => r.1.id ≠ r'.1.id := by
  refine List.pairwise_append.mpr ⟨goSuggestOwn_keys _, goSuggestShared_keys _, fun r hr r' hr' heq => ?_⟩
  obtain ⟨hmem, hown, _⟩ := mem_goSuggestOwn hr
  obtain ⟨hmem', _, hother, _⟩ := mem_goSuggestShared hr'
  have hb : r.1 = r'.1 := Table.eq_of_key hmem hmem' heq
  exact hother (hb ▸ hown)

theorem separates_suggestOrder (slugPrefix : String) : Separates suggestOrder (goSuggestReadable c a w slugPrefix) := by
  intro r hr r' hr' heq
  have hnodup : ((goSuggestReadable c a w slugPrefix).map fun r => r.1.id).Nodup :=
    List.pairwise_map.mpr (goSuggestReadable_keys slugPrefix)
  simp only [suggestOrder, slugOrder, EmbeddingLike.apply_eq_iff_eq, Prod.mk.injEq] at heq
  exact List.inj_on_of_nodup_map hnodup hr hr' heq.2.2

theorem top_slugOrder {l : List (Bookmark × Access)} (h : ∀ r ∈ l, ∀ r' ∈ l, decide (r.2 ≠ .owner) = decide (r'.2 ≠ .owner)) :
    top slugOrder n l = top suggestOrder n l := by
  have horder : ranked slugOrder l = ranked suggestOrder l := by
    refine ranked_congr fun r hr r' hr' => ?_
    rw [suggestOrder, suggestOrder, Prod.Lex.toLex_le_toLex, h r hr r' hr']
    simp
  rw [top, top, horder]

/-- **The suggestions are the first of all**: the own and the shared bookmarks in one order, cut once. -/
theorem goSuggest_full (slugPrefix : String) :
    (ranked suggestOrder (top slugOrder n (goSuggestOwn c a w slugPrefix) ++
      top slugOrder n (goSuggestShared c a w slugPrefix))).take n =
      (ranked suggestOrder (goSuggestReadable c a w slugPrefix)).take n := by
  have hflatten : [goSuggestOwn c a w slugPrefix, goSuggestShared c a w slugPrefix].flatten =
      goSuggestReadable c a w slugPrefix := by
    rw [List.flatten_cons, List.flatten_cons, List.flatten_nil, List.append_nil, goSuggestReadable]
  have hbranches : ∀ branch ∈ [goSuggestOwn c a w slugPrefix, goSuggestShared c a w slugPrefix],
      branch.Pairwise fun r r' => r.1.id ≠ r'.1.id := by
    intro branch hbranch
    rcases List.mem_pair.mp hbranch with rfl | rfl
    · exact goSuggestOwn_keys _
    · exact goSuggestShared_keys _
  have hcut : (best suggestOrder (fun r : Bookmark × Access => r.1.id)
      (([goSuggestOwn c a w slugPrefix, goSuggestShared c a w slugPrefix].map (top suggestOrder n)).flatten)).take n =
      (best suggestOrder (fun r : Bookmark × Access => r.1.id)
        [goSuggestOwn c a w slugPrefix, goSuggestShared c a w slugPrefix].flatten).take n :=
    take_best_cut (by rw [hflatten]; exact separates_suggestOrder slugPrefix) hbranches
  rw [hflatten] at hcut
  simp only [List.map_cons, List.map_nil, List.flatten_cons, List.flatten_nil, List.append_nil] at hcut
  have hown : top slugOrder n (goSuggestOwn c a w slugPrefix) = top suggestOrder n (goSuggestOwn c a w slugPrefix) :=
    top_slugOrder fun r hr r' hr' => by rw [(mem_goSuggestOwn hr).2.2, (mem_goSuggestOwn hr').2.2]
  have hshared : top slugOrder n (goSuggestShared c a w slugPrefix) =
      top suggestOrder n (goSuggestShared c a w slugPrefix) := by
    refine top_slugOrder fun r hr r' hr' => ?_
    obtain ⟨_, _, _, via, _, hvia⟩ := mem_goSuggestShared hr
    obtain ⟨_, _, _, via', _, hvia'⟩ := mem_goSuggestShared hr'
    rw [hvia, hvia']
    rfl
  have hkeys : (top suggestOrder n (goSuggestOwn c a w slugPrefix) ++
      top suggestOrder n (goSuggestShared c a w slugPrefix)).Pairwise fun r r' => r.1.id ≠ r'.1.id := by
    have hall := List.pairwise_append.mp (goSuggestReadable_keys (c := c) (a := a) (w := w) slugPrefix)
    have htop {l : List (Bookmark × Access)} (h : l.Pairwise fun r r' => r.1.id ≠ r'.1.id) :
        (top suggestOrder n l).Pairwise fun r r' => r.1.id ≠ r'.1.id :=
      (((ranked_perm l).pairwise_iff fun h => h.symm).mpr h).sublist (List.take_sublist _ _)
    exact List.pairwise_append.mpr ⟨htop hall.1, htop hall.2.1, fun r hr r' hr' =>
      hall.2.2 r (mem_of_mem_top hr) r' (mem_of_mem_top hr')⟩
  rw [hown, hshared, ← best_of_keys hkeys, hcut, best_of_keys (goSuggestReadable_keys slugPrefix)]

/-- A suggestion carries the best route of its bookmark. -/
theorem goSuggestReadable_access {slugPrefix : String} {r : Bookmark × Access}
    (hr : r ∈ goSuggestReadable c a w slugPrefix) : bookmarkAccessOf c a r.1 = some r.2 := by
  rcases List.mem_append.mp hr with hr | hr
  · obtain ⟨_, hown, haccess⟩ := mem_goSuggestOwn hr
    rw [bookmarkAccessOf, if_pos (by simpa using hown), haccess]
  · obtain ⟨_, hw, hother, via, hvia, haccess⟩ := mem_goSuggestShared hr
    have hlist : goSuggestVia c a w = sharedViaOf c a r.1.workspaceId ((grantsTo c a w).map Prod.fst) := by
      rw [goSuggestVia_eq, sharedViaOf, hw, List.filter_eq_self.mpr]
      exact fun g hg => decide_eq_true (List.mem_map_of_mem hg)
    have hid : r.1.id ∈ (grantsTo c a w).map Prod.fst := by
      have hmem := mem_of_mem_distinctOn (goSuggestVia_eq ▸ hvia)
      exact List.mem_map.mpr ⟨_, (List.mem_insertionSort viaOrder).mp hmem, rfl⟩
    rw [haccess]
    exact (sharedViaOf_eq_accessOf hid hother).mp (hlist ▸ hvia)

end

/-! ## The three statements -/

section

variable {κ σ : Type} [LinearOrder κ] [LinearOrder σ] (T : TextSearch κ σ) (c : Content) (s : Session)
  (query : Option String)

/-- The hits of the slug, slug-prefix and title tiers for a session, no branch cut. -/
def firstTiers : List (Hit σ) :=
  match s.appWorkspaceId, s.appAccountId with
  | some w, some a => if searchText T query = "" then [] else firstHits T c a w (searchText T query)
  | _, _ => []

/-- The hits of every tier for a session, no branch cut. -/
def everyTier : List (Hit σ) :=
  match s.appWorkspaceId, s.appAccountId with
  | some w, some a =>
    if searchText T query = "" then []
    else firstHits T c a w (searchText T query) ++ laterHits T c a w (searchText T query)
  | _, _ => []

/-- The bookmarks that can be suggested to a session, none cut. -/
def everySuggestion : List (Bookmark × Access) :=
  match s.appWorkspaceId, s.appAccountId with
  | some w, some a => if suggestText T query = "" then [] else goSuggestReadable c a w (suggestText T query)
  | _, _ => []

end

section

variable {κ σ : Type} [LinearOrder κ] [LinearOrder σ] {T : TextSearch κ σ} {windows : Windows} {c : Content}
  {s : Session} {w a : Uuid} {query : Option String} {limit : Option ℤ}

theorem searchLimit_le : searchLimit limit ≤ windowSize := by
  simp only [searchLimit, windowSize]
  omega

variable (T windows c query limit) in
theorem searchHits_cases (hw : s.appWorkspaceId = some w) (ha : s.appAccountId = some a) :
    searchHits T c windows s query limit = [] ∧ (searchText T query = "" ∨ searchLimit limit = 0) ∨
    searchText T query ≠ "" ∧ isShort (searchText T query) = true ∧
      searchHits T c windows s query limit = shortHits T c a w (searchText T query) (searchLimit limit) ∨
    searchText T query ≠ "" ∧ isShort (searchText T query) = false ∧
      searchHits T c windows s query limit = longHits T c a w (searchText T query) windows (searchLimit limit) := by
  simp only [searchHits, hw, ha]
  split_ifs with hempty hshort
  · exact .inl ⟨rfl, hempty⟩
  · exact .inr (.inl ⟨(not_or.mp hempty).1, hshort, rfl⟩)
  · exact .inr (.inr ⟨(not_or.mp hempty).1, by simpa using hshort, rfl⟩)

theorem firstTiers_eq (hw : s.appWorkspaceId = some w) (ha : s.appAccountId = some a)
    (htext : searchText T query ≠ "") : firstTiers T c s query = firstHits T c a w (searchText T query) := by
  simp only [firstTiers, hw, ha, if_neg htext]

theorem everyTier_eq (hw : s.appWorkspaceId = some w) (ha : s.appAccountId = some a)
    (htext : searchText T query ≠ "") :
    everyTier T c s query = firstHits T c a w (searchText T query) ++ laterHits T c a w (searchText T query) := by
  simp only [everyTier, hw, ha, if_neg htext]

theorem searchHits_first (hw : s.appWorkspaceId = some w) (ha : s.appAccountId = some a) :
    ((searchHits T c windows s query limit).filter fun h => decide (h.tier ≤ 3)) =
      (best (Hit.rank T) (Hit.id σ) (firstTiers T c s query)).take (searchLimit limit) := by
  rcases searchHits_cases T windows c query limit hw ha with
    ⟨hnil, htext | hzero⟩ | ⟨htext, hshort, heq⟩ | ⟨htext, hlong, heq⟩
  · have hfirst : firstTiers T c s query = [] := by simp only [firstTiers, hw, ha, if_pos htext]
    have hbest : best (Hit.rank T) (Hit.id σ) [] = [] := rfl
    rw [hnil, hfirst, hbest, List.take_nil, List.filter_nil]
  · rw [hnil, hzero]
    rfl
  · rw [heq, firstTiers_eq hw ha htext, shortHits_eq hshort, List.filter_eq_self]
    intro h hh
    exact decide_eq_true (tier_of_mem_firstHits (mem_of_mem_best (List.mem_of_mem_take hh)))
  · rw [heq, firstTiers_eq hw ha htext, longHits_first hlong]

theorem searchHits_ids (hw : s.appWorkspaceId = some w) (ha : s.appAccountId = some a) :
    ((searchHits T c windows s query limit).map (Hit.id σ)).Nodup := by
  rcases searchHits_cases T windows c query limit hw ha with
    ⟨hnil, _⟩ | ⟨_, hshort, heq⟩ | ⟨_, hlong, heq⟩
  · rw [hnil]
    exact List.nodup_nil
  · rw [heq, shortHits_eq hshort]
    exact List.pairwise_map.mpr ((best_keys _).sublist (List.take_sublist _ _))
  · rw [heq, longHits_eq hlong]
    exact List.pairwise_map.mpr ((best_keys _).sublist (List.take_sublist _ _))

theorem searchHits_bestTier (hw : s.appWorkspaceId = some w) (ha : s.appAccountId = some a) :
    ∀ h ∈ searchHits T c windows s query limit, h ∈ everyTier T c s query ∧
      ∀ h' ∈ everyTier T c s query, h'.id = h.id → h.tier ≤ h'.tier := by
  intro h hh
  rcases searchHits_cases T windows c query limit hw ha with
    ⟨hnil, _⟩ | ⟨htext, hshort, heq⟩ | ⟨htext, hlong, heq⟩
  · rw [hnil] at hh
    cases hh
  · have hlater : laterHits T c a w (searchText T query) = [] := by rw [laterHits, if_pos hshort]
    rw [heq, shortHits_eq hshort] at hh
    rw [everyTier_eq hw ha htext, hlater, List.append_nil]
    obtain ⟨hmem, hmin⟩ := (mem_best (separates_rank stored_firstHits)).mp (List.mem_of_mem_take hh)
    exact ⟨hmem, fun h' hh' hid => tier_le_of_rank (hmin h' hh' hid)⟩
  · rw [heq] at hh
    rw [everyTier_eq hw ha htext]
    exact ⟨longHits_found hlong hh, fun h' hh' hid => longHits_bestTier hlong searchLimit_le hh hh' hid⟩

theorem searchHits_matched (hw : s.appWorkspaceId = some w) (ha : s.appAccountId = some a) :
    ∀ h ∈ searchHits T c windows s query limit, h.tier ≤ 4 → h.id ∈ sysBookmarkMatch T c s query := by
  intro h hh htier
  rcases searchHits_cases T windows c query limit hw ha with
    ⟨hnil, _⟩ | ⟨htext, hshort, heq⟩ | ⟨htext, hlong, heq⟩
  · rw [hnil] at hh
    cases hh
  · rw [heq] at hh
    simp only [sysBookmarkMatch, hw, ha, if_neg htext, if_pos hshort]
    exact shortHits_matched hshort hh
  · rw [heq] at hh
    simp only [sysBookmarkMatch, hw, ha, if_neg htext, hlong]
    exact List.mem_append_left _ (longHits_matched hlong hh htier)

end

/-- **Cutting before joining is exact.** The search answers in its first three tiers the first rows of the
whole ranked union, each bookmark once and in its best tier, and what it answers before the fuzzy tier is
a match of the list; the suggestions are the first of all of them, each with its best route. -/
theorem search_cut_exact {κ σ : Type} [LinearOrder κ] [LinearOrder σ] (T : TextSearch κ σ) (windows : Windows)
    (c : Content) (displayName : Uuid → Option String) (s : Session) (query : Option String) (limit : Option ℤ) :
    ((searchHits T c windows s query limit).filter fun h => decide (h.tier ≤ 3)) =
      (best (Hit.rank T) (Hit.id σ) (firstTiers T c s query)).take (searchLimit limit) ∧
    ((sysSearch T c windows s query limit).map SearchRow.id).Nodup ∧
    (∀ h ∈ searchHits T c windows s query limit, h ∈ everyTier T c s query ∧
      ∀ h' ∈ everyTier T c s query, h'.id = h.id → h.tier ≤ h'.tier) ∧
    (∀ h ∈ searchHits T c windows s query limit, h.tier ≤ 4 → h.id ∈ sysBookmarkMatch T c s query) ∧
    sysGoSuggest T c displayName s query =
      ((ranked suggestOrder (everySuggestion T c s query)).take suggestLimit).map (suggestionRow displayName) ∧
    (∀ r ∈ goSuggestHits T c s query, ∀ a, s.appAccountId = some a → bookmarkAccessOf c a r.1 = some r.2) := by
  cases hw : s.appWorkspaceId with
  | none => simp [sysSearch, sysGoSuggest, searchHits, firstTiers, goSuggestHits, everySuggestion, hw, best, ranked, distinctOn]
  | some w =>
    cases ha : s.appAccountId with
    | none => simp [sysSearch, sysGoSuggest, searchHits, firstTiers, goSuggestHits, everySuggestion, hw, ha, best, ranked, distinctOn]
    | some a =>
      refine ⟨?_, ?_, ?_, ?_, ?_, ?_⟩
      · exact searchHits_first hw ha
      · rw [sysSearch, List.map_map]
        exact searchHits_ids hw ha
      · exact searchHits_bestTier hw ha
      · exact searchHits_matched hw ha
      · simp only [sysGoSuggest, goSuggestHits, everySuggestion, hw, ha]
        split_ifs
        · rfl
        · rw [goSuggest_full]
      · intro r hr a' ha'
        obtain rfl := Option.some.inj ha'
        simp only [goSuggestHits, hw, ha] at hr
        split_ifs at hr
        · cases hr
        · rw [goSuggest_full] at hr
          exact goSuggestReadable_access (mem_ranked.mp (List.mem_of_mem_take hr))

/-- The text functions of a database, of small ASCII texts. -/
def plainTexts : TextSearch ℕ ℕ where
  lower text := text.map Char.toLower
  isSpace c := c == ' '
  collate text := text.length
  ilikePrefix text title := text.toList.isPrefixOf (title.toList.map Char.toLower)
  lexemes text := (text.toList.splitOn ' ').map fun word => String.ofList (word.map Char.toLower)
  zero := 0
  tsRankCd _ _ := 1
  wordSimilarity text field := if text = field then 1 else 0
  threshold := 1

/-- Account 7, in the workspace of the bookmark that two routes reach. -/
def searching : Session where
  appWorkspaceId := some 1
  appAccountId := some 7

theorem search_cut_exact_overlapping :
    (searchHits plainTexts overlappingGrants ⟨.stored, .stored, .stored⟩ searching (some "Exam") (some 10)).map
      (fun h => (h.id, h.tier)) = [(10, 2)] ∧
    ((searchHits plainTexts overlappingGrants ⟨.stored, .stored, .stored⟩ searching (some "Exam") (some 10)).filter
      fun h => decide (h.tier ≤ 3)) =
      (best (Hit.rank plainTexts) (Hit.id ℕ) (firstTiers plainTexts overlappingGrants searching (some "Exam"))).take
        (searchLimit (some 10)) :=
  ⟨by decide +kernel,
    (search_cut_exact plainTexts ⟨.stored, .stored, .stored⟩ overlappingGrants (fun _ => none) searching (some "Exam") (some 10)).1⟩

end SlugBase.Search
