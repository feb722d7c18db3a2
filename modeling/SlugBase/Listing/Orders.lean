import SlugBase.Listing.Page

/-!
# The orders of the list

* `rank_lt_iff`, `separates_order`: the order of a sort, which tells the bookmarks of a store apart;
* **`afterPosition_iff`**: the position of a bookmark selects the bookmarks after it;
* `requireKey_position`: the position of a bookmark carries the key its sort asks for.
-/

set_option linter.unusedSectionVars false

namespace SlugBase.Listing

open Relational Bulk

variable {κ σ : Type} [LinearOrder κ] [LinearOrder σ] {T : SortTexts κ σ} {c : Content} {b p : Bookmark}
  {sort : BookmarkSort} {o : SortOrder κ}

theorem rank_lt_iff :
    o.rank p < o.rank b ↔ if o.descending = true then o.place b < o.place p else o.place p < o.place b := by
  unfold SortOrder.rank
  split_ifs with h
  · rw [Sum.Lex.inr_lt_inr_iff, OrderDual.toDual_lt_toDual]
  · rw [Sum.Lex.inl_lt_inl_iff]

theorem place_lt_some {v v' : ℕ ⊕ₗ κ} (hp : o.column p = some v) (hb : o.column b = some v') :
    o.place p < o.place b ↔ v < v' ∨ v = v' ∧ p.id < b.id := by
  rw [SortOrder.place, SortOrder.place, hp, hb, Prod.Lex.toLex_lt_toLex]
  simp [valueOf, Prod.Lex.toLex_lt_toLex]

theorem place_lt_none (hp : o.column p = none) (hb : o.column b = none) : o.place p < o.place b ↔ p.id < b.id := by
  rw [SortOrder.place, SortOrder.place, hp, hb, Prod.Lex.toLex_lt_toLex]
  simp [valueOf, Prod.Lex.toLex_lt_toLex]

theorem place_lt_null {v : ℕ ⊕ₗ κ} (h : o.descending ≠ o.nullsFirst) (hp : o.column p = none)
    (hb : o.column b = some v) : o.place p < o.place b := by
  rw [SortOrder.place, SortOrder.place, hp, hb, Prod.Lex.toLex_lt_toLex, if_neg h, if_neg h]
  exact .inl rfl

theorem separates_order {l : List Bookmark} (hl : ∀ b ∈ l, b ∈ c.bookmarks) : Separates o.rank l := by
  intro x hx y hy heq
  have hplace : o.place x = o.place y := by
    unfold SortOrder.rank at heq
    split_ifs at heq with h
    · exact OrderDual.toDual_inj.mp (Sum.inr_injective (toLex_inj.mp heq))
    · exact Sum.inl_injective (toLex_inj.mp heq)
  simp only [SortOrder.place, EmbeddingLike.apply_eq_iff_eq, Prod.mk.injEq] at hplace
  exact Table.eq_of_key (hl x hx) (hl y hy) hplace.2.2

/-- The position of a bookmark in the order of a sort. -/
def positionOf (T : SortTexts κ σ) (sort : BookmarkSort) (b : Bookmark) : Position := ⟨(sortOrders T sort).key b, b.id⟩

theorem cast_key (sort : BookmarkSort) (b : Bookmark) :
    ((sortOrders T sort).key b).map (sortOrders T sort).cast = (sortOrders T sort).column b := by
  cases sort with
  | recent => simp [sortOrders, T.readTimestamp_text]
  | oldest => simp [sortOrders, T.readTimestamp_text]
  | titleAsc => rfl
  | titleDesc => rfl
  | mostUsed => simp [sortOrders, T.readBigint_text]
  | recentlyOpened =>
    simp only [sortOrders, Option.map_map]
    refine congrArg (fun f => b.lastOpenedAt.map f) (funext fun t => ?_)
    exact congrArg Sum.inlₗ (T.readTimestamp_text t)

theorem column_isSome (hsort : sort ≠ .recentlyOpened) (b : Bookmark) :
    ((sortOrders T sort).column b).isSome = true := by
  cases sort with
  | recentlyOpened => exact absurd rfl hsort
  | recent => rfl
  | oldest => rfl
  | titleAsc => rfl
  | titleDesc => rfl
  | mostUsed => rfl

theorem requireKey_position (filter : BookmarkListFilter) (limit : ℕ) :
    requireKey ⟨filter, sort, some (positionOf T sort p), limit⟩ = .ok () := by
  refine if_neg fun h => ?_
  have hsome := column_isSome (T := T) h.1 p
  rw [← cast_key, Option.isSome_map] at hsome
  have hnone := h.2
  rw [Option.any_some, positionOf] at hnone
  cases hkey : (sortOrders T sort).key p with
  | none => simp [hkey] at hsome
  | some key => simp [hkey] at hnone

theorem rowComparison_iff {v v' : ℕ ⊕ₗ κ} (hp : o.column p = some v') (hb : o.column b = some v) :
    rowComparison o.descending (o.column b) b.id v' p.id = true ↔ o.rank p < o.rank b := by
  rw [rank_lt_iff, rowComparison, hb, Option.any_some]
  split_ifs with h
  · rw [place_lt_some hb hp, decide_eq_true_eq]
  · rw [place_lt_some hp hb, decide_eq_true_eq, eq_comm]

theorem afterPosition_recentlyOpened :
    afterPosition T .recentlyOpened (positionOf T .recentlyOpened p) b = true ↔
      (sortOrders T .recentlyOpened).rank p < (sortOrders T .recentlyOpened).rank b := by
  have hdesc : (sortOrders T .recentlyOpened).descending = true := rfl
  have hnulls : (sortOrders T .recentlyOpened).descending ≠ (sortOrders T .recentlyOpened).nullsFirst := by
    intro h
    cases h
  have hkey := cast_key (T := T) .recentlyOpened p
  cases hp : (sortOrders T .recentlyOpened).key p with
  | none =>
    rw [hp] at hkey
    simp only [afterPosition, positionOf, hp, if_true, Bool.and_eq_true, Option.isNone_iff_eq_none, decide_eq_true_eq]
    rw [rank_lt_iff, if_pos hdesc]
    cases hb : (sortOrders T .recentlyOpened).column b with
    | none => simp [place_lt_none hb hkey.symm]
    | some v =>
      have hlt : ¬ _ := not_lt_of_gt (place_lt_null hnulls hkey.symm hb)
      simp [hlt]
  | some key =>
    rw [hp] at hkey
    simp only [afterPosition, positionOf, hp, if_true, Bool.or_eq_true, Option.isNone_iff_eq_none]
    cases hb : (sortOrders T .recentlyOpened).column b with
    | none =>
      have hlt := place_lt_null hnulls hb hkey.symm
      rw [rank_lt_iff, if_pos hdesc]
      exact iff_of_true (.inr rfl) hlt
    | some v =>
      have hrow := rowComparison_iff hkey.symm hb
      rw [hdesc, hb] at hrow
      rw [hrow, or_iff_left (fun h => Option.some_ne_none v h)]

/-- **The position of a bookmark selects the bookmarks after it.** -/
theorem afterPosition_iff :
    afterPosition T sort (positionOf T sort p) b = true ↔
      (sortOrders T sort).rank p < (sortOrders T sort).rank b := by
  by_cases hsort : sort = .recentlyOpened
  · subst hsort
    exact afterPosition_recentlyOpened
  · obtain ⟨v, hb⟩ := Option.isSome_iff_exists.mp (column_isSome (T := T) hsort b)
    obtain ⟨v', hp⟩ := Option.isSome_iff_exists.mp (column_isSome (T := T) hsort p)
    have hkey := cast_key (T := T) sort p
    rw [hp] at hkey
    obtain ⟨key, htext, rfl⟩ := Option.map_eq_some_iff.mp hkey
    rw [← rowComparison_iff hp hb]
    simp only [afterPosition, positionOf, htext, if_neg hsort]

end SlugBase.Listing
