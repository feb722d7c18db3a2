import SlugBase.Lib.Ranked

/-!
# Keyset pages

A list in pages: each page starts behind the last row of the one before it, which a cursor names.

* `KeysetPage`, `cut`: a page, cut from one row more than it holds; `follow`: the pages from a cursor on;
* `Resumes`: the cursor of a row asks for the rows after it;
* **`Resumes.follow`**, **`Resumes.walksAll`**: the pages end, and together they are the whole list in its order.
-/

namespace Relational

universe u v

/-- A page: its rows, and the cursor of the next when another one follows. -/
structure KeysetPage (α : Type u) (τ : Type v) where
  items : List α
  nextCursor : Option τ

section

variable {α : Type u} {τ : Type v}

/-- The page of `limit` rows when one more has been asked for. -/
def cut (token : α → τ) (limit : ℕ) (fetched : List α) : KeysetPage α τ :=
  ⟨fetched.take limit, if limit < fetched.length then (fetched.take limit).getLast?.map token else none⟩

theorem cut_nil (token : α → τ) (limit : ℕ) : cut token limit [] = ⟨[], none⟩ := by
  rw [cut, List.take_nil, List.length_nil, if_neg (Nat.not_lt_zero limit)]

/-- The pages from a cursor on; none when a cursor is refused, or when `n` pages are not all. -/
def follow (list : Option τ → Option (KeysetPage α τ)) : ℕ → Option τ → Option (List (List α))
  | 0, _ => none
  | n + 1, cursor => (list cursor).bind fun page =>
    match page.nextCursor with
    | none => some [page.items]
    | some next => (follow list n (some next)).map (page.items :: ·)

end

variable {α : Type u} {τ : Type v} {ρ : Type*} [LinearOrder ρ] {rank : α → ρ} {token : α → τ} {limit : ℕ} {rows sub : List α}
  {list : Option τ → Option (KeysetPage α τ)} {cursor : Option τ}

/-- The rows after one of them. -/
def rowsAfter (rank : α → ρ) (rows : List α) (x : α) : List α := rows.filter fun y => decide (rank x < rank y)

/-- The first page starts at the first row, and the cursor of a row behind it. -/
structure Resumes (rank : α → ρ) (token : α → τ) (limit : ℕ) (rows : List α)
    (list : Option τ → Option (KeysetPage α τ)) : Prop where
  first : list none = some (cut token limit (top rank (limit + 1) rows))
  after : ∀ x ∈ rows, list (some (token x)) = some (cut token limit (top rank (limit + 1) (rowsAfter rank rows x)))

theorem rowsAfter_rowsAfter {x y : α} (hx : y ∈ rowsAfter rank sub x) :
    rowsAfter rank (rowsAfter rank sub x) y = rowsAfter rank sub y := by
  have hlt := of_decide_eq_true (List.mem_filter.mp hx).2
  rw [rowsAfter, rowsAfter, List.filter_filter]
  refine List.filter_congr fun z _ => ?_
  rw [Bool.and_eq_left_iff_imp]
  exact fun h => decide_eq_true (hlt.trans (of_decide_eq_true h))

theorem ranked_rowsAfter {before rest : List α} {x : α} (hsep : Separates rank sub) (hnodup : sub.Nodup)
    (hsplit : ranked rank sub = before ++ x :: rest) : ranked rank (rowsAfter rank sub x) = rest := by
  have hstrict := ranked_strict hsep hnodup
  rw [rowsAfter, ranked_filter hsep hnodup, hsplit]
  rw [hsplit] at hstrict
  exact filter_after hstrict

/-- From a cursor that asks for `sub`, the pages are `sub` in its order. -/
theorem follow_rest (hlimit : 0 < limit) {n : ℕ} :
    ∀ {sub : List α} {cursor : Option τ}, Separates rank sub → sub.Nodup →
      list cursor = some (cut token limit (top rank (limit + 1) sub)) →
      (∀ x ∈ sub, list (some (token x)) = some (cut token limit (top rank (limit + 1) (rowsAfter rank sub x)))) →
      sub.length < n → ∃ pages, follow list n cursor = some pages ∧ pages.flatten = ranked rank sub := by
  induction n with
  | zero => exact fun _ _ _ _ hlength => absurd hlength (Nat.not_lt_zero _)
  | succ n ih =>
    intro sub cursor hsep hnodup hlist hafter hlength
    have htake : (top rank (limit + 1) sub).take limit = (ranked rank sub).take limit := by
      rw [top, List.take_take, min_eq_left (Nat.le_succ _)]
    rw [follow, hlist, Option.bind_some, cut, htake, length_top]
    by_cases hmore : limit < sub.length
    · -- another row follows the page: the next one starts behind the last row of this one
      have hne : (ranked rank sub).take limit ≠ [] := by
        refine List.ne_nil_of_length_pos ?_
        rw [List.length_take, length_ranked]
        omega
      obtain ⟨before, x, hbefore⟩ : ∃ before x, (ranked rank sub).take limit = before ++ [x] :=
        ⟨_, _, (List.dropLast_append_getLast hne).symm⟩
      have hsplit : ranked rank sub = before ++ x :: (ranked rank sub).drop limit := by
        have hall := List.take_append_drop limit (ranked rank sub)
        rw [hbefore, List.append_assoc, List.singleton_append] at hall
        exact hall.symm
      have hx : x ∈ sub := by
        have hmem : x ∈ ranked rank sub := hsplit ▸ List.mem_append_right _ List.mem_cons_self
        exact mem_ranked.mp hmem
      have hrest := ranked_rowsAfter hsep hnodup hsplit
      have hfewer : (rowsAfter rank sub x).length < n := by
        have hlengths : (ranked rank (rowsAfter rank sub x)).length = sub.length - limit := by
          rw [hrest, List.length_drop, length_ranked]
        rw [length_ranked] at hlengths
        omega
      have hsepRest : Separates rank (rowsAfter rank sub x) := hsep.mono List.filter_sublist.subset
      have hnodupRest : (rowsAfter rank sub x).Nodup := hnodup.filter _
      have hafterRest : ∀ y ∈ rowsAfter rank sub x, list (some (token y)) =
          some (cut token limit (top rank (limit + 1) (rowsAfter rank (rowsAfter rank sub x) y))) := by
        intro y hy
        rw [rowsAfter_rowsAfter hy]
        exact hafter y (List.mem_of_mem_filter hy)
      obtain ⟨pages, hpages, hflat⟩ := ih hsepRest hnodupRest (hafter x hx) hafterRest hfewer
      rw [if_pos (by omega), hbefore, List.getLast?_concat, Option.map_some]
      dsimp only
      rw [hpages, Option.map_some]
      refine ⟨_, rfl, ?_⟩
      rw [List.flatten_cons, hflat, hrest, ← hbefore, List.take_append_drop]
    · rw [if_neg (by omega)]
      refine ⟨_, rfl, ?_⟩
      rw [List.flatten_singleton, List.take_of_length_le (by rw [length_ranked]; omega)]

/-- **The pages of a list end, and together they are the whole list in its order.** -/
theorem Resumes.follow (h : Resumes rank token limit rows list) (hlimit : 0 < limit) (hsep : Separates rank rows)
    (hnodup : rows.Nodup) {n : ℕ} (hlength : rows.length < n) :
    ∃ pages, follow list n none = some pages ∧ pages.flatten = ranked rank rows :=
  follow_rest hlimit hsep hnodup h.first h.after hlength

/-- **The pages are the whole list**: they end, and together they hold each row once, in the order of the ranks. -/
def WalksAll (rank : α → ρ) (rows : List α) (list : Option τ → Option (KeysetPage α τ)) : Prop :=
  ∃ n pages, Relational.follow list n none = some pages ∧ pages.flatten.Perm rows ∧
    pages.flatten.Pairwise fun x y => rank x < rank y

theorem Resumes.walksAll (h : Resumes rank token limit rows list) (hlimit : 0 < limit) (hsep : Separates rank rows)
    (hnodup : rows.Nodup) : WalksAll rank rows list := by
  obtain ⟨pages, hpages, hflat⟩ := h.follow hlimit hsep hnodup (Nat.lt_succ_self rows.length)
  refine ⟨_, pages, hpages, ?_, ?_⟩
  · rw [hflat]
    exact ranked_perm rows
  · rw [hflat]
    exact ranked_strict hsep hnodup

end Relational
