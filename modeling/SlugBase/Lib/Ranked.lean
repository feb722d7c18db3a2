import SlugBase.Lib.Query
import Mathlib.Data.Finset.Card

/-!
# Ranked rows

Rows have a rank, which orders them, and a key; a query answers the best row of each key in order, cut
to a number of rows.

* `ranked`, `top`, `best`: the rows in order, the first of them, and the best row of each key;
* `below`: the number of keys that have a row before a given one; **`mem_take_best`**: a row is among
  the first `n` if and only if it is the best of its key and fewer than `n` keys come before it;
* `Covers`: a part of the rows that holds every row or `n` keys before it; `take_best_of_covers`;
* **`take_best_cut`**, **`top_union`**: cutting each branch before the branches are joined changes nothing;
* `filter_after`: the rows a page that resumes after a row reads.
-/

namespace Relational

universe u v v' w

section

variable {α : Type u} {ρ : Type v} {κ : Type w} [LinearOrder ρ] (rank : α → ρ)

/-- The order of the ranks. -/
def Ranks (x y : α) : Prop := rank x ≤ rank y

instance : DecidableRel (Ranks rank) := fun _ _ => inferInstanceAs (Decidable (_ ≤ _))

instance : Std.Total (Ranks rank) := ⟨fun x y => le_total (rank x) (rank y)⟩

instance : IsTrans α (Ranks rank) := ⟨fun _ _ _ h h' => le_trans h h'⟩

/-- `ORDER BY rank`. -/
def ranked (l : List α) : List α := l.insertionSort (Ranks rank)

/-- `ORDER BY rank LIMIT n`. -/
def top (n : ℕ) (l : List α) : List α := (ranked rank l).take n

/-- Rows of one rank are one row. -/
def Separates (l : List α) : Prop := ∀ x ∈ l, ∀ y ∈ l, rank x = rank y → x = y

variable {rank} {ρ' : Type v'} [LinearOrder ρ'] {l m : List α} {n : ℕ} {x y : α}

@[simp] theorem mem_ranked : x ∈ ranked rank l ↔ x ∈ l := List.mem_insertionSort (Ranks rank)

@[simp] theorem length_ranked : (ranked rank l).length = l.length := List.length_insertionSort (Ranks rank) l

theorem ranked_perm (l : List α) : (ranked rank l).Perm l := List.perm_insertionSort (Ranks rank) l

@[simp] theorem top_nil : top rank n [] = [] := by
  rw [top, ranked, List.insertionSort_nil, List.take_nil]

theorem mem_of_mem_top (h : x ∈ top rank n l) : x ∈ l := mem_ranked.mp (List.mem_of_mem_take h)

theorem length_top : (top rank n l).length = min n l.length := by
  rw [top, List.length_take, length_ranked]

theorem top_of_length_le (h : l.length ≤ n) : x ∈ top rank n l ↔ x ∈ l := by
  rw [top, List.take_of_length_le (by rwa [length_ranked]), mem_ranked]

omit [LinearOrder ρ] in
theorem Separates.mono (h : Separates rank l) (hsub : m ⊆ l) : Separates rank m :=
  fun x hx y hy => h x (hsub hx) y (hsub hy)

theorem eq_of_strict (hl : l.Pairwise fun x y => rank x < rank y) (hm : m.Pairwise fun x y => rank x < rank y)
    (h : ∀ x, x ∈ l ↔ x ∈ m) : l = m := by
  have hnodup {k : List α} (hk : k.Pairwise fun x y => rank x < rank y) : k.Nodup :=
    hk.imp fun hlt heq => absurd (congrArg rank heq) (ne_of_lt hlt)
  have hperm : l.Perm m := (List.perm_ext_iff_of_nodup (hnodup hl) (hnodup hm)).mpr h
  exact List.Perm.eq_of_pairwise (fun _ _ _ _ hlt hgt => absurd hlt (not_lt_of_gt hgt)) hl hm hperm

theorem map_ranked {β : Type*} {rank' : β → ρ'} (f : α → β)
    (h : ∀ x ∈ l, ∀ y ∈ l, rank x ≤ rank y ↔ rank' (f x) ≤ rank' (f y)) :
    (ranked rank l).map f = ranked rank' (l.map f) :=
  List.map_insertionSort (Ranks rank) (Ranks rank') f l h

theorem map_top {β : Type*} {rank' : β → ρ'} (f : α → β)
    (h : ∀ x ∈ l, ∀ y ∈ l, rank x ≤ rank y ↔ rank' (f x) ≤ rank' (f y)) :
    (top rank n l).map f = top rank' n (l.map f) := by
  rw [top, top, List.map_take, map_ranked f h]

theorem ranked_congr {rank' : α → ρ'} (h : ∀ x ∈ l, ∀ y ∈ l, rank x ≤ rank y ↔ rank' x ≤ rank' y) :
    ranked rank l = ranked rank' l := by
  have hmap : (ranked rank l).map id = ranked rank' (l.map id) := map_ranked id h
  rwa [List.map_id, List.map_id] at hmap

/-- A row is among the first `n` of rows in strict order when fewer than `n` rows are before it. -/
theorem mem_take_of_strict (hl : l.Pairwise fun x y => rank x < rank y) :
    x ∈ l.take n ↔ x ∈ l ∧ (l.filter fun y => decide (rank y < rank x)).length < n := by
  induction l generalizing n with
  | nil => simp
  | cons y l ih =>
    obtain ⟨hy, hl⟩ := List.pairwise_cons.mp hl
    cases n with
    | zero => simp
    | succ n =>
      have hcons (hx : x ∈ l) : (y :: l).filter (fun z => decide (rank z < rank x)) =
          y :: l.filter fun z => decide (rank z < rank x) := by
        simp [hy x hx]
      rw [List.take_succ_cons, List.mem_cons, List.mem_cons, ih hl]
      constructor
      · rintro (rfl | ⟨hx, hlt⟩)
        · have hnone : (List.filter (fun z => decide (rank z < rank x)) (x :: l)) = [] := by
            refine List.filter_eq_nil_iff.mpr fun z hz => ?_
            rcases List.mem_cons.mp hz with rfl | hz
            · simp
            · simp [le_of_lt (hy z hz)]
          exact ⟨.inl rfl, by rw [hnone]; exact Nat.succ_pos n⟩
        · refine ⟨.inr hx, ?_⟩
          rw [hcons hx, List.length_cons]
          exact Nat.succ_lt_succ hlt
      · rintro ⟨rfl | hx, hlt⟩
        · exact .inl rfl
        · rw [hcons hx, List.length_cons] at hlt
          exact .inr ⟨hx, Nat.lt_of_succ_lt_succ hlt⟩

end

/-! ## The best row of each key -/

section

variable {α : Type u} {ρ : Type v} {κ : Type w} [LinearOrder ρ] [DecidableEq κ] (rank : α → ρ) (key : α → κ)

/-- The best row of each key, in order. -/
def best (l : List α) : List α := distinctOn key (ranked rank l)

/-- The number of keys that have a row before `x`. -/
def below (l : List α) (x : α) : ℕ := ((l.filter fun y => decide (rank y < rank x)).map key).toFinset.card

/-- `m` is a part of `l` that holds each row of `l` or `n` keys before it. -/
structure Covers (n : ℕ) (l m : List α) : Prop where
  subset : m ⊆ l
  filled : ∀ x ∈ l, x ∉ m → n ≤ below rank key m x

variable {rank key} {l m : List α} {n : ℕ} {x y : α}

theorem below_mono (hsub : ∀ z ∈ l, rank z < rank x → z ∈ m ∧ rank z < rank y) :
    below rank key l x ≤ below rank key m y := by
  refine Finset.card_le_card fun k hk => ?_
  simp only [List.mem_toFinset, List.mem_map, List.mem_filter, decide_eq_true_eq] at hk ⊢
  obtain ⟨z, ⟨hz, hlt⟩, rfl⟩ := hk
  exact ⟨z, hsub z hz hlt, rfl⟩

theorem mem_best (hsep : Separates rank l) :
    x ∈ best rank key l ↔ x ∈ l ∧ ∀ y ∈ l, key y = key x → rank x ≤ rank y := by
  have hsorted : (ranked rank l).Pairwise (Ranks rank) := List.pairwise_insertionSort (Ranks rank) l
  constructor
  · intro hx
    refine ⟨mem_ranked.mp (mem_of_mem_distinctOn hx), fun y hy hk => ?_⟩
    rcases distinctOn_le hsorted hx (mem_ranked.mpr hy) hk with rfl | hle
    · exact le_refl _
    · exact hle
  · rintro ⟨hx, hmin⟩
    obtain ⟨y, hy, hk⟩ : ∃ y ∈ best rank key l, key y = key x := exists_mem_distinctOn (mem_ranked.mpr hx)
    have hyl : y ∈ l := mem_ranked.mp (mem_of_mem_distinctOn hy)
    have hle : rank y ≤ rank x := by
      rcases distinctOn_le hsorted hy (mem_ranked.mpr hx) hk.symm with rfl | hle
      · exact le_refl _
      · exact hle
    have heq : y = x := hsep y hyl x hx (le_antisymm hle (hmin y hyl hk))
    exact heq ▸ hy

theorem mem_of_mem_best (h : x ∈ best rank key l) : x ∈ l := mem_ranked.mp (mem_of_mem_distinctOn h)

theorem exists_mem_best (hsep : Separates rank l) (hx : x ∈ l) :
    ∃ y ∈ best rank key l, key y = key x ∧ rank y ≤ rank x := by
  obtain ⟨y, hy, hk⟩ : ∃ y ∈ best rank key l, key y = key x := exists_mem_distinctOn (mem_ranked.mpr hx)
  exact ⟨y, hy, hk, ((mem_best hsep).mp hy).2 x hx hk.symm⟩

theorem distinctOn_sublist (l : List α) : (distinctOn key l).Sublist l := by
  induction l with
  | nil => exact List.Sublist.slnil
  | cons x xs ih => exact (List.filter_sublist.trans ih).cons_cons x

theorem best_keys (l : List α) : (best rank key l).Pairwise fun x y => key x ≠ key y := distinctOn_pairwise _

theorem best_strict (hsep : Separates rank l) : (best rank key l).Pairwise fun x y => rank x < rank y := by
  have hsorted : (best rank key l).Pairwise (Ranks rank) :=
    (List.pairwise_insertionSort (Ranks rank) l).sublist (distinctOn_sublist _)
  refine (hsorted.and (best_keys l)).imp_of_mem fun {x y} hx hy h => lt_of_le_of_ne h.1 fun heq => h.2 ?_
  rw [hsep x (mem_of_mem_best hx) y (mem_of_mem_best hy) heq]

theorem best_congr (hsep : Separates rank l) (h : ∀ x, x ∈ l ↔ x ∈ m) : best rank key l = best rank key m := by
  have hsep' : Separates rank m := hsep.mono fun x hx => (h x).mpr hx
  refine eq_of_strict (best_strict hsep) (best_strict hsep') fun x => ?_
  simp only [mem_best hsep, mem_best hsep', h]

/-- Taking the best of a part first changes nothing. -/
theorem best_best_append (hsep : Separates rank (l ++ m)) :
    best rank key (best rank key l ++ m) = best rank key (l ++ m) := by
  have hl : Separates rank l := hsep.mono (List.subset_append_left l m)
  have hsub : best rank key l ++ m ⊆ l ++ m := by
    intro x hx
    exact (List.mem_append.mp hx).elim (fun h => List.mem_append_left _ (mem_of_mem_best h))
      fun h => List.mem_append_right _ h
  refine eq_of_strict (best_strict (hsep.mono hsub)) (best_strict hsep) fun x => ?_
  rw [mem_best (hsep.mono hsub), mem_best hsep]
  constructor
  · rintro ⟨hx, hmin⟩
    refine ⟨hsub hx, fun y hy hk => ?_⟩
    rcases List.mem_append.mp hy with hy | hy
    · obtain ⟨z, hz, hzk, hle⟩ : ∃ z ∈ best rank key l, key z = key y ∧ rank z ≤ rank y := exists_mem_best hl hy
      exact (hmin z (List.mem_append_left _ hz) (hzk.trans hk)).trans hle
    · exact hmin y (List.mem_append_right _ hy) hk
  · rintro ⟨hx, hmin⟩
    refine ⟨?_, fun y hy hk => hmin y (hsub hy) hk⟩
    rcases List.mem_append.mp hx with hx | hx
    · exact List.mem_append_left _ ((mem_best hl).mpr ⟨hx, fun y hy hk => hmin y (List.mem_append_left _ hy) hk⟩)
    · exact List.mem_append_right _ hx

theorem mem_best_congr {ρ' : Type v'} [LinearOrder ρ'] {rank' : α → ρ'} (hsep : Separates rank l)
    (hsep' : Separates rank' l)
    (h : ∀ x ∈ l, ∀ y ∈ l, key x = key y → (rank x ≤ rank y ↔ rank' x ≤ rank' y)) :
    x ∈ best rank key l ↔ x ∈ best rank' key l := by
  rw [mem_best hsep, mem_best hsep']
  refine and_congr_right fun hx => forall₂_congr fun y hy => forall_congr' fun hk => ?_
  exact h x hx y hy hk.symm

theorem length_best (l : List α) : (best rank key l).length = (l.map key).toFinset.card := by
  have hnodup : ((best rank key l).map key).Nodup := List.pairwise_map.mpr (best_keys l)
  rw [← List.length_map key, ← List.toFinset_card_of_nodup hnodup]
  congr 1
  ext k
  simp only [List.mem_toFinset, List.mem_map]
  constructor
  · rintro ⟨y, hy, rfl⟩
    exact ⟨y, mem_of_mem_best hy, rfl⟩
  · rintro ⟨y, hy, rfl⟩
    exact exists_mem_distinctOn (mem_ranked.mpr hy)

theorem length_best_mono (hsub : ∀ x ∈ l, ∃ y ∈ m, key y = key x) :
    (best rank key l).length ≤ (best rank key m).length := by
  rw [length_best, length_best]
  refine Finset.card_le_card fun k hk => ?_
  simp only [List.mem_toFinset, List.mem_map] at hk ⊢
  obtain ⟨x, hx, rfl⟩ := hk
  exact hsub x hx

theorem best_of_keys (hkeys : l.Pairwise fun x y => key x ≠ key y) : best rank key l = ranked rank l := by
  have hranked : (ranked rank l).Pairwise fun x y => key x ≠ key y :=
    ((ranked_perm l).pairwise_iff fun h => h.symm).mpr hkeys
  exact distinctOn_of_pairwise hranked

/-- The keys before a row are the best rows before it. -/
theorem length_best_below (hsep : Separates rank l) :
    ((best rank key l).filter fun y => decide (rank y < rank x)).length = below rank key l x := by
  have hnodup : (((best rank key l).filter fun y => decide (rank y < rank x)).map key).Nodup := by
    refine List.pairwise_map.mpr ((best_keys l).filter _)
  rw [← List.length_map key, ← List.toFinset_card_of_nodup hnodup, below]
  congr 1
  ext k
  simp only [List.mem_toFinset, List.mem_map, List.mem_filter, decide_eq_true_eq]
  constructor
  · rintro ⟨y, ⟨hy, hlt⟩, rfl⟩
    exact ⟨y, ⟨mem_of_mem_best hy, hlt⟩, rfl⟩
  · rintro ⟨y, ⟨hy, hlt⟩, rfl⟩
    obtain ⟨z, hz, hk, hle⟩ : ∃ z ∈ best rank key l, key z = key y ∧ rank z ≤ rank y := exists_mem_best hsep hy
    exact ⟨z, ⟨hz, lt_of_le_of_lt hle hlt⟩, hk⟩

/-- **The first `n` of the best rows**: the rows that are best of their key and that fewer than `n` keys
come before. -/
theorem mem_take_best (hsep : Separates rank l) :
    x ∈ (best rank key l).take n ↔
      x ∈ l ∧ (∀ y ∈ l, key y = key x → rank x ≤ rank y) ∧ below rank key l x < n := by
  rw [mem_take_of_strict (best_strict hsep), mem_best hsep, length_best_below hsep, and_assoc]

theorem below_le_length_best (hsep : Separates rank l) : below rank key l x ≤ (best rank key l).length := by
  rw [← length_best_below hsep]
  exact List.length_filter_le _ _

/-! ## Cutting before merging -/

theorem Covers.below_le (h : Covers rank key n l m) (hx : below rank key m x < n) :
    below rank key l x ≤ below rank key m x := by
  refine below_mono fun z hz hlt => ⟨?_, hlt⟩
  by_contra hzm
  have hle : below rank key m z ≤ below rank key m x := below_mono fun y hy hyz => ⟨hy, hyz.trans hlt⟩
  exact absurd (h.filled z hz hzm) (not_le_of_gt (lt_of_le_of_lt hle hx))

/-- **A part that covers the rows has the same first `n`.** -/
theorem take_best_of_covers (h : Covers rank key n l m) (hsep : Separates rank l) :
    (best rank key m).take n = (best rank key l).take n := by
  have hsep' : Separates rank m := hsep.mono h.subset
  refine eq_of_strict ((best_strict hsep').sublist (List.take_sublist _ _))
    ((best_strict hsep).sublist (List.take_sublist _ _)) fun x => ?_
  rw [mem_take_best hsep', mem_take_best hsep]
  constructor
  · rintro ⟨hx, hmin, hlt⟩
    refine ⟨h.subset hx, fun y hy hk => ?_, lt_of_le_of_lt (h.below_le hlt) hlt⟩
    by_contra hnot
    have hym : y ∉ m := fun hym => hnot (hmin y hym hk)
    have hle : below rank key m y ≤ below rank key m x :=
      below_mono fun z hz hzy => ⟨hz, hzy.trans (lt_of_not_ge hnot)⟩
    exact absurd (h.filled y hy hym) (not_le_of_gt (lt_of_le_of_lt hle hlt))
  · rintro ⟨hx, hmin, hlt⟩
    have hle : below rank key m x ≤ below rank key l x := below_mono fun z hz hzx => ⟨h.subset hz, hzx⟩
    have hxm : x ∈ m := by
      by_contra hxm
      exact absurd (h.filled x hx hxm) (not_le_of_gt (lt_of_le_of_lt hle hlt))
    exact ⟨hxm, fun y hy hk => hmin y (h.subset hy) hk, lt_of_le_of_lt hle hlt⟩

theorem Covers.all (h : Covers rank key n l m) (hsep : Separates rank m) (hlt : (best rank key m).length < n) :
    l ⊆ m := by
  intro x hx
  by_contra hxm
  exact absurd (h.filled x hx hxm) (not_le_of_gt (lt_of_le_of_lt (below_le_length_best hsep) hlt))

/-- The first `n` rows of a branch that has each key once cover it. -/
theorem covers_top (hsep : Separates rank l) (hkeys : l.Pairwise fun x y => key x ≠ key y) :
    Covers rank key n l (top rank n l) where
  subset := fun _ => mem_of_mem_top
  filled := by
    intro x hx hxt
    have htop : top rank n l = (best rank key l).take n := by rw [best_of_keys hkeys, top]
    have hbest : x ∈ best rank key l := by rwa [best_of_keys hkeys, mem_ranked]
    rw [htop] at hxt ⊢
    have hfull : n ≤ ((best rank key l).filter fun y => decide (rank y < rank x)).length := by
      by_contra hnot
      exact hxt ((mem_take_of_strict (best_strict hsep)).mpr ⟨hbest, lt_of_not_ge hnot⟩)
    have hlen : ((best rank key l).take n).length = n := by
      rw [List.length_take]
      exact min_eq_left (hfull.trans (List.length_filter_le _ _))
    have hnodup : (((best rank key l).take n).map key).Nodup :=
      List.pairwise_map.mpr ((best_keys l).sublist (List.take_sublist _ _))
    have hall : ((best rank key l).take n).filter (fun y => decide (rank y < rank x)) = (best rank key l).take n := by
      refine List.filter_eq_self.mpr fun y hy => decide_eq_true ?_
      obtain ⟨hyb, hyn⟩ := (mem_take_of_strict (best_strict hsep)).mp hy
      by_contra hnot
      have hle : (List.filter (fun z => decide (rank z < rank x)) (best rank key l)).length ≤
          (List.filter (fun z => decide (rank z < rank y)) (best rank key l)).length := by
        refine (List.monotone_filter_right _ fun z hz => ?_).length_le
        exact decide_eq_true (lt_of_lt_of_le (of_decide_eq_true hz) (le_of_not_gt hnot))
      omega
    rw [below, hall, List.toFinset_card_of_nodup hnodup, List.length_map, hlen]

theorem Covers.append {l' m' : List α} (h : Covers rank key n l m) (h' : Covers rank key n l' m') :
    Covers rank key n (l ++ l') (m ++ m') where
  subset := by
    intro x hx
    exact (List.mem_append.mp hx).elim (fun hx => List.mem_append_left _ (h.subset hx))
      fun hx => List.mem_append_right _ (h'.subset hx)
  filled := by
    intro x hx hnot
    rw [List.mem_append, not_or] at hnot
    rcases List.mem_append.mp hx with hx | hx
    · exact (h.filled x hx hnot.1).trans (below_mono fun z hz hlt => ⟨List.mem_append_left _ hz, hlt⟩)
    · exact (h'.filled x hx hnot.2).trans (below_mono fun z hz hlt => ⟨List.mem_append_right _ hz, hlt⟩)

theorem covers_refl (l : List α) : Covers rank key n l l := ⟨fun _ hx => hx, fun _ hx hnot => absurd hx hnot⟩

theorem covers_tops {branches : List (List α)} (hsep : Separates rank branches.flatten)
    (hkeys : ∀ b ∈ branches, b.Pairwise fun x y => key x ≠ key y) :
    Covers rank key n branches.flatten (branches.map (top rank n)).flatten := by
  induction branches with
  | nil => exact covers_refl []
  | cons b branches ih =>
    rw [List.map_cons, List.flatten_cons, List.flatten_cons]
    rw [List.flatten_cons] at hsep
    have hb : Covers rank key n b (top rank n b) :=
      covers_top (hsep.mono (List.subset_append_left _ _)) (hkeys b List.mem_cons_self)
    exact hb.append (ih (hsep.mono (List.subset_append_right _ _)) fun b' hb' => hkeys b' (List.mem_cons_of_mem _ hb'))

/-- **Cutting each branch before the branches are joined changes nothing**: the first `n` of the best rows
of the cut branches are those of the whole branches, if no branch repeats a key. -/
theorem take_best_cut {branches : List (List α)} (hsep : Separates rank branches.flatten)
    (hkeys : ∀ b ∈ branches, b.Pairwise fun x y => key x ≠ key y) :
    (best rank key (branches.map (top rank n)).flatten).take n = (best rank key branches.flatten).take n :=
  take_best_of_covers (covers_tops hsep hkeys) hsep

/-- Rows that come after all others leave the first `n` of the others in their places. -/
theorem filter_take_best_append (p : α → Bool) (hsep : Separates rank (l ++ m)) (hl : ∀ x ∈ l, p x = true)
    (hm : ∀ y ∈ m, p y = false) (hlt : ∀ x ∈ l, ∀ y ∈ m, rank x < rank y) :
    ((best rank key (l ++ m)).take n).filter p = (best rank key l).take n := by
  have hsepl : Separates rank l := hsep.mono (List.subset_append_left l m)
  refine eq_of_strict (((best_strict hsep).sublist (List.take_sublist _ _)).filter p)
    ((best_strict hsepl).sublist (List.take_sublist _ _)) fun x => ?_
  rw [List.mem_filter, mem_take_best hsep, mem_take_best hsepl]
  have hbelow (hx : x ∈ l) : below rank key (l ++ m) x = below rank key l x := by
    refine le_antisymm (below_mono fun z hz hzx => ⟨?_, hzx⟩)
      (below_mono fun z hz hzx => ⟨List.mem_append_left _ hz, hzx⟩)
    exact (List.mem_append.mp hz).resolve_right fun hzm => absurd hzx (not_lt_of_gt (hlt x hx z hzm))
  constructor
  · rintro ⟨⟨hx, hmin, hn⟩, hp⟩
    have hxl : x ∈ l := (List.mem_append.mp hx).resolve_right fun hxm => by simp [hm x hxm] at hp
    exact ⟨hxl, fun y hy hk => hmin y (List.mem_append_left _ hy) hk, hbelow hxl ▸ hn⟩
  · rintro ⟨hx, hmin, hn⟩
    refine ⟨⟨List.mem_append_left _ hx, fun y hy hk => ?_, (hbelow hx).symm ▸ hn⟩, hl x hx⟩
    rcases List.mem_append.mp hy with hy | hy
    · exact hmin y hy hk
    · exact le_of_lt (hlt x hx y hy)

end

/-! ## Pages -/

section

variable {α : Type u} {ρ : Type v} [LinearOrder ρ] {rank : α → ρ} {l m : List α} {n : ℕ} {x : α}

theorem ranked_strict (hsep : Separates rank l) (hl : l.Nodup) :
    (ranked rank l).Pairwise fun x y => rank x < rank y := by
  have hnodup : (ranked rank l).Nodup := (ranked_perm l).nodup_iff.mpr hl
  refine ((List.pairwise_insertionSort (Ranks rank) l).and hnodup).imp_of_mem fun {x y} hx hy h => ?_
  refine lt_of_le_of_ne h.1 fun heq => h.2 ?_
  exact hsep x (mem_ranked.mp hx) y (mem_ranked.mp hy) heq

theorem ranked_eq_of_mem (hsep : Separates rank l) (hl : l.Nodup) (hm : m.Nodup) (h : ∀ x, x ∈ l ↔ x ∈ m) :
    ranked rank l = ranked rank m := by
  have hsep' : Separates rank m := hsep.mono fun x hx => (h x).mpr hx
  refine eq_of_strict (ranked_strict hsep hl) (ranked_strict hsep' hm) fun x => ?_
  rw [mem_ranked, mem_ranked, h]

theorem top_eq_of_mem (hsep : Separates rank l) (hl : l.Nodup) (hm : m.Nodup) (h : ∀ x, x ∈ l ↔ x ∈ m) :
    top rank n l = top rank n m := by
  rw [top, top, ranked_eq_of_mem hsep hl hm h]

theorem top_top (l : List α) : top rank n (top rank n l) = top rank n l := by
  have hsorted : (top rank n l).Pairwise (Ranks rank) :=
    (List.pairwise_insertionSort (Ranks rank) l).sublist (List.take_sublist _ _)
  have hranked : ranked rank (top rank n l) = top rank n l := hsorted.insertionSort_eq
  rw [top, hranked]
  have hlen : (top rank n l).length ≤ n := length_top.trans_le (min_le_left _ _)
  exact List.take_of_length_le hlen

/-- **A union of cut branches, cut again, is the cut of the union**, if no row is in two of them. -/
theorem top_union [DecidableEq α] {branches : List (List α)} (hsep : Separates rank branches.flatten)
    (hnodup : branches.flatten.Nodup) :
    top rank n (branches.map (top rank n)).flatten = top rank n branches.flatten := by
  have hkeys : ∀ b ∈ branches, b.Pairwise fun x y => id x ≠ id y := fun b hb => (List.nodup_flatten.mp hnodup).1 b hb
  have hcut : (branches.map (top rank n)).flatten.Pairwise fun x y => id x ≠ id y := by
    refine List.nodup_flatten.mpr ⟨fun b hb => ?_, ?_⟩
    · obtain ⟨branch, hbranch, rfl⟩ := List.mem_map.mp hb
      exact (((ranked_perm branch).nodup_iff.mpr (hkeys branch hbranch)).sublist (List.take_sublist _ _))
    · refine List.pairwise_map.mpr ((List.nodup_flatten.mp hnodup).2.imp fun hdisjoint => ?_)
      exact fun x hx hx' => hdisjoint (mem_of_mem_top hx) (mem_of_mem_top hx')
  have hall : branches.flatten.Pairwise fun x y => id x ≠ id y := hnodup
  rw [top, top, ← best_of_keys hcut, ← best_of_keys hall]
  exact take_best_cut hsep hkeys

theorem filter_after {l₁ l₂ : List α} (h : (l₁ ++ x :: l₂).Pairwise fun x y => rank x < rank y) :
    (l₁ ++ x :: l₂).filter (fun y => decide (rank x < rank y)) = l₂ := by
  obtain ⟨_, htail, hcross⟩ := List.pairwise_append.mp h
  have hbefore : l₁.filter (fun y => decide (rank x < rank y)) = [] :=
    List.filter_eq_nil_iff.mpr fun y hy => by simp [le_of_lt (hcross y hy x List.mem_cons_self)]
  have hafter : l₂.filter (fun y => decide (rank x < rank y)) = l₂ :=
    List.filter_eq_self.mpr fun y hy => decide_eq_true (List.rel_of_pairwise_cons htail hy)
  rw [List.filter_append, hbefore, List.nil_append, List.filter_cons_of_neg (by simp), hafter]

theorem ranked_filter (hsep : Separates rank l) (hl : l.Nodup) (p : α → Bool) :
    ranked rank (l.filter p) = (ranked rank l).filter p := by
  refine eq_of_strict (ranked_strict (hsep.mono List.filter_sublist.subset) (hl.filter p))
    ((ranked_strict hsep hl).filter p) fun x => ?_
  rw [mem_ranked, List.mem_filter, List.mem_filter, mem_ranked]

end

end Relational
