import Mathlib.Data.List.Sort
import Mathlib.Data.List.Dedup
import Mathlib.Data.List.Perm.Subperm

/-!
# Ordered queries

The clauses of a query that choose one row among several.

* `firstBy`: `ORDER BY … LIMIT 1`; `firstBy_isSome`, `firstBy_le`;
* `distinctOn`: `DISTINCT ON (key)` over rows in their order; **`mem_distinctOn`**: a row is kept if and
  only if it is the first of its key;
* `unique`: the values without a repetition;
* `total`: the sizes of a list together;
* `firstPlaces`: `min(n) OVER (PARTITION BY key)`, the place of the first row of each row's key;
  **`firstPlace_spec`**.
-/

namespace Relational

universe u v

variable {α : Type u}

/-! ## The first row of an order -/

section

variable (r : α → α → Prop) [DecidableRel r]

/-- `ORDER BY r LIMIT 1`. -/
def firstBy (l : List α) : Option α := (l.insertionSort r).head?

variable {r}

theorem firstBy_mem {l : List α} {x : α} (h : firstBy r l = some x) : x ∈ l :=
  (List.mem_insertionSort r).mp (List.mem_of_mem_head? h)

theorem firstBy_isSome {l : List α} : (firstBy r l).isSome = true ↔ ∃ x, x ∈ l := by
  rw [firstBy, List.isSome_head?]
  constructor
  · intro h
    obtain ⟨x, hx⟩ := List.exists_mem_of_ne_nil _ h
    exact ⟨x, (List.mem_insertionSort r).mp hx⟩
  · rintro ⟨x, hx⟩ hnil
    have hmem := (List.mem_insertionSort r).mpr hx
    rw [hnil] at hmem
    exact List.not_mem_nil hmem

theorem firstBy_le [Std.Total r] [IsTrans α r] {l : List α} {x y : α} (h : firstBy r l = some x)
    (hy : y ∈ l) : y = x ∨ r x y := by
  have hsorted := List.pairwise_insertionSort r l
  have hmem := (List.mem_insertionSort r).mpr hy
  obtain ⟨t, ht⟩ := List.head?_eq_some_iff.mp h
  rw [ht] at hsorted hmem
  rcases List.mem_cons.mp hmem with rfl | hmem
  · exact .inl rfl
  · exact .inr (List.rel_of_pairwise_cons hsorted hmem)

end

/-! ## One row for each key -/

section

variable {κ : Type v} [DecidableEq κ] (key : α → κ)

/-- `DISTINCT ON (key)`: the first row of each key. -/
def distinctOn : List α → List α
  | [] => []
  | x :: xs => x :: (distinctOn xs).filter fun y => decide (key y ≠ key x)

variable {key}

theorem mem_distinctOn {l : List α} {y : α} :
    y ∈ distinctOn key l ↔ (l.find? fun x => decide (key x = key y)) = some y := by
  induction l with
  | nil => simp [distinctOn]
  | cons x xs ih =>
    simp only [distinctOn, List.mem_cons, List.mem_filter, decide_eq_true_eq, ih]
    by_cases hk : key x = key y
    · simp [hk, eq_comm]
    · have hne : y ≠ x := fun h => hk (congrArg key h.symm)
      simp [hk, hne, Ne.symm hk]

theorem mem_of_mem_distinctOn {l : List α} {y : α} (h : y ∈ distinctOn key l) : y ∈ l :=
  List.mem_of_find?_eq_some (mem_distinctOn.mp h)

theorem exists_mem_distinctOn {l : List α} {x : α} (h : x ∈ l) : ∃ y ∈ distinctOn key l, key y = key x := by
  cases hf : l.find? fun y => decide (key y = key x) with
  | none => exact absurd (decide_eq_true rfl) (List.find?_eq_none.mp hf x h)
  | some y =>
    have hy : key y = key x := by simpa using List.find?_some hf
    exact ⟨y, mem_distinctOn.mpr (by rw [hy]; exact hf), hy⟩

/-- In rows sorted by `r`, the kept row of a key comes before every other row of the key. -/
theorem distinctOn_le {r : α → α → Prop} {l : List α} (hl : l.Pairwise r) {x y : α}
    (hy : y ∈ distinctOn key l) (hx : x ∈ l) (hk : key x = key y) : x = y ∨ r y x := by
  induction l with
  | nil => cases hx
  | cons z zs ih =>
    have hfind := mem_distinctOn.mp hy
    rw [List.find?_cons] at hfind
    by_cases hz : key z = key y
    · have hzy : z = y := by simpa [hz] using hfind
      rcases List.mem_cons.mp hx with rfl | hx
      · exact .inl hzy
      · exact .inr (hzy ▸ List.rel_of_pairwise_cons hl hx)
    · simp only [hz, decide_false] at hfind
      rcases List.mem_cons.mp hx with rfl | hx
      · exact absurd hk hz
      · exact ih hl.of_cons (mem_distinctOn.mpr hfind) hx

theorem distinctOn_pairwise (l : List α) : (distinctOn key l).Pairwise fun x y => key x ≠ key y := by
  induction l with
  | nil => exact List.Pairwise.nil
  | cons x xs ih =>
    refine List.pairwise_cons.mpr ⟨?_, ih.filter _⟩
    intro y hy
    have hne := (List.mem_filter.mp hy).2
    exact fun h => of_decide_eq_true hne h.symm

theorem distinctOn_of_pairwise {l : List α} (h : l.Pairwise fun x y => key x ≠ key y) :
    distinctOn key l = l := by
  induction l with
  | nil => rfl
  | cons x xs ih =>
    obtain ⟨hx, hxs⟩ := List.pairwise_cons.mp h
    rw [distinctOn, ih hxs, List.filter_eq_self.mpr]
    exact fun y hy => decide_eq_true (Ne.symm (hx y hy))

theorem prefix_distinctOn_append {l : List α} (h : l.Pairwise fun x y => key x ≠ key y) (m : List α) :
    l <+: distinctOn key (l ++ m) := by
  induction l with
  | nil => exact List.nil_prefix
  | cons x xs ih =>
    obtain ⟨hx, hxs⟩ := List.pairwise_cons.mp h
    obtain ⟨t, ht⟩ := ih hxs
    rw [List.cons_append, distinctOn, ← ht, List.filter_append, List.filter_eq_self.mpr]
    · exact ⟨_, rfl⟩
    · exact fun y hy => decide_eq_true (Ne.symm (hx y hy))

end

section

variable [DecidableEq α]

/-- The values of a list, each where it is first. -/
def unique (l : List α) : List α := distinctOn id l

@[simp] theorem mem_unique {l : List α} {x : α} : x ∈ unique l ↔ x ∈ l := by
  constructor
  · exact mem_of_mem_distinctOn
  · intro h
    obtain ⟨y, hy, hk⟩ : ∃ y ∈ unique l, id y = id x := exists_mem_distinctOn h
    exact id_eq x ▸ hk ▸ hy

theorem unique_nodup (l : List α) : (unique l).Nodup := distinctOn_pairwise l

@[simp] theorem unique_eq_nil {l : List α} : unique l = [] ↔ l = [] := by
  constructor
  · intro h
    refine List.eq_nil_iff_forall_not_mem.mpr fun x hx => ?_
    have := mem_unique.mpr hx
    rw [h] at this
    exact List.not_mem_nil this
  · rintro rfl
    rfl

theorem prefix_unique_append {l : List α} (h : l.Nodup) (m : List α) : l <+: unique (l ++ m) :=
  prefix_distinctOn_append h m

end

section

variable [DecidableEq α] {β : Type v} [DecidableEq β]

theorem length_unique_le {l : List α} {m : List β} (g : β → Option α)
    (h : ∀ x ∈ l, ∃ y ∈ m, g y = some x) : (unique l).length ≤ (unique m).length := by
  have hnodup : ((unique l).map some).Nodup :=
    (List.nodup_map_iff (Option.some_injective α)).mpr (unique_nodup l)
  have hsub : (unique l).map some ⊆ (unique m).map g := by
    intro o ho
    obtain ⟨x, hx, rfl⟩ := List.mem_map.mp ho
    obtain ⟨y, hy, hg⟩ := h x (mem_unique.mp hx)
    exact List.mem_map.mpr ⟨y, mem_unique.mpr hy, hg⟩
  have hle := (List.Nodup.subperm hnodup hsub).length_le
  rwa [List.length_map, List.length_map] at hle

end

/-! ## The place of the first row of a key -/

section

variable {κ : Type v} [DecidableEq κ] (key : α → κ)

/-- The place of the first row of `l` that has the key of `x`. -/
def firstPlace (l : List α) (x : α) : ℕ := l.findIdx fun y => decide (key y = key x)

/-- `min(n) OVER (PARTITION BY key)`, counted from zero. -/
def firstPlaces (l : List α) : List ℕ := l.map (firstPlace key l)

variable {key}

theorem firstPlace_congr {l : List α} {x y : α} (h : key x = key y) :
    firstPlace key l x = firstPlace key l y := by
  simp only [firstPlace, h]

/-- **The first row of a key** is in the list, has the key, and is its own first row. -/
theorem firstPlace_spec {l : List α} {x : α} (hx : x ∈ l) :
    ∃ y, l[firstPlace key l x]? = some y ∧ key y = key x ∧ firstPlace key l y = firstPlace key l x := by
  have hlt : firstPlace key l x < l.length :=
    List.findIdx_lt_length_of_exists ⟨x, hx, decide_eq_true rfl⟩
  have hkey : key l[firstPlace key l x] = key x :=
    of_decide_eq_true (List.findIdx_getElem (p := fun y => decide (key y = key x)) (w := hlt))
  exact ⟨_, List.getElem?_eq_getElem hlt, hkey, firstPlace_congr hkey⟩

theorem firstPlace_le {l : List α} {x : α} {i : ℕ} (h : l[i]? = some x) : firstPlace key l x ≤ i := by
  refine Nat.le_of_not_lt fun hlt => ?_
  have hno := List.not_of_lt_findIdx hlt
  obtain ⟨hi, rfl⟩ := List.getElem?_eq_some_iff.mp h
  simp at hno

end

/-! ## Totals -/

section

variable {β : Type v} (size other : α → ℕ)

/-- The sizes of a list's elements together. -/
def total : List α → ℕ
  | [] => 0
  | a :: l => size a + total l

theorem total_append (l l' : List α) : total size (l ++ l') = total size l + total size l' := by
  induction l with
  | nil => rw [List.nil_append, total, Nat.zero_add]
  | cons a l ih => rw [List.cons_append, total, total, ih, Nat.add_assoc]

theorem total_add (l : List α) : total (fun a => size a + other a) l = total size l + total other l := by
  induction l with
  | nil => rfl
  | cons a l ih =>
    simp only [total, ih]
    omega

theorem total_map (f : β → α) (l : List β) : total size (l.map f) = total (fun b => size (f b)) l := by
  induction l with
  | nil => rfl
  | cons b l ih => rw [List.map_cons, total, total, ih]

end

/-! ## Maps as lists of pairs -/

theorem lookup_of_mem {β : Type v} [BEq α] [LawfulBEq α] {l : List (α × β)} (hl : (l.map Prod.fst).Nodup) {a : α} {b : β}
    (h : (a, b) ∈ l) : l.lookup a = some b := by
  induction l with
  | nil => cases h
  | cons p l ih =>
    obtain ⟨x, y⟩ := p
    rw [List.map_cons, List.nodup_cons] at hl
    rcases List.mem_cons.mp h with heq | hmem
    · cases heq
      exact List.lookup_cons_self
    · have hne : a ≠ x := fun hax => hl.1 (List.mem_map.mpr ⟨(a, b), hmem, hax⟩)
      rw [List.lookup_cons, beq_eq_false_iff_ne.mpr hne]
      exact ih hl.2 hmem

end Relational
