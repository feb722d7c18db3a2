import Mathlib.Data.List.Sort
import Mathlib.Data.List.Perm.Basic

/-!
# Sorting with ties

A stable sort leaves elements that compare equal in the order of the input.

* **`insertionSort_filter`**: elements that tie with each other keep their order;
* **`insertionSort_perm_iff`**: the order of the input makes no difference exactly when no two elements tie;
* **`find?_insertionSort_iff`**: an element is the first fit in every order of the input exactly when it sorts before every
  other fit.
-/

namespace Ties

variable {α : Type} (r : α → α → Prop) [DecidableRel r]

/-- **Elements that tie with each other keep their order.** -/
theorem insertionSort_filter (keep : α → Bool) (l : List α) (h : ∀ a ∈ l, ∀ b ∈ l, keep a → keep b → r a b) :
    (l.insertionSort r).filter keep = l.filter keep := by
  have hsorted : (l.filter keep).Pairwise r := by
    refine List.Pairwise.imp_of_mem (R := fun _ _ => True) ?_ (List.pairwise_of_forall fun _ _ => trivial)
    intro a b ha hb _
    rw [List.mem_filter] at ha hb
    exact h a ha.1 b hb.1 ha.2 hb.2
  have hsub : (l.filter keep).Sublist ((l.insertionSort r).filter keep) := by
    have hkept := (List.sublist_insertionSort hsorted List.filter_sublist).filter keep
    rwa [List.filter_filter, List.filter_congr fun a _ => Bool.and_self (keep a)] at hkept
  have hperm := (List.perm_insertionSort r l).filter keep
  exact (hsub.eq_of_length hperm.length_eq.symm).symm

variable [Std.Total r] [IsTrans α r]

theorem insertionSort_eq_of_perm {l l' : List α} (hperm : l'.Perm l) (h : ∀ a ∈ l, ∀ b ∈ l, r a b → r b a → a = b) :
    l'.insertionSort r = l.insertionSort r := by
  refine List.Perm.eq_of_pairwise ?_ (List.pairwise_insertionSort r l') (List.pairwise_insertionSort r l)
    (((List.perm_insertionSort r l').trans hperm).trans (List.perm_insertionSort r l).symm)
  intro a b ha hb
  have ha' : a ∈ l := hperm.subset ((List.perm_insertionSort r l').subset ha)
  exact h a ha' b ((List.perm_insertionSort r l).subset hb)

/-- **The order of the input makes no difference exactly when no two elements tie.** -/
theorem insertionSort_perm_iff [DecidableEq α] (l : List α) :
    (∀ l' : List α, l'.Perm l → l'.insertionSort r = l.insertionSort r) ↔ ∀ a ∈ l, ∀ b ∈ l, r a b → r b a → a = b := by
  refine ⟨fun h a ha b hb hab hba => ?_, fun h l' hperm => insertionSort_eq_of_perm r hperm h⟩
  -- each of two tied elements can be put first, and stays first among the elements that are one of them
  have hfirst : ∀ c, c ∈ l → (c == a || c == b) = true →
      ((l.insertionSort r).filter fun x => x == a || x == b).head? = some c := by
    intro c hc hkeep
    have hperm : (c :: l.erase c).Perm l := (List.perm_cons_erase hc).symm
    rw [← h _ hperm, insertionSort_filter]
    · simp only [List.filter_cons, hkeep, if_true, List.head?_cons]
    · intro x _ y _ hx hy
      have hrefl : ∀ z, r z z := fun z => (Std.Total.total z z).elim id id
      simp only [Bool.or_eq_true, beq_iff_eq] at hx hy
      rcases hx with rfl | rfl <;> rcases hy with rfl | rfl
      · exact hrefl _
      · exact hab
      · exact hba
      · exact hrefl _
  have heq := (hfirst a ha (by simp)).symm.trans (hfirst b hb (by simp))
  exact Option.some.inj heq

omit [Std.Total r] [IsTrans α r] in
/-- **An element is the first fit in every order of the input exactly when it sorts before every other fit.** -/
theorem find?_insertionSort_iff {κ : Type} [LinearOrder κ] (key : α → κ) (fits : α → Bool) {l : List α} {a : α} (ha : a ∈ l)
    (hfit : fits a = true) :
    (∀ l' : List α, l'.Perm l → (l'.insertionSort fun x y => key x ≤ key y).find? fits = some a) ↔
      ∀ b ∈ l, fits b = true → b ≠ a → key a < key b := by
  classical
  have hsplit : ∀ {l' : List α} {x : α}, (l'.insertionSort fun x y => key x ≤ key y).find? fits = some x →
      fits x = true ∧ ∀ y ∈ l', fits y = true → y ≠ x → key x ≤ key y := by
    intro l' x hx
    rw [List.find?_eq_some_iff_append] at hx
    obtain ⟨hx, before, after, hl, hbefore⟩ := hx
    refine ⟨hx, fun y hy hyfit hne => ?_⟩
    have hsorted := List.pairwise_insertionSort (fun x y => key x ≤ key y) l'
    have hmem : y ∈ before ++ x :: after := hl ▸ (List.mem_insertionSort _).mpr hy
    rw [hl, List.pairwise_append, List.pairwise_cons] at hsorted
    rcases List.mem_append.mp hmem with hb | hb
    · exact absurd hyfit (by simpa using hbefore y hb)
    · exact hsorted.2.1.1 y (List.mem_of_ne_of_mem hne hb)
  constructor
  · intro h b hb hbfit hne
    by_contra hle
    have hback : key b ≤ key a := not_lt.mp hle
    -- an order of the input that has the other fit first
    have hperm : (b :: l.erase b).Perm l := (List.perm_cons_erase hb).symm
    have hfirst := h _ hperm
    have hforth : key a ≤ key b := (hsplit hfirst).2 b List.mem_cons_self hbfit hne
    have htied := insertionSort_filter (fun x y => key x ≤ key y) (fun x => x == a || x == b) (b :: l.erase b) (by
      intro x _ y _ hx hy
      simp only [Bool.or_eq_true, beq_iff_eq] at hx hy
      rcases hx with rfl | rfl <;> rcases hy with rfl | rfl
      · exact le_rfl
      · exact hforth
      · exact hback
      · exact le_rfl)
    rw [List.find?_eq_some_iff_append] at hfirst
    obtain ⟨-, before, after, hl, hbefore⟩ := hfirst
    have hnone : before.filter (fun x => x == a || x == b) = [] := by
      rw [List.filter_eq_nil_iff]
      intro x hx hkeep
      simp only [Bool.or_eq_true, beq_iff_eq] at hkeep
      have hxfit := hbefore x hx
      rcases hkeep with rfl | rfl
      · simp [hfit] at hxfit
      · simp [hbfit] at hxfit
    rw [hl, List.filter_append, hnone, List.nil_append, List.filter_cons_of_pos (by simp),
      List.filter_cons_of_pos (by simp)] at htied
    exact hne (List.cons.inj htied).1.symm
  · intro h l' hperm
    cases hfind : (l'.insertionSort fun x y => key x ≤ key y).find? fits with
    | none =>
      have hno := List.find?_eq_none.mp hfind a ((List.mem_insertionSort _).mpr (hperm.mem_iff.mpr ha))
      exact absurd hfit hno
    | some x =>
      obtain ⟨hxfit, hxle⟩ := hsplit hfind
      by_contra hne
      have hxa : x ≠ a := fun heq => hne (by rw [heq])
      have hx : x ∈ l := by
        have hmem := List.mem_of_find?_eq_some hfind
        exact hperm.mem_iff.mp ((List.mem_insertionSort _).mp hmem)
      exact absurd (hxle a (hperm.mem_iff.mpr ha) hfit hxa.symm) (not_le.mpr (h x hx hxfit hxa))

end Ties
