import SlugBase.Lib.Table

/-!
# Inserts that leave conflicting rows out

`INSERT … ON CONFLICT DO NOTHING` of a list of rows: a row is written unless its key is taken or a unique
index refuses it beside a row that is there, an earlier row of the same statement among them.

* `Table.insertAll`: the table and the rows that were written (`RETURNING`);
* **`Table.insertAll_inserted`**: rows that do not conflict with each other are written if and only if they
  conflict with no row of the table;
* `Table.count_insertAll`: what the statement adds to a count.
-/

namespace Relational

universe u v

namespace Table

variable {ρ : Type u} {κ : Type v} {key : ρ → κ} [DecidableEq κ]

/-- Two rows that one table does not hold: they have one key, or a unique index refuses them. -/
def conflicts (key : ρ → κ) (clash : ρ → ρ → Bool) (r r' : ρ) : Bool := decide (key r = key r') || clash r r'

variable (clash : ρ → ρ → Bool)

/-- The table with one more row, where its key is free. -/
def append (t : Table ρ key) (r : ρ) (h : t.any (conflicts key clash r) = false) : Table ρ key where
  rows := t.rows ++ [r]
  keyed := by
    rw [List.map_append, List.map_singleton]
    refine List.Nodup.append t.keyed (List.nodup_singleton _) (List.disjoint_singleton.mpr fun hmem => ?_)
    obtain ⟨r', hr', hkey⟩ := List.mem_map.mp hmem
    have hfree := List.any_eq_false.mp h r' hr'
    rw [conflicts, hkey, decide_eq_true rfl] at hfree
    exact hfree rfl

/-- `INSERT … ON CONFLICT DO NOTHING RETURNING *`. -/
def insertAll (t : Table ρ key) : List ρ → Table ρ key × List ρ
  | [] => (t, [])
  | r :: rest =>
    if h : t.any (conflicts key clash r) = false then
      let written := insertAll (t.append clash r h) rest
      (written.1, r :: written.2)
    else insertAll t rest

variable {clash}

theorem rows_insertAll (t : Table ρ key) (l : List ρ) :
    (t.insertAll clash l).1.rows = t.rows ++ (t.insertAll clash l).2 := by
  induction l generalizing t with
  | nil => exact (List.append_nil _).symm
  | cons r rest ih =>
    rw [insertAll]
    split
    · rw [ih, append, List.append_assoc, List.singleton_append]
    · exact ih t

theorem mem_insertAll {t : Table ρ key} {l : List ρ} {r : ρ} :
    r ∈ (t.insertAll clash l).1 ↔ r ∈ t ∨ r ∈ (t.insertAll clash l).2 := by
  rw [mem_iff, rows_insertAll, List.mem_append, mem_iff]

theorem inserted_sublist (t : Table ρ key) (l : List ρ) : (t.insertAll clash l).2.Sublist l := by
  induction l generalizing t with
  | nil => exact List.Sublist.refl _
  | cons r rest ih =>
    rw [insertAll]
    split
    · exact (ih _).cons_cons r
    · exact (ih t).cons r

/-- **What the statement writes**, when its own rows do not conflict with each other. -/
theorem insertAll_inserted (t : Table ρ key) {l : List ρ}
    (h : l.Pairwise fun r r' => conflicts key clash r' r = false) :
    (t.insertAll clash l).2 = l.filter fun r => !t.any (conflicts key clash r) := by
  induction l generalizing t with
  | nil => rfl
  | cons r rest ih =>
    rw [insertAll]
    split
    · rename_i hfree
      have hlater : ∀ r' ∈ rest,
          (!(t.append clash r hfree).any (conflicts key clash r')) = !t.any (conflicts key clash r') := by
        intro r' hr'
        have happend : (t.append clash r hfree).any (conflicts key clash r') =
            (t.any (conflicts key clash r') || (conflicts key clash r' r || false)) := List.any_append
        rw [happend, List.rel_of_pairwise_cons h hr', Bool.or_false, Bool.or_false]
      rw [List.filter_cons_of_pos (by rw [hfree]; rfl), ← List.filter_congr hlater, ← ih _ h.of_cons]
    · rename_i htaken
      rw [List.filter_cons_of_neg (by simpa using htaken)]
      exact ih t h.of_cons

theorem count_insertAll (t : Table ρ key) (l : List ρ) (p : ρ → Bool) :
    (t.insertAll clash l).1.count p = t.count p + (t.insertAll clash l).2.countP p := by
  rw [count, rows_insertAll, List.countP_append, count]

end Table

end Relational
