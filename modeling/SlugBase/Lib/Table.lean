import Mathlib.Data.List.Nodup
import Mathlib.Data.List.Count

/-!
# Keyed tables

A table is a list of rows no two of which have the same key, so a state that breaks a primary key
cannot be built.

* `Table`, `Table.deleteWhere`, `Table.updateWhere`, `Table.insert?`, `Table.find?`;
* `Table.count`: the number of rows that meet a condition, and what each statement does to it
  (`count_deleteWhere`, `count_updateWhere`, `count_insert?`);
* `Table.mem_deleteWhere`, `Table.mem_updateWhere`, `Table.mem_insert?`: the rows after each
  statement.
-/

namespace Relational

universe u v

/-- The rows of a table under a primary key. -/
structure Table (ρ : Type u) {κ : Type v} (key : ρ → κ) where
  rows : List ρ
  keyed : (rows.map key).Nodup

namespace Table

variable {ρ : Type u} {κ : Type v} {key : ρ → κ}

instance : Membership ρ (Table ρ key) := ⟨fun t r => r ∈ t.rows⟩

theorem mem_iff {t : Table ρ key} {r : ρ} : r ∈ t ↔ r ∈ t.rows := Iff.rfl

theorem ext_rows {t u : Table ρ key} (h : t.rows = u.rows) : t = u := by
  cases t
  cases u
  cases h
  rfl

instance : EmptyCollection (Table ρ key) := ⟨⟨[], List.nodup_nil⟩⟩

@[simp] theorem rows_empty : (∅ : Table ρ key).rows = [] := rfl

@[simp] theorem not_mem_empty (r : ρ) : ¬ r ∈ (∅ : Table ρ key) := List.not_mem_nil

theorem eq_of_key {t : Table ρ key} {r r' : ρ} (h : r ∈ t) (h' : r' ∈ t) (hk : key r = key r') :
    r = r' :=
  List.inj_on_of_nodup_map t.keyed h h' hk

/-- The number of rows that meet `p`. -/
def count (t : Table ρ key) (p : ρ → Bool) : ℕ := t.rows.countP p

/-- Whether a row meets `p`. -/
def any (t : Table ρ key) (p : ρ → Bool) : Bool := t.rows.any p

theorem any_iff {t : Table ρ key} {p : ρ → Bool} : t.any p = true ↔ ∃ r ∈ t, p r = true :=
  List.any_eq_true

/-- The first row that meets `p`. -/
def find? (t : Table ρ key) (p : ρ → Bool) : Option ρ := t.rows.find? p

theorem find?_some {t : Table ρ key} {p : ρ → Bool} {r : ρ} (h : t.find? p = some r) :
    r ∈ t ∧ p r = true :=
  ⟨List.mem_of_find?_eq_some h, List.find?_some h⟩

theorem find?_none {t : Table ρ key} {p : ρ → Bool} (h : t.find? p = none) {r : ρ} (hr : r ∈ t) :
    p r = false := by
  simpa using List.find?_eq_none.mp h r hr

/-- `DELETE`: the table without the rows that meet `p`. -/
def deleteWhere (t : Table ρ key) (p : ρ → Bool) : Table ρ key where
  rows := t.rows.filter fun r => !p r
  keyed := t.keyed.sublist (List.filter_sublist.map key)

@[simp] theorem mem_deleteWhere {t : Table ρ key} {p : ρ → Bool} {r : ρ} :
    r ∈ t.deleteWhere p ↔ r ∈ t ∧ p r = false := by
  simp [mem_iff, deleteWhere]

/-- `UPDATE`: the rows that meet `p` rewritten by `f`, which keeps the key. -/
def updateWhere (t : Table ρ key) (p : ρ → Bool) (f : ρ → ρ) (hf : ∀ r, key (f r) = key r) :
    Table ρ key where
  rows := t.rows.map fun r => if p r then f r else r
  keyed := by
    rw [List.map_map]
    have h : (key ∘ fun r => if p r then f r else r) = key := by
      funext r
      by_cases hp : p r = true <;> simp [hp, hf]
    rw [h]
    exact t.keyed

@[simp] theorem mem_updateWhere {t : Table ρ key} {p : ρ → Bool} {f : ρ → ρ}
    {h : ∀ r, key (f r) = key r} {r : ρ} :
    r ∈ t.updateWhere p f h ↔ ∃ r' ∈ t, (if p r' then f r' else r') = r := by
  simp [mem_iff, updateWhere]

theorem find?_of_only {t : Table ρ key} {p : ρ → Bool} {r : ρ} (hr : r ∈ t) (hp : p r = true)
    (honly : ∀ r' ∈ t, p r' = true → r' = r) : t.find? p = some r := by
  cases hfind : t.find? p with
  | none => exact absurd (find?_none hfind hr) (by simp [hp])
  | some r' =>
    obtain ⟨hmem, hp'⟩ := find?_some hfind
    rw [honly r' hmem hp']

theorem updated_mem {t : Table ρ key} {p : ρ → Bool} {f : ρ → ρ} (hf : ∀ r, key (f r) = key r) {r : ρ}
    (hr : r ∈ t) : (if p r then f r else r) ∈ t.updateWhere p f hf :=
  mem_updateWhere.mpr ⟨r, hr, rfl⟩

/-- `INSERT`: the row is appended unless its key is taken. -/
def insert? [DecidableEq κ] (t : Table ρ key) (r : ρ) : Option (Table ρ key) :=
  if h : key r ∈ t.rows.map key then none
  else some ⟨t.rows ++ [r], by
    rw [List.map_append, List.nodup_append]
    refine ⟨t.keyed, List.nodup_singleton _, ?_⟩
    rintro a ha b hb rfl
    rw [List.map_singleton, List.mem_singleton] at hb
    exact h (hb ▸ ha)⟩

theorem rows_insert? [DecidableEq κ] {t t' : Table ρ key} {r : ρ} (h : t.insert? r = some t') :
    t'.rows = t.rows ++ [r] := by
  unfold insert? at h
  split_ifs at h
  obtain rfl := Option.some.inj h
  rfl

theorem key_fresh_of_insert? [DecidableEq κ] {t t' : Table ρ key} {r : ρ}
    (h : t.insert? r = some t') {r' : ρ} (hr : r' ∈ t) : key r' ≠ key r := by
  intro hk
  unfold insert? at h
  split_ifs at h with hin
  exact hin (hk ▸ List.mem_map_of_mem hr)

theorem mem_insert? [DecidableEq κ] {t t' : Table ρ key} {r : ρ} (h : t.insert? r = some t')
    {r' : ρ} : r' ∈ t' ↔ r' ∈ t ∨ r' = r := by
  rw [mem_iff, rows_insert? h, List.mem_append, List.mem_singleton, mem_iff]

/-! ## Counting -/

theorem count_eq_zero {t : Table ρ key} {p : ρ → Bool} :
    t.count p = 0 ↔ ∀ r ∈ t, p r = false := by
  simp [count, List.countP_eq_zero, mem_iff]

theorem count_deleteWhere (t : Table ρ key) (p q : ρ → Bool) :
    (t.deleteWhere p).count q + t.count (fun r => p r && q r) = t.count q := by
  change (t.rows.filter fun r => !p r).countP q + t.rows.countP (fun r => p r && q r) = t.rows.countP q
  induction t.rows with
  | nil => rfl
  | cons r rs ih =>
    rw [List.filter_cons]
    cases hp : p r <;> cases hq : q r <;> simp [hp, hq] <;> omega

theorem count_updateWhere (t : Table ρ key) (p : ρ → Bool) (f : ρ → ρ)
    (hf : ∀ r, key (f r) = key r) (q : ρ → Bool) :
    (t.updateWhere p f hf).count q = t.count (fun r => q (if p r then f r else r)) := by
  rw [count, updateWhere, List.countP_map]
  rfl

theorem count_updateWhere_of_same {t : Table ρ key} {p : ρ → Bool} {f : ρ → ρ}
    {hf : ∀ r, key (f r) = key r} {q : ρ → Bool} (h : ∀ r ∈ t, p r = true → q (f r) = q r) :
    (t.updateWhere p f hf).count q = t.count q := by
  rw [count_updateWhere]
  refine List.countP_congr fun r hr => ?_
  by_cases hp : p r = true <;> simp [hp]
  rw [h r hr hp]

theorem count_split (t : Table ρ key) (p q : ρ → Bool) :
    t.count q = t.count (fun r => p r && q r) + t.count (fun r => !p r && q r) := by
  unfold count
  induction t.rows with
  | nil => rfl
  | cons r rs ih =>
    cases hp : p r <;> cases hq : q r <;> simp [hp, hq] <;> omega

theorem count_congr {t : Table ρ key} {p q : ρ → Bool} (h : ∀ r ∈ t, p r = q r) :
    t.count p = t.count q :=
  List.countP_congr fun r hr => by rw [h r hr]

theorem count_and_congr {t : Table ρ key} {p q g : ρ → Bool}
    (h : ∀ r ∈ t, p r = true → q r = g r) :
    t.count (fun r => p r && q r) = t.count (fun r => p r && g r) := by
  refine count_congr fun r hr => ?_
  cases hp : p r with
  | false => rfl
  | true => rw [h r hr hp]

theorem count_and_of_all {t : Table ρ key} {p q : ρ → Bool} (h : ∀ r ∈ t, p r = true → q r = true) :
    t.count (fun r => p r && q r) = t.count p := by
  rw [count_and_congr (g := fun _ => true) h]
  simp

theorem count_and_of_none {t : Table ρ key} {p q : ρ → Bool}
    (h : ∀ r ∈ t, p r = true → q r = false) : t.count (fun r => p r && q r) = 0 := by
  rw [count_and_congr (g := fun _ => false) h]
  exact count_eq_zero.mpr fun r _ => Bool.and_false _

/-- A condition on the row of one key counts that row or none. -/
theorem count_key [DecidableEq κ] {t : Table ρ key} {r : ρ} (hr : r ∈ t) {q : ρ → Bool} :
    t.count (fun r' => decide (key r' = key r) && q r') = if q r then 1 else 0 := by
  obtain ⟨as, bs, hrows⟩ := List.append_of_mem (mem_iff.mp hr)
  have hk := t.keyed
  rw [hrows, List.map_append, List.map_cons, List.nodup_append, List.nodup_cons] at hk
  obtain ⟨_, ⟨hnb, _⟩, hdisj⟩ := hk
  have hother : ∀ l : List ρ, (∀ x ∈ l, key x ≠ key r) →
      l.countP (fun r' => decide (key r' = key r) && q r') = 0 := by
    intro l hl
    exact List.countP_eq_zero.mpr fun x hx => by simp [hl x hx]
  have has : ∀ x ∈ as, key x ≠ key r := fun x hx =>
    hdisj _ (List.mem_map_of_mem hx) _ List.mem_cons_self
  have hbs : ∀ x ∈ bs, key x ≠ key r := fun x hx he => hnb (he ▸ List.mem_map_of_mem hx)
  rw [count, hrows, List.countP_append, List.countP_cons, hother as has, hother bs hbs]
  simp

theorem count_insert? [DecidableEq κ] {t t' : Table ρ key} {r : ρ} (h : t.insert? r = some t')
    (q : ρ → Bool) : t'.count q = t.count q + if q r then 1 else 0 := by
  rw [count, rows_insert? h, List.countP_append, List.countP_singleton]
  rfl

theorem updateWhere_of_none {t : Table ρ key} {p : ρ → Bool} {f : ρ → ρ}
    (hf : ∀ r, key (f r) = key r) (h : ∀ r ∈ t, p r = false) : t.updateWhere p f hf = t := by
  refine ext_rows ?_
  have hid : ∀ r ∈ t.rows, (if p r then f r else r) = r := fun r hr => by rw [h r hr]; rfl
  exact (List.map_congr_left hid).trans (List.map_id' _)

theorem deleteWhere_of_none {t : Table ρ key} {p : ρ → Bool} (h : ∀ r ∈ t, p r = false) :
    t.deleteWhere p = t :=
  ext_rows (List.filter_eq_self.mpr fun r hr => by simp [h r hr])

end Table

end Relational
