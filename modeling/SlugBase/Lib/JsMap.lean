import Mathlib.Data.List.Nodup

/-!
# Maps that keep the order of insertion

The `Map` of the language: keys in the order in which they were first set, each with one value.

* `JsMap`, `JsMap.get`, `JsMap.set` (a known key keeps its place), `JsMap.delete`, `JsMap.keys`;
* `JsMap.get_set`, `JsMap.get_delete`: what is found afterwards;
* `JsMap.length_set_le`, `JsMap.length_delete`: how many entries there are.
-/

universe u v

/-- A map: its entries in the order of insertion, no two with one key. -/
structure JsMap (κ : Type u) (ν : Type v) where
  entries : List (κ × ν)
  keyed : (entries.map Prod.fst).Nodup

namespace JsMap

variable {κ : Type u} {ν : Type v} [DecidableEq κ]

/-- The first value under a key. -/
def lookup (key : κ) : List (κ × ν) → Option ν
  | [] => none
  | e :: rest => if e.1 = key then some e.2 else lookup key rest

/-- The entries with the value of a key set. -/
def assign (key : κ) (value : ν) : List (κ × ν) → List (κ × ν)
  | [] => [(key, value)]
  | e :: rest => if e.1 = key then (key, value) :: rest else e :: assign key value rest

theorem keys_assign (key : κ) (value : ν) (l : List (κ × ν)) :
    (assign key value l).map Prod.fst = if key ∈ l.map Prod.fst then l.map Prod.fst else l.map Prod.fst ++ [key] := by
  induction l with
  | nil => rfl
  | cons e rest ih =>
    rw [assign]
    by_cases h : e.1 = key
    · rw [if_pos h, if_pos (by rw [List.map_cons, h]; exact List.mem_cons_self)]
      simp [h]
    · rw [if_neg h, List.map_cons, ih]
      by_cases hrest : key ∈ rest.map Prod.fst
      · have hmem : key ∈ (e :: rest).map Prod.fst := List.mem_cons_of_mem _ hrest
        rw [if_pos hrest, if_pos hmem, List.map_cons]
      · have hnot : key ∉ (e :: rest).map Prod.fst := by
          rw [List.map_cons, List.mem_cons, not_or]
          exact ⟨Ne.symm h, hrest⟩
        rw [if_neg hrest, if_neg hnot, List.map_cons, List.cons_append]

theorem lookup_assign (key key' : κ) (value : ν) (l : List (κ × ν)) :
    lookup key' (assign key value l) = if key = key' then some value else lookup key' l := by
  induction l with
  | nil => rfl
  | cons e rest ih =>
    rw [assign]
    by_cases h : e.1 = key
    · rw [if_pos h, lookup, lookup, h]
      split <;> rfl
    · rw [if_neg h, lookup, lookup, ih]
      by_cases h' : e.1 = key'
      · rw [if_pos h', if_pos h', if_neg (fun hkey => h (h'.trans hkey.symm))]
      · rw [if_neg h', if_neg h']

theorem length_assign_le (key : κ) (value : ν) (l : List (κ × ν)) : (assign key value l).length ≤ l.length + 1 := by
  induction l with
  | nil => exact Nat.le_refl _
  | cons e rest ih =>
    rw [assign]
    split
    · rw [List.length_cons, List.length_cons]
      omega
    · rw [List.length_cons, List.length_cons]
      omega

theorem lookup_eq_none {key : κ} {l : List (κ × ν)} : lookup key l = none ↔ key ∉ l.map Prod.fst := by
  induction l with
  | nil => simp [lookup]
  | cons e rest ih =>
    rw [lookup, List.map_cons, List.mem_cons, not_or]
    by_cases h : e.1 = key
    · simp [h]
    · rw [if_neg h, ih]
      exact ⟨fun hrest => ⟨Ne.symm h, hrest⟩, fun hboth => hboth.2⟩

theorem lookup_filter (key key' : κ) (l : List (κ × ν)) :
    lookup key' (l.filter fun e => decide (e.1 ≠ key)) = if key = key' then none else lookup key' l := by
  induction l with
  | nil => simp [lookup]
  | cons e rest ih =>
    by_cases h : e.1 = key
    · rw [List.filter_cons_of_neg (by simp [h]), ih, lookup, h]
      split <;> rfl
    · rw [List.filter_cons_of_pos (by simp [h]), lookup, lookup, ih]
      by_cases h' : e.1 = key'
      · rw [if_pos h', if_pos h', if_neg (fun hkey => h (h'.trans hkey.symm))]
      · rw [if_neg h', if_neg h']

/-! ## The operations -/

variable (m : JsMap κ ν) (key key' : κ) (value : ν)

instance : EmptyCollection (JsMap κ ν) := ⟨⟨[], List.nodup_nil⟩⟩

def get : Option ν := lookup key m.entries

/-- The number of entries. -/
def size : ℕ := m.entries.length

def set : JsMap κ ν where
  entries := assign key value m.entries
  keyed := by
    rw [keys_assign]
    split
    · exact m.keyed
    · rename_i hnot
      exact List.Nodup.append m.keyed (List.nodup_singleton key) (List.disjoint_singleton.mpr hnot)

def delete : JsMap κ ν where
  entries := m.entries.filter fun e => decide (e.1 ≠ key)
  keyed := m.keyed.sublist (List.filter_sublist.map _)

/-- The keys in the order of insertion. -/
def keys : List κ := m.entries.map Prod.fst

@[simp] theorem get_empty : (∅ : JsMap κ ν).get key = none := rfl

omit [DecidableEq κ] in
@[simp] theorem size_empty : (∅ : JsMap κ ν).size = 0 := rfl

theorem get_set : (m.set key value).get key' = if key = key' then some value else m.get key' :=
  lookup_assign key key' value m.entries

theorem get_delete : (m.delete key).get key' = if key = key' then none else m.get key' :=
  lookup_filter key key' m.entries

theorem size_set_le : (m.set key value).size ≤ m.size + 1 := length_assign_le key value m.entries

theorem size_delete_le : (m.delete key).size ≤ m.size := List.length_filter_le ..

variable {m} {key} {value}

/-- The entries are what is found. -/
theorem mem_entries_iff {v : ν} : (key, v) ∈ m.entries ↔ m.get key = some v := by
  unfold get
  obtain ⟨entries, keyed⟩ := m
  show (key, v) ∈ entries ↔ lookup key entries = some v
  induction entries with
  | nil => simp [lookup]
  | cons e rest ih =>
    rw [List.map_cons, List.nodup_cons] at keyed
    rw [lookup, List.mem_cons]
    by_cases h : e.1 = key
    · rw [if_pos h, Option.some.injEq]
      constructor
      · rintro (heq | hmem)
        · rw [← heq]
        · exact absurd (List.mem_map_of_mem (f := Prod.fst) hmem) (h ▸ keyed.1)
      · rintro rfl
        exact .inl (by rw [← h])
    · rw [if_neg h, ← ih keyed.2]
      exact ⟨fun hor => hor.resolve_left fun heq => h (by rw [← heq]), .inr⟩

theorem size_delete_lt (h : key ∈ m.keys) : (m.delete key).size < m.size := by
  obtain ⟨e, he, hkey⟩ := List.mem_map.mp h
  refine List.length_filter_lt_length_iff_exists.mpr ⟨e, he, ?_⟩
  simp [hkey]

end JsMap
