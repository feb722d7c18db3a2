import SlugBase.Bookmark.Url
import SlugBase.Lib.Ties
import Mathlib.Data.List.Flatten

/-!
# The query of a canonical address

The parameters of a query are sorted by name, then by value, and joined again.

* `pairsOf`, `queryOf`: the parameters of a query, and the query of parameters;
* **`canonicalQuery_idem`**: the canonical query is its own canonical query;
* **`sortedPairs_perm_iff`**: their order makes no difference exactly when no parameter is there both bare and with an
  empty value.
-/

namespace SlugBase

open JavaScript

/-- The parameters of a query, as they are written. -/
def pairsOf (search : JsString) : List JsString := (search.drop 1).splitOn 0x26

/-- The query of parameters. -/
def queryOf (pairs : List JsString) : JsString := 0x3F :: List.intercalate [0x26] pairs

/-- Whether a parameter is kept in the canonical form. -/
def isKept (pair : JsString) : Bool := pair != [] && !isTrackingParameter (parameterName pair)

/-- The kept parameters in their order. -/
def sortedPairs (search : JsString) : List JsString := (keptPairs search).insertionSort pairLe

/-- A parameter is there both bare and with an empty value. -/
def Ambiguous (search : JsString) : Prop :=
  ∃ name, 0x3D ∉ name ∧ name ∈ keptPairs search ∧ name ++ [0x3D] ∈ keptPairs search

section

variable {a b c search other : JsString} {pairs : List JsString}

/-! ## The order of parameters -/

theorem jsString_trichotomy (a b : JsString) : a < b ∨ a = b ∨ b < a := by
  by_cases hab : a < b
  · exact .inl hab
  · by_cases hba : b < a
    · exact .inr (.inr hba)
    · exact .inr (.inl (Std.le_antisymm (Std.not_lt.mp hba) (Std.not_lt.mp hab)))

instance pairLe_total : Std.Total pairLe where
  total a b := by
    unfold pairLe
    rcases jsString_trichotomy (rawName a) (rawName b) with hname | hname | hname
    · exact .inl (.inl hname)
    · rcases jsString_trichotomy (rawValue a) (rawValue b) with hvalue | hvalue | hvalue
      · exact .inl (.inr ⟨hname, Std.not_lt.mpr (Std.le_of_lt hvalue)⟩)
      · exact .inl (.inr ⟨hname, by rw [hvalue]; exact Std.lt_irrefl⟩)
      · exact .inr (.inr ⟨hname.symm, Std.not_lt.mpr (Std.le_of_lt hvalue)⟩)
    · exact .inr (.inl hname)

instance pairLe_trans : IsTrans JsString pairLe where
  trans a b c := by
    rintro (hab | ⟨hab, hvab⟩) (hbc | ⟨hbc, hvbc⟩)
    · exact .inl (Std.lt_trans hab hbc)
    · exact .inl (hbc ▸ hab)
    · exact .inl (hab ▸ hbc)
    · exact .inr ⟨hab.trans hbc, Std.not_lt.mpr (Std.le_trans (Std.not_lt.mp hvab) (Std.not_lt.mp hvbc))⟩

theorem tied_iff : (pairLe a b ∧ pairLe b a) ↔ rawName a = rawName b ∧ rawValue a = rawValue b := by
  constructor
  · rintro ⟨hab | ⟨hname, hvab⟩, hba | ⟨hname', hvba⟩⟩
    · exact absurd (Std.lt_trans hab hba) Std.lt_irrefl
    · exact absurd hab (by rw [hname']; exact Std.lt_irrefl)
    · exact absurd hba (by rw [hname]; exact Std.lt_irrefl)
    · refine ⟨hname, ?_⟩
      rcases jsString_trichotomy (rawValue a) (rawValue b) with hlt | heq | hlt
      · exact absurd hlt hvba
      · exact heq
      · exact absurd hlt hvab
  · rintro ⟨hname, hvalue⟩
    exact ⟨.inr ⟨hname, by rw [hvalue]; exact Std.lt_irrefl⟩, .inr ⟨hname.symm, by rw [hvalue]; exact Std.lt_irrefl⟩⟩

theorem not_mem_rawName (a : JsString) : 0x3D ∉ rawName a := by
  intro hmem
  exact absurd (List.mem_takeWhile_imp hmem) (by decide)

theorem pair_eq (a : JsString) : (a = rawName a ∧ rawValue a = []) ∨ a = rawName a ++ 0x3D :: rawValue a := by
  have hsplit : rawName a ++ a.dropWhile (· != 0x3D) = a := List.takeWhile_append_dropWhile
  cases hrest : a.dropWhile (· != 0x3D) with
  | nil =>
    rw [hrest, List.append_nil] at hsplit
    exact .inl ⟨hsplit.symm, by rw [rawValue, hrest]; rfl⟩
  | cons c rest =>
    have hhead := List.head?_dropWhile_not (· != 0x3D) a
    rw [hrest] at hhead hsplit
    have hc : c = 0x3D := by simpa using hhead
    rw [rawValue, hrest, List.drop_succ_cons, List.drop_zero, ← hc]
    exact .inr hsplit.symm

theorem rawName_bare (h : 0x3D ∉ a) : rawName a = a ∧ rawValue a = [] := by
  rcases pair_eq a with ⟨hname, hvalue⟩ | hpair
  · exact ⟨hname.symm, hvalue⟩
  · exact absurd (by rw [hpair]; simp) h

theorem rawName_empty (h : 0x3D ∉ a) : rawName (a ++ [0x3D]) = a ∧ rawValue (a ++ [0x3D]) = [] := by
  have hall : ∀ u ∈ a, (u != 0x3D) = true := by
    intro u hu
    rw [bne_iff_ne]
    rintro rfl
    exact h hu
  constructor
  · rw [rawName, List.takeWhile_append_of_pos hall]
    simp
  · rw [rawValue, List.dropWhile_append_of_pos hall]
    simp

/-- **Two kept parameters tie exactly when one is bare and the other has an empty value.** -/
theorem noTies_iff : (∀ a ∈ keptPairs search, ∀ b ∈ keptPairs search, pairLe a b → pairLe b a → a = b) ↔
    ¬Ambiguous search := by
  constructor
  · rintro h ⟨name, hname, hbare, hempty⟩
    have hties := tied_iff.mpr ⟨(rawName_bare hname).1.trans (rawName_empty hname).1.symm,
      (rawName_bare hname).2.trans (rawName_empty hname).2.symm⟩
    have heq := congrArg List.length (h name hbare _ hempty hties.1 hties.2)
    simp at heq
  · intro h a ha b hb hab hba
    obtain ⟨hname, hvalue⟩ := tied_iff.mp ⟨hab, hba⟩
    rcases pair_eq a with ⟨hbare, hnone⟩ | hpair <;> rcases pair_eq b with ⟨hbare', hnone'⟩ | hpair'
    · rw [hbare, hbare', hname]
    · refine absurd ⟨rawName a, not_mem_rawName a, hbare ▸ ha, ?_⟩ h
      rw [← hvalue, hnone, ← hname] at hpair'
      exact hpair' ▸ hb
    · refine absurd ⟨rawName b, not_mem_rawName b, hbare' ▸ hb, ?_⟩ h
      rw [hvalue, hnone', hname] at hpair
      exact hpair ▸ ha
    · rw [hpair, hpair', hname, hvalue]

/-! ## The canonical query -/

theorem keptPairs_eq (search : JsString) : keptPairs search = (pairsOf search).filter isKept := rfl

theorem canonicalQuery_eq (search : JsString) :
    canonicalQuery search = if sortedPairs search = [] then [] else queryOf (sortedPairs search) := by
  unfold canonicalQuery sortedPairs
  cases (keptPairs search).insertionSort pairLe with
  | nil => rfl
  | cons pair rest =>
    rw [if_neg (List.cons_ne_nil pair rest)]
    rfl

theorem not_mem_of_splitOn {separator : UInt16} {text : JsString} : ∀ part ∈ text.splitOn separator, separator ∉ part := by
  induction text with
  | nil => simp
  | cons c rest ih =>
    rw [List.splitOn_cons_eq_if_modifyHead]
    cases hsplit : rest.splitOn separator with
    | nil => exact absurd hsplit (List.splitOn_ne_nil separator rest)
    | cons first parts =>
      rw [hsplit, List.forall_mem_cons] at ih
      split_ifs with hc
      · simpa using ih
      · rw [List.modifyHead_cons, List.forall_mem_cons, List.mem_cons, not_or]
        exact ⟨⟨fun heq => hc (beq_iff_eq.mpr heq.symm), ih.1⟩, ih.2⟩

theorem not_mem_pairsOf (h : a ∈ pairsOf search) : 0x26 ∉ a := not_mem_of_splitOn a h

theorem pairsOf_queryOf (h : ∀ pair ∈ pairs, 0x26 ∉ pair) (hne : pairs ≠ []) : pairsOf (queryOf pairs) = pairs := by
  rw [pairsOf, queryOf, List.drop_succ_cons, List.drop_zero, List.splitOn_intercalate _ h hne]

theorem queryOf_pairsOf {rest : JsString} (h : search = 0x3F :: rest) : queryOf (pairsOf search) = search := by
  rw [h, queryOf, pairsOf, List.drop_succ_cons, List.drop_zero, List.intercalate_splitOn]

theorem mem_sortedPairs : a ∈ sortedPairs search ↔ a ∈ keptPairs search := (List.perm_insertionSort pairLe _).mem_iff

theorem kept_of_mem (h : a ∈ keptPairs search) : 0x26 ∉ a ∧ isKept a = true :=
  ⟨not_mem_pairsOf (List.mem_of_mem_filter h), (List.mem_filter.mp h).2⟩

/-- **What the canonical query keeps is what the query keeps, sorted.** -/
theorem keptPairs_canonicalQuery (search : JsString) : keptPairs (canonicalQuery search) = sortedPairs search := by
  rw [canonicalQuery_eq]
  split_ifs with hnone
  · rw [hnone]
    rfl
  · rw [keptPairs_eq, pairsOf_queryOf (fun pair hpair => (kept_of_mem (mem_sortedPairs.mp hpair)).1) hnone]
    exact List.filter_eq_self.mpr fun pair hpair => (kept_of_mem (mem_sortedPairs.mp hpair)).2

/-- **The canonical query is its own canonical query.** -/
theorem canonicalQuery_idem (search : JsString) : canonicalQuery (canonicalQuery search) = canonicalQuery search := by
  have hsorted : sortedPairs (canonicalQuery search) = sortedPairs search := by
    rw [sortedPairs, keptPairs_canonicalQuery]
    exact (List.pairwise_insertionSort pairLe _).insertionSort_eq
  rw [canonicalQuery_eq (canonicalQuery search), hsorted, ← canonicalQuery_eq]

theorem canonicalQuery_eq_iff : canonicalQuery search = canonicalQuery other ↔ sortedPairs search = sortedPairs other := by
  constructor
  · intro h
    rw [← keptPairs_canonicalQuery, h, keptPairs_canonicalQuery]
  · intro h
    rw [canonicalQuery_eq, canonicalQuery_eq, h]

/-- **The order of the parameters makes no difference exactly when no parameter is there both bare and with an empty
value.** -/
theorem sortedPairs_perm_iff : (∀ pairs : List JsString, pairs.Perm (pairsOf search) →
    (pairs.filter isKept).insertionSort pairLe = sortedPairs search) ↔ ¬Ambiguous search := by
  rw [← noTies_iff, ← Ties.insertionSort_perm_iff pairLe (keptPairs search)]
  constructor
  · intro h kept hperm
    -- the parameters that are not kept may stand behind those that are
    have hall : (kept ++ (pairsOf search).filter fun pair => !isKept pair).Perm (pairsOf search) :=
      (hperm.append_right _).trans (List.filter_append_perm isKept _)
    have hkept : ∀ pair ∈ kept, isKept pair = true := fun pair hpair => (kept_of_mem (hperm.subset hpair)).2
    have hfilter : (kept ++ (pairsOf search).filter fun pair => !isKept pair).filter isKept = kept := by
      rw [List.filter_append, List.filter_eq_self.mpr hkept, List.filter_filter]
      simp
    have hsorted := h _ hall
    rwa [hfilter] at hsorted
  · intro h pairs hperm
    exact h _ (hperm.filter isKept)

/-! ## Lengths -/

theorem length_queryOf (h : pairs ≠ []) : (queryOf pairs).length = (pairs.flatMap fun pair => 0x26 :: pair).length := by
  rw [queryOf, List.length_cons]
  induction pairs with
  | nil => exact absurd rfl h
  | cons pair rest ih =>
    cases rest with
    | nil => simp
    | cons next rest =>
      have hrest := ih (List.cons_ne_nil next rest)
      rw [List.intercalate_cons_cons, List.length_append, List.length_append, List.flatMap_cons, List.length_append, ← hrest]
      simp
      omega

theorem length_queryOf_le {more : List JsString} (h : pairs.Subperm more) (hne : pairs ≠ []) :
    (queryOf pairs).length ≤ (queryOf more).length := by
  have hmore : more ≠ [] := by
    rintro rfl
    exact hne (List.subperm_nil.mp h)
  rw [length_queryOf hne, length_queryOf hmore]
  obtain ⟨same, hperm, hsub⟩ := h
  rw [← (hperm.flatMap_right _).length_eq]
  exact (hsub.flatMap _).length_le

theorem sortedPairs_subperm (search : JsString) : (sortedPairs search).Subperm (pairsOf search) :=
  (List.perm_insertionSort pairLe _).subperm.trans List.filter_sublist.subperm

end

end SlugBase
