import SlugBase.Bookmark.Url
import SlugBase.Schema
import SlugBase.Lib.Query
import Mathlib.Data.Nat.Digits.Lemmas

/-!
# Identifiers as a request writes them

A request names rows by text. A text names a row when it has the form of a UUID, whatever the case of its
letters; everything else names none.

* `Refusal`, `Failure`, `Stop`: how a request ends that does nothing;
* `Language`: `toLowerCase` with what it promises, and the order of texts of the runtime;
* `uuidOf`: the row identifier a text denotes (the pattern `UUID` and the cast `::uuid` of the database);
* **`uuidOf_injective`**: two texts in lower case that denote one row are one text;
* `distinctIdentifiers`, `requireIdentifiers`.
-/

namespace SlugBase.Bulk

open Relational

/-- The answers of a request that did nothing. -/
inductive Refusal
  | tooMany (limit : ℕ)
  | urlRefused (reason : BookmarkUrlRefusal)
  | forbidden
  | targetNotFound
  | self
  | unknownTarget (field : String)
  deriving DecidableEq, Repr

/-- Why a request threw. -/
inductive Failure
  | rangeError (message : String)
  | error (message : String)
  | sql (error : SqlError)
  deriving DecidableEq, Repr

/-- How a request ends early: with an answer, or with an exception that undoes its transaction. -/
inductive Stop
  | refused (why : Refusal)
  | threw (why : Failure)
  deriving DecidableEq, Repr

/-- What a request answers. -/
abbrev Reply (α : Type) := Except Stop α

/-- Ends the request where the condition holds. -/
def stopIf (p : Prop) [Decidable p] (stop : Stop) : Reply Unit := if p then .error stop else .ok ()

/-- The functions of the language and the collations: `String.prototype.toLowerCase`,
`String.prototype.localeCompare`, and the order of the column type `citext`. -/
structure Language where
  toLowerCase : String → String
  toLowerCase_idem : ∀ s, toLowerCase (toLowerCase s) = toLowerCase s
  toLowerCase_noUpper : ∀ s, ∀ c ∈ (toLowerCase s).toList, c.isUpper = false
  localeCompare : String → String → Ordering
  citextLe : String → String → Bool

/-! ## The form of a UUID -/

/-- The value of a hexadecimal digit. -/
def hexValue (c : Char) : Option ℕ :=
  if 48 ≤ c.toNat ∧ c.toNat ≤ 57 then some (c.toNat - 48)
  else if 97 ≤ c.toNat ∧ c.toNat ≤ 102 then some (c.toNat - 87)
  else if 65 ≤ c.toNat ∧ c.toNat ≤ 70 then some (c.toNat - 55)
  else none

/-- The digits of a text of a form: a digit where it says `true`, a hyphen where it says `false`. -/
def readDigits : List Bool → List Char → Option (List ℕ)
  | [], [] => some []
  | true :: form, c :: text =>
    match hexValue c, readDigits form text with
    | some d, some digits => some (d :: digits)
    | _, _ => none
  | false :: form, c :: text => if c = '-' then readDigits form text else none
  | _, _ => none

/-- The form of the pattern `UUID`: eight digits, three times four, and twelve. -/
def uuidForm : List Bool :=
  List.intercalate [false] ([8, 4, 4, 4, 12].map fun n => List.replicate n true)

/-- The row identifier that a text denotes, if it has the form of one. -/
def uuidOf (text : String) : Option Uuid := (readDigits uuidForm text.toList).map fun digits => Nat.ofDigits 16 digits.reverse

theorem hexValue_lt {c : Char} {d : ℕ} (h : hexValue c = some d) : d < 16 := by
  unfold hexValue at h
  split_ifs at h <;> cases h <;> omega

theorem not_capital {c : Char} (h : c.isUpper = false) : ¬ (65 ≤ c.toNat ∧ c.toNat ≤ 90) := by
  have hiff : c.isUpper = true ↔ 65 ≤ c.toNat ∧ c.toNat ≤ 90 := by
    have hrange : c.isUpper = decide (c.val ≥ 'A'.val ∧ c.val ≤ 'Z'.val) := rfl
    simp [hrange, UInt32.le_iff_toNat_le, ← Char.toNat_val]
  rw [← hiff, h]
  exact Bool.false_ne_true

theorem hexValue_inj {c c' : Char} {d : ℕ} (h : hexValue c = some d) (h' : hexValue c' = some d)
    (hc : c.isUpper = false) (hc' : c'.isUpper = false) : c = c' := by
  have hlow := not_capital hc
  have hlow' := not_capital hc'
  have hnat : c.toNat = c'.toNat := by
    unfold hexValue at h h'
    split_ifs at h h' <;> simp only [Option.some.injEq] at h h' <;> omega
  exact Char.toNat_inj.mp hnat

/-- A text is its digits, up to the case of its letters. -/
theorem readDigits_inj {form : List Bool} {l l' : List Char} {digits : List ℕ} (h : readDigits form l = some digits)
    (h' : readDigits form l' = some digits) (hl : ∀ c ∈ l, c.isUpper = false)
    (hl' : ∀ c ∈ l', c.isUpper = false) : l = l' := by
  induction form generalizing l l' digits with
  | nil =>
    cases l with
    | nil =>
      cases l' with
      | nil => rfl
      | cons c' text' => cases h'
    | cons c text => cases h
  | cons b form ih =>
    cases l with
    | nil => cases b <;> cases h
    | cons c text =>
      cases l' with
      | nil => cases b <;> cases h'
      | cons c' text' =>
        have htail := fun x hx => hl x (List.mem_cons_of_mem c hx)
        have htail' := fun x hx => hl' x (List.mem_cons_of_mem c' hx)
        cases b with
        | false =>
          rw [readDigits] at h h'
          split_ifs at h h' with hc hc'
          rw [hc, hc', ih h h' htail htail']
        | true =>
          rw [readDigits] at h h'
          split at h
          · rename_i d ds hd hds
            cases h
            split at h'
            · rename_i d' ds' hd' hds'
              cases h'
              rw [hexValue_inj hd hd' (hl c List.mem_cons_self) (hl' c' List.mem_cons_self), ih hds hds' htail htail']
            · cases h'
          · cases h

theorem readDigits_lt {form : List Bool} {l : List Char} {digits : List ℕ} (h : readDigits form l = some digits) :
    digits.length = form.count true ∧ ∀ d ∈ digits, d < 16 := by
  induction form generalizing l digits with
  | nil =>
    cases l with
    | nil =>
      cases h
      exact ⟨rfl, fun d hd => absurd hd List.not_mem_nil⟩
    | cons c text => cases h
  | cons b form ih =>
    cases l with
    | nil => cases b <;> cases h
    | cons c text =>
      cases b with
      | false =>
        rw [readDigits] at h
        split_ifs at h
        simpa using ih h
      | true =>
        rw [readDigits] at h
        split at h
        · rename_i d ds hd hds
          cases h
          obtain ⟨hlength, hsmall⟩ := ih hds
          refine ⟨by simpa using hlength, fun x hx => ?_⟩
          rcases List.mem_cons.mp hx with rfl | hx
          · exact hexValue_lt hd
          · exact hsmall x hx
        · cases h

/-- **A lower-case text is the row it denotes.** -/
theorem uuidOf_injective {s t : String} {u : Uuid} (hs : uuidOf s = some u) (ht : uuidOf t = some u)
    (hlow : ∀ c ∈ s.toList, c.isUpper = false) (hlow' : ∀ c ∈ t.toList, c.isUpper = false) : s = t := by
  obtain ⟨ds, hds, rfl⟩ := Option.map_eq_some_iff.mp hs
  obtain ⟨ds', hds', heq⟩ := Option.map_eq_some_iff.mp ht
  obtain ⟨hlen, hsmall⟩ := readDigits_lt hds
  obtain ⟨hlen', hsmall'⟩ := readDigits_lt hds'
  have hlength : ds'.reverse.length = ds.reverse.length := by
    rw [List.length_reverse, List.length_reverse, hlen, hlen']
  have hdigits : ds'.reverse = ds.reverse := Nat.ofDigits_inj_of_len_eq (by decide) hlength
    (fun d hd => hsmall' d (List.mem_reverse.mp hd)) (fun d hd => hsmall d (List.mem_reverse.mp hd)) heq
  rw [List.reverse_inj.mp hdigits] at hds'
  exact String.toList_inj.mp (readDigits_inj hds hds' hlow hlow')

/-! ## Lists of identifiers -/

variable (lang : Language)

/-- `distinctIdentifiers`: the identifiers without repeats, in lower case, in a stable order. -/
def distinctIdentifiers (ids : List String) : List String :=
  (unique (ids.map lang.toLowerCase)).insertionSort (· ≤ ·)

/-- `requireIdentifiers`. -/
def requireIdentifiers (ids : List String) (action : String) : Reply Unit :=
  if ids.all fun id => (uuidOf id).isSome then .ok () else .error (.threw (.error (action ++ " takes identifiers only")))

/-- The rows that a list of texts names: the array the statement takes. -/
def uuidArray (ids : List String) : List Uuid := ids.filterMap uuidOf

variable {lang}

@[simp] theorem mem_distinctIdentifiers {ids : List String} {text : String} :
    text ∈ distinctIdentifiers lang ids ↔ ∃ id ∈ ids, lang.toLowerCase id = text := by
  rw [distinctIdentifiers, List.mem_insertionSort, mem_unique, List.mem_map]

theorem distinctIdentifiers_nodup (ids : List String) : (distinctIdentifiers lang ids).Nodup :=
  (List.perm_insertionSort _ _).nodup_iff.mpr (unique_nodup _)

theorem requireIdentifiers_ok {ids : List String} {action : String} (h : requireIdentifiers ids action = .ok ()) :
    ∀ id ∈ ids, ∃ u, uuidOf id = some u := by
  intro id hid
  unfold requireIdentifiers at h
  split_ifs at h with hall
  exact Option.isSome_iff_exists.mp (List.all_eq_true.mp hall id hid)

/-- **Distinct identifiers name distinct rows**: as many rows as texts. -/
theorem uuidArray_distinct {ids : List String} {action : String}
    (h : requireIdentifiers (distinctIdentifiers lang ids) action = .ok ()) :
    (uuidArray (distinctIdentifiers lang ids)).Nodup ∧
      (uuidArray (distinctIdentifiers lang ids)).length = (distinctIdentifiers lang ids).length := by
  have hall := requireIdentifiers_ok h
  have hnodup : (distinctIdentifiers lang ids).Nodup := distinctIdentifiers_nodup ids
  have hlow : ∀ text ∈ distinctIdentifiers lang ids, ∀ c ∈ text.toList, c.isUpper = false := by
    intro text htext
    obtain ⟨id, -, rfl⟩ := mem_distinctIdentifiers.mp htext
    exact lang.toLowerCase_noUpper id
  constructor
  · refine List.pairwise_filterMap.mpr (hnodup.imp_of_mem fun {s t} hs ht hne => ?_)
    intro u hu v hv huv
    subst huv
    exact hne (uuidOf_injective hu hv (hlow s hs) (hlow t ht))
  · rw [uuidArray, List.length_filterMap_eq_countP, List.countP_eq_length]
    intro text htext
    obtain ⟨u, hu⟩ := hall text htext
    rw [hu]
    rfl

end SlugBase.Bulk
