import SlugBase.Keyset.Cursor
import SlugBase.Lib.Keyset
import SlugBase.Access.Grants
import SlugBase.Bulk.Selection
import Mathlib.Data.Prod.Lex
import Mathlib.Data.Sum.Order
import Mathlib.Order.OrderDual

/-!
# Keysets by name and by count

The sorts that the lists of folders and of tags share.

* `KeysetTexts`: what the statements ask of texts;
* `NameKey`, `afterName`, `afterCount`: the orders by name and by count, and the conditions on what follows a row;
* **`afterName_iff`**, **`afterCount_iff`**: a condition selects the rows after its row.
-/

set_option linter.unusedSectionVars false

namespace SlugBase.Keyset

open Relational Bulk OrderDual

/-- **What the statements ask of texts**: the order of `citext`, `ILIKE`, and the texts of identifiers and times, which are
read back as they were; `timestampText` is `timestamptz::text` and `utcText` the RFC 3339 text with microseconds. -/
structure KeysetTexts (κ : Type) where
  fold : String → κ
  contains : String → String → Bool
  uuidText : Uuid → String
  readUuid : String → Uuid
  readUuid_text : ∀ id, readUuid (uuidText id) = id
  timestampText : Timestamp → String
  readTimestamp : String → Timestamp
  readTimestamp_text : ∀ t, readTimestamp (timestampText t) = t
  utcText : Timestamp → String
  readTimestamp_utc : ∀ t, readTimestamp (utcText t) = t
  isUuid : String → Bool
  isUuid_text : ∀ id, isUuid (uuidText id) = true

/-- A list with the number of its rows; none when there are more than the cap. -/
structure Counted (α : Type) extends KeysetPage α String where
  total : Option ℕ

/-- The number of rows of a page. -/
abbrev PageSize := { n : ℕ // 0 < n }

/-- Where a list stops counting. -/
def LIST_TOTAL_CAP : ℕ := 10000

def cappedTotal (counted : ℕ) : Option ℕ := if LIST_TOTAL_CAP < counted then none else some counted

variable {κ : Type} [LinearOrder κ] (T : KeysetTexts κ) (rt : CursorRuntime) (c : Content)

/-! ## Keysets by name and by count -/

/-- What the sorts by name and by count order by. -/
structure NameKey where
  count : ℕ
  name : String
  id : Uuid
deriving DecidableEq, Repr

/-- `asc(name), asc(id)`, behind `desc(count)` when the sort is by count. -/
def NameKey.rank (byCount : Bool) (k : NameKey) : ℕᵒᵈ ×ₗ (κ ×ₗ ℕ) :=
  toLex (toDual (if byCount then k.count else 0), toLex (T.fold k.name, k.id))

/-- `(name, id) > (after.name, after.id)`. -/
def afterName (name id : String) (k : NameKey) : Bool :=
  decide (T.fold name < T.fold k.name ∨ T.fold name = T.fold k.name ∧ T.readUuid id < k.id)

/-- `count < after.count OR (count = after.count AND afterName)`. -/
def afterCount (count : ℕ) (name id : String) (k : NameKey) : Bool :=
  decide (k.count < count) || decide (k.count = count) && afterName T name id k

variable {T}

theorem afterName_iff {k p : NameKey} :
    afterName T p.name (T.uuidText p.id) k = true ↔ p.rank T false < k.rank T false := by
  rw [afterName, decide_eq_true_eq, T.readUuid_text, NameKey.rank, NameKey.rank, Prod.Lex.toLex_lt_toLex]
  simp [Prod.Lex.toLex_lt_toLex]

theorem afterCount_iff {k p : NameKey} :
    afterCount T p.count p.name (T.uuidText p.id) k = true ↔ p.rank T true < k.rank T true := by
  rw [afterCount, Bool.or_eq_true, Bool.and_eq_true, decide_eq_true_eq, decide_eq_true_eq, afterName, decide_eq_true_eq,
    T.readUuid_text, NameKey.rank, NameKey.rank, Prod.Lex.toLex_lt_toLex, Prod.Lex.toLex_lt_toLex, if_pos rfl, if_pos rfl,
    toDual_lt_toDual, toDual_inj, eq_comm (a := k.count)]

theorem rank_injective {byCount : Bool} {k p : NameKey} (h : k.rank T byCount = p.rank T byCount) : k.id = p.id := by
  rw [NameKey.rank, NameKey.rank, toLex_inj, Prod.mk.injEq, toLex_inj, Prod.mk.injEq] at h
  exact h.2.2

/-- The microsecond 0, as `utcText` writes it. -/
def epochText : String := "1970-01-01T00:00:00.000000Z"

theorem unary_ne_epochText (n : ℕ) : unary n ≠ epochText := by
  intro h
  have hdigit : '1' ∈ (unary n).toList := by
    rw [h]
    decide
  rw [unary, String.toList_ofList] at hdigit
  exact absurd (List.eq_of_mem_replicate hdigit) (by decide)

/-- Texts of one letter for identifiers and times, but for the time 0. -/
def plainTexts : KeysetTexts ℕ where
  fold text := text.length
  contains _ _ := true
  uuidText := unary
  readUuid text := text.toList.length
  readUuid_text := length_unary
  timestampText := unary
  readTimestamp text := if text = epochText then 0 else text.toList.length
  readTimestamp_text n := by rw [if_neg (unary_ne_epochText n), length_unary]
  utcText n := if n = 0 then epochText else unary n
  readTimestamp_utc n := by
    by_cases hzero : n = 0
    · rw [if_pos hzero, if_pos rfl, hzero]
    · rw [if_neg hzero, if_neg (unary_ne_epochText n), length_unary]
  isUuid _ := true
  isUuid_text _ := rfl

end SlugBase.Keyset
