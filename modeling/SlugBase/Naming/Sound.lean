import SlugBase.Naming.Runs

/-!
# What an operation on a name has read and written

* `find_some`, `mem_replace`, `mem_insert_getD`: the rows that statements meet and leave;
* `Phase.Sound`: what holds of a phase; `follows_setOf`: an update that sets a column moves the version;
* **`Goes.sound`**: an operation that goes on stays sound.
-/

namespace SlugBase.Naming

open Relational Transition

/-! ## Rows that are found -/

section

variable {rows : Rows} {id : Uuid} {scope : Scope} {r : NamedRow}

theorem find_some (h : find rows id scope = some r) : r ∈ rows ∧ r.id = id ∧ r.scope = scope := by
  obtain ⟨hmem, hp⟩ := Table.find?_some h
  exact ⟨hmem, of_decide_eq_true hp⟩

theorem find_none (h : find rows id scope = none) (hr : r ∈ rows) (hid : r.id = id) : r.scope ≠ scope := by
  intro hscope
  exact absurd (Table.find?_none h hr) (by simp [hid, hscope])

theorem mem_replace {row : NamedRow} (h : r ∈ replace rows row) : r = row ∨ r ∈ rows ∧ r.id ≠ row.id := by
  obtain ⟨r', hr', heq⟩ := Table.mem_updateWhere.mp h
  split_ifs at heq with hid
  · refine .inl ?_
    rw [← heq, of_decide_eq_true hid]
  · rw [decide_eq_true_eq] at hid
    exact .inr (heq ▸ ⟨hr', hid⟩)

theorem mem_replace_of_ne {row : NamedRow} (h : r ∈ rows) (hid : r.id ≠ row.id) : r ∈ replace rows row :=
  Table.mem_updateWhere.mpr ⟨r, h, if_neg (by rwa [decide_eq_true_eq])⟩

theorem mem_insert_getD {row : NamedRow} (h : r ∈ (rows.insert? row).getD rows) : r = row ∨ r ∈ rows := by
  cases hins : rows.insert? row with
  | none =>
    rw [hins] at h
    exact .inr h
  | some t =>
    rw [hins, Option.getD_some, Table.mem_insert? hins] at h
    exact h.symm

theorem mem_insert_getD_of_mem {row : NamedRow} (h : r ∈ rows) : r ∈ (rows.insert? row).getD rows := by
  cases hins : rows.insert? row with
  | none => exact h
  | some t => exact (Table.mem_insert? hins).mpr (.inl h)

end

/-! ## What an operation has read and written -/

section

variable {citext : String → String} {s : State} {r : Request} {i : ℕ} {t : Txn} {phase phase' : Phase}

/-- The operation gives this name to a row that is there already. -/
structure Renames (citext : String → String) (r : Request) (name : String) : Prop where
  creates : r.creates = none
  isUpdate : r.isUpdate = false
  wanted : some ⟨r.scope, citext name⟩ = r.wanted citext
  expected : r.expectedVersions = none

/-- **What holds of a phase.** -/
def Phase.Sound (citext : String → String) (r : Request) : Phase → Prop
  | .asked | .passed => True
  | .judging name => Renames citext r name
  | .found name snapshot _ => Renames citext r name ∧ Judged citext r snapshot
  | .held row changes => row.id = r.id ∧ row.scope = r.scope ∧ Accepts r row ∧
      ∀ name, changes.name = some name → some ⟨r.scope, citext name⟩ = r.wanted citext
  | .writing old new snapshot _ => old.id = r.id ∧ Follows r old new ∧ some (new.key citext) = r.wanted citext ∧
      Judged citext r snapshot
  | .inserted row => r.creates = some row.id ∧ row.id = r.id ∧ some (row.key citext) = r.wanted citext
  | .written old new named => old.id = r.id ∧ Follows r old new ∧ (named = true ∨ new.key citext = old.key citext)
  | .removing row => row.id = r.id

theorem judged_of_taken {name : String} (hwanted : some ⟨r.scope, citext name⟩ = r.wanted citext)
    (h : taken citext s.rows r.id ⟨r.scope, citext name⟩ = false) : Judged citext r s.rows := by
  intro o ho hkey
  by_contra hid
  have hsame : o.key citext = ⟨r.scope, citext name⟩ := Option.some.inj (hkey.trans hwanted.symm)
  have hany : taken citext s.rows r.id ⟨r.scope, citext name⟩ = true :=
    Table.any_iff.mpr ⟨o, ho, decide_eq_true ⟨hsame, hid⟩⟩
  rw [h] at hany
  cases hany

theorem follows_rename {row : NamedRow} {name : String} (h : Renames citext r name) :
    Follows r row { row with name := name } where
  id := rfl
  scope := rfl
  accepts versions hversions := by
    rw [h.expected] at hversions
    cases hversions
  version := le_rfl
  moved hupdate := by
    rw [h.isUpdate] at hupdate
    cases hupdate

/-- **What an update sets is a change**, which moves the version by one. -/
theorem follows_setOf {row : NamedRow} {changes : Changes} (haccepts : Accepts r row)
    (h : (setOf changes row).isEmpty = false) : Follows r row (bumpVersion row ((setOf changes row).applied row)) := by
  have hversion : (bumpVersion row ((setOf changes row).applied row)).version = row.version + 1 := by
    refine if_pos ?_
    by_contra hsame
    simp only [not_or, not_not] at hsame
    obtain ⟨hname, hdetails⟩ := hsame
    have hicon := congrArg Details.icon hdetails
    have hcolor := congrArg Details.color hdetails
    have hdescription := congrArg Details.description hdetails
    have hnone {α : Type} [DecidableEq α] {wanted : Option α} {value : α}
        (heq : (wanted.filter fun v => decide (v ≠ value)).getD value = value) :
        (wanted.filter fun v => decide (v ≠ value)).isNone = true := by
      cases wanted with
      | none => rfl
      | some v =>
        by_cases hv : v = value
        · simp [Option.filter, hv]
        · simp [Option.filter, hv] at heq
    have hempty : (setOf changes row).isEmpty = true := by
      simp only [Changes.isEmpty, Bool.and_eq_true]
      exact ⟨⟨⟨hnone hname, hnone hicon⟩, hnone hcolor⟩, hnone hdescription⟩
    rw [h] at hempty
    cases hempty
  refine ⟨rfl, rfl, haccepts, ?_, fun _ => ?_⟩
  · rw [hversion]
    omega
  · rw [hversion]
    omega

theorem changes_name_of_setOf {row : NamedRow} {changes : Changes} {name : String}
    (h : (setOf changes row).name = some name) : changes.name = some name :=
  (Option.filter_eq_some_iff.mp h).1

/-- **What an operation has read and written stays sound as it goes on.** -/
theorem Goes.sound (h : Goes citext s r phase phase') (hsound : phase.Sound citext r) : phase'.Sound citext r := by
  cases h with
  | insert hcreates hid hwanted => exact ⟨hcreates, hid, hwanted⟩
  | read hcreates hupdate hwanted hexpected => exact ⟨hcreates, hupdate, hwanted, hexpected⟩
  | miss | gone => trivial
  | judge hfree => exact ⟨hsound, judged_of_taken hsound.wanted hfree⟩
  | grant hfind =>
    obtain ⟨-, hid, hscope⟩ := find_some hfind
    refine ⟨hid, follows_rename hsound.1, ?_, hsound.2⟩
    rw [← hsound.1.wanted, ← hscope]
    rfl
  | lock _ _ hwanted hfind haccepts =>
    obtain ⟨-, hid, hscope⟩ := find_some hfind
    exact ⟨hid, hscope, haccepts, hwanted⟩
  | write hset hname hfree =>
    obtain ⟨hid, hscope, haccepts, hwanted⟩ := hsound
    have hkey := hwanted _ (changes_name_of_setOf hname)
    refine ⟨hid, follows_setOf haccepts hset, ?_, judged_of_taken hkey hfree⟩
    rw [← hkey, ← hscope]
    simp only [NamedRow.key, bumpVersion, Changes.applied, hname, Option.getD_some]
  | touch hset hname =>
    obtain ⟨hid, hscope, haccepts, -⟩ := hsound
    refine ⟨hid, follows_setOf haccepts hset, .inr ?_⟩
    simp only [NamedRow.key, bumpVersion, Changes.applied, hname, Option.getD_none]
  | claim => exact ⟨hsound.1, hsound.2.1, .inl rfl⟩
  | mark _ hfind => exact (find_some hfind).2.1

end

end SlugBase.Naming
