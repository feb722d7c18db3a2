import SlugBase.Keyset.Folders

/-!
# The pages of the tags

A page of the tags a member owns, by name or by number of bookmarks.

* `tagsQuery`: the statement of a page; `tagCursorScope`, `listTags`: the operation;
* **`listTags_resumes`**: the cursor of a tag asks for the tags after it.
-/

set_option linter.unusedSectionVars false

namespace SlugBase.Keyset

open Relational Bulk OrderDual

variable {κ : Type} [LinearOrder κ] (T : KeysetTexts κ) (rt : CursorRuntime) (c : Content)

inductive TagSort
  | name
  | count
deriving DecidableEq, Repr

def TagSort.text : TagSort → String
  | .name => "name"
  | .count => "count"

/-- `TagRow`. -/
structure TagRow where
  tag : Tag
  bookmarkCount : ℕ
deriving DecidableEq, Repr

def TagRow.key (row : TagRow) : NameKey := ⟨row.bookmarkCount, row.tag.name, row.tag.id⟩

structure TagPosition where
  count : Option ℕ
  name : String
  id : String
deriving DecidableEq, Repr

/-- `count(bookmarks.id)` of a tag. -/
def tagBookmarkCount (t : Tag) : ℕ :=
  ((c.bookmarkTags.rows.filter fun l => decide (l.workspaceId = t.workspaceId ∧ l.tagId = t.id)).flatMap fun l =>
    linkedBookmarks c l.workspaceId l.bookmarkId).length

def tagRowOf (t : Tag) : TagRow := ⟨t, tagBookmarkCount c t⟩

/-- The tags of an owner. -/
def tagRows (workspaceId ownerId : Uuid) : List TagRow :=
  (c.tags.rows.filter fun t => decide (t.workspaceId = workspaceId ∧ t.ownerId = ownerId)).map (tagRowOf c)

/-- `ORDERS`. -/
def tagRank (sort : TagSort) (row : TagRow) : ℕᵒᵈ ×ₗ (κ ×ₗ ℕ) := row.key.rank T (decide (sort = .count))

/-- `rowsAfter` and `groupsAfter`. -/
def afterTag (sort : TagSort) (after : TagPosition) (row : TagRow) : Bool :=
  match sort with
  | .name => afterName T after.name after.id row.key
  | .count => after.count.all fun count => afterCount T count after.name after.id row.key

/-- `tagsQuery`, in the workspace of the transaction. -/
def tagsQuery (workspaceId ownerId : Uuid) (sort : TagSort) (after : Option TagPosition) (limit : ℕ) : List TagRow :=
  top (tagRank T sort) limit ((tagRows c workspaceId ownerId).filter fun row =>
    after.all fun position => afterTag T sort position row)

def TagPosition.parts (position : TagPosition) : List (Option String) :=
  [position.count.map countText, some position.name, some position.id]

def tagPositionOf : List (Option String) → Option TagPosition
  | [none, some name, some id] => some ⟨none, name, id⟩
  | [some count, some name, some id] => (readCount count).map fun count => ⟨some count, name, id⟩
  | _ => none

/-- `tagCursors`. -/
def sealTag (position : TagPosition) (scope : String) : String := encodeKey rt "tags" position.parts scope

def openTag (cursor scope : String) : Option TagPosition := (decodeKey rt "tags" cursor scope).bind tagPositionOf

structure TagListAsk where
  workspaceId : Uuid
  accountId : Uuid
  sort : TagSort
  limit : PageSize
  cursor : Option String
deriving DecidableEq, Repr

/-- `cursorScope` of a list of tags. -/
def tagCursorScope (ask : TagListAsk) : String :=
  rt.stringify (.list [textPart (T.uuidText ask.workspaceId), textPart (T.uuidText ask.accountId), textPart ask.sort.text])

/-- The position of the last tag of a page. -/
def tagPosition (sort : TagSort) (row : TagRow) : TagPosition where
  count := if sort = .count then some row.bookmarkCount else none
  name := row.tag.name
  id := T.uuidText row.tag.id

/-- The position a cursor resumes from: of no cursor none; refused when it is of another list or sort. -/
def tagAfter (ask : TagListAsk) : Option (Option TagPosition) :=
  match ask.cursor with
  | none => some none
  | some cursor =>
    match openTag rt cursor (tagCursorScope T rt ask) with
    | none => none
    | some after => if decide (ask.sort = .count) == after.count.isSome then some (some after) else none

/-- `listTags`; none for a cursor that is refused. -/
def listTags (ask : TagListAsk) : Option (Counted TagRow) :=
  (tagAfter T rt ask).map fun after =>
    let fetched := tagsQuery T c ask.workspaceId ask.accountId ask.sort after (ask.limit.val + 1)
    let counted := ((tagRows c ask.workspaceId ask.accountId).take (LIST_TOTAL_CAP + 1)).length
    ⟨cut (fun row => sealTag rt (tagPosition T ask.sort row) (tagCursorScope T rt ask)) ask.limit.val fetched,
      cappedTotal counted⟩

/-- The counts fit their column type: `count(...)::int` fails on a count that does not. -/
def TagCountsFit (c : Content) : Prop := ∀ t ∈ c.tags.rows, tagBookmarkCount c t < 2 ^ 31

section

variable {T rt c} {sort : TagSort} {x y : TagRow} {scope : String} {w owner : Uuid}

theorem openTag_sealTag {position : TagPosition} (h : ∀ count, position.count = some count → count < 10 ^ 15) :
    openTag rt (sealTag rt position scope) scope = some position := by
  obtain ⟨count, name, id⟩ := position
  rw [openTag, sealTag, decodeKey_encodeKey, Option.bind_some, TagPosition.parts]
  cases count with
  | none => rfl
  | some count => rw [Option.map_some, tagPositionOf, readCount_countText (h count rfl), Option.map_some]

/-- **The position of a tag selects the tags after it.** -/
theorem afterTag_iff : afterTag T sort (tagPosition T sort x) y = decide (tagRank T sort x < tagRank T sort y) := by
  rw [Bool.eq_iff_iff, decide_eq_true_eq]
  cases sort with
  | name => exact afterName_iff (k := y.key) (p := x.key)
  | count => exact afterCount_iff (k := y.key) (p := x.key)

theorem mem_tagRows (h : x ∈ tagRows c w owner) : x.tag ∈ c.tags.rows ∧ x = tagRowOf c x.tag := by
  obtain ⟨t, ht, rfl⟩ := List.mem_map.mp h
  exact ⟨List.mem_of_mem_filter ht, rfl⟩

theorem separates_tagRows : Separates (tagRank T sort) (tagRows c w owner) := by
  intro x hx y hy h
  obtain ⟨hxmem, hxrow⟩ := mem_tagRows hx
  obtain ⟨hymem, hyrow⟩ := mem_tagRows hy
  rw [hxrow, hyrow, Table.eq_of_key hxmem hymem (rank_injective (k := x.key) (p := y.key) h)]

theorem tagRows_nodup : (tagRows c w owner).Nodup := by
  refine ((List.Nodup.of_map _ c.tags.keyed).filter _).map fun t u h => ?_
  exact congrArg TagRow.tag h

theorem tagPosition_count (hcounts : TagCountsFit c) (hx : x ∈ tagRows c w owner) {count : ℕ}
    (h : (tagPosition T sort x).count = some count) : count < 10 ^ 15 := by
  obtain ⟨hmem, hrow⟩ := mem_tagRows hx
  have hfits : x.bookmarkCount < 2 ^ 31 := by
    rw [hrow]
    exact hcounts _ hmem
  unfold tagPosition at h
  dsimp only at h
  split_ifs at h
  rw [← Option.some.inj h]
  omega

/-- **The cursor of a tag asks for the tags after it.** -/
theorem listTags_resumes (hcounts : TagCountsFit c) (ask : TagListAsk) :
    Resumes (tagRank T ask.sort) (fun row => sealTag rt (tagPosition T ask.sort row) (tagCursorScope T rt ask)) ask.limit.val
      (tagRows c ask.workspaceId ask.accountId)
      fun cursor => (listTags T rt c { ask with cursor := cursor }).map Counted.toKeysetPage where
  first := by
    rw [listTags, tagAfter, Option.map_some, Option.map_some, tagsQuery]
    simp only [Option.all_none, List.filter_true]
    rfl
  after := by
    intro x hx
    have hcount : ∀ count, (tagPosition T ask.sort x).count = some count → count < 10 ^ 15 :=
      fun _ => tagPosition_count hcounts hx
    have hfits : (decide (ask.sort = .count) == (tagPosition T ask.sort x).count.isSome) = true := by
      unfold tagPosition
      cases ask.sort <;> rfl
    have hafter : tagAfter T rt { ask with
        cursor := some (sealTag rt (tagPosition T ask.sort x) (tagCursorScope T rt ask)) } =
          some (some (tagPosition T ask.sort x)) := by
      have hscope : tagCursorScope T rt { ask with
          cursor := some (sealTag rt (tagPosition T ask.sort x) (tagCursorScope T rt ask)) } = tagCursorScope T rt ask := rfl
      rw [tagAfter]
      dsimp only
      rw [hscope, openTag_sealTag hcount]
      dsimp only
      rw [if_pos hfits]
    rw [listTags, hafter, Option.map_some, Option.map_some, tagsQuery, rowsAfter]
    simp only [Option.all_some, afterTag_iff]
    rfl

end

end SlugBase.Keyset
