import SlugBase.Lib.Guarded
import SlugBase.Schema
import Mathlib.Data.List.Sort

/-!
# Bookmarks, tags and the links between them

* `Key`, `Row`: the rows; the row of a bookmark or a tag that was deleted is kept as `none`, since its identifier is not
  drawn again, and the row of a link as one that is not present;
* `Statement`, `rules`: the statements that write one row;
* `Answer`: what a transaction answers.
-/

namespace SlugBase.Tagging

open ReadCommitted

/-! ## Rows -/

/-- A row of `bookmarks`. -/
structure BookmarkRow where
  workspaceId : Uuid
  ownerId : Uuid
  planArchived : Bool
  deriving DecidableEq, Repr

/-- A row of `tags`. -/
structure TagRow where
  workspaceId : Uuid
  ownerId : Uuid
  name : String
  deriving DecidableEq, Repr

/-- A pair of a bookmark and a tag: whether it is a row of `bookmark_tags`, and how often it has been untagged. -/
structure LinkRow where
  present : Bool
  untagged : ℕ
  deriving DecidableEq, Repr

/-- The rows' keys. -/
inductive Key
  | workspace (id : Uuid)
  | member (workspaceId accountId : Uuid)
  | bookmark (id : Uuid)
  | tag (id : Uuid)
  | link (bookmarkId tagId : Uuid)
  deriving DecidableEq, Repr

/-- The row of a key. -/
@[reducible] def Row : Key → Type
  | .workspace _ | .member _ _ => Unit
  | .bookmark _ => Option BookmarkRow
  | .tag _ => Option TagRow
  | .link _ _ => LinkRow

/-- The rows of a database. -/
abbrev Rows := AList Row

/-- The rows a transaction has written and the locks it holds. -/
abbrev Local := Held Row

/-- A pair that has never been linked. -/
def LinkRow.absent : LinkRow := ⟨false, 0⟩

namespace Rows

variable (db : Rows)

/-- The row of a bookmark. -/
abbrev bookmark (b : Uuid) : Option BookmarkRow := (db.lookup (.bookmark b)).join

/-- The row of a tag. -/
abbrev tag (t : Uuid) : Option TagRow := (db.lookup (.tag t)).join

/-- The row of a pair. -/
def link (b t : Uuid) : LinkRow := (db.lookup (.link b t)).getD LinkRow.absent

/-- The tags that meet a condition, in the order of their identifiers. -/
def tagsWhere (p : Uuid → TagRow → Bool) : List Uuid :=
  (db.keys.filterMap fun
    | .tag t => if (Rows.tag db t).any (p t) then some t else none
    | _ => none).insertionSort (· ≤ ·)

/-- The bookmarks that carry a tag, in the order of their identifiers. -/
def bookmarksOf (t : Uuid) : List Uuid :=
  (db.keys.filterMap fun
    | .link b t' => if t' = t ∧ (Rows.link db b t').present = true then some b else none
    | _ => none).insertionSort (· ≤ ·)

/-- The tags that a bookmark carries, in the order of their identifiers. -/
def tagsOf (b : Uuid) : List Uuid :=
  (db.keys.filterMap fun
    | .link b' t => if b' = b ∧ (Rows.link db b' t).present = true then some t else none
    | _ => none).insertionSort (· ≤ ·)

variable {db} {b t : Uuid}

theorem mem_keys_of_present (h : (link db b t).present = true) : Key.link b t ∈ db.keys := by
  rw [link] at h
  refine AList.mem_keys.mp (AList.lookup_isSome.mp ?_)
  cases hrow : db.lookup (.link b t) with
  | none =>
    rw [hrow] at h
    cases h
  | some row => rfl

theorem mem_bookmarksOf : b ∈ bookmarksOf db t ↔ (link db b t).present = true := by
  rw [bookmarksOf, List.mem_insertionSort, List.mem_filterMap]
  constructor
  · rintro ⟨k, -, heq⟩
    cases k with
    | workspace | member | bookmark | tag => cases heq
    | link b' t' =>
      obtain ⟨⟨rfl, hpresent⟩, hb⟩ := Option.ite_none_right_eq_some.mp heq
      rw [← Option.some.inj hb]
      exact hpresent
  · intro h
    exact ⟨.link b t, mem_keys_of_present h, if_pos ⟨rfl, h⟩⟩

theorem mem_tagsOf : t ∈ tagsOf db b ↔ (link db b t).present = true := by
  rw [tagsOf, List.mem_insertionSort, List.mem_filterMap]
  constructor
  · rintro ⟨k, -, heq⟩
    cases k with
    | workspace | member | bookmark | tag => cases heq
    | link b' t' =>
      obtain ⟨⟨rfl, hpresent⟩, ht⟩ := Option.ite_none_right_eq_some.mp heq
      rw [← Option.some.inj ht]
      exact hpresent
  · intro h
    exact ⟨.link b t, mem_keys_of_present h, if_pos ⟨rfl, h⟩⟩

theorem bookmarksOf_nodup : (bookmarksOf db t).Nodup := by
  refine (List.perm_insertionSort _ _).nodup_iff.mpr (List.pairwise_filterMap.mpr ?_)
  refine db.nodupKeys.imp fun {k k'} hne => ?_
  rintro b hb b' hb' rfl
  cases k with
  | workspace | member | bookmark | tag => cases hb
  | link c u =>
    cases k' with
    | workspace | member | bookmark | tag => cases hb'
    | link c' u' =>
      obtain ⟨⟨rfl, -⟩, hc⟩ := Option.ite_none_right_eq_some.mp hb
      obtain ⟨⟨rfl, -⟩, hc'⟩ := Option.ite_none_right_eq_some.mp hb'
      exact hne (by rw [Option.some.inj hc, Option.some.inj hc'])

end Rows

/-! ## Statements -/

/-- The statements that write one row. An insert of a link leaves one that is there (`ON CONFLICT DO NOTHING`), and so does
an insert of a tag whose owner has one of that name; `copyLink` inserts the link of the target that the source's stands
for, and `dropLink` is what a foreign key deletes. -/
inductive Statement
  | insertBookmark (b : Uuid) (row : BookmarkRow)
  | deleteBookmark (w a b : Uuid)
  | insertTag (t : Uuid) (row : TagRow)
  | deleteTag (w a t : Uuid)
  | insertLink (b t : Uuid)
  | copyLink (source target b : Uuid)
  | deleteLink (b t : Uuid)
  | dropLink (b t : Uuid)
  deriving DecidableEq, Repr

/-- The row a statement writes. -/
@[reducible] def Statement.target : Statement → Key
  | .insertBookmark b _ | .deleteBookmark _ _ b => .bookmark b
  | .insertTag t _ | .deleteTag _ _ t => .tag t
  | .insertLink b t | .deleteLink b t | .dropLink b t => .link b t
  | .copyLink _ t b => .link b t

/-- Whether a bookmark is one of the account in the workspace. -/
def ownsBookmark (w a : Uuid) (row : Option (Option BookmarkRow)) : Bool :=
  row.join.any fun row => decide (row.workspaceId = w) && decide (row.ownerId = a)

/-- Whether a tag is one of the account in the workspace. -/
def ownsTag (w a : Uuid) (row : Option (Option TagRow)) : Bool :=
  row.join.any fun row => decide (row.workspaceId = w) && decide (row.ownerId = a)

/-- The foreign keys of a link and its policy: the bookmark and the tag are there, in one workspace and of one owner. -/
def Rows.placed (db : Rows) (b t : Uuid) : Bool :=
  (Rows.bookmark db b).any fun row => ownsTag row.workspaceId row.ownerId (db.lookup (.tag t))

/-- The insert of a link. -/
def Rows.linked (db : Rows) (b t : Uuid) : Change LinkRow :=
  if (Rows.link db b t).present then .nothing
  else if Rows.placed db b t then .becomes (some ⟨true, (Rows.link db b t).untagged⟩)
  else .raises

variable (sameName : String → String → Bool)

/-- What a statement makes of its row. -/
def Statement.change (db : Rows) : (q : Statement) → Change (Row q.target)
  | .insertBookmark b row =>
    match db.lookup (.bookmark b) with
    | none => .becomes (some (some row))
    | some _ => .raises
  | .deleteBookmark w a b => if ownsBookmark w a (db.lookup (.bookmark b)) then .becomes (some none) else .nothing
  | .insertTag t row =>
    if (Rows.tagsWhere db fun _ other => decide (other.workspaceId = row.workspaceId) &&
        (decide (other.ownerId = row.ownerId) && sameName other.name row.name)) ≠ [] then .nothing
    else
      match db.lookup (.tag t) with
      | none => .becomes (some (some row))
      | some _ => .raises
  | .deleteTag w a t => if ownsTag w a (db.lookup (.tag t)) then .becomes (some none) else .nothing
  | .insertLink b t => Rows.linked db b t
  | .copyLink _ t b => Rows.linked db b t
  | .deleteLink b t =>
    if (Rows.link db b t).present then .becomes (some ⟨false, (Rows.link db b t).untagged + 1⟩) else .nothing
  | .dropLink b t =>
    if (Rows.link db b t).present then .becomes (some ⟨false, (Rows.link db b t).untagged⟩) else .nothing

/-! ## Answers -/

/-- What a transaction answers: a change of a bookmark with the tags it took away and those the bookmark was to have, a bulk
tagging with its pairs and how often each had been untagged, and `again` when the locks of a merge are undone. -/
inductive Answer
  | saved (b : Uuid) (detached wanted : List Uuid)
  | tagged (pairs : List (Uuid × Uuid × ℕ))
  | untagged (pairs : List (Uuid × Uuid))
  | bookmarksRemoved (ids : List Uuid)
  | tagRemoved (t : Uuid)
  | merged (source target : Uuid)
  | again
  | refused
  deriving DecidableEq, Repr

namespace Answer

/-- The transaction untagged the pair. -/
def untags : Answer → Uuid → Uuid → Bool
  | .saved b detached _, b', t => decide (b' = b) && decide (t ∈ detached)
  | .untagged pairs, b, t => decide ((b, t) ∈ pairs)
  | _, _, _ => false

/-- The transaction deleted the row. -/
def removes : Answer → Key → Bool
  | .bookmarksRemoved ids, .bookmark b => decide (b ∈ ids)
  | .tagRemoved t, .tag t' => decide (t' = t)
  | .merged source _, .tag t => decide (t = source)
  | _, _ => false

end Answer

/-- What the statements do; no trigger is deferred. -/
def rules : Rules Row Statement Empty Answer where
  target := Statement.target
  mode _ := .update
  change q db := q.change sameName db
  queue _ _ _ := []
  handler e := e.elim
  exclusive _ _ := rfl

/-- What a transaction does. -/
abbrev Program := Prog Row Statement Answer

end SlugBase.Tagging
