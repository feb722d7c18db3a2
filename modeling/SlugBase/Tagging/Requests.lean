import SlugBase.Tagging.Store

/-!
# What changes tags and their links

Each request is one transaction, statement by statement.

* `lockTaggingOwner`, `lockTaggingTags`, `resolveTagNames`: what a tagging locks and creates;
* `update`, `create`, `tag`: the taggings of one bookmark, by identifier and by name, and those of many;
* `merge`: one round of a merge of two tags, with all that follows when its locks are complete;
* `removeMany`, `remove`: the deletions, whose links go by foreign key.
-/

namespace SlugBase.Tagging

open ReadCommitted Contract

/-- How names are compared: as the column does, and as the application orders the ones it creates. -/
structure Names where
  same : String → String → Bool
  before : String → String → Bool

variable (names : Names)

/-! ## Locks -/

/-- `distinctIdentifiers`, in their order. -/
def distinctIdentifiers (ids : List Uuid) : List Uuid := ids.dedup.insertionSort (· ≤ ·)

/-- Rows are locked one after the other, and those that are not wanted when their turn comes are left out. -/
def lockEach (key : Uuid → Key) (mode : LockMode) (wanted : (id : Uuid) → Option (Row (key id)) → Bool) :
    List Uuid → List Uuid → (List Uuid → Program) → Program
  | [], locked, next => next locked
  | id :: ids, locked, next =>
    .lock (key id) mode (wanted id) fun found => lockEach key mode wanted ids (if found then id :: locked else locked) next

/-- `lockTaggingOwner`. -/
def lockTaggingOwner (w a : Uuid) (next : Bool → Program) : Program :=
  .lock (.workspace w) .keyShare Option.isSome fun
    | false => next false
    | true => .lock (.member w a) .keyShare Option.isSome next

/-- The tags of a request: by identifier, and by name with the identifier that a new tag gets. -/
structure BookmarkTagSelection where
  ids : List Uuid
  names : List (String × Uuid)
  deriving DecidableEq, Repr

/-- Whether a tag has one of the names. -/
def isNamed (wanted : List (String × Uuid)) (row : TagRow) : Bool := wanted.any fun name => names.same row.name name.1

/-- `lockTaggingTags`. -/
def lockTaggingTags (w a : Uuid) (tagging : BookmarkTagSelection) (next : Bool → Program) : Program :=
  let chosen (t : Uuid) (row : TagRow) : Bool :=
    decide (row.workspaceId = w) && decide (row.ownerId = a) && (decide (t ∈ tagging.ids) || isNamed names tagging.names row)
  .read fun (db : Rows) =>
    lockEach .tag .keyShare (fun t row => row.join.any (chosen t)) (db.tagsWhere chosen) [] fun locked =>
      next (tagging.ids.all fun t => decide (t ∈ locked))

/-- `tagsByName`: the tags of the names, locked `FOR KEY SHARE`. -/
def tagsByName (w a : Uuid) (wanted : List (String × Uuid)) (next : List (Option Uuid) → Program) : Program :=
  let chosen (row : TagRow) : Bool :=
    decide (row.workspaceId = w) && decide (row.ownerId = a) && isNamed names wanted row
  .read fun (db : Rows) =>
    lockEach .tag .keyShare (fun _ row => row.join.any chosen) (db.tagsWhere fun _ => chosen) [] fun locked =>
      .read fun (db : Rows) =>
        next (wanted.map fun name => locked.find? fun t => (db.tag t).any fun row => names.same row.name name.1)

/-- `resolveTagNames`; where a name is lost, what the transaction has written is undone. -/
def resolveTagNames (w a : Uuid) (wanted : List (String × Uuid)) (next : List Uuid → Program) : Program :=
  if wanted = [] then next []
  else tagsByName names w a wanted fun found =>
    let missing := (((wanted.zip found).filter fun e => e.2.isNone).map Prod.fst).mergeSort fun n n' => names.before n.1 n'.1
    if missing = [] then next (distinctIdentifiers (found.filterMap fun t => t))
    else writeEach (missing.map fun name => .insertTag name.2 ⟨w, a, name.1⟩) <|
      tagsByName names w a wanted fun found =>
        if found.any Option.isNone then .raise else next (distinctIdentifiers (found.filterMap fun t => t))

/-- `tagIdsOf`. -/
def tagIdsOf (w a : Uuid) (tagging : BookmarkTagSelection) (next : List Uuid → Program) : Program :=
  resolveTagNames names w a tagging.names fun named => next (distinctIdentifiers (tagging.ids ++ named))

/-! ## Taggings -/

/-- A bookmark of the account that is not archived by the plan. -/
def liveBookmark (w a : Uuid) (row : Option (Option BookmarkRow)) : Bool :=
  ownsBookmark w a row && row.join.any fun row => !row.planArchived

/-- The tags of a bookmark are made these. -/
def retag (w a b : Uuid) (tagging : BookmarkTagSelection) : Program :=
  .read fun (db : Rows) =>
    let carried := (db.tagsOf b).filter fun t => ownsTag w a (db.lookup (.tag t))
    tagIdsOf names w a tagging fun wanted =>
      let detaching := carried.filter fun t => decide (t ∉ wanted)
      writeEach (detaching.map fun t => .deleteLink b t) <|
        writeEach ((wanted.filter fun t => decide (t ∉ carried)).map fun t => .insertLink b t) <|
          .done (.saved b detaching wanted)

/-- A change of the tags of a bookmark, after its owner is locked. -/
def updateTags (w a b : Uuid) (tagging : BookmarkTagSelection) : Program :=
  .lock (.bookmark b) .update (liveBookmark w a) fun
    | false => .done .refused
    | true => lockTaggingTags names w a tagging fun
      | false => .done .refused
      | true => retag names w a b tagging

/-- `update`, as far as it changes the tags. -/
def update (w a b : Uuid) (tagging : BookmarkTagSelection) : Program :=
  if tagging.names = [] then updateTags names w a b tagging
  else lockTaggingOwner w a fun
    | false => .done .refused
    | true => updateTags names w a b tagging

/-- `create`, with its tags; where one is gone by the time it is locked, the bookmark is undone. -/
def create (w a b : Uuid) (tagging : BookmarkTagSelection) : Program :=
  .read fun (db : Rows) =>
    if tagging.ids.all fun t => ownsTag w a (db.lookup (.tag t)) then
      .lock (.workspace w) .noKeyUpdate Option.isSome fun
        | false => .done .refused
        | true => .write (.insertBookmark b ⟨w, a, false⟩) fun _ =>
          .lock (.member w a) .keyShare Option.isSome fun
            | false => .raise
            | true => lockTaggingTags names w a tagging fun
              | false => .raise
              | true => tagIdsOf names w a tagging fun wanted =>
                writeEach (wanted.map fun t => .insertLink b t) (.done (.saved b [] wanted))
    else .done .refused

/-- `tag`: the owned bookmarks of a list get these tags, or lose them. -/
def tag (w a : Uuid) (bookmarkIds tagIds : List Uuid) (add : Bool) : Program :=
  .read fun (db : Rows) =>
    lockEach .bookmark .keyShare (fun _ => liveBookmark w a)
        ((distinctIdentifiers bookmarkIds).filter fun b => liveBookmark w a (db.lookup (.bookmark b))) [] fun owned =>
      lockTaggingTags names w a ⟨tagIds, []⟩ fun
        | false => .done .refused
        | true => .read fun (db : Rows) =>
          let pairs := owned.product (distinctIdentifiers tagIds)
          if add then
            writeEach (pairs.map fun p => .insertLink p.1 p.2) <|
              .done (.tagged (pairs.map fun p => (p.1, p.2, (db.link p.1 p.2).untagged)))
          else writeEach (pairs.map fun p => .deleteLink p.1 p.2) (.done (.untagged pairs))

/-! ## Merges and deletions -/

/-- The links of a tag that is deleted go by foreign key. -/
def dropLinksOf (t : Uuid) (rest : Program) : Program :=
  .read fun (db : Rows) => writeEach ((db.bookmarksOf t).map fun b => .dropLink b t) rest

/-- `merge`, after its locks. -/
def mergeLocked (w a source target : Uuid) : Program :=
  .read fun (db : Rows) =>
    writeEach ((db.bookmarksOf source).map fun b => .copyLink source target b) <|
      .write (.deleteTag w a source) fun
        | false => .raise
        | true => dropLinksOf source <|
          .read fun (db : Rows) => if (db.tag target).isSome then .done (.merged source target) else .raise

/-- `MERGE_LOCK_ROUNDS`. -/
def mergeLockRounds : ℕ := 5

/-- Both tags are locked `FOR UPDATE`, and the links of the source read again; a bookmark of one that is not held undoes the
locks of the round. -/
def lockTags (w a source target : Uuid) (round : ℕ) (held : List Uuid) : Program :=
  let wanted := distinctIdentifiers [source, target]
  lockEach .tag .update (fun _ => ownsTag w a) wanted [] fun locked =>
    if locked.length ≠ wanted.length then .done .refused
    else if source = target then .done .refused
    else .read fun (db : Rows) =>
      if (db.bookmarksOf source).all fun b => decide (b ∈ held) then mergeLocked w a source target
      else if round + 1 < mergeLockRounds then .done .again else .raise

/-- One round of `lockTagsForMerge`, and the merge when the round holds all it needs. A round whose locks are undone has
written nothing, and the next one starts as a transaction would that has done nothing yet. -/
def merge (w a source target : Uuid) (round : ℕ) : Program :=
  if source = target then lockTags w a source target round []
  else .read fun (db : Rows) =>
    lockEach .bookmark .keyShare (fun _ row => row.join.any fun row => decide (row.workspaceId = w))
      (db.bookmarksOf source) [] fun held => lockTags w a source target round held

/-- `remove`, of a tag. -/
def remove (w a t : Uuid) : Program :=
  .write (.deleteTag w a t) fun
    | false => .done .refused
    | true => dropLinksOf t (.done (.tagRemoved t))

/-- The bookmarks of a list that are the account's are deleted. -/
def deleteBookmarks (w a : Uuid) : List Uuid → List Uuid → (List Uuid → Program) → Program
  | [], deleted, next => next deleted
  | b :: ids, deleted, next =>
    .write (.deleteBookmark w a b) fun found => deleteBookmarks w a ids (if found then b :: deleted else deleted) next

/-- `removeMany`, and `remove` of one bookmark. -/
def removeMany (w a : Uuid) (bookmarkIds : List Uuid) : Program :=
  .lock (.workspace w) .noKeyUpdate Option.isSome fun
    | false => .done .refused
    | true => lockEach .bookmark .update (fun _ => ownsBookmark w a) (distinctIdentifiers bookmarkIds) [] fun _ =>
      deleteBookmarks w a (distinctIdentifiers bookmarkIds) [] fun deleted =>
        .read fun (db : Rows) =>
          writeEach (deleted.flatMap fun b => (db.tagsOf b).map fun t => .dropLink b t) (.done (.bookmarksRemoved deleted))

/-! ## Requests -/

/-- The requests of any number of callers. -/
inductive Request
  | update (w a b : Uuid) (tagging : BookmarkTagSelection)
  | create (w a b : Uuid) (tagging : BookmarkTagSelection)
  | tag (w a : Uuid) (bookmarkIds tagIds : List Uuid) (add : Bool)
  | merge (w a source target : Uuid) (round : ℕ)
  | remove (w a t : Uuid)
  | removeMany (w a : Uuid) (bookmarkIds : List Uuid)
  deriving DecidableEq, Repr

/-- The transaction of a request. -/
def program : Request → Program
  | .update w a b tagging => update names w a b tagging
  | .create w a b tagging => create names w a b tagging
  | .tag w a bookmarkIds tagIds add => tag names w a bookmarkIds tagIds add
  | .merge w a source target round => merge w a source target round
  | .remove w a t => remove w a t
  | .removeMany w a bookmarkIds => removeMany w a bookmarkIds

end SlugBase.Tagging
