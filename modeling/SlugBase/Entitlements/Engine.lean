import SlugBase.Lib.JsMap
import SlugBase.Lib.Transition
import Mathlib.Data.Int.Notation
import Mathlib.Logic.Function.Basic

/-!
# The entitlement engine

The entitlements of a request, the memo of the request and the cache of the process, beside the versions and the grants in
the database.

* `parseWorkspaceEntitlements`, `readSource`: a source's answer, checked against the catalog;
* `Load`: how far a call of `load` is; `World.goOn`: what the process does when an answer arrives;
* `World.store`: the entry under the version that was read, and the eviction of the oldest;
* `step`, `system`: requests, answers and failures in any order, among changes of the grants by `withEntitlementChange`.
-/

namespace SlugBase.Entitlements

open Transition

/-! ## What a source answers -/

/-- A value of an answer; `other` stands for everything that is neither a flag nor a limit. -/
inductive RawValue
  | flag (value : Bool)
  | unlimited
  | count (value : ℕ)
  | other
deriving DecidableEq

/-- A limit is a count the holder may reach, or no ceiling at all. -/
inductive EntitlementLimit
  | unlimited
  | count (value : ℕ)
deriving DecidableEq

/-- What a source grants a workspace; `values` is `none` when the answer holds no object. -/
structure WorkspaceEntitlementGrant where
  values : Option (String → RawValue)
  upgradeAvailable : RawValue

/-- The keys that grant a feature or withhold it. -/
def FLAG_ENTITLEMENTS : List String :=
  ["ai.suggestions", "sharing.members", "sharing.teams", "members.invite", "teams.manage", "audit.log"]

/-- The keys that cap a count of a workspace. -/
def WORKSPACE_LIMIT_ENTITLEMENTS : List String := ["bookmarks.max", "seats.max"]

/-- The workspace values of the catalog. -/
structure WorkspaceEntitlementValues where
  flags : List (String × Bool)
  limits : List (String × EntitlementLimit)
deriving DecidableEq

def asFlag : RawValue → Option Bool
  | .flag value => some value
  | _ => none

def asLimit : RawValue → Option EntitlementLimit
  | .unlimited => some .unlimited
  | .count value => some (.count value)
  | _ => none

/-- `parseWorkspaceEntitlements`; `none` when it throws. -/
def parseWorkspaceEntitlements (answer : Option (String → RawValue)) : Option WorkspaceEntitlementValues := do
  let value ← answer
  let flags ← FLAG_ENTITLEMENTS.mapM fun key => (asFlag (value key)).map (key, ·)
  let limits ← WORKSPACE_LIMIT_ENTITLEMENTS.mapM fun key => (asLimit (value key)).map (key, ·)
  return ⟨flags, limits⟩

/-- The immutable entitlements of a workspace at a version. -/
structure EntitlementSet where
  workspaceId : String
  version : ℕ
  values : WorkspaceEntitlementValues
  upgradeAvailable : Bool
deriving DecidableEq

/-- `readSource` on the source's answer; `none` when it throws. -/
def readSource (grant : WorkspaceEntitlementGrant) : Option (WorkspaceEntitlementValues × Bool) := do
  let upgradeAvailable ← asFlag grant.upgradeAvailable
  let values ← parseWorkspaceEntitlements grant.values
  return (values, upgradeAvailable)

/-! ## Requests -/

/-- An entry of the cache. -/
structure CacheEntry where
  version : ℕ
  set : EntitlementSet
deriving DecidableEq

/-- How far a load is: it waits for the version, has its answer, waits for the source, has its answer, or has settled. -/
inductive Phase
  | readingVersion
  | versionRead (version : Option ℕ)
  | readingSource (version : ℕ)
  | sourceRead (version : ℕ) (grant : WorkspaceEntitlementGrant)
  | answered (set : Option EntitlementSet)
  | failed

/-- A call of `load`, with the request it serves; `askedAt` is the version of the workspace when it was called, `readAt` the one
that it read. -/
structure Load where
  request : ℕ
  accountId : String
  workspaceId : String
  phase : Phase
  askedAt : ℕ
  readAt : Option ℕ

/-- A request: the account it was first asked for, and the load of each workspace, by its number. -/
structure Scope where
  accountId : String
  sets : String → Option ℕ

/-- The database and a process. `grants` keeps what every version granted; a workspace is visible to an account that is a
member of it while it is not being deleted. -/
structure World where
  versions : String → ℕ
  grants : String → ℕ → WorkspaceEntitlementGrant
  visible : String → String → Bool
  cache : JsMap String CacheEntry
  scopes : ℕ → Option Scope
  loads : ℕ → Option Load
  started : ℕ

namespace World

variable (s : World)

def setPhase (l : ℕ) (load : Load) (phase : Phase) : World :=
  { s with loads := Function.update s.loads l (some { load with phase := phase }) }

/-- `forRequest` and `forWorkspace`: the memo of the request, or a new load. -/
def forWorkspace (request : ℕ) (accountId workspaceId : String) : World :=
  let scope := (s.scopes request).getD ⟨accountId, fun _ => none⟩
  match scope.sets workspaceId with
  | some _ => s
  | none =>
    { s with
      scopes := Function.update s.scopes request
        (some { scope with sets := Function.update scope.sets workspaceId (some s.started) })
      loads := Function.update s.loads s.started
        (some ⟨request, scope.accountId, workspaceId, .readingVersion, s.versions workspaceId, none⟩)
      started := s.started + 1 }

/-- The oldest entry is dropped when there are more than the cache holds. -/
def evict (cacheSize : ℕ) (cache : JsMap String CacheEntry) : JsMap String CacheEntry :=
  if cacheSize < cache.size then
    match cache.keys with
    | oldest :: _ => cache.delete oldest
    | [] => cache
  else cache

/-- A set enters the cache unless the entry of a newer version is there. -/
def store (cache : JsMap String CacheEntry) (set : EntitlementSet) : JsMap String CacheEntry :=
  if ((cache.get set.workspaceId).map CacheEntry.version).getD set.version ≤ set.version then
    (cache.delete set.workspaceId).set set.workspaceId ⟨set.version, set⟩
  else cache

/-- A load fails: its error reaches the callers, and the memo forgets it. -/
def fail (l : ℕ) (load : Load) : World :=
  { s.setPhase l load .failed with
    scopes := fun request => (s.scopes request).map fun scope =>
      { scope with sets := fun workspaceId =>
          if request = load.request ∧ workspaceId = load.workspaceId ∧ scope.sets workspaceId = some l then none
          else scope.sets workspaceId } }

/-- The version is there: no set for a workspace that cannot be seen, the entry of that version, or the source is asked. -/
def goOnWithVersion (l : ℕ) (load : Load) : Option ℕ → World
  | none => { s.setPhase l load (.answered none) with cache := s.cache.delete load.workspaceId }
  | some version =>
    match s.cache.get load.workspaceId with
    | some cached =>
      if cached.version = version then s.setPhase l load (.answered (some cached.set))
      else s.setPhase l load (.readingSource version)
    | none => s.setPhase l load (.readingSource version)

/-- The source's answer is there: it is checked, stored and answered. -/
def goOnWithGrant (cacheSize l : ℕ) (load : Load) (version : ℕ) (grant : WorkspaceEntitlementGrant) : World :=
  match readSource grant with
  | none => s.fail l load
  | some (values, upgradeAvailable) =>
    let set : EntitlementSet := ⟨load.workspaceId, version, values, upgradeAvailable⟩
    { s.setPhase l load (.answered (some set)) with cache := evict cacheSize (store s.cache set) }

/-- **`load` goes on** with the answer it waited for. -/
def goOn (cacheSize l : ℕ) (load : Load) : Option World :=
  match load.phase with
  | .versionRead version => some (s.goOnWithVersion l load version)
  | .sourceRead version grant => some (s.goOnWithGrant cacheSize l load version grant)
  | _ => none

/-- The database or the source reads for a load. -/
def read (l : ℕ) (load : Load) : Option World :=
  match load.phase with
  | .readingVersion =>
    let version := if s.visible load.accountId load.workspaceId then some (s.versions load.workspaceId) else none
    some (s.setPhase l { load with readAt := version } (.versionRead version))
  | .readingSource version =>
    some (s.setPhase l load (.sourceRead version (s.grants load.workspaceId (s.versions load.workspaceId))))
  | _ => none

/-- The read that a load waits for fails. -/
def reject (l : ℕ) (load : Load) : Option World :=
  match load.phase with
  | .readingVersion => some (s.fail l load)
  | .readingSource _ => some (s.fail l load)
  | _ => none

/-- `withEntitlementChange`: the change and the next version in one transaction, or neither when the version cannot be raised. -/
def withEntitlementChange (accountId workspaceId : String) (grant : WorkspaceEntitlementGrant) : World :=
  if s.visible accountId workspaceId then
    { s with
      versions := Function.update s.versions workspaceId (s.versions workspaceId + 1)
      grants := Function.update s.grants workspaceId
        (Function.update (s.grants workspaceId) (s.versions workspaceId + 1) grant) }
  else s

end World

/-- What happens: a request asks for a workspace, the read of a load is answered or fails, a load goes on, a grant changes,
or an account comes to see a workspace or no longer does. -/
inductive Event
  | forWorkspace (request : ℕ) (accountId workspaceId : String)
  | read (load : ℕ)
  | reject (load : ℕ)
  | goOn (load : ℕ)
  | change (accountId workspaceId : String) (grant : WorkspaceEntitlementGrant)
  | visible (accountId workspaceId : String) (value : Bool)

/-- One event; `none` when it cannot happen. -/
def step (cacheSize : ℕ) (s : World) : Event → Option World
  | .forWorkspace request accountId workspaceId => some (s.forWorkspace request accountId workspaceId)
  | .read l => (s.loads l).bind fun load => s.read l load
  | .reject l => (s.loads l).bind fun load => s.reject l load
  | .goOn l => (s.loads l).bind fun load => s.goOn cacheSize l load
  | .change accountId workspaceId grant => some (s.withEntitlementChange accountId workspaceId grant)
  | .visible accountId workspaceId value =>
    some { s with visible := Function.update s.visible accountId (Function.update (s.visible accountId) workspaceId value) }

/-- The runs of a process that starts with an empty cache over any database. -/
def system (cacheSize : ℕ) : System World Event where
  init s := s.cache = ∅ ∧ (∀ r, s.scopes r = none) ∧ (∀ l, s.loads l = none)
  step s e s' := step cacheSize s e = some s'

end SlugBase.Entitlements
