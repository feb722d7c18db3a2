import SlugBase.Schema

/-!
# The favicon cache

One row of images for each host of the deployment, and for each workspace the hosts that were fetched for it.

* `look`, `store`: the reads and the writes of a tenant transaction; `sysFaviconGet`, `sysFaviconPut`: the shared row;
* `getFavicon`, `fetchFaviconJob`: the operation and the job, a statement at a time; `purge`: the retention;
* `step`, `run`: any interleaving of them, with what each workspace sees of it.

A read sees what was committed when it starts and reads the clock later; what a transaction writes is there at its commit.
-/

namespace SlugBase.Favicons

/-- The PNGs of an icon, or that the host has none. -/
inductive FaviconResult
  | ok (png64 png32 : List UInt8)
  | none
deriving DecidableEq

inductive FaviconSize
  | px32
  | px64
deriving DecidableEq

/-- What the cache holds for a host: an icon of the size asked for, or that it has none. -/
inductive FaviconRecord
  | ok (png : List UInt8)
  | none
deriving DecidableEq

/-- A row of `favicons`. -/
structure SharedRow where
  result : FaviconResult
  expiresAt : Timestamp
deriving DecidableEq

/-- A job `favicon.fetch` of a workspace. -/
structure FetchJob where
  host : String
  accountId : Uuid
deriving DecidableEq

/-! ## The state -/

inductive RateBucket
  | read
  | fetch
deriving DecidableEq

inductive RateScope
  | ip
  | account
deriving DecidableEq

/-- What a token is counted under: the key of an address, or an account. -/
inductive Subject
  | address (key : String)
  | account (id : Uuid)
deriving DecidableEq

/-- A token that is taken from a limit. -/
structure Take where
  bucket : RateBucket
  subject : Subject
deriving DecidableEq

/-- The statements that a transaction reads with: the one of `hostReadable`, and the two of `current`. -/
inductive Lookup
  | readable
  | requested
  | shared
deriving DecidableEq

/-- What a request does next: it takes from a limit, it reads, or it queues a fetch. -/
inductive Stage
  | takes (bucket : RateBucket) (scope : RateScope)
  | looks (lookup : Lookup)
  | enqueues
deriving DecidableEq

/-- A request `GET /favicons/{host}` that has not been answered. -/
structure Request where
  accountId : Uuid
  address : String
  host : String
  size : FaviconSize
  stage : Stage := .takes .read .ip
deriving DecidableEq

/-- What a job does next: it reads, or it fetches and stores. -/
inductive JobStage
  | looks (lookup : Lookup)
  | fetches
deriving DecidableEq

/-- A job that runs. -/
structure RunningJob where
  job : FetchJob
  stage : JobStage := .looks .readable
deriving DecidableEq

/-- `favicons`, `workspace_favicons` with their `expires_at`, the requests and the jobs of each workspace, and what the rate
limits of the deployment hold. -/
structure Deployment (Limits : Type) where
  favicons : String → Option SharedRow := fun _ => none
  workspaceFavicons : Uuid → String → Option Timestamp := fun _ _ => none
  requests : Uuid → List Request := fun _ => []
  waiting : Uuid → List FetchJob := fun _ => []
  running : Uuid → List RunningJob := fun _ => []
  limits : Limits

/-- The time of a step, with what its statements read of the clock: a read after its start, a store and a purge before their
commit. -/
structure Clock where
  moment : Timestamp
  reading : Timestamp
  written : Timestamp
  recorded : Timestamp
deriving DecidableEq

/-- A clock that reads the time of the step. -/
def still (moment : Timestamp) : Clock := ⟨moment, moment, moment, moment⟩

/-- Seven days, in microseconds. -/
def FAVICON_LIFETIME : ℕ := 7 * 24 * 60 * 60 * 1000000

/-! ## The shared row -/

def FaviconResult.record (size : FaviconSize) : FaviconResult → FaviconRecord
  | .ok png64 png32 => .ok (if size = .px32 then png32 else png64)
  | .none => .none

/-- `sys_favicon_get`. -/
def sysFaviconGet (favicons : String → Option SharedRow) (now : Timestamp) (host : String) (size : FaviconSize) :
    Option FaviconRecord :=
  match favicons host with
  | none => none
  | some row => if now < row.expiresAt then some (row.result.record size) else none

def PNG_SIGNATURE : List UInt8 := [0x89, 0x50, 0x4E, 0x47, 0x0D, 0x0A, 0x1A, 0x0A]

/-- What `sys_favicon_put` takes for a PNG. -/
def isPng (content : List UInt8) : Bool :=
  decide (9 ≤ content.length ∧ content.length ≤ 65536) && content.take 8 == PNG_SIGNATURE

/-- A label of a host name. -/
def isHostLabel (label : List Char) : Bool :=
  let plain := fun c : Char => c.isLower || c.isDigit
  decide (1 ≤ label.length ∧ label.length ≤ 63) && label.all (fun c => plain c || c == '-') &&
    label.head?.any plain && label.getLast?.any plain

/-- A lower-case host name. -/
def isHostName (host : String) : Bool :=
  decide (1 ≤ host.toList.length ∧ host.toList.length ≤ 253) && (host.toList.splitOn '.').all isHostLabel

/-- What `sys_favicon_put` stores; any other argument is refused. -/
def isStorable (host : String) (result : FaviconResult) : Bool :=
  isHostName host && match result with
    | .ok png64 png32 => isPng png64 && isPng png32
    | .none => true

/-- `sys_favicon_put`, of what it stores. -/
def sysFaviconPut (favicons : String → Option SharedRow) (now : Timestamp) (host : String) (result : FaviconResult) :
    String → Option SharedRow :=
  Function.update favicons host (some ⟨result, now + FAVICON_LIFETIME⟩)

/-! ## A workspace -/

variable {Limits : Type} (s : Deployment Limits) (w : Uuid)

/-- Whether the workspace holds an unexpired row for the host. -/
def holds (host : String) (now : Timestamp) : Bool :=
  (s.workspaceFavicons w host).any fun expiresAt => decide (now < expiresAt)

/-- What a statement finds: an answer, or that the next statement follows. -/
inductive Found
  | unreadable
  | known (record : FaviconRecord)
  | missing
  | next (lookup : Lookup)

/-- `hostReadable`, then `current`. Whether the account can read a bookmark on the host is as it may be. -/
def look (host : String) (size : FaviconSize) (readable : Bool) (now : Timestamp) : Lookup → Found
  | .readable => if readable then .next .requested else .unreadable
  | .requested => if holds s w host now then .next .shared else .missing
  | .shared =>
    match sysFaviconGet s.favicons now host size with
    | some record => .known record
    | none => .missing

/-- `store`. -/
def store (host : String) (result : FaviconResult) (clock : Clock) : Deployment Limits :=
  { s with
    favicons := sysFaviconPut s.favicons clock.written host result
    workspaceFavicons := Function.update s.workspaceFavicons w
      (Function.update (s.workspaceFavicons w) host (some (clock.recorded + FAVICON_LIFETIME))) }

/-- Whether a job with the key of the job, its host and workspace, waits. -/
def isWaiting (job : FetchJob) : Bool := (s.waiting w).any fun other => decide (other.host = job.host)

/-- `enqueue`: a job with the key of a waiting job is dropped. -/
def enqueue (job : FetchJob) : Deployment Limits :=
  if isWaiting s w job then s else { s with waiting := Function.update s.waiting w (s.waiting w ++ [job]) }

/-! ## Requests and jobs -/

/-- What a workspace sees: the answer to a request, or the fetch of a host that is queued and made for it. -/
inductive Sight
  | unreadable (host : String)
  | answered (host : String) (size : FaviconSize) (record : Option FaviconRecord)
  | limited (host : String)
  | queued (job : FetchJob)
  | notFetched (job : FetchJob)
  | fetching (job : FetchJob)
deriving DecidableEq

/-- The limits of a bucket are taken one after the other; what the `read` bucket guards are the reads, and what the `fetch`
bucket guards is the fetch. -/
def nextStage : RateBucket → RateScope → Stage
  | bucket, .ip => .takes bucket .account
  | .read, .account => .looks .readable
  | .fetch, .account => .enqueues

/-- The token that a request takes. -/
def Request.take (request : Request) (bucket : RateBucket) : RateScope → Take
  | .ip => ⟨bucket, .address request.address⟩
  | .account => ⟨bucket, .account request.accountId⟩

/-- The limiter: the answer to a take, and what the limits hold then. -/
abbrev Limiter (Limits : Type) := Limits → Take → Timestamp → Bool × Limits

variable (consume : Limiter Limits)

/-- `GET /favicons/{host}`: the next thing the request does, and what it does after it unless it is answered. -/
def getFavicon (request : Request) (readable : Bool) (clock : Clock) : Deployment Limits × Option Stage × List Sight :=
  match request.stage with
  | .takes bucket scope =>
    let taken := consume s.limits (request.take bucket scope) clock.reading
    ({ s with limits := taken.2 }, if taken.1 then (some (nextStage bucket scope), []) else (none, [.limited request.host]))
  | .looks lookup =>
    (s, match look s w request.host request.size readable clock.reading lookup with
      | .unreadable => (none, [.unreadable request.host])
      | .known record => (none, [.answered request.host request.size (some record)])
      | .missing => (some (.takes .fetch .ip), [])
      | .next lookup => (some (.looks lookup), []))
  | .enqueues =>
    let job : FetchJob := ⟨request.host, request.accountId⟩
    (enqueue s w job, none,
      .answered request.host request.size none :: if isWaiting s w job then [] else [.queued job])

/-- `fetchFaviconJob`: the next thing the job does. What was fetched is stored, or the job waits again. -/
def fetchFaviconJob (running : RunningJob) (readable : Bool) (result : Option FaviconResult) (clock : Clock) :
    Deployment Limits × Option JobStage × List Sight :=
  match running.stage with
  | .looks lookup =>
    (s, match look s w running.job.host .px64 readable clock.reading lookup with
      | .unreadable => (none, [.notFetched running.job])
      | .known _ => (none, [.notFetched running.job])
      | .missing => (some .fetches, [.fetching running.job])
      | .next lookup => (some (.looks lookup), []))
  | .fetches =>
    match result with
    | none => (enqueue s w running.job, none, [])
    | some result =>
      if isStorable running.job.host result then (store s w running.job.host result clock, none, [])
      else (enqueue s w running.job, none, [])

/-! ## Runs -/

/-- An operation of a workspace. A request and a running job are named by their position. -/
inductive Operation
  | asks (accountId : Uuid) (address host : String) (size : FaviconSize)
  | proceeds (i : ℕ) (readable : Bool)
  | starts (job : FetchJob)
  | works (i : ℕ) (readable : Bool) (result : Option FaviconResult)
deriving DecidableEq

/-- An operation of a workspace, or a purge of expired rows of the deployment. -/
inductive Event
  | acts (workspaceId : Uuid) (operation : Operation)
  | purges (hosts : List String) (rows : List (Uuid × String))
deriving DecidableEq

/-- The favicons that `sys_retention_purge` deletes: rows that have expired. -/
def purge (hosts : List String) (rows : List (Uuid × String)) (now : Timestamp) : Deployment Limits :=
  { s with
    favicons := fun host => (s.favicons host).filter fun row => !(hosts.contains host && decide (row.expiresAt ≤ now))
    workspaceFavicons := fun w host =>
      (s.workspaceFavicons w host).filter fun expiresAt => !(rows.contains (w, host) && decide (expiresAt ≤ now)) }

/-- A list after the step of one of its items: the item as it is then, or without it. -/
def moved {α : Type} (items : List α) (i : ℕ) : Option α → List α
  | none => items.eraseIdx i
  | some item => items.set i item

/-- One operation of a workspace. -/
def act (operation : Operation) (clock : Clock) : Deployment Limits × List Sight :=
  match operation with
  | .asks accountId address host size =>
    let request : Request := { accountId := accountId, address := address, host := host, size := size }
    ({ s with requests := Function.update s.requests w (s.requests w ++ [request]) }, [])
  | .proceeds i readable =>
    match (s.requests w)[i]? with
    | none => (s, [])
    | some request =>
      let (after, next, sights) := getFavicon s w consume request readable clock
      let requests := moved (s.requests w) i (next.map fun stage => { request with stage := stage })
      ({ after with requests := Function.update s.requests w requests }, sights)
  | .starts job =>
    if (s.waiting w).contains job then
      ({ s with
        waiting := Function.update s.waiting w ((s.waiting w).erase job)
        running := Function.update s.running w (s.running w ++ [{ job := job }]) }, [])
    else (s, [])
  | .works i readable result =>
    match (s.running w)[i]? with
    | none => (s, [])
    | some running =>
      let (after, next, sights) := fetchFaviconJob s w running readable result clock
      let jobs := moved (s.running w) i (next.map fun stage => { running with stage := stage })
      ({ after with running := Function.update s.running w jobs }, sights)

/-- One step, and what each workspace sees of it. -/
def step (clock : Clock) (event : Event) : Deployment Limits × List (Uuid × Sight) :=
  match event with
  | .acts w operation =>
    ((act s w consume operation clock).1, (act s w consume operation clock).2.map fun sight => (w, sight))
  | .purges hosts rows => (purge s hosts rows clock.written, [])

/-- What is seen in a run. -/
def seen : Deployment Limits → List (Clock × Event) → List (Uuid × Sight)
  | _, [] => []
  | s, (clock, event) :: rest => (step s consume clock event).2 ++ seen (step s consume clock event).1 rest

/-- What a workspace sees. -/
def seenBy (events : List (Clock × Event)) : List Sight :=
  (seen consume s events).filterMap fun sight => if sight.1 = w then some sight.2 else none

/-- Whether an event is left when the operations of the other workspaces are removed. -/
def Event.remainsFor : Event → Bool
  | .acts other _ => decide (other = w)
  | .purges _ _ => true

/-- A run without the operations of the other workspaces. -/
def alone (events : List (Clock × Event)) : List (Clock × Event) :=
  events.filter fun event => event.2.remainsFor w

end SlugBase.Favicons
