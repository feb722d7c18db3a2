import SlugBase.Schema
import SlugBase.Lib.Transition

/-!
# Idempotency keys

The requests of one account with one key. Each runs in a transaction that claims the key's row, runs the handler
and stores its response; the row is held from the claim to the end of the transaction.

* `KeyRow`, `Claim`, `StoredResponse`: the row, what a request uses the key for, and a response as it is stored;
* `claimRow`, `judge`, `ranWith`: the insert, the reading of a row that conflicted, and the end of a handler;
* `World`, `step`, `system`: the requests in flight, the holder of the row, and how each request ended.
-/

namespace SlugBase.Idempotency

open Transition

variable {β : Type}

/-- `EXPIRY`: 24 hours. -/
def expiry : Timestamp := 24 * 60 * 60 * 1000000

/-- What the key is used for: the operation, and the SHA-256 of what the request asked for. -/
structure Claim where
  operation : String
  requestHash : BitVec 256
  deriving DecidableEq

/-- A response as it is stored, with its JSON body. -/
structure StoredResponse (β : Type) where
  status : ℕ
  body : Option β
  deriving DecidableEq

/-- Where a key stands. A response is there once it is done. -/
inductive Status (β : Type)
  | inProgress
  | done (response : StoredResponse β)

/-- A row of `idempotency_keys`, and the request that wrote it. -/
structure KeyRow (β : Type) where
  claim : Claim
  status : Status β
  createdAt : Timestamp
  expiresAt : Timestamp
  call : ℕ

/-- What a request answers. -/
inductive Answer (β : Type)
  /-- The handler's response, stored with the handler's writes. -/
  | ran (response : StoredResponse β)
  /-- The handler's response outside 2xx, which stores nothing. -/
  | notStored (status : ℕ)
  | replay (response : StoredResponse β)
  /-- `409 idempotency_conflict`. -/
  | conflict
  /-- `503 unavailable`: another request held the key through the wait. -/
  | busy
  deriving DecidableEq

/-- How far a request is. -/
inductive Phase (β : Type)
  | called
  | claimed
  | found
  | handled (response : StoredResponse β)
  | answered (a : Answer β)

/-- A request in flight: when its transaction began, which is its `now()`, when it took the row, and its own row. -/
structure Call (β : Type) where
  claim : Claim
  startedAt : Timestamp
  claimedAt : Option Timestamp := none
  phase : Phase β := .called
  own : Option (KeyRow β) := none

section

variable (k : ℕ) (c : Call β) (stored : Option (KeyRow β))

/-- The row of a request. -/
def Call.row (s : Status β) : KeyRow β := ⟨c.claim, s, c.startedAt, c.startedAt + expiry, k⟩

/-- `INSERT … ON CONFLICT DO UPDATE … WHERE expires_at <= now()`: the request claims an absent or expired key, or
finds the key's row, which it holds either way. -/
def claimRow (clock : Timestamp) : Call β :=
  let claimed := { c with phase := .claimed, claimedAt := some clock, own := some (c.row k .inProgress) }
  match stored with
  | none => claimed
  | some r => if r.expiresAt ≤ c.startedAt then claimed else { c with phase := .found, claimedAt := some clock }

/-- What a request answers that has found the key's row, or none where it throws. -/
def judge : Option (Answer β) :=
  match stored with
  | none => none
  | some r =>
    if r.claim = c.claim then
      match r.status with
      | .done response => some (.replay response)
      | .inProgress => none
    else some .conflict

/-- The handler has answered. -/
def ranWith (response : StoredResponse β) : Call β :=
  if 200 ≤ response.status ∧ response.status ≤ 299 then { c with phase := .handled response }
  else { c with phase := .answered (.notStored response.status) }

/-- `complete`, or none where it throws: the request's own row is not in progress. -/
def complete (response : StoredResponse β) : Option (Call β) :=
  match c.own with
  | some ⟨claim, .inProgress, createdAt, expiresAt, call⟩ => some { c with
      phase := .answered (.ran response)
      own := some ⟨claim, .done response, createdAt, expiresAt, call⟩ }
  | _ => none

end

/-! ## The runs -/

/-- How a request ended: its answer, or nothing where it failed or was cut off. -/
structure Entry (β : Type) where
  call : ℕ
  claim : Claim
  startedAt : Timestamp
  claimedAt : Option Timestamp
  outcome : Option (Answer β)

/-- The database clock, the committed row of the key, the request that holds it, the requests whose handler's writes
are committed, the requests in flight and how those before ended, newest first. -/
structure World (β : Type) where
  clock : Timestamp
  row : Option (KeyRow β)
  holder : Option ℕ
  effects : List ℕ
  calls : ℕ → Option (Call β)
  next : ℕ
  log : List (Entry β)

/-- No request yet. -/
def World.empty : World β := ⟨0, none, none, [], fun _ => none, 0, []⟩

/-- What happens. -/
inductive Event (β : Type)
  | ticks (n : ℕ)
  | begins (claim : Claim)
  | claims (k : ℕ)
  | timesOut (k : ℕ)
  | judges (k : ℕ)
  | runs (k : ℕ) (response : StoredResponse β)
  | completes (k : ℕ)
  | ends (k : ℕ)
  | fails (k : ℕ)
  | purges

/-- The request goes on. -/
def World.goes (w : World β) (k : ℕ) (holder : Option ℕ) (c : Call β) : World β :=
  { w with holder := holder, calls := Function.update w.calls k (some c) }

/-- The request is over, and the row that it held is free. -/
def World.ended (w : World β) (k : ℕ) (c : Call β) (outcome : Option (Answer β)) : World β := { w with
  holder := if w.holder = some k then none else w.holder
  calls := Function.update w.calls k none
  log := ⟨k, c.claim, c.startedAt, c.claimedAt, outcome⟩ :: w.log }

/-- The end of a request that has an answer: only the one whose handler ran has something to commit. -/
def World.answered (w : World β) (k : ℕ) (c : Call β) (a : Answer β) : World β :=
  match a with
  | .ran _ => { w.ended k c (some a) with row := c.own, effects := k :: w.effects }
  | _ => w.ended k c (some a)

/-- What an event does, where it can happen. -/
def step (w : World β) : Event β → Option (World β)
  | .ticks n => some { w with clock := w.clock + n }
  | .begins claim => some { w with
      calls := Function.update w.calls w.next (some { claim := claim, startedAt := w.clock })
      next := w.next + 1 }
  | .claims k => (w.calls k).bind fun c =>
      match c.phase, w.holder with
      | .called, none => some (w.goes k (some k) (claimRow k c w.row w.clock))
      | _, _ => none
  | .timesOut k => (w.calls k).bind fun c =>
      match c.phase, w.holder with
      | .called, some _ => some (w.goes k w.holder { c with phase := .answered .busy })
      | _, _ => none
  | .judges k => (w.calls k).bind fun c =>
      match c.phase with
      | .found =>
        match judge c w.row with
        | some a => some (w.goes k w.holder { c with phase := .answered a })
        | none => some (w.ended k c none)
      | _ => none
  | .runs k response => (w.calls k).bind fun c =>
      match c.phase with
      | .claimed => some (w.goes k w.holder (ranWith c response))
      | _ => none
  | .completes k => (w.calls k).bind fun c =>
      match c.phase with
      | .handled response =>
        match complete c response with
        | some c' => some (w.goes k w.holder c')
        | none => some (w.ended k c none)
      | _ => none
  | .ends k => (w.calls k).bind fun c =>
      match c.phase with
      | .answered a => some (w.answered k c a)
      | _ => none
  | .fails k => (w.calls k).map fun c => w.ended k c none
  | .purges =>
      match w.row, w.holder with
      | some r, none => if r.expiresAt ≤ w.clock then some { w with row := none } else none
      | _, _ => none

/-- The runs of the requests with the key. -/
def system : System (World β) (Event β) where
  init w := w = World.empty
  step w e w' := step w e = some w'

end SlugBase.Idempotency
