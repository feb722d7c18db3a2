import SlugBase.Lib.JsMap
import SlugBase.Lib.Transition
import Mathlib.Data.Int.Notation
import Mathlib.Logic.Function.Basic

/-!
# The usage buffer

The opens of bookmarks that a server process counts in memory and writes to the database from time to time.

* `sysFlushOpenCounts`: the system operation, on the usage columns of the bookmarks;
* `UsageBuffer`: the variables of the buffer; `keep`, `startFlush`, `putBack`: what its functions do to them;
* `step`, `system`: recording, flushing, the calls of the store taking effect or failing, and stopping, in any order;
* `Opened`: the opens themselves, as a history beside the buffer.
-/

namespace SlugBase.Usage

open Transition

/-! ## The store -/

/-- What is kept of a bookmark's opens: how many, and the latest in milliseconds. -/
structure Entry where
  count : ℕ
  lastOpenedAt : ℤ
deriving DecidableEq

/-- An element of a batch. -/
structure OpenCount where
  bookmarkId : String
  count : ℕ
  lastOpenedAt : ℤ
deriving DecidableEq

def OpenCount.entry (o : OpenCount) : Entry := ⟨o.count, o.lastOpenedAt⟩

/-- Counts add up and the later time stays. -/
def Entry.add (e e' : Entry) : Entry := ⟨e.count + e'.count, max e.lastOpenedAt e'.lastOpenedAt⟩

/-- What two parts keep of a bookmark together. -/
def together : Option Entry → Option Entry → Option Entry
  | none, e => e
  | some e, none => some e
  | some e, some e' => some (e.add e')

/-- What a batch holds of a bookmark; a bookmark named more than once adds up. -/
def entryOf (bookmarkId : String) : List OpenCount → Option Entry
  | [] => none
  | o :: rest =>
    if o.bookmarkId = bookmarkId then together (some o.entry) (entryOf bookmarkId rest) else entryOf bookmarkId rest

/-- `USAGE_FLUSH_BATCH_SIZE`, which is also the bound of the function. -/
def USAGE_FLUSH_BATCH_SIZE : ℕ := 10000

/-- The usage columns of a bookmark. -/
structure UsageColumns where
  openCount : ℕ
  lastOpenedAt : Option ℤ
deriving DecidableEq

/-- The bookmarks by their identifier. -/
abbrev Bookmarks := String → Option UsageColumns

/-- The columns with what was added: `greatest` ignores a null. -/
def UsageColumns.add (c : UsageColumns) : Option Entry → UsageColumns
  | none => c
  | some e => ⟨c.openCount + e.count, some ((c.lastOpenedAt.map fun t => max t e.lastOpenedAt).getD e.lastOpenedAt)⟩

/-- `sys_flush_open_counts`; `none` when it refuses its arguments. -/
def sysFlushOpenCounts (bookmarks : Bookmarks) (opens : List OpenCount) : Option Bookmarks :=
  if USAGE_FLUSH_BATCH_SIZE < opens.length then none
  else if opens.any fun o => decide (o.count < 1) then none
  else some fun id => (bookmarks id).map fun c => c.add (entryOf id opens)

/-! ## The buffer -/

/-- A run of `writeOut`: what it took, the start of the batch whose call is pending, and whether a call failed. -/
structure WriteOut where
  run : ℕ
  taken : List OpenCount
  start : ℕ
  failed : Bool

namespace WriteOut

/-- The batch of the pending call. -/
def batch (f : WriteOut) : List OpenCount := (f.taken.drop f.start).take USAGE_FLUSH_BATCH_SIZE

/-- What is neither stored nor put back. -/
def rest (f : WriteOut) : List OpenCount := if f.failed then [] else f.taken.drop f.start

/-- A call of the store is pending. -/
def pending (f : WriteOut) : Bool := !f.failed && decide (f.start < f.taken.length)

end WriteOut

/-- How far `stop` is: it waits for the run in flight, if any, then for its own last flush. -/
inductive Stop
  | waiting (flushing : Option ℕ)
  | last (run : ℕ)
  | done (written : Bool)
deriving DecidableEq

/-- The variables of `createUsageBuffer`; `runs` numbers the runs of `writeOut`. -/
structure UsageBuffer where
  entries : JsMap String Entry
  flushing : Option WriteOut
  stopping : Option Stop
  runs : ℕ

/-- `keep`. -/
def keep (entries : JsMap String Entry) (bookmarkId : String) (count : ℕ) (lastOpenedAt : ℤ) : JsMap String Entry :=
  match entries.get bookmarkId with
  | none => entries.set bookmarkId ⟨count, lastOpenedAt⟩
  | some held => entries.set bookmarkId ⟨held.count + count, max held.lastOpenedAt lastOpenedAt⟩

/-- The batches' elements, in the order of the map. -/
def taken (entries : JsMap String Entry) : List OpenCount :=
  entries.entries.map fun e => ⟨e.1, e.2.count, e.2.lastOpenedAt⟩

/-- What a failed call leaves to the next flush. -/
def putBack (entries : JsMap String Entry) (opens : List OpenCount) : JsMap String Entry :=
  opens.foldl (fun m o => keep m o.bookmarkId o.count o.lastOpenedAt) entries

/-- `flush`: the run in flight goes on, or `writeOut` takes the entries. -/
def UsageBuffer.startFlush (b : UsageBuffer) : UsageBuffer :=
  match b.flushing with
  | some _ => b
  | none => { b with entries := ∅, flushing := some ⟨b.runs, taken b.entries, 0, false⟩, runs := b.runs + 1 }

/-! ## The opens themselves -/

/-- An open: its place among those recorded, its bookmark and its time. -/
structure Opened where
  place : ℕ
  bookmarkId : String
  openedAt : ℤ
deriving DecidableEq

/-- Where every open recorded is: in the buffer, taken by a run of `writeOut`, or stored. -/
structure Opens where
  recorded : List Opened
  waiting : List Opened
  flying : List Opened
  delivered : List Opened

/-- What opens amount to. -/
def summary : List Opened → Option Entry
  | [] => none
  | o :: rest => together (some ⟨1, o.openedAt⟩) (summary rest)

/-- The opens of a bookmark. -/
def opensOf (bookmarkId : String) (opens : List Opened) : List Opened :=
  opens.filter fun o => decide (o.bookmarkId = bookmarkId)

/-! ## Runs -/

/-- A server process with its store: `batches` are those whose call took effect. -/
structure Process where
  buffer : UsageBuffer
  bookmarks : Bookmarks
  batches : List (List OpenCount)
  opens : Opens

/-- What happens: an open is recorded, a flush is asked for by the timer or a caller, the pending call of the store takes
effect or fails, the run of `writeOut` settles, `stop` is called and goes on, or a bookmark is deleted. -/
inductive Event
  | record (bookmarkId : String) (openedAt : ℤ)
  | flush
  | stored
  | failed
  | settled
  | stop
  | stopGoesOn
  | deleted (bookmarkId : String)

namespace Process

variable (s : Process)

def record (bookmarkId : String) (openedAt : ℤ) : Process :=
  match s.buffer.stopping with
  | some _ => s
  | none =>
    let o : Opened := ⟨s.opens.recorded.length, bookmarkId, openedAt⟩
    { s with
      buffer := { s.buffer with entries := keep s.buffer.entries bookmarkId 1 openedAt }
      opens := { s.opens with recorded := s.opens.recorded ++ [o], waiting := s.opens.waiting ++ [o] } }

def flush : Process :=
  { s with
    buffer := s.buffer.startFlush
    opens := match s.buffer.flushing with
      | some _ => s.opens
      | none => { s.opens with waiting := [], flying := s.opens.waiting } }

/-- The pending call takes effect, and the next one is made. -/
def stored (f : WriteOut) : Option Process :=
  (sysFlushOpenCounts s.bookmarks f.batch).map fun bookmarks =>
    { s with
      buffer := { s.buffer with flushing := some { f with start := f.start + USAGE_FLUSH_BATCH_SIZE } }
      bookmarks := bookmarks
      batches := s.batches ++ [f.batch]
      opens := { s.opens with
        flying := s.opens.flying.filter fun o => !decide (o.bookmarkId ∈ f.batch.map OpenCount.bookmarkId)
        delivered := s.opens.delivered ++
          s.opens.flying.filter fun o => decide (o.bookmarkId ∈ f.batch.map OpenCount.bookmarkId) } }

/-- The pending call fails: its batch and those after it are kept for the next flush. -/
def failed (f : WriteOut) : Process :=
  { s with
    buffer := { s.buffer with
      entries := putBack s.buffer.entries (f.taken.drop f.start)
      flushing := some { f with failed := true } }
    opens := { s.opens with waiting := s.opens.waiting ++ s.opens.flying, flying := [] } }

/-- The run of `writeOut` ends, and with it a stop that waits for it as its last flush. -/
def settled (f : WriteOut) : Process :=
  { s with buffer := { s.buffer with
      flushing := none
      stopping := match s.buffer.stopping with
        | some (.last run) => if run = f.run then some (.done !f.failed) else s.buffer.stopping
        | stopping => stopping } }

def stop : Process :=
  match s.buffer.stopping with
  | some _ => s
  | none => { s with buffer := { s.buffer with stopping := some (.waiting (s.buffer.flushing.map WriteOut.run)) } }

/-- The last flush of a stop: its own or the one in flight. -/
def stopGoesOn : Process :=
  { s.flush with buffer := { s.flush.buffer with
      stopping := (s.flush.buffer.flushing.map fun f => Stop.last f.run).or s.flush.buffer.stopping } }

/-- One event; `none` when it cannot happen. -/
def step : Event → Option Process
  | .record bookmarkId openedAt => some (s.record bookmarkId openedAt)
  | .flush => some s.flush
  | .stored => s.buffer.flushing.bind fun f => if f.pending then s.stored f else none
  | .failed => s.buffer.flushing.bind fun f => if f.pending then some (s.failed f) else none
  | .settled => s.buffer.flushing.bind fun f => if f.pending then none else some (s.settled f)
  | .stop => some s.stop
  | .stopGoesOn =>
    match s.buffer.stopping with
    | some (.waiting awaited) =>
      if awaited.isSome ∧ s.buffer.flushing.map WriteOut.run = awaited then none else some s.stopGoesOn
    | _ => none
  | .deleted bookmarkId => some { s with bookmarks := Function.update s.bookmarks bookmarkId none }

end Process

/-- A process that starts with nothing buffered. -/
def start (bookmarks : Bookmarks) : Process :=
  ⟨⟨∅, none, none, 0⟩, bookmarks, [], ⟨[], [], [], []⟩⟩

/-- The runs of a process over a database with these bookmarks. -/
def system (bookmarks : Bookmarks) : System Process Event where
  init s := s = start bookmarks
  step s e s' := s.step e = some s'

end SlugBase.Usage
