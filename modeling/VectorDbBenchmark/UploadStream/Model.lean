import VectorDbBenchmark.Kit.Machine
import VectorDbBenchmark.Readers.StreamReader

/-!
# The streaming upload

`upload_stream` of `src/upload_stream.rs` as a machine: `parallel` workers share the
stream behind a mutex, the error slot and the counters.  Every access to something shared
is one action, and so is a connection attempt and an upload call, whose outcome the
action carries; any order of the workers' actions is a run.  A read may fail with an
I/O error at any time and leave the stream in any state, and a worker may panic where it
runs code that can.  The totals are naturals: as long as nothing failed they are at most
the number of rows.
-/

namespace VectorDbBenchmark.UploadStream

open Kit Readers

/-- Where a worker is. -/
inductive Pc where
  | connecting
  /-- At the head of the loop. -/
  | checking
  /-- At or under the stream's lock. -/
  | reading
  | taken (raw : RawBatch)
  /-- Counted in flight; `now` is the value it saw. -/
  | counted (raw : RawBatch) (now : ℕ)
  | uploading (raw : RawBatch)
  | uploaded (result : Except String ℕ)
  | settling (result : Except String ℕ)
  /-- Its rows are added, its batch is not. -/
  | tallying
  | failing (e : String)
  | returned

/-- A worker's thread; a panic stops it where it is. -/
structure Worker where
  pc : Pc
  panicked : Bool

/-- An upload call that returned `Ok`: the batch as read and as it was handed over. -/
structure Call where
  raw : RawBatch
  batch : Batch

/-- What the workers share.  The last three fields are history: the batches in the order
in which they were read, the upload calls that returned `Ok`, and every failure to
connect, read, decode or upload. -/
structure Shared where
  stream : CompoundStream
  poisoned : Bool
  error : Option String
  uploaded : ℕ
  batches : ℕ
  inFlight : ℕ
  maxInFlight : ℕ
  exhausted : Bool
  produced : List RawBatch
  calls : List Call
  failures : List String

structure Upload where
  shared : Shared
  workers : List Worker

/-- What a worker does next; an outcome that is not the code's own is part of it. -/
inductive Move where
  | connect (result : Except String Unit)
  | check
  | read
  | readFails (e : String) (left : CompoundStream)
  | count
  | peak
  | upload (result : Except String Unit)
  | release
  | settle
  | tally
  | fail
  | panic

namespace Shared

def new (stream : CompoundStream) : Shared where
  stream
  poisoned := false
  error := none
  uploaded := 0
  batches := 0
  inFlight := 0
  maxInFlight := 0
  exhausted := false
  produced := []
  calls := []
  failures := []

/-- `fail`: the first error is kept. -/
def fail (sh : Shared) (e : String) : Shared :=
  { sh with error := if sh.error.isNone then some e else sh.error }

/-- A failure that the worker is about to report. -/
def noteFailure (sh : Shared) (e : String) : Shared := { sh with failures := sh.failures ++ [e] }

end Shared

namespace Worker

/-- `next_raw` under the lock. -/
def read (batchSize : ℕ) (sh : Shared) : Pc × Shared :=
  if sh.poisoned then
    (.failing "stream lock poisoned", sh.noteFailure "stream lock poisoned")
  else match sh.stream.nextRaw batchSize with
    | (.ok (some raw), stream) =>
      (.taken raw, { sh with stream, produced := sh.produced ++ [raw] })
    | (.ok none, stream) => (.returned, { sh with stream, exhausted := true })
    | (.error e, stream) => (.failing e, { sh with stream }.noteFailure e)

/-- Decode the batch and hand it to an upload call that returns `result`. -/
def upload (env : ReaderEnv) (raw : RawBatch) (result : Except String Unit) (sh : Shared) :
    Pc × Shared :=
  match raw.decode env with
  | .error e => (.uploaded (.error e), sh.noteFailure e)
  | .ok batch =>
    match result with
    | .error e => (.uploaded (.error e), sh.noteFailure e)
    | .ok () =>
      (.uploaded (.ok batch.ids.length), { sh with calls := sh.calls ++ [⟨raw, batch⟩] })

/-- One action of a worker that did not panic; `none` when the action is not its next one. -/
def act (env : ReaderEnv) (batchSize : ℕ) (sh : Shared) : Pc → Move → Option (Pc × Shared)
  | .connecting, .connect (.ok ()) => some (.checking, sh)
  | .connecting, .connect (.error e) => some (.failing e, sh.noteFailure e)
  | .checking, .check => some (if sh.error.isSome then .returned else .reading, sh)
  | .reading, .read => some (read batchSize sh)
  | .reading, .readFails e left =>
    if sh.poisoned then none else some (.failing e, { sh with stream := left }.noteFailure e)
  | .taken raw, .count =>
    some (.counted raw (sh.inFlight + 1), { sh with inFlight := sh.inFlight + 1 })
  | .counted raw now, .peak =>
    some (.uploading raw, { sh with maxInFlight := max sh.maxInFlight now })
  | .uploading raw, .upload result =>
    -- Cutting into rows of no bytes panics.
    if raw.rowWidth = 0 then none else some (upload env raw result sh)
  | .uploaded result, .release =>
    some (.settling result, { sh with inFlight := sh.inFlight - 1 })
  | .settling (.ok n), .settle => some (.tallying, { sh with uploaded := sh.uploaded + n })
  | .settling (.error e), .settle => some (.failing e, sh)
  | .tallying, .tally => some (.checking, { sh with batches := sh.batches + 1 })
  | .failing e, .fail => some (.returned, sh.fail e)
  | _, _ => none

/-- A panic under the stream's lock poisons it. -/
def panic (sh : Shared) : Pc → Option Shared
  | .reading => some { sh with poisoned := true }
  | .connecting | .uploading _ | .tallying => some sh
  | _ => none

def step (env : ReaderEnv) (batchSize : ℕ) (sh : Shared) (w : Worker) (a : Move) :
    Option (Worker × Shared) :=
  if w.panicked then none
  else match a with
    | .panic => (panic sh w.pc).map fun sh ↦ (⟨w.pc, true⟩, sh)
    | a => (act env batchSize sh w.pc a).map fun (pc, sh) ↦ (⟨pc, false⟩, sh)

/-- The thread is over. -/
def ended (w : Worker) : Bool :=
  w.panicked || match w.pc with
    | .returned => true
    | _ => false

end Worker

/-- What a streaming upload did. -/
structure StreamStats where
  rows : ℕ
  batches : ℕ
  maxInFlight : ℕ
deriving DecidableEq, Repr

namespace Upload

/-- The state in which the threads are spawned. -/
def start (stream : CompoundStream) (parallel : ℕ) : Upload :=
  ⟨.new stream, List.replicate (max parallel 1) ⟨.connecting, false⟩⟩

/-- The worker of the given number takes an action. -/
def step (env : ReaderEnv) (batchSize : ℕ) (s : Upload) (a : ℕ × Move) : Option Upload := do
  let w ← s.workers[a.1]?
  let (w, shared) ← w.step env batchSize s.shared a.2
  pure ⟨shared, s.workers.set a.1 w⟩

/-- The upload of `stream` by `parallel` workers. -/
def machine (env : ReaderEnv) (stream : CompoundStream) (parallel batchSize : ℕ) :
    Machine Upload (ℕ × Move) where
  init := start stream parallel
  step := step env batchSize

/-- What is returned once the threads are joined. -/
def outcome (expected : ℕ) (sh : Shared) : Except String StreamStats :=
  match sh.error with
  | some e => .error e
  | none =>
    if !sh.exhausted || sh.uploaded ≠ expected then
      .error (s!"streaming upload sent {sh.uploaded} of {expected} rows without an error; " ++
        "refusing to report a partial corpus as complete")
    else .ok ⟨sh.uploaded, sh.batches, sh.maxInFlight⟩

/-- `upload_stream` returns this from the state: every thread is over and none of them
panicked, which the scope would pass on. -/
def returns (expected : ℕ) (s : Upload) : Option (Except String StreamStats) :=
  if s.workers.all Worker.ended && s.workers.all (fun w ↦ !w.panicked) then
    some (outcome expected s.shared)
  else none

end Upload

/-- `upload_stream`: it returns `result`, in the state `s` of its threads when it
started any. -/
inductive Returns (env : ReaderEnv) (stream : CompoundStream) (parallel batchSize : ℕ) :
    Except String StreamStats → Upload → Prop
  | refused (h : batchSize = 0) :
      Returns env stream parallel batchSize (.error "batch_size must be at least 1")
        (.start stream parallel)
  | joined (h : batchSize ≠ 0) {s : Upload} {result : Except String StreamStats}
      (hs : (Upload.machine env stream parallel batchSize).Reachable s)
      (hresult : s.returns stream.rows = some result) :
      Returns env stream parallel batchSize result s

end VectorDbBenchmark.UploadStream
