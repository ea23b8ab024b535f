import Mathlib.Data.String.Basic
import VectorDbBenchmark.Kit.Machine
import VectorDbBenchmark.Kit.Ordered

/-!
# The start gate

`StartGate`, `WorkerTicket` and `WorkerPool` of `src/start_gate.rs` as a machine.
Every critical section of the gate's mutex is one action, and so is every
decision a worker, the coordinator or the operating system takes between two of them, so
that any order of the actions of the coordinator and the workers is a run.  A wait on
the condition variable is an action that is not enabled until its condition
holds.
-/

namespace VectorDbBenchmark.StartGate

open Kit

variable {T ι : Type}

/-! ## The gate -/

inductive Phase (ι : Type) where
  | waiting
  | released (t : ι)
  | aborted
deriving DecidableEq, Repr

structure GateState (ι : Type) where
  /-- Tickets that reached a terminal startup outcome. -/
  settled : ℕ
  ready : ℕ
  lost : ℕ
  failures : List String
  phase : Phase ι
deriving DecidableEq, Repr

/-- What a ticket settles as. -/
inductive Outcome where
  | ready
  | lost
  | failed (reason : String)
deriving DecidableEq, Repr

def Outcome.isFailed : Outcome → Bool
  | .failed _ => true
  | _ => false

namespace GateState

def new : GateState ι :=
  { settled := 0, ready := 0, lost := 0, failures := [], phase := .waiting }

def settle (st : GateState ι) : Outcome → GateState ι
  | .ready => { st with settled := st.settled + 1, ready := st.ready + 1 }
  | .lost => { st with settled := st.settled + 1, lost := st.lost + 1 }
  | .failed reason =>
    { st with settled := st.settled + 1, failures := st.failures ++ [reason] }

def release (st : GateState ι) (t : ι) : GateState ι :=
  match st.phase with
  | .waiting => { st with phase := .released t }
  | _ => st

def abort (st : GateState ι) : GateState ι :=
  match st.phase with
  | .waiting => { st with phase := .aborted }
  | _ => st

/-- The outcomes that kept the workers from the gate. -/
def complaints (st : GateState ι) : List String :=
  (if 0 < st.lost then
    [toString st.lost ++
      " never reached the start gate (thread not started, or panicked during setup)"]
  else []) ++
  (if st.failures.isEmpty then []
  else [toString st.failures.length ++ " failed setup: " ++
    String.intercalate "; " (sortedSet st.failures)])

def notReady (st : GateState ι) (label : String) (expected : ℕ) : String :=
  "only " ++ toString st.ready ++ " of " ++ toString expected ++ " " ++ label ++
    " workers reached the start gate — " ++ String.intercalate ", " st.complaints ++
    ". Refusing to report a run at parallel=" ++ toString expected ++
    " that measured fewer workers"

/-- `wait_ready` once its wait is over; `none` while it blocks. -/
def waitReady [DecidableEq ι] (st : GateState ι) (label : String) (expected : ℕ) :
    Option (Except String Unit × GateState ι) :=
  if st.settled < expected ∧ st.phase ≠ .aborted then none
  else if st.lost = 0 ∧ st.failures = [] ∧ st.phase ≠ .aborted then some (.ok (), st)
  else some (.error (st.notReady label expected), { st with phase := .aborted })

end GateState

/-! ## Workers -/

/-- How the thread of a worker ended. -/
inductive Thread (T : Type) where
  | running
  | returned (value : T)
  | panicked
deriving DecidableEq, Repr

/-- A spawned worker: what its ticket settled as, what `arrive_and_wait` returned,
and its thread. -/
structure Worker (T ι : Type) where
  ticket : Option Outcome
  waited : Option (Option ι)
  thread : Thread T
deriving DecidableEq, Repr

namespace Worker

def new : Worker T ι := { ticket := none, waited := none, thread := .running }

/-- The worker settles its ticket. -/
def settle (w : Worker T ι) (outcome : Outcome) : Worker T ι := { w with ticket := some outcome }

/-- The closure is through with its ticket: it settled it, and is not parked at the gate. -/
def mayEnd (w : Worker T ι) : Bool :=
  match w.ticket with
  | none => false
  | some .ready => w.waited.isSome
  | some _ => true

end Worker

/-! ## The pool and its coordinator -/

/-- What the coordinator does once it has aborted the gate. -/
inductive AfterAbort where
  /-- `spawn` returns its error. -/
  | spawnFails (error : String)
  /-- `start_with` drains and returns its error. -/
  | startFails (error : String)
  /-- The pool drains and is gone. -/
  | drop
deriving DecidableEq, Repr

/-- Where the coordinator is between two critical sections. -/
inductive Coordinator (T ι : Type) where
  | idle
  | aborting (next : AfterAbort)
  | waiting (expected : ℕ)
  | stamping (expected : ℕ)
  | releasing (expected : ℕ) (t : ι)
  | joining (expected : ℕ) (t : ι) (todo : List ℕ) (values : List T) (panicked : ℕ)
  /-- Joining and discarding; afterwards `start_with` returns the error, or the pool is gone. -/
  | draining (todo : List ℕ) (error : Option String)
  | dropped
deriving DecidableEq, Repr

structure WorkerPool (T ι : Type) where
  label : String
  planned : ℕ
  gate : GateState ι
  /-- The workers whose thread started, in spawn order. -/
  workers : List (Worker T ι)
  /-- Tickets whose thread the operating system refused. -/
  refused : ℕ
  /-- The workers that are not joined yet. -/
  handles : List ℕ
  coordinator : Coordinator T ι
  /-- `start_with` has been called. -/
  started : Bool
  /-- The pool was used again after a call of `start_with`. -/
  reused : Bool
  /-- The errors `spawn` returned. -/
  spawnErrors : List String
  /-- What the calls of `start_with` returned. -/
  results : List (Except String (List T × ι))
deriving Repr

namespace WorkerPool

def new (label : String) (planned : ℕ) : WorkerPool T ι :=
  { label, planned, gate := .new, workers := [], refused := 0, handles := [],
    coordinator := .idle, started := false, reused := false, spawnErrors := [], results := [] }

/-- Tickets that were issued. -/
def minted (s : WorkerPool T ι) : ℕ := s.workers.length + s.refused

def spawnRefused (s : WorkerPool T ι) (e : String) : String :=
  "could not start " ++ s.label ++ " worker " ++ toString (s.handles.length + 1) ++ " of " ++
    toString s.planned ++ ": " ++ e ++ ". The OS refused the thread — lower `parallel`, or " ++
    "raise the thread/process limit (ulimit -u, cgroup pids.max)"

def wrongNumber (s : WorkerPool T ι) : String :=
  s.label ++ " spawned " ++ toString s.handles.length ++
    " workers but the run is labelled parallel=" ++ toString s.planned

def midRunPanics (s : WorkerPool T ι) (panicked expected : ℕ) : String :=
  toString panicked ++ " of " ++ toString expected ++ " " ++ s.label ++
    " workers panicked mid-run; discarding the run rather than reporting partial results"

end WorkerPool

/-- What a worker does next. -/
inductive WorkerAction (T : Type) where
  /-- `arrive_and_wait` settles the ticket as ready. -/
  | arrive
  /-- `fail` settles it with a reason. -/
  | fail (reason : String)
  /-- The ticket is dropped: a panic before arriving, or a return without using it. -/
  | lose
  /-- `arrive_and_wait` finds the gate released or aborted and returns. -/
  | wake
  | finish (value : T)
  | panic
deriving DecidableEq, Repr

inductive Action (T ι : Type) where
  | spawn
  | refuse (e : String)
  /-- The coordinator aborts the gate (a guard that drops, a bare gate). -/
  | abort
  | startWith
  | dropPool
  /-- `gate.abort()` inside `spawn`, `start_with` or `drop`. -/
  | abortGate
  | waitReady
  | stamp (t : ι)
  /-- `stamp` panics, and the pool is dropped while unwinding. -/
  | stampPanics
  | release
  | join
  | worker (i : ℕ) (action : WorkerAction T)
deriving DecidableEq, Repr

namespace WorkerPool

/-- The coordinator calls `spawn` or `start_with`. -/
def use (s : WorkerPool T ι) : WorkerPool T ι := { s with reused := s.reused || s.started }

/-- A worker's action: the worker afterwards, and how its ticket settled if it did. -/
def workerStep (w : Worker T ι) (phase : Phase ι) :
    WorkerAction T → Option (Worker T ι × Option Outcome)
  | .arrive => if w.ticket = none then some (w.settle .ready, some .ready) else none
  | .fail reason =>
    if w.ticket = none then some (w.settle (.failed reason), some (.failed reason)) else none
  | .lose => if w.ticket = none then some (w.settle .lost, some .lost) else none
  | .wake =>
    if w.ticket = some .ready ∧ w.waited.isNone then
      match phase with
      | .waiting => none
      | .released t => some ({ w with waited := some (some t) }, none)
      | .aborted => some ({ w with waited := some none }, none)
    else none
  | .finish value =>
    match w.thread with
    | .running => if w.mayEnd then some ({ w with thread := .returned value }, none) else none
    | _ => none
  | .panic =>
    match w.thread with
    | .running => if w.mayEnd then some ({ w with thread := .panicked }, none) else none
    | _ => none

/-- `join` of one handle and, when none is left, the return of `start_with`. -/
def joinStep (s : WorkerPool T ι) (expected : ℕ) (t : ι) (todo : List ℕ) (values : List T)
    (panicked : ℕ) : Option (WorkerPool T ι) :=
  match todo with
  | [] =>
    let result := if 0 < panicked then .error (s.midRunPanics panicked expected)
      else .ok (values, t)
    some { s with coordinator := .idle, results := s.results ++ [result] }
  | i :: rest =>
    match (s.workers[i]?).map Worker.thread with
    | some (.returned v) =>
      some { s with coordinator := .joining expected t rest (values ++ [v]) panicked }
    | some .panicked =>
      some { s with coordinator := .joining expected t rest values (panicked + 1) }
    | _ => none

/-- `drain` of one handle and, when none is left, the return. -/
def drainStep (s : WorkerPool T ι) (todo : List ℕ) (error : Option String) :
    Option (WorkerPool T ι) :=
  match todo, error with
  | [], some e => some { s with coordinator := .idle, results := s.results ++ [.error e] }
  | [], none => some { s with coordinator := .dropped }
  | i :: rest, _ =>
    match (s.workers[i]?).map Worker.thread with
    | some (.returned _) | some .panicked => some { s with coordinator := .draining rest error }
    | _ => none

/-- `gate.abort()` and what comes after it. -/
def abortStep (s : WorkerPool T ι) : AfterAbort → WorkerPool T ι
  | .spawnFails e =>
    { s with gate := s.gate.abort, coordinator := .idle, spawnErrors := s.spawnErrors ++ [e] }
  | .startFails e =>
    { s with gate := s.gate.abort, coordinator := .draining s.handles (some e), handles := [] }
  | .drop =>
    { s with gate := s.gate.abort, coordinator := .draining s.handles none, handles := [] }

variable [DecidableEq ι]

def step (s : WorkerPool T ι) : Action T ι → Option (WorkerPool T ι)
  | .spawn =>
    match s.coordinator with
    | .idle =>
      some { s.use with workers := s.workers ++ [.new], handles := s.handles ++ [s.workers.length] }
    | _ => none
  | .refuse e =>
    -- the closure is dropped with its ticket before `spawn` aborts the gate
    match s.coordinator with
    | .idle =>
      some { s.use with gate := s.gate.settle .lost, refused := s.refused + 1,
                        coordinator := .aborting (.spawnFails (s.spawnRefused e)) }
    | _ => none
  | .abort =>
    match s.coordinator with
    | .idle => some { s with gate := s.gate.abort }
    | _ => none
  | .startWith =>
    match s.coordinator with
    | .idle =>
      some { s.use with
        started := true
        coordinator := if s.handles.length ≠ s.planned then .aborting (.startFails s.wrongNumber)
          else .waiting s.handles.length }
    | _ => none
  | .dropPool =>
    match s.coordinator with
    | .idle => some { s with coordinator := .aborting .drop }
    | _ => none
  | .abortGate =>
    match s.coordinator with
    | .aborting next => some (s.abortStep next)
    | _ => none
  | .waitReady =>
    match s.coordinator with
    | .waiting expected =>
      match s.gate.waitReady s.label expected with
      | none => none
      | some (.ok _, gate) => some { s with gate, coordinator := .stamping expected }
      | some (.error e, gate) =>
        some { s with gate, coordinator := .draining s.handles (some e), handles := [] }
    | _ => none
  | .stamp t =>
    match s.coordinator with
    | .stamping expected => some { s with coordinator := .releasing expected t }
    | _ => none
  | .stampPanics =>
    match s.coordinator with
    | .stamping _ => some { s with coordinator := .aborting .drop }
    | _ => none
  | .release =>
    match s.coordinator with
    | .releasing expected t =>
      some { s with gate := s.gate.release t, handles := []
                    coordinator := .joining expected t s.handles [] 0 }
    | _ => none
  | .join =>
    match s.coordinator with
    | .joining expected t todo values panicked => s.joinStep expected t todo values panicked
    | .draining todo error => s.drainStep todo error
    | _ => none
  | .worker i action =>
    match s.workers[i]? with
    | none => none
    | some w =>
      match workerStep w s.gate.phase action with
      | none => none
      | some (w', none) => some { s with workers := s.workers.set i w' }
      | some (w', some outcome) =>
        some { s with workers := s.workers.set i w', gate := s.gate.settle outcome }

end WorkerPool

/-- The pool as a machine. -/
def machine [DecidableEq ι] (label : String) (planned : ℕ) :
    Machine (WorkerPool T ι) (Action T ι) :=
  { init := .new label planned, step := WorkerPool.step }

end VectorDbBenchmark.StartGate
