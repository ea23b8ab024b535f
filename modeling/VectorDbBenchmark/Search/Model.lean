import VectorDbBenchmark.Kit.Machine
import VectorDbBenchmark.QueryMetrics
import VectorDbBenchmark.Search.Stats
import VectorDbBenchmark.StartGate.Model

/-!
# The search loop of the Redis engine

`search` of `engine/redis.rs` as a machine: `parallel` workers claim ordinals from a shared
counter, each into buffers of its own.  Every access to something shared is one action, and
so is every reading of the clock and every reply of the server, whose outcome the action
carries; any order of the workers' actions is a run.  The counter is a natural: 2^64
queries are not run.  A thread that panics or is refused never finishes, and makes the run an error.
-/

namespace VectorDbBenchmark.Search

open Kit Quality Results StartGate

/-- What a search is called with, once the queries are read. -/
structure SearchSpec where
  queryCount : ℕ
  neighbors : List (List ℤ)
  explicitTop : Option ℕ
  openLoop : Option OpenLoopPlan
  /-- The duration of an unrestricted run, in nanoseconds. -/
  closedLoopDuration : Option ℕ
  numQueries : ℤ
  parallel : ℕ
  capture : Bool
  discount : ℕ → ℚ
  sqrt : ℚ → ℚ

def usizeMax : ℕ := 2 ^ 64 - 1

def SearchSpec.numToRun (spec : SearchSpec) : ℕ :=
  if spec.closedLoopDuration.isSome then usizeMax
  else match spec.openLoop with
    | some plan => plan.totalRequests
    | none =>
      if 0 < spec.numQueries then min spec.numQueries.toNat spec.queryCount else spec.queryCount

/-! ## A worker -/

/-- The buffers of a worker; times are seconds. -/
structure Samples where
  t : List ℚ := []
  p : List ℚ := []
  r : List ℚ := []
  mr : List ℚ := []
  nd : List ℚ := []
  sd : List ℚ := []
  e2e : List ℚ := []
  dropped : ℕ := 0
  late : ℕ := 0
  cap : List RawQueryResult := []

/-- What became of a claimed ordinal. -/
inductive Fate where
  | dropped
  | succeeded
  | failed
deriving DecidableEq, Repr

structure Event where
  ordinal : ℕ
  fate : Fate
deriving DecidableEq, Repr

/-- Where a worker is. -/
inductive Pc where
  | connecting
  /-- Connected and primed, at the gate. -/
  | parked
  /-- At the head of the loop. -/
  | checking
  | claiming
  /-- Waiting for the slot of its ordinal. -/
  | claimed (idx : ℕ)
  | searching (idx : ℕ)
  | returned
deriving DecidableEq, Repr

/-- A worker.  The last two fields are history: the ordinals it took from the counter, and
what became of those it ran. -/
structure Worker where
  pc : Pc
  samples : Samples
  claims : List ℕ
  log : List Event

def Worker.new : Worker := ⟨.connecting, {}, [], []⟩

/-- What the workers share. -/
structure Shared where
  gate : GateState Unit
  queryIdx : ℕ

/-- What a worker does next; an outcome that is not the code's own is part of it. -/
inductive Move where
  | connect (result : Except String Unit)
  | leave
  /-- Whether the duration is over. -/
  | check (expired : Bool)
  | claim
  /-- The delay, in nanoseconds, after which the slot was reached. -/
  | slot (delay : ℕ)
  | reply (result : Except String (List (ℤ × F64))) (queryTime endToEnd : ℚ)

def nanosToSecs (n : ℕ) : ℚ := n / 10 ^ 9

namespace Samples

/-- A request that is dispatched, `delay` after its slot. -/
def dispatch (plan : OpenLoopPlan) (delay : ℕ) (b : Samples) : Samples :=
  { b with
    sd := b.sd ++ [nanosToSecs delay]
    late := if plan.isLate delay then b.late + 1 else b.late }

def drop (b : Samples) : Samples := { b with dropped := b.dropped + 1 }

/-- A query that succeeded. -/
def succeed (spec : SearchSpec) (queryPos idx : ℕ) (truth : List ℤ) (resultIds : List (ℤ × F64))
    (queryTime endToEnd : ℚ) (b : Samples) : Samples :=
  let top := spec.explicitTop.getD (if 0 < truth.length then truth.length else 10)
  let m := computeMetrics spec.discount (resultIds.map Prod.fst) truth top
  { b with
    cap := if spec.capture then
        b.cap ++ [.ok queryPos idx (resultIds.map fun (row, score) ↦ ⟨row, some score⟩) none
          (.fin queryTime)]
      else b.cap
    t := b.t ++ [queryTime]
    p := b.p ++ [m.precision]
    r := b.r ++ [m.recallAtK]
    mr := b.mr ++ [m.mrr]
    nd := b.nd ++ [m.ndcg]
    e2e := if spec.openLoop.isSome then b.e2e ++ [endToEnd] else b.e2e }

/-- A query that failed. -/
def fail (spec : SearchSpec) (queryPos idx : ℕ) (queryTime : ℚ) (e : String) (b : Samples) :
    Samples :=
  { b with
    cap := if spec.capture then b.cap ++ [.failed queryPos idx (.fin queryTime) e] else b.cap }

end Samples

namespace Worker

/-- Take the next ordinal. -/
def claim (spec : SearchSpec) (sh : Shared) (w : Worker) : Worker × Shared :=
  let idx := sh.queryIdx
  let pc : Pc :=
    if spec.numToRun ≤ idx then .returned
    else if spec.openLoop.isSome then .claimed idx else .searching idx
  ({ w with pc, claims := w.claims ++ [idx] }, { sh with queryIdx := idx + 1 })

/-- The slot of the ordinal is reached: dispatch the request, or drop it. -/
def slot (plan : OpenLoopPlan) (idx delay : ℕ) (w : Worker) : Worker :=
  if plan.maxLateness < delay then
    { w with pc := .checking, samples := w.samples.drop, log := w.log ++ [⟨idx, .dropped⟩] }
  else { w with pc := .searching idx, samples := w.samples.dispatch plan delay }

/-- The reply to a query, whose ground truth is `truth`. -/
def reply (spec : SearchSpec) (idx : ℕ) (truth : List ℤ)
    (result : Except String (List (ℤ × F64))) (queryTime endToEnd : ℚ) (w : Worker) : Worker :=
  let queryPos := idx % spec.queryCount
  match result with
  | .ok resultIds =>
    { w with
      pc := .checking
      samples := w.samples.succeed spec queryPos idx truth resultIds queryTime endToEnd
      log := w.log ++ [⟨idx, .succeeded⟩] }
  | .error e =>
    { w with
      pc := .checking
      samples := w.samples.fail spec queryPos idx queryTime e
      log := w.log ++ [⟨idx, .failed⟩] }

/-- One action of a worker; `none` when the action is not its next one. -/
def act (spec : SearchSpec) (sh : Shared) (w : Worker) (a : Move) : Option (Worker × Shared) :=
  match w.pc, a with
  | .connecting, .connect (.ok ()) =>
    some ({ w with pc := .parked }, { sh with gate := sh.gate.settle .ready })
  | .connecting, .connect (.error e) =>
    some ({ w with pc := .returned }, { sh with gate := sh.gate.settle (.failed e) })
  | .parked, .leave =>
    match sh.gate.phase with
    | .waiting => none
    | .released () => some ({ w with pc := .checking }, sh)
    | .aborted => some ({ w with pc := .returned }, sh)
  | .checking, .check expired =>
    some ({ w with
      pc := if spec.closedLoopDuration.isSome ∧ expired then .returned else .claiming }, sh)
  | .claiming, .claim => some (w.claim spec sh)
  | .claimed idx, .slot delay => spec.openLoop.map fun plan ↦ (w.slot plan idx delay, sh)
  | .searching idx, .reply result queryTime endToEnd =>
    -- A position without ground truth panics.
    spec.neighbors[idx % spec.queryCount]?.map fun truth ↦
      (w.reply spec idx truth result queryTime endToEnd, sh)
  | _, _ => none

end Worker

/-! ## The search -/

/-- The workers and what they share. -/
abbrev Run := Crew Shared Worker

inductive Action where
  /-- The coordinator, once every ticket is settled. -/
  | start
  | worker (a : ℕ × Move)

namespace Run

def init (spec : SearchSpec) : Run :=
  ⟨⟨.new, 0⟩, List.replicate spec.parallel .new⟩

def step (spec : SearchSpec) (s : Run) : Action → Option Run
  | .start =>
    (s.shared.gate.waitReady "redis-search" spec.parallel).map fun (ready, gate) ↦
      { s with shared.gate := match ready with
        | .ok () => gate.release ()
        | .error _ => gate }
  | .worker a => Crew.step (Worker.act spec) s a

def machine (spec : SearchSpec) : Machine Run Action := ⟨init spec, step spec⟩

/-- Every worker returned. -/
def Finished (s : Run) : Prop := ∀ w ∈ s.workers, w.pc = .returned

/-- What the main thread puts together from the buffers, worker after worker. -/
def joined {β : Type} (f : Samples → List β) (s : Run) : List β :=
  s.workers.flatMap fun w ↦ f w.samples

def dropped (s : Run) : ℕ := (s.workers.map (·.samples.dropped)).sum

def late (s : Run) : ℕ := (s.workers.map (·.samples.late)).sum

def attempted (spec : SearchSpec) (s : Run) : ℕ :=
  min s.shared.queryIdx spec.numToRun - s.dropped

/-- What both kinds of results get in the end. -/
def finish (spec : SearchSpec) (s : Run) (results : SearchResults) : SearchResults :=
  let results :=
    { results with queryRecords := if spec.capture then some (s.joined Samples.cap) else none }
  match spec.openLoop with
  | some plan =>
    attachOpenLoopMetrics results plan (s.joined Samples.sd) (s.joined Samples.e2e) s.dropped s.late
  | none => results

/-- The results of the joined workers.  `commandstats` is what the check of the server's
counters returned. -/
def publish (spec : SearchSpec) (totalTime : ℚ) (commandstats : Except String Unit)
    (s : Run) : Except String SearchResults :=
  let top := spec.explicitTop.getD ((spec.neighbors.head?.map List.length).getD 10)
  let times := s.joined Samples.t
  if times.isEmpty then
    if s.attempted spec = 0 ∧ s.dropped = 0 then .error "No searches completed"
    else .ok (s.finish spec (zeroSearchResults totalTime top spec.parallel (s.attempted spec)))
  else do
    commandstats
    let results ← computeSearchStats spec.sqrt times (s.joined Samples.p) (s.joined Samples.r)
      (s.joined Samples.mr) (s.joined Samples.nd) totalTime top spec.parallel (s.attempted spec)
    pure (s.finish spec results)

end Run

/-- `search` on datasets that were read: what it returns, and the state of its workers
when it started any. -/
inductive Returns (spec : SearchSpec) : Except String SearchResults → Run → Prop
  | noQueries (h : spec.queryCount = 0) :
      Returns spec (.error "dataset contains no search queries") (.init spec)
  | shortTruth (hqueries : spec.queryCount ≠ 0) (h : spec.neighbors.length < spec.queryCount) :
      Returns spec (.error "dataset ground-truth shorter than query set") (.init spec)
  | notStarted (hqueries : spec.queryCount ≠ 0) (htruth : spec.queryCount ≤ spec.neighbors.length)
      {s : Run} (hs : (Run.machine spec).Reachable s) (hdone : s.Finished) {e : String}
      (hgate : s.shared.gate.waitReady "redis-search" spec.parallel =
        some (.error e, s.shared.gate)) :
      Returns spec (.error e) s
  | joined (hqueries : spec.queryCount ≠ 0) (htruth : spec.queryCount ≤ spec.neighbors.length)
      {s : Run} (hs : (Run.machine spec).Reachable s) (hdone : s.Finished)
      (hgate : s.shared.gate.phase = .released ()) (totalTime : ℚ)
      (commandstats : Except String Unit) :
      Returns spec (s.publish spec totalTime commandstats) s

/-! ## What a worker can do -/

/-- A worker acts, and the shared state follows. -/
inductive Does (spec : SearchSpec) (sh : Shared) : Worker → Worker → Shared → Prop
  | connect (w : Worker) (hpc : w.pc = .connecting) :
      Does spec sh w { w with pc := .parked } { sh with gate := sh.gate.settle .ready }
  | connectFails (w : Worker) (hpc : w.pc = .connecting) (e : String) :
      Does spec sh w { w with pc := .returned } { sh with gate := sh.gate.settle (.failed e) }
  | leave (w : Worker) (hpc : w.pc = .parked) (h : sh.gate.phase = .released ()) :
      Does spec sh w { w with pc := .checking } sh
  | turnedAway (w : Worker) (hpc : w.pc = .parked) (h : sh.gate.phase = .aborted) :
      Does spec sh w { w with pc := .returned } sh
  | goOn (w : Worker) (hpc : w.pc = .checking) : Does spec sh w { w with pc := .claiming } sh
  | expire (w : Worker) (hpc : w.pc = .checking) (h : spec.closedLoopDuration.isSome) :
      Does spec sh w { w with pc := .returned } sh
  | claim (w : Worker) (hpc : w.pc = .claiming) :
      Does spec sh w (w.claim spec sh).1 (w.claim spec sh).2
  | slot (w : Worker) (idx : ℕ) (hpc : w.pc = .claimed idx) (plan : OpenLoopPlan)
      (h : spec.openLoop = some plan) (delay : ℕ) : Does spec sh w (w.slot plan idx delay) sh
  | reply (w : Worker) (idx : ℕ) (hpc : w.pc = .searching idx) (truth : List ℤ)
      (h : spec.neighbors[idx % spec.queryCount]? = some truth)
      (result : Except String (List (ℤ × F64))) (queryTime endToEnd : ℚ) :
      Does spec sh w (w.reply spec idx truth result queryTime endToEnd) sh

variable {spec : SearchSpec}

theorem does_of_act {sh sh' : Shared} {w w' : Worker} {a : Move}
    (h : w.act spec sh a = some (w', sh')) : Does spec sh w w' sh' := by
  revert h
  fun_cases Worker.act spec sh w a
  all_goals intro h
  case case1 hpc =>
      cases h
      exact .connect w hpc
  case case2 e hpc =>
      cases h
      exact .connectFails w hpc e
  case case3 => cases h
  case case4 hpc hphase =>
      cases h
      exact .leave w hpc hphase
  case case5 hpc hphase =>
      cases h
      exact .turnedAway w hpc hphase
  case case6 expired hpc =>
      cases h
      split_ifs with hexpired
      · exact .expire w hpc hexpired.1
      · exact .goOn w hpc
  case case7 hpc =>
      have hdoes : Does spec sh w _ _ := .claim w hpc
      rw [Option.some.inj h] at hdoes
      exact hdoes
  case case8 idx delay hpc =>
      obtain ⟨plan, hplan, heq⟩ := Option.map_eq_some_iff.mp h
      cases heq
      exact .slot w idx hpc plan hplan delay
  case case9 idx result queryTime endToEnd hpc =>
      obtain ⟨truth, htruth, heq⟩ := Option.map_eq_some_iff.mp h
      cases heq
      exact .reply w idx hpc truth htruth result queryTime endToEnd
  case case10 => cases h

/-- An action starts the run, or is one of a worker. -/
theorem step_cases {s s' : Run} {a : Action} (h : Run.step spec s a = some s') :
    (∃ gate, s' = { s with shared.gate := gate }) ∨
    ∃ i w w' sh', s.workers[i]? = some w ∧ Does spec s.shared w w' sh' ∧
      s' = ⟨sh', s.workers.set i w'⟩ := by
  cases a with
  | start =>
      obtain ⟨⟨ready, gate⟩, -, rfl⟩ := Option.map_eq_some_iff.mp h
      exact .inl ⟨_, rfl⟩
  | worker a =>
      obtain ⟨w, w', sh', hw, hact, rfl⟩ := Crew.step_cases h
      exact .inr ⟨a.1, w, w', sh', hw, does_of_act hact, rfl⟩

end VectorDbBenchmark.Search
