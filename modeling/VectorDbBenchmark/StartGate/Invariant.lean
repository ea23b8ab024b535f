import VectorDbBenchmark.StartGate.Model

/-!
# Invariants of the pool

Every action of the pool by cases: what it needs of the state and what it changes.  The
invariants are derived from these cases and not from the code of the step.

The counters of the gate are the tallies of the tickets.  As long as the pool is
started once and not used again, the phase, the coordinator's position and what the workers
have seen fit together: a released gate means that every planned worker was
ready, and what `start_with` returns is what the workers returned.
-/

namespace VectorDbBenchmark.StartGate

open Kit

variable {T ι : Type}

/-! ## The gate -/

namespace GateState

variable (st : GateState ι) (outcome : Outcome) (t : ι)

@[simp] theorem settle_settled : (st.settle outcome).settled = st.settled + 1 := by
  cases outcome <;> rfl

@[simp] theorem settle_phase : (st.settle outcome).phase = st.phase := by
  cases outcome <;> rfl

theorem settle_ready :
    (st.settle outcome).ready = st.ready + if outcome = .ready then 1 else 0 := by
  cases outcome <;> rfl

theorem settle_lost : (st.settle outcome).lost = st.lost + if outcome = .lost then 1 else 0 := by
  cases outcome <;> rfl

theorem settle_failures_length :
    (st.settle outcome).failures.length =
      st.failures.length + if outcome.isFailed then 1 else 0 := by
  cases outcome <;> simp [settle, Outcome.isFailed]

/-- `abort` and `release` touch the phase only. -/
theorem abort_eq : st.abort = { st with phase := st.abort.phase } := by
  rw [abort]
  split <;> rfl

theorem release_eq : st.release t = { st with phase := (st.release t).phase } := by
  rw [release]
  split <;> rfl

variable {st}

theorem abort_phase_of_waiting (h : st.phase = .waiting) : st.abort.phase = .aborted := by
  simp only [abort, h]

theorem abort_phase_of_ne (h : st.phase ≠ .waiting) : st.abort.phase = st.phase := by
  rw [abort]
  split
  · contradiction
  · rfl

theorem release_phase_of_waiting (h : st.phase = .waiting) :
    (st.release t).phase = .released t := by
  simp only [release, h]

/-- `wait_ready` returns once its wait is over: with a gate nobody kept anybody
from, or with an error and an aborted gate. -/
theorem waitReady_eq_some [DecidableEq ι] {label : String} {expected : ℕ}
    {result : Except String Unit × GateState ι}
    (h : st.waitReady label expected = some result) :
    (result = (.ok (), st) ∧ expected ≤ st.settled ∧ st.lost = 0 ∧ st.failures = [] ∧
      st.phase ≠ .aborted) ∨
    ∃ error, result = (.error error, { st with phase := .aborted }) := by
  rw [waitReady] at h
  split_ifs at h with hblocked hready
  · refine .inl ⟨(Option.some.inj h).symm, ?_, hready⟩
    by_contra hlt
    exact hblocked ⟨not_le.mp hlt, hready.2.2⟩
  · exact .inr ⟨_, (Option.some.inj h).symm⟩

end GateState

/-! ## Workers -/

/-- The moves of a worker `w` in a phase: it settles its ticket, it learns what
became of the gate, or its thread ends. -/
inductive WorkerMove (w : Worker T ι) (phase : Phase ι) : Worker T ι → Option Outcome → Prop
  | settle (outcome : Outcome) (h : w.ticket = none) :
      WorkerMove w phase (w.settle outcome) (some outcome)
  | released (t : ι) (h : w.ticket = some .ready) (hp : phase = .released t) :
      WorkerMove w phase { w with waited := some (some t) } none
  | aborted (h : w.ticket = some .ready) (hp : phase = .aborted) :
      WorkerMove w phase { w with waited := some none } none
  | ended (thread : Thread T) (h : w.thread = .running) (hend : w.mayEnd = true) :
      WorkerMove w phase { w with thread } none

theorem workerMove_of_workerStep {w w' : Worker T ι} {phase : Phase ι} {a : WorkerAction T}
    {o : Option Outcome} (h : WorkerPool.workerStep w phase a = some (w', o)) :
    WorkerMove w phase w' o := by
  cases a with
  | arrive =>
      obtain ⟨hw, h⟩ := Option.ite_none_right_eq_some.mp h
      cases h
      exact .settle _ hw
  | fail reason =>
      obtain ⟨hw, h⟩ := Option.ite_none_right_eq_some.mp h
      cases h
      exact .settle _ hw
  | lose =>
      obtain ⟨hw, h⟩ := Option.ite_none_right_eq_some.mp h
      cases h
      exact .settle _ hw
  | wake =>
      obtain ⟨hw, h⟩ := Option.ite_none_right_eq_some.mp h
      cases phase with
      | waiting => cases h
      | released t =>
          cases h
          exact .released t hw.1 rfl
      | aborted =>
          cases h
          exact .aborted hw.1 rfl
  | finish v =>
      simp only [WorkerPool.workerStep] at h
      split at h
      · obtain ⟨hend, h⟩ := Option.ite_none_right_eq_some.mp h
        cases h
        exact .ended _ ‹_› hend
      · cases h
  | panic =>
      simp only [WorkerPool.workerStep] at h
      split at h
      · obtain ⟨hend, h⟩ := Option.ite_none_right_eq_some.mp h
        cases h
        exact .ended _ ‹_› hend
      · cases h

/-! ## The pool -/

/-- The moves of the pool. -/
inductive Moves (s : WorkerPool T ι) : WorkerPool T ι → Prop
  | spawn (h : s.coordinator = .idle) :
      Moves s { s.use with
        workers := s.workers ++ [.new], handles := s.handles ++ [s.workers.length] }
  | refuse (error : String) (h : s.coordinator = .idle) :
      Moves s { s.use with
        gate := s.gate.settle .lost, refused := s.refused + 1,
        coordinator := .aborting (.spawnFails error) }
  | abort (h : s.coordinator = .idle) : Moves s { s with gate := s.gate.abort }
  | startMismatch (error : String) (h : s.coordinator = .idle) :
      Moves s { s.use with started := true, coordinator := .aborting (.startFails error) }
  | startWait (h : s.coordinator = .idle) (hn : s.handles.length = s.planned) :
      Moves s { s.use with started := true, coordinator := .waiting s.handles.length }
  | dropPool (h : s.coordinator = .idle) : Moves s { s with coordinator := .aborting .drop }
  | abortGate (next : AfterAbort) (h : s.coordinator = .aborting next) : Moves s (s.abortStep next)
  | ready (expected : ℕ) (h : s.coordinator = .waiting expected)
      (hsettled : expected ≤ s.gate.settled) (hlost : s.gate.lost = 0)
      (hfailures : s.gate.failures = []) (hphase : s.gate.phase ≠ .aborted) :
      Moves s { s with coordinator := .stamping expected }
  | notReady (expected : ℕ) (error : String) (h : s.coordinator = .waiting expected) :
      Moves s { s with
        gate := { s.gate with phase := .aborted }
        coordinator := .draining s.handles (some error), handles := [] }
  | stamp (expected : ℕ) (t : ι) (h : s.coordinator = .stamping expected) :
      Moves s { s with coordinator := .releasing expected t }
  | stampPanics (expected : ℕ) (h : s.coordinator = .stamping expected) :
      Moves s { s with coordinator := .aborting .drop }
  | release (expected : ℕ) (t : ι) (h : s.coordinator = .releasing expected t) :
      Moves s { s with
        gate := s.gate.release t, handles := []
        coordinator := .joining expected t s.handles [] 0 }
  | joinValue (expected : ℕ) (t : ι) (i : ℕ) (todo : List ℕ) (values : List T) (panicked : ℕ)
      (v : T) (h : s.coordinator = .joining expected t (i :: todo) values panicked)
      (hi : (s.workers[i]?).map Worker.thread = some (.returned v)) :
      Moves s { s with coordinator := .joining expected t todo (values ++ [v]) panicked }
  | joinPanic (expected : ℕ) (t : ι) (i : ℕ) (todo : List ℕ) (values : List T) (panicked : ℕ)
      (h : s.coordinator = .joining expected t (i :: todo) values panicked)
      (hi : (s.workers[i]?).map Worker.thread = some .panicked) :
      Moves s { s with coordinator := .joining expected t todo values (panicked + 1) }
  | startOk (expected : ℕ) (t : ι) (values : List T)
      (h : s.coordinator = .joining expected t [] values 0) :
      Moves s { s with coordinator := .idle, results := s.results ++ [.ok (values, t)] }
  | startPanicked (expected : ℕ) (t : ι) (values : List T) (panicked : ℕ) (error : String)
      (h : s.coordinator = .joining expected t [] values panicked) (hp : 0 < panicked) :
      Moves s { s with coordinator := .idle, results := s.results ++ [.error error] }
  | drain (i : ℕ) (todo : List ℕ) (error : Option String)
      (h : s.coordinator = .draining (i :: todo) error) :
      Moves s { s with coordinator := .draining todo error }
  | startDrained (error : String) (h : s.coordinator = .draining [] (some error)) :
      Moves s { s with coordinator := .idle, results := s.results ++ [.error error] }
  | dropDrained (h : s.coordinator = .draining [] none) : Moves s { s with coordinator := .dropped }
  | settle (i : ℕ) (w : Worker T ι) (outcome : Outcome) (hi : s.workers[i]? = some w)
      (hw : w.ticket = none) :
      Moves s { s with
        workers := s.workers.set i (w.settle outcome), gate := s.gate.settle outcome }
  | worker (i : ℕ) (w w' : Worker T ι) (hi : s.workers[i]? = some w)
      (hw : WorkerMove w s.gate.phase w' none) :
      Moves s { s with workers := s.workers.set i w' }

theorem moves_of_joinStep {s s' : WorkerPool T ι} {expected : ℕ} {t : ι} {todo : List ℕ}
    {values : List T} {panicked : ℕ}
    (hc : s.coordinator = .joining expected t todo values panicked)
    (h : s.joinStep expected t todo values panicked = some s') : Moves s s' := by
  cases todo with
  | nil =>
      simp only [WorkerPool.joinStep, Option.some.injEq] at h
      split_ifs at h with hp
      · exact h ▸ .startPanicked expected t values panicked _ hc hp
      · obtain rfl := Nat.eq_zero_of_not_pos hp
        exact h ▸ .startOk expected t values hc
  | cons i todo =>
      simp only [WorkerPool.joinStep] at h
      split at h
      · next v hi => exact Option.some.inj h ▸ .joinValue expected t i todo values panicked v hc hi
      · next hi => exact Option.some.inj h ▸ .joinPanic expected t i todo values panicked hc hi
      · cases h

theorem moves_of_drainStep {s s' : WorkerPool T ι} {todo : List ℕ} {error : Option String}
    (hc : s.coordinator = .draining todo error) (h : s.drainStep todo error = some s') :
    Moves s s' := by
  unfold WorkerPool.drainStep at h
  split at h
  · exact Option.some.inj h ▸ .startDrained _ hc
  · exact Option.some.inj h ▸ .dropDrained hc
  · split at h
    · exact Option.some.inj h ▸ .drain _ _ _ hc
    · exact Option.some.inj h ▸ .drain _ _ _ hc
    · cases h

/-- An enabled action is one of the moves. -/
theorem moves_of_step [DecidableEq ι] {s s' : WorkerPool T ι} {a : Action T ι}
    (h : s.step a = some s') : Moves s s' := by
  cases a <;> simp only [WorkerPool.step] at h
  case spawn =>
    split at h
    · exact Option.some.inj h ▸ .spawn ‹_›
    · cases h
  case refuse e =>
    split at h
    · exact Option.some.inj h ▸ .refuse _ ‹_›
    · cases h
  case abort =>
    split at h
    · exact Option.some.inj h ▸ .abort ‹_›
    · cases h
  case startWith =>
    split at h
    · split_ifs at h with hn
      · exact Option.some.inj h ▸ .startMismatch _ ‹_›
      · exact Option.some.inj h ▸ .startWait ‹_› (not_not.mp hn)
    · cases h
  case dropPool =>
    split at h
    · exact Option.some.inj h ▸ .dropPool ‹_›
    · cases h
  case abortGate =>
    split at h
    · exact Option.some.inj h ▸ .abortGate _ ‹_›
    · cases h
  case waitReady =>
    split at h
    · split at h
      · cases h
      · next gate hwait =>
          rcases GateState.waitReady_eq_some hwait with ⟨heq, hset, hlost, hfail, hph⟩ | ⟨e, heq⟩
          · cases heq
            exact Option.some.inj h ▸ .ready _ ‹_› hset hlost hfail hph
          · cases heq
      · next e gate hwait =>
          rcases GateState.waitReady_eq_some hwait with ⟨heq, -⟩ | ⟨e', heq⟩
          · cases heq
          · cases heq
            exact Option.some.inj h ▸ .notReady _ _ ‹_›
    · cases h
  case stamp t =>
    split at h
    · exact Option.some.inj h ▸ .stamp _ t ‹_›
    · cases h
  case stampPanics =>
    split at h
    · exact Option.some.inj h ▸ .stampPanics _ ‹_›
    · cases h
  case release =>
    split at h
    · exact Option.some.inj h ▸ .release _ _ ‹_›
    · cases h
  case join =>
    split at h
    · exact moves_of_joinStep ‹_› h
    · exact moves_of_drainStep ‹_› h
    · cases h
  case worker i a =>
    split at h
    · cases h
    · next w hi =>
        split at h
        · cases h
        · next w' hstep =>
            exact Option.some.inj h ▸ .worker i w w' hi (workerMove_of_workerStep hstep)
        · next w' outcome hstep =>
            cases workerMove_of_workerStep hstep with
            | settle outcome hw => exact Option.some.inj h ▸ .settle i w outcome hi hw

/-! ## Tallies -/

section Tally

variable {α : Type} {p : α → Bool} {xs : List α} {i : ℕ} {x y : α}

theorem countP_set_of_eq (hi : xs[i]? = some x) (h : p y = p x) :
    (xs.set i y).countP p = xs.countP p := by
  obtain ⟨hlt, rfl⟩ := List.getElem?_eq_some_iff.mp hi
  rw [List.countP_set hlt, h]
  split_ifs with hp
  · have := List.countP_pos_iff.mpr ⟨_, List.getElem_mem hlt, hp⟩
    omega
  · omega

theorem countP_set_of_not (hi : xs[i]? = some x) (h : p x = false) :
    (xs.set i y).countP p = xs.countP p + if p y then 1 else 0 := by
  obtain ⟨hlt, rfl⟩ := List.getElem?_eq_some_iff.mp hi
  rw [List.countP_set hlt, h]
  rfl

end Tally

/-- The gate's counters tally the tickets: those of the workers, and those whose
thread was refused, which are lost. -/
structure Counters (s : WorkerPool T ι) : Prop where
  settled : s.gate.settled = s.workers.countP (fun w ↦ w.ticket.isSome) + s.refused
  ready : s.gate.ready = s.workers.countP fun w ↦ w.ticket = some .ready
  lost : s.gate.lost = s.workers.countP (fun w ↦ w.ticket = some .lost) + s.refused
  failed : s.gate.failures.length = s.workers.countP fun w ↦ w.ticket.any Outcome.isFailed

/-- Every settled ticket settled in one of the three ways. -/
theorem countP_isSome_ticket (ws : List (Worker T ι)) :
    ws.countP (fun w ↦ w.ticket.isSome) =
      ws.countP (fun w ↦ w.ticket = some .ready) + ws.countP (fun w ↦ w.ticket = some .lost) +
        ws.countP fun w ↦ w.ticket.any Outcome.isFailed := by
  induction ws with
  | nil => rfl
  | cons w ws ih =>
      rw [List.countP_cons, List.countP_cons, List.countP_cons, List.countP_cons, ih]
      rcases w.ticket with _ | _ | _ | reason <;> simp [Outcome.isFailed] <;> omega

theorem Counters.settled_eq {s : WorkerPool T ι} (h : Counters s) :
    s.gate.settled = s.gate.ready + s.gate.lost + s.gate.failures.length := by
  rw [h.settled, h.ready, h.lost, h.failed, countP_isSome_ticket]
  omega

theorem Counters.settled_le {s : WorkerPool T ι} (h : Counters s) :
    s.gate.settled ≤ s.minted := by
  rw [h.settled, WorkerPool.minted]
  exact Nat.add_le_add_right List.countP_le_length _

/-! ## One worker -/

/-- A worker waits only with a ready ticket, and ends only when it is through with
its ticket. -/
structure WorkerOk (w : Worker T ι) : Prop where
  waited : w.waited.isSome → w.ticket = some .ready
  ended : w.thread ≠ .running → w.mayEnd = true

/-- What `arrive_and_wait` returned is what became of the gate. -/
def Sees (phase : Phase ι) (w : Worker T ι) : Prop :=
  (∀ t, w.waited = some (some t) → phase = .released t) ∧
    (w.waited = some none → phase = .aborted)

theorem WorkerOk.new : WorkerOk (Worker.new : Worker T ι) :=
  ⟨fun h ↦ absurd h Bool.false_ne_true, fun h ↦ absurd rfl h⟩

theorem Sees.new (phase : Phase ι) : Sees phase (Worker.new : Worker T ι) :=
  ⟨fun _ h ↦ (nomatch h), fun h ↦ (nomatch h)⟩

theorem WorkerOk.settle {w : Worker T ι} (h : WorkerOk w) (hw : w.ticket = none)
    (outcome : Outcome) : WorkerOk (w.settle outcome) := by
  constructor
  · intro hwaited
    rw [h.waited hwaited] at hw
    exact nomatch hw
  · intro hthread
    have hend := h.ended hthread
    simp [Worker.mayEnd, hw] at hend

theorem WorkerMove.workerOk {w w' : Worker T ι} {phase : Phase ι}
    (hmove : WorkerMove w phase w' none) (h : WorkerOk w) : WorkerOk w' := by
  cases hmove with
  | released t hready =>
      refine ⟨fun _ ↦ hready, fun hthread ↦ ?_⟩
      simp [Worker.mayEnd, hready]
  | aborted hready =>
      refine ⟨fun _ ↦ hready, fun hthread ↦ ?_⟩
      simp [Worker.mayEnd, hready]
  | ended thread hrunning hend => exact ⟨h.waited, fun _ ↦ hend⟩

theorem WorkerMove.ticket_eq {w w' : Worker T ι} {phase : Phase ι}
    (hmove : WorkerMove w phase w' none) : w'.ticket = w.ticket := by
  cases hmove <;> rfl

theorem WorkerMove.sees {w w' : Worker T ι} {phase : Phase ι}
    (hmove : WorkerMove w phase w' none) (h : Sees phase w) : Sees phase w' := by
  cases hmove with
  | released t _ hp =>
      refine ⟨fun t' ht ↦ ?_, fun hn ↦ (nomatch hn)⟩
      cases ht
      exact hp
  | aborted _ hp => exact ⟨fun t' ht ↦ (nomatch ht), fun _ ↦ hp⟩
  | ended thread => exact h

/-- A thread that ended stays as it ended. -/
theorem WorkerMove.thread_eq {w w' : Worker T ι} {phase : Phase ι}
    (hmove : WorkerMove w phase w' none) (h : w.thread ≠ .running) : w'.thread = w.thread := by
  cases hmove with
  | released => rfl
  | aborted => rfl
  | ended thread hrunning => exact absurd hrunning h

/-! ## The counters and the workers of any run -/

section AbortStep

variable (s : WorkerPool T ι) (next : AfterAbort)

@[simp] theorem abortStep_gate : (s.abortStep next).gate = s.gate.abort := by cases next <;> rfl
@[simp] theorem abortStep_workers : (s.abortStep next).workers = s.workers := by cases next <;> rfl
@[simp] theorem abortStep_refused : (s.abortStep next).refused = s.refused := by cases next <;> rfl
@[simp] theorem abortStep_planned : (s.abortStep next).planned = s.planned := by cases next <;> rfl
@[simp] theorem abortStep_started : (s.abortStep next).started = s.started := by cases next <;> rfl
@[simp] theorem abortStep_reused : (s.abortStep next).reused = s.reused := by cases next <;> rfl
@[simp] theorem abortStep_results : (s.abortStep next).results = s.results := by cases next <;> rfl

end AbortStep

theorem Counters.of_eq {s s' : WorkerPool T ι} (h : Counters s)
    (hg : s'.gate.settled = s.gate.settled)
    (hr : s'.gate.ready = s.gate.ready) (hl : s'.gate.lost = s.gate.lost)
    (hf : s'.gate.failures = s.gate.failures) (hw : s'.workers = s.workers)
    (hrefused : s'.refused = s.refused) : Counters s' :=
  ⟨by rw [hg, hw, hrefused, h.settled], by rw [hr, hw, h.ready], by rw [hl, hw, hrefused, h.lost],
    by rw [hf, hw, h.failed]⟩

theorem Counters.moves {s s' : WorkerPool T ι} (hmove : Moves s s') (h : Counters s) :
    Counters s' := by
  cases hmove with
  | spawn =>
      constructor <;> simp only [WorkerPool.use, List.countP_append, List.countP_singleton]
      · exact h.settled
      · exact h.ready
      · exact h.lost
      · exact h.failed
  | refuse error =>
      constructor <;> simp only [WorkerPool.use]
      · rw [GateState.settle_settled, h.settled]
        rfl
      · exact h.ready
      · rw [GateState.settle_lost, h.lost]
        rfl
      · exact h.failed
  | abort =>
      rw [GateState.abort_eq]
      exact h.of_eq rfl rfl rfl rfl rfl rfl
  | abortGate next =>
      refine h.of_eq ?_ ?_ ?_ ?_ (abortStep_workers s next) (abortStep_refused s next) <;>
        rw [abortStep_gate, GateState.abort_eq]
  | release expected t =>
      rw [GateState.release_eq]
      exact h.of_eq rfl rfl rfl rfl rfl rfl
  | settle i w outcome hi hw =>
      constructor
      · rw [GateState.settle_settled, h.settled, countP_set_of_not hi (by rw [hw]; rfl)]
        exact Nat.add_right_comm _ _ _
      · rw [GateState.settle_ready, h.ready, countP_set_of_not hi (by rw [hw]; rfl)]
        cases outcome <;> rfl
      · rw [GateState.settle_lost, h.lost, countP_set_of_not hi (by rw [hw]; rfl),
          Nat.add_right_comm]
        cases outcome <;> rfl
      · rw [GateState.settle_failures_length, h.failed, countP_set_of_not hi (by rw [hw]; rfl)]
        cases outcome <;> rfl
  | worker i w w' hi hw =>
      have hticket := hw.ticket_eq
      exact ⟨by rw [countP_set_of_eq hi (by rw [hticket])]; exact h.settled,
        by rw [countP_set_of_eq hi (by rw [hticket])]; exact h.ready,
        by rw [countP_set_of_eq hi (by rw [hticket])]; exact h.lost,
        by rw [countP_set_of_eq hi (by rw [hticket])]; exact h.failed⟩
  | _ => exact h.of_eq rfl rfl rfl rfl rfl rfl

theorem workersOk_moves {s s' : WorkerPool T ι} (hmove : Moves s s')
    (h : ∀ w ∈ s.workers, WorkerOk w) : ∀ w ∈ s'.workers, WorkerOk w := by
  cases hmove with
  | spawn =>
      intro w hw
      rcases List.mem_append.mp hw with hw | hw
      · exact h w hw
      · exact List.mem_singleton.mp hw ▸ .new
  | abortGate next => exact abortStep_workers s next ▸ h
  | settle i w outcome hi hw =>
      exact forall_mem_set h ((h w (List.mem_of_getElem? hi)).settle hw outcome)
  | worker i w w' hi hw => exact forall_mem_set h (hw.workerOk (h w (List.mem_of_getElem? hi)))
  | _ => exact h

end VectorDbBenchmark.StartGate
