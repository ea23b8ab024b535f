import VectorDbBenchmark.StartGate.Invariant

/-!
# A pool that is started once

Nothing of the pool is used again after `start_with` was called: that is how
every harness uses it, and `reused` records when it is not so.  Then a released
gate means that every planned worker was ready, and stays released.

The counters tally in every run.  In a run that starts its pool once, nobody measures
unless everybody planned was ready, all measure from one instant, and an `Ok` of
`start_with` is the values of all of them.
-/

namespace VectorDbBenchmark.StartGate

open Kit

variable {T ι : Type}

/-- Every planned worker was spawned, no thread was refused, and every ticket settled
as ready. -/
structure AllReady (s : WorkerPool T ι) : Prop where
  spawned : s.workers.length = s.planned
  refused : s.refused = 0
  ready : ∀ w ∈ s.workers, w.ticket = some .ready

/-- The values and the number of panics that joining the threads collects. -/
structure Collected (threads : List (Thread T)) (values : List T) (panicked : ℕ) : Prop where
  ended : ∀ thread ∈ threads, thread ≠ .running
  values_eq : values = threads.filterMap fun
    | .returned v => some v
    | _ => none
  panicked_eq : panicked = threads.countP fun
    | .panicked => true
    | _ => false

theorem Collected.nil : Collected ([] : List (Thread T)) [] 0 := ⟨by simp, rfl, rfl⟩

theorem Collected.returned {threads : List (Thread T)} {values : List T} {panicked : ℕ}
    (h : Collected threads values panicked) (v : T) :
    Collected (threads ++ [.returned v]) (values ++ [v]) panicked where
  ended := by
    intro thread ht
    rcases List.mem_append.mp ht with ht | ht
    · exact h.ended thread ht
    · rw [List.mem_singleton.mp ht]
      exact fun hr ↦ nomatch hr
  values_eq := by rw [h.values_eq, List.filterMap_append]; rfl
  panicked_eq := by rw [h.panicked_eq, List.countP_append]; rfl

theorem Collected.panic {threads : List (Thread T)} {values : List T} {panicked : ℕ}
    (h : Collected threads values panicked) :
    Collected (threads ++ [.panicked]) values (panicked + 1) where
  ended := by
    intro thread ht
    rcases List.mem_append.mp ht with ht | ht
    · exact h.ended thread ht
    · rw [List.mem_singleton.mp ht]
      exact fun hr ↦ nomatch hr
  values_eq := by
    rw [h.values_eq, List.filterMap_append]
    exact (List.append_nil _).symm
  panicked_eq := by rw [h.panicked_eq, List.countP_append]; rfl

/-- Without panics the values are what the threads returned, one by one. -/
theorem Collected.threads_eq {threads : List (Thread T)} {values : List T}
    (h : Collected threads values 0) : threads = values.map .returned := by
  obtain ⟨hended, rfl, hpanicked⟩ := h
  induction threads with
  | nil => rfl
  | cons thread threads ih =>
      rw [List.countP_cons] at hpanicked
      cases thread with
      | running => exact absurd rfl (hended _ List.mem_cons_self)
      | panicked => exact absurd hpanicked.symm (Nat.succ_ne_zero _)
      | returned v =>
          rw [List.filterMap_cons, List.map_cons,
            ← ih (fun t ht ↦ hended t (List.mem_cons_of_mem _ ht)) hpanicked]

/-- What the coordinator's position says about the rest of the pool. -/
def Position (s : WorkerPool T ι) : Prop :=
  match s.coordinator with
  | .idle | .aborting (.spawnFails _) =>
    s.started = false → s.handles = List.range s.workers.length
  | .waiting expected =>
    s.started = true ∧ s.handles = List.range s.workers.length ∧
      (∀ t, s.gate.phase ≠ .released t) ∧ expected = s.workers.length ∧
      s.workers.length = s.planned
  | .stamping _ | .releasing _ _ =>
    s.started = true ∧ s.handles = List.range s.workers.length ∧ s.gate.phase = .waiting ∧
      AllReady s
  | .joining _ t todo values panicked =>
    s.started = true ∧ s.gate.phase = .released t ∧
      ∃ k, todo = (List.range s.workers.length).drop k ∧
        Collected ((s.workers.map Worker.thread).take k) values panicked
  | .aborting (.startFails _) | .draining _ (some _) => s.started = true
  | .aborting .drop | .draining _ none | .dropped => True

/-- What fits together while the pool is started once. -/
structure Once (s : WorkerPool T ι) : Prop where
  sees : ∀ w ∈ s.workers, Sees s.gate.phase w
  released : ∀ t, s.gate.phase = .released t → s.started = true ∧ AllReady s
  results : ∀ values t, .ok (values, t) ∈ s.results →
    s.gate.phase = .released t ∧ s.workers.map Worker.thread = values.map .returned
  position : Position s

theorem Once.new (label : String) (planned : ℕ) :
    Once (WorkerPool.new label planned : WorkerPool T ι) where
  sees := by simp [WorkerPool.new]
  released := by simp [WorkerPool.new, GateState.new]
  results := by simp [WorkerPool.new]
  position _ := rfl

/-! ## Moves of the workers -/

/-- The workers moved on, and nothing else changed but the tallies: no ready ticket
was lost, and no thread that ended ended differently. -/
structure WorkersMoved (s s' : WorkerPool T ι) : Prop where
  planned : s'.planned = s.planned
  phase : s'.gate.phase = s.gate.phase
  refused : s'.refused = s.refused
  handles : s'.handles = s.handles
  coordinator : s'.coordinator = s.coordinator
  started : s'.started = s.started
  results : s'.results = s.results
  length : s'.workers.length = s.workers.length
  sees : (∀ w ∈ s.workers, Sees s.gate.phase w) → ∀ w ∈ s'.workers, Sees s.gate.phase w
  ready : (∀ w ∈ s.workers, w.ticket = some .ready) → ∀ w ∈ s'.workers, w.ticket = some .ready
  threads : ∀ k, (∀ thread ∈ (s.workers.map Worker.thread).take k, thread ≠ .running) →
    (s'.workers.map Worker.thread).take k = (s.workers.map Worker.thread).take k

theorem threads_set {ws : List (Worker T ι)} {i : ℕ} {w w' : Worker T ι} (hi : ws[i]? = some w)
    (h : w.thread ≠ .running → w'.thread = w.thread) {k : ℕ}
    (hk : ∀ thread ∈ (ws.map Worker.thread).take k, thread ≠ .running) :
    ((ws.set i w').map Worker.thread).take k = (ws.map Worker.thread).take k := by
  rcases Nat.lt_or_ge i k with hik | hik
  · obtain ⟨hlt, rfl⟩ := List.getElem?_eq_some_iff.mp hi
    have hmem : ws[i].thread ∈ (ws.map Worker.thread).take k := by
      rw [List.mem_take_iff_getElem]
      exact ⟨i, by rw [List.length_map]; omega, List.getElem_map _⟩
    rw [List.map_set, h (hk _ hmem), ← List.map_set, List.set_getElem_self]
  · rw [List.map_set, List.take_set_of_le hik]

theorem AllReady.workersMoved {s s' : WorkerPool T ι} (hm : WorkersMoved s s') (h : AllReady s) :
    AllReady s' :=
  ⟨by rw [hm.length, hm.planned, h.spawned], by rw [hm.refused, h.refused], hm.ready h.ready⟩

theorem Position.workersMoved {s s' : WorkerPool T ι} (hm : WorkersMoved s s')
    (h : Position s) : Position s' := by
  rw [Position] at h ⊢
  rw [hm.coordinator]
  split at h
  · rwa [hm.started, hm.handles, hm.length]
  · rwa [hm.started, hm.handles, hm.length]
  · rwa [hm.started, hm.handles, hm.length, hm.phase, hm.planned]
  · exact ⟨hm.started ▸ h.1, hm.handles ▸ hm.length ▸ h.2.1, hm.phase ▸ h.2.2.1,
      h.2.2.2.workersMoved hm⟩
  · exact ⟨hm.started ▸ h.1, hm.handles ▸ hm.length ▸ h.2.1, hm.phase ▸ h.2.2.1,
      h.2.2.2.workersMoved hm⟩
  · obtain ⟨hstarted, hphase, k, htodo, hcollected⟩ := h
    refine ⟨hm.started ▸ hstarted, hm.phase ▸ hphase, k, hm.length ▸ htodo, ?_⟩
    rw [hm.threads k hcollected.ended]
    exact hcollected
  · exact hm.started ▸ h
  · exact hm.started ▸ h
  · exact h
  · exact h
  · exact h

theorem Once.workersMoved {s s' : WorkerPool T ι} (hm : WorkersMoved s s') (h : Once s) :
    Once s' where
  sees := hm.phase ▸ hm.sees h.sees
  released t ht := by
    obtain ⟨hstarted, hall⟩ := h.released t (hm.phase ▸ ht)
    exact ⟨hm.started.trans hstarted, hall.workersMoved hm⟩
  results values t ht := by
    obtain ⟨hphase, hthreads⟩ := h.results values t (hm.results ▸ ht)
    refine ⟨hm.phase.trans hphase, ?_⟩
    have hsame := hm.threads s.workers.length (by
      intro thread hthread
      rw [hthreads] at hthread
      obtain ⟨v, -, rfl⟩ := List.mem_map.mp (List.mem_of_mem_take hthread)
      exact fun hr ↦ nomatch hr)
    rwa [List.take_of_length_le (by rw [List.length_map, hm.length]),
      List.take_of_length_le (by rw [List.length_map]), hthreads] at hsame
  position := h.position.workersMoved hm

theorem workersMoved_settle {s : WorkerPool T ι} {i : ℕ} {w : Worker T ι} {outcome : Outcome}
    (hi : s.workers[i]? = some w) (hw : w.ticket = none) :
    WorkersMoved s { s with
      workers := s.workers.set i (w.settle outcome), gate := s.gate.settle outcome } where
  planned := rfl
  phase := GateState.settle_phase _ _
  refused := rfl
  handles := rfl
  coordinator := rfl
  started := rfl
  results := rfl
  length := List.length_set
  sees h := forall_mem_set h (h w (List.mem_of_getElem? hi))
  ready h := absurd (h w (List.mem_of_getElem? hi)) (by rw [hw]; exact nofun)
  threads _ hk := by
    have hthread : w.thread ≠ .running → (w.settle outcome).thread = w.thread := fun _ ↦ rfl
    exact threads_set hi hthread hk

theorem workersMoved_worker {s : WorkerPool T ι} {i : ℕ} {w w' : Worker T ι}
    (hi : s.workers[i]? = some w) (hw : WorkerMove w s.gate.phase w' none) :
    WorkersMoved s { s with workers := s.workers.set i w' } where
  planned := rfl
  phase := rfl
  refused := rfl
  handles := rfl
  coordinator := rfl
  started := rfl
  results := rfl
  length := List.length_set
  sees h := forall_mem_set h (hw.sees (h w (List.mem_of_getElem? hi)))
  ready h := forall_mem_set h (hw.ticket_eq.trans (h w (List.mem_of_getElem? hi)))
  threads _ hk := threads_set hi hw.thread_eq hk

/-! ## Moves of the coordinator -/

/-- The gate the coordinator waited for: all are ready. -/
theorem Counters.allReady {s : WorkerPool T ι} (h : Counters s)
    (hspawned : s.workers.length = s.planned) (hsettled : s.workers.length ≤ s.gate.settled)
    (hlost : s.gate.lost = 0) (hfailures : s.gate.failures = []) : AllReady s := by
  obtain ⟨hnolost, hrefused⟩ := Nat.add_eq_zero_iff.mp (h.lost.symm.trans hlost)
  have hnofail := h.failed.symm
  rw [hfailures, List.length_nil] at hnofail
  have hall : s.workers.countP (fun w ↦ w.ticket = some .ready) = s.workers.length := by
    have hset := h.settled
    rw [countP_isSome_ticket, hnolost, hnofail, hrefused] at hset
    exact Nat.le_antisymm List.countP_le_length (by omega)
  refine ⟨hspawned, hrefused, fun w hw ↦ ?_⟩
  exact of_decide_eq_true (List.countP_eq_length.mp hall w hw)

theorem Sees.abort {st : GateState ι} {w : Worker T ι} (h : Sees st.phase w) :
    Sees st.abort.phase w := by
  by_cases hw : st.phase = .waiting
  · refine ⟨fun t ht ↦ ?_, fun hn ↦ ?_⟩
    · exact nomatch hw.symm.trans (h.1 t ht)
    · exact nomatch hw.symm.trans (h.2 hn)
  · rwa [GateState.abort_phase_of_ne hw]

theorem phase_of_abort_released {st : GateState ι} {t : ι} (h : st.abort.phase = .released t) :
    st.phase = .released t := by
  by_cases hw : st.phase = .waiting
  · rw [GateState.abort_phase_of_waiting hw] at h
    exact nomatch h
  · rwa [GateState.abort_phase_of_ne hw] at h

theorem abort_phase_of_released {st : GateState ι} {t : ι} (h : st.phase = .released t) :
    st.abort.phase = .released t := by
  rw [GateState.abort_phase_of_ne (by rw [h]; exact nofun), h]

/-- The coordinator moved on, at most aborting the gate: nobody was spawned, and `start_with`
returned no values. -/
structure CoordinatorMoved (s s' : WorkerPool T ι) : Prop where
  workers : s'.workers = s.workers
  planned : s'.planned = s.planned
  refused : s'.refused = s.refused
  started : s.started = true → s'.started = true
  phase : s'.gate.phase = s.gate.phase ∨ s'.gate.phase = s.gate.abort.phase
  results : ∀ values t, .ok (values, t) ∈ s'.results → .ok (values, t) ∈ s.results

theorem AllReady.coordinatorMoved {s s' : WorkerPool T ι} (h : AllReady s)
    (hm : CoordinatorMoved s s') : AllReady s' :=
  ⟨by rw [hm.workers, hm.planned, h.spawned], by rw [hm.refused, h.refused], hm.workers ▸ h.ready⟩

theorem CoordinatorMoved.released {s s' : WorkerPool T ι} (hm : CoordinatorMoved s s') {t : ι} :
    s'.gate.phase = .released t ↔ s.gate.phase = .released t := by
  rcases hm.phase with hp | hp
  · rw [hp]
  · rw [hp]
    exact ⟨phase_of_abort_released, abort_phase_of_released⟩

theorem Once.coordinatorMoved {s s' : WorkerPool T ι} (h : Once s) (hm : CoordinatorMoved s s')
    (hposition : Position s') : Once s' where
  sees := by
    rw [hm.workers]
    intro w hw
    rcases hm.phase with hp | hp
    · exact hp ▸ h.sees w hw
    · exact hp ▸ (h.sees w hw).abort
  released t ht := by
    obtain ⟨hstarted, hall⟩ := h.released t (hm.released.mp ht)
    exact ⟨hm.started hstarted, hall.coordinatorMoved hm⟩
  results values t ht := by
    rw [hm.workers, hm.released]
    exact h.results values t (hm.results values t ht)
  position := hposition

theorem coordinatorMoved_abortStep (s : WorkerPool T ι) (next : AfterAbort) :
    CoordinatorMoved s (s.abortStep next) where
  workers := abortStep_workers s next
  planned := abortStep_planned s next
  refused := abortStep_refused s next
  started := fun h ↦ (abortStep_started s next).trans h
  phase := .inr (congrArg GateState.phase (abortStep_gate s next))
  results := fun _ _ h ↦ abortStep_results s next ▸ h

theorem position_abortStep {s : WorkerPool T ι} {next : AfterAbort}
    (hc : s.coordinator = .aborting next) (h : Position s) : Position (s.abortStep next) := by
  rw [Position, hc] at h
  cases next with
  | spawnFails e => exact h
  | startFails e => exact h
  | drop => exact trivial

theorem mem_results_error {results : List (Except String (List T × ι))} {error : String}
    {values : List T} {t : ι} (h : .ok (values, t) ∈ results ++ [.error error]) :
    .ok (values, t) ∈ results := by
  rcases List.mem_append.mp h with h | h
  · exact h
  · exact nomatch List.mem_singleton.mp h

/-- The next thread is collected. -/
theorem Collected.next {s : WorkerPool T ι} {k i : ℕ} {todo : List ℕ} {thread : Thread T}
    (htodo : i :: todo = (List.range s.workers.length).drop k)
    (hi : (s.workers[i]?).map Worker.thread = some thread) :
    todo = (List.range s.workers.length).drop (k + 1) ∧
      (s.workers.map Worker.thread).take (k + 1) =
        (s.workers.map Worker.thread).take k ++ [thread] := by
  have hk : k < (List.range s.workers.length).length := by
    by_contra hge
    rw [List.drop_eq_nil_of_le (not_lt.mp hge)] at htodo
    exact List.cons_ne_nil _ _ htodo
  rw [List.drop_eq_getElem_cons hk, List.getElem_range] at htodo
  obtain ⟨rfl, rfl⟩ := List.cons.inj htodo
  refine ⟨rfl, ?_⟩
  rw [List.take_add_one, List.getElem?_map, hi]
  rfl

/-- A pool that is not used again stays in order. -/
theorem Once.moves {s s' : WorkerPool T ι} (hmove : Moves s s') (hcount : Counters s)
    (hreused : s'.reused = false) (h : Once s) : Once s' := by
  have hpos := h.position
  have hnotReleased : s.started = false → ∀ t, s.gate.phase ≠ .released t := fun hs t ht ↦
    absurd (h.released t ht).1 (by rw [hs]; exact Bool.false_ne_true)
  cases hmove with
  | spawn hc =>
      obtain ⟨-, hstarted⟩ := Bool.or_eq_false_iff.mp hreused
      rw [Position, hc] at hpos
      refine ⟨?_, fun t ht ↦ absurd ht (hnotReleased hstarted t), ?_, ?_⟩
      · intro w hw
        rcases List.mem_append.mp hw with hw | hw
        · exact h.sees w hw
        · rw [List.mem_singleton.mp hw]
          exact .new _
      · exact fun values t ht ↦ absurd (h.results values t ht).1 (hnotReleased hstarted t)
      · simp only [Position, WorkerPool.use, hc, List.length_append, List.length_singleton,
          List.range_succ, hpos hstarted, implies_true]
  | refuse error hc =>
      obtain ⟨-, hstarted⟩ := Bool.or_eq_false_iff.mp hreused
      rw [Position, hc] at hpos
      refine ⟨h.sees, fun t ht ↦ absurd ht (hnotReleased hstarted t), ?_, hpos⟩
      exact fun values t ht ↦ absurd (h.results values t ht).1 (hnotReleased hstarted t)
  | abort hc =>
      rw [Position, hc] at hpos
      refine h.coordinatorMoved ⟨rfl, rfl, rfl, id, .inr rfl, fun _ _ ↦ id⟩ ?_
      rw [Position]
      exact hc ▸ hpos
  | startMismatch error hc =>
      exact h.coordinatorMoved ⟨rfl, rfl, rfl, fun _ ↦ rfl, .inl rfl, fun _ _ ↦ id⟩ rfl
  | startWait hc hn =>
      obtain ⟨-, hstarted⟩ := Bool.or_eq_false_iff.mp hreused
      rw [Position, hc] at hpos
      have hlen : s.handles.length = s.workers.length := by
        rw [hpos hstarted, List.length_range]
      exact h.coordinatorMoved ⟨rfl, rfl, rfl, fun _ ↦ rfl, .inl rfl, fun _ _ ↦ id⟩
        ⟨rfl, hpos hstarted, hnotReleased hstarted, hlen, hlen.symm.trans hn⟩
  | dropPool hc =>
      exact h.coordinatorMoved ⟨rfl, rfl, rfl, id, .inl rfl, fun _ _ ↦ id⟩ trivial
  | abortGate next hc =>
      exact h.coordinatorMoved (coordinatorMoved_abortStep s next) (position_abortStep hc hpos)
  | ready expected hc hsettled hlost hfailures hphase =>
      rw [Position, hc] at hpos
      obtain ⟨hstarted, hhandles, hnot, rfl, hspawned⟩ := hpos
      refine h.coordinatorMoved ⟨rfl, rfl, rfl, id, .inl rfl, fun _ _ ↦ id⟩
        ⟨hstarted, hhandles, ?_, ?_⟩
      · cases hp : s.gate.phase with
        | waiting => rfl
        | released t => exact absurd hp (hnot t)
        | aborted => exact absurd hp hphase
      · exact (hcount.allReady hspawned hsettled hlost hfailures).coordinatorMoved
          ⟨rfl, rfl, rfl, id, .inl rfl, fun _ _ ↦ id⟩
  | notReady expected error hc =>
      rw [Position, hc] at hpos
      obtain ⟨hstarted, -, hnot, -⟩ := hpos
      refine ⟨fun w hw ↦ ⟨fun t ht ↦ ?_, fun _ ↦ rfl⟩, ?_, ?_, hstarted⟩
      · exact absurd ((h.sees w hw).1 t ht) (hnot t)
      · rintro t ⟨⟩
      · exact fun values t ht ↦ absurd (h.results values t ht).1 (hnot t)
  | stamp expected t hc =>
      rw [Position, hc] at hpos
      obtain ⟨hstarted, hhandles, hphase, hall⟩ := hpos
      exact h.coordinatorMoved ⟨rfl, rfl, rfl, id, .inl rfl, fun _ _ ↦ id⟩ ⟨hstarted,
        hhandles, hphase,
        hall.coordinatorMoved ⟨rfl, rfl, rfl, id, .inl rfl, fun _ _ ↦ id⟩⟩
  | stampPanics expected hc =>
      exact h.coordinatorMoved ⟨rfl, rfl, rfl, id, .inl rfl, fun _ _ ↦ id⟩ trivial
  | release expected t hc =>
      rw [Position, hc] at hpos
      obtain ⟨hstarted, hhandles, hphase, hall⟩ := hpos
      have hreleased := GateState.release_phase_of_waiting t hphase
      refine ⟨fun w hw ↦ ?_, fun t' ht ↦ ⟨hstarted, hall.spawned, hall.refused, hall.ready⟩, ?_, ?_⟩
      · refine ⟨fun t' ht ↦ ?_, fun hn ↦ ?_⟩
        · cases hphase.symm.trans ((h.sees w hw).1 t' ht)
        · cases hphase.symm.trans ((h.sees w hw).2 hn)
      · intro values t' ht
        cases hphase.symm.trans (h.results values t' ht).1
      · exact ⟨hstarted, hreleased, 0, hhandles, .nil⟩
  | joinValue expected t i todo values panicked v hc hi =>
      rw [Position, hc] at hpos
      obtain ⟨hstarted, hphase, k, htodo, hcollected⟩ := hpos
      obtain ⟨htodo', htake⟩ := Collected.next htodo hi
      refine h.coordinatorMoved ⟨rfl, rfl, rfl, id, .inl rfl, fun _ _ ↦ id⟩
        ⟨hstarted, hphase, k + 1, htodo', ?_⟩
      rw [htake]
      exact hcollected.returned v
  | joinPanic expected t i todo values panicked hc hi =>
      rw [Position, hc] at hpos
      obtain ⟨hstarted, hphase, k, htodo, hcollected⟩ := hpos
      obtain ⟨htodo', htake⟩ := Collected.next htodo hi
      refine h.coordinatorMoved ⟨rfl, rfl, rfl, id, .inl rfl, fun _ _ ↦ id⟩
        ⟨hstarted, hphase, k + 1, htodo', ?_⟩
      rw [htake]
      exact hcollected.panic
  | startOk expected t values hc =>
      rw [Position, hc] at hpos
      obtain ⟨hstarted, hphase, k, htodo, hcollected⟩ := hpos
      have hk : (s.workers.map Worker.thread).length ≤ k := by
        rw [List.length_map]
        simpa using List.drop_eq_nil_iff.mp htodo.symm
      rw [List.take_of_length_le hk] at hcollected
      refine ⟨h.sees, fun t' ht ↦ ?_, fun values' t' ht ↦ ?_, fun hs ↦ ?_⟩
      · obtain ⟨-, hall⟩ := h.released t' ht
        exact ⟨hstarted, hall.spawned, hall.refused, hall.ready⟩
      · rcases List.mem_append.mp ht with ht | ht
        · exact h.results values' t' ht
        · cases List.mem_singleton.mp ht
          exact ⟨hphase, hcollected.threads_eq⟩
      · exact absurd (hstarted.symm.trans hs) (by decide)
  | startPanicked expected t values panicked error hc hp =>
      rw [Position, hc] at hpos
      exact h.coordinatorMoved ⟨rfl, rfl, rfl, id, .inl rfl, fun _ _ ↦ mem_results_error⟩
        fun hs ↦ absurd (hpos.1.symm.trans hs) (by decide)
  | drain i todo error hc =>
      refine h.coordinatorMoved ⟨rfl, rfl, rfl, id, .inl rfl, fun _ _ ↦ id⟩ ?_
      rw [Position, hc] at hpos
      cases error with
      | none => exact trivial
      | some e => exact hpos
  | startDrained error hc =>
      rw [Position, hc] at hpos
      exact h.coordinatorMoved ⟨rfl, rfl, rfl, id, .inl rfl, fun _ _ ↦ mem_results_error⟩
        fun hs ↦ absurd ((show s.started = true from hpos).symm.trans hs) (by decide)
  | dropDrained hc =>
      exact h.coordinatorMoved ⟨rfl, rfl, rfl, id, .inl rfl, fun _ _ ↦ id⟩ trivial
  | settle i w outcome hi hw => exact h.workersMoved (workersMoved_settle hi hw)
  | worker i w w' hi hw => exact h.workersMoved (workersMoved_worker hi hw)

/-! ## Safety -/

theorem Moves.planned_eq {s s' : WorkerPool T ι} (hmove : Moves s s') : s'.planned = s.planned := by
  cases hmove with
  | abortGate next => exact abortStep_planned s next
  | _ => rfl

/-- A pool that was used again stays marked so. -/
theorem Moves.not_reused {s s' : WorkerPool T ι} (hmove : Moves s s') (h : s'.reused = false) :
    s.reused = false := by
  cases hmove with
  | spawn => exact (Bool.or_eq_false_iff.mp h).1
  | refuse => exact (Bool.or_eq_false_iff.mp h).1
  | startMismatch => exact (Bool.or_eq_false_iff.mp h).1
  | startWait => exact (Bool.or_eq_false_iff.mp h).1
  | abortGate next => exact (abortStep_reused s next).symm.trans h
  | _ => exact h

/-- What holds in every run, and what holds as long as the pool is started once. -/
structure PoolInv (planned : ℕ) (s : WorkerPool T ι) : Prop where
  planned : s.planned = planned
  counters : Counters s
  workers : ∀ w ∈ s.workers, WorkerOk w
  once : s.reused = false → Once s

theorem PoolInv.new (label : String) (planned : ℕ) :
    PoolInv planned (WorkerPool.new label planned : WorkerPool T ι) :=
  ⟨rfl, ⟨rfl, rfl, rfl, rfl⟩, fun _ hw ↦ absurd hw List.not_mem_nil, fun _ ↦ .new label planned⟩

theorem PoolInv.moves {planned : ℕ} {s s' : WorkerPool T ι} (hmove : Moves s s')
    (h : PoolInv planned s) : PoolInv planned s' where
  planned := hmove.planned_eq.trans h.planned
  counters := h.counters.moves hmove
  workers := workersOk_moves hmove h.workers
  once hreused := (h.once (hmove.not_reused hreused)).moves hmove h.counters hreused

/-- A phase other than `waiting` is final. -/
theorem Once.phase_final {s s' : WorkerPool T ι} (hmove : Moves s s') (h : Once s)
    (hphase : s.gate.phase ≠ .waiting) : s'.gate.phase = s.gate.phase := by
  have hpos := h.position
  cases hmove with
  | refuse => exact GateState.settle_phase _ _
  | abort => exact GateState.abort_phase_of_ne hphase
  | abortGate next =>
      rw [abortStep_gate]
      exact GateState.abort_phase_of_ne hphase
  | notReady expected error hc =>
      -- `wait_ready` aborts whatever the phase is; the gate was not released before it
      rw [Position, hc] at hpos
      cases hp : s.gate.phase with
      | waiting => exact absurd hp hphase
      | released t => exact absurd hp (hpos.2.2.1 t)
      | aborted => rfl
  | release expected t hc =>
      rw [Position, hc] at hpos
      exact absurd hpos.2.2.1 hphase
  | settle => exact GateState.settle_phase _ _
  | _ => rfl

/-- Everybody whose thread returned after a release had been let through. -/
theorem Once.waited_of_returned {planned : ℕ} {s : WorkerPool T ι} (hinv : PoolInv planned s)
    (h : Once s) {t : ι} (hphase : s.gate.phase = .released t) {w : Worker T ι}
    (hw : w ∈ s.workers) (hthread : w.thread ≠ .running) : w.waited = some (some t) := by
  have hend := (hinv.workers w hw).ended hthread
  have hready := (h.released t hphase).2.ready w hw
  have hsees := h.sees w hw
  rw [Worker.mayEnd, hready] at hend
  obtain ⟨r, hr⟩ := Option.isSome_iff_exists.mp hend
  cases r with
  | none => cases hphase.symm.trans (hsees.2 hr)
  | some t' =>
      cases hphase.symm.trans (hsees.1 t' hr)
      exact hr

section Runs

variable [DecidableEq ι] {label : String} {planned : ℕ} {s : WorkerPool T ι}

theorem poolInv_of_reachable (h : (machine label planned).Reachable s) : PoolInv planned s :=
  h.invariant (.new label planned) fun _ _ _ hstep hinv ↦ hinv.moves (moves_of_step hstep)

theorem phase_final_of_leads {s' : WorkerPool T ι} (hinv : PoolInv planned s)
    (h : (machine label planned).Leads s s') (hphase : s.gate.phase ≠ .waiting)
    (hreused : s'.reused = false) : s'.gate.phase = s.gate.phase := by
  have hrun := h.preserves
    (P := fun x ↦ PoolInv planned x ∧ (x.reused = false → x.gate.phase = s.gate.phase)) ?_
    ⟨hinv, fun _ ↦ rfl⟩
  · exact hrun.2 hreused
  · rintro x a x' hstep ⟨hx, hsame⟩
    have hmove := moves_of_step hstep
    refine ⟨hx.moves hmove, fun hr ↦ ?_⟩
    have hr' := hmove.not_reused hr
    have hfinal := (hx.once hr').phase_final hmove (by rw [hsame hr']; exact hphase)
    rw [hfinal, hsame hr']

/-- Start-gate safety.  In every reachable state the gate's counters tally and
never exceed the tickets; and unless the pool was used again after `start_with`: a worker
was let through only if all planned workers were spawned and settled as ready, and
then at the one instant `start_with` returns; `start_with` returned values only if all
planned workers were let through and returned these values, in spawn order; and
the phase never leaves released or aborted. -/
theorem startGate_safe (h : (machine label planned).Reachable s) :
    (s.gate.settled = s.gate.ready + s.gate.lost + s.gate.failures.length ∧
      s.gate.settled ≤ s.minted) ∧
    (s.reused = false →
      (∀ w ∈ s.workers, ∀ t, w.waited = some (some t) →
        s.workers.length = planned ∧ s.refused = 0 ∧
        (∀ w' ∈ s.workers, w'.ticket = some .ready) ∧
        (∀ w' ∈ s.workers, ∀ t', w'.waited = some (some t') → t' = t) ∧
        ∀ values t', .ok (values, t') ∈ s.results → t' = t) ∧
      ∀ values t, .ok (values, t) ∈ s.results →
        s.workers.length = planned ∧ (∀ w ∈ s.workers, w.waited = some (some t)) ∧
        s.workers.map Worker.thread = values.map .returned) ∧
    ∀ s', (machine label planned).Leads s s' → s'.reused = false →
      (∀ t, s.gate.phase = .released t → s'.gate.phase = .released t) ∧
      (s.gate.phase = .aborted → s'.gate.phase = .aborted) := by
  have hinv := poolInv_of_reachable h
  refine ⟨⟨hinv.counters.settled_eq, hinv.counters.settled_le⟩, fun hreused ↦ ⟨?_, ?_⟩, ?_⟩
  · intro w hw t ht
    have honce := hinv.once hreused
    have hphase := (honce.sees w hw).1 t ht
    obtain ⟨-, hspawned, hrefused, hready⟩ := honce.released t hphase
    refine ⟨hspawned.trans hinv.planned, hrefused, hready, fun w' hw' t' ht' ↦ ?_, ?_⟩
    · cases hphase.symm.trans ((honce.sees w' hw').1 t' ht')
      rfl
    · intro values t' ht'
      cases hphase.symm.trans (honce.results values t' ht').1
      rfl
  · intro values t ht
    have honce := hinv.once hreused
    obtain ⟨hphase, hthreads⟩ := honce.results values t ht
    obtain ⟨-, hall⟩ := honce.released t hphase
    refine ⟨hall.spawned.trans hinv.planned, fun w hw ↦ ?_, hthreads⟩
    refine honce.waited_of_returned hinv hphase hw ?_
    have hmem : w.thread ∈ values.map .returned := hthreads ▸ List.mem_map_of_mem hw
    obtain ⟨v, -, hv⟩ := List.mem_map.mp hmem
    rw [← hv]
    exact nofun
  · intro s' hleads hreused
    constructor
    · intro t ht
      rw [phase_final_of_leads hinv hleads (by rw [ht]; exact nofun) hreused, ht]
    · intro ht
      rw [phase_final_of_leads hinv hleads (by rw [ht]; exact nofun) hreused, ht]

end Runs

/-- Two workers: the second arrives while the coordinator waits, and the first
returns only after the second. -/
def measuredRun : List (Action String ℕ) :=
  [.spawn, .spawn, .worker 0 .arrive, .startWith, .worker 1 .arrive, .waitReady, .stamp 7,
    .release, .worker 1 .wake, .worker 1 (.finish "b"), .worker 0 .wake, .worker 0 (.finish "a"),
    .join, .join, .join]

theorem startGate_safe_measuredRun :
    ∃ s : WorkerPool String ℕ, (machine "search" 2).Reachable s ∧
      s.gate.settled ≤ s.minted ∧ Except.ok (["a", "b"], 7) ∈ s.results ∧
      s.workers.length = 2 ∧ ∀ w ∈ s.workers, w.waited = some (some 7) := by
  have hrun : (machine "search" 2).runFrom (machine "search" 2).init measuredRun = some _ := rfl
  have hsafe := startGate_safe ⟨measuredRun, hrun⟩
  have hresult := (hsafe.2.1 rfl).2 ["a", "b"] 7 (by simp)
  exact ⟨_, ⟨measuredRun, hrun⟩, hsafe.1.2, by simp, hresult.1, hresult.2.1⟩

end VectorDbBenchmark.StartGate
