import VectorDbBenchmark.F64
import VectorDbBenchmark.Kit.Machine
import VectorDbBenchmark.QueryMetrics

/-!
# The mixed workload of the Redis engine

`search_mixed` of `engine/redis.rs` as a machine: each worker alternates blocks of searches
and of updates, and takes query indices and update positions from two shared counters.
Every access to a counter is one action, and so is every reply of the server, whose outcome
the action carries; any order of the workers' actions is a run.  An index out of bounds
panics and stops the worker.

A run goes no further than its actions allow: every action uses up part of
what is left of the queries and of the blocks the workers are in.
-/

namespace VectorDbBenchmark.Mixed

open Kit Quality

/-- Updates and searches of one block; a ratio without searches is refused. -/
structure UpdateSearchRatio where
  updates : ℕ
  searches : ℕ
  searches_pos : 0 < searches

/-- What a mixed search is called with, once queries and corpus are read. -/
structure MixedSpec where
  queryCount : ℕ
  neighbors : List (List ℤ)
  explicitTop : Option ℕ
  numQueries : ℤ
  ratio : UpdateSearchRatio
  /-- The rows of the corpus. -/
  rows : ℕ
  /-- The rows as the seeded shuffle leaves them. -/
  updateSeq : List ℕ
  shuffled : updateSeq.Perm (List.range rows)
  parallel : ℕ
  discount : ℕ → ℚ

def MixedSpec.numToRun (spec : MixedSpec) : ℕ :=
  if 0 < spec.numQueries then min spec.numQueries.toNat spec.queryCount else spec.queryCount

/-! ## A worker -/

structure UpdateTally where
  /-- The writes that replaced a row. -/
  times : List ℚ := []
  unattributed : ℕ := 0
  failed : ℕ := 0

def UpdateTally.merge (a b : UpdateTally) : UpdateTally where
  times := a.times ++ b.times
  unattributed := a.unattributed + b.unattributed
  failed := a.failed + b.failed

/-- Writes that were dispatched. -/
def UpdateTally.attempted (ut : UpdateTally) : ℕ := ut.times.length + ut.unattributed + ut.failed

/-- The buffers of a worker; times are seconds. -/
structure Samples where
  t : List ℚ := []
  p : List ℚ := []
  r : List ℚ := []
  mr : List ℚ := []
  nd : List ℚ := []
  ut : UpdateTally := {}

/-- Where a worker is; `j` counts what it has done of its block. -/
inductive Pc where
  | connecting
  | refused
  /-- At the head of the search loop. -/
  | block (j : ℕ)
  | searching (j idx : ℕ)
  /-- At the head of the update loop. -/
  | updating (j : ℕ)
  | writing (j uidx dataIdx : ℕ)
  | returned
  | panicked
deriving DecidableEq, Repr

/-- A worker.  The last four fields are history: the query indices and update positions it
took from the counters, the queries it sent, and the positions it wrote with their row. -/
structure Worker where
  pc : Pc
  samples : Samples
  claims : List ℕ
  positions : List ℕ
  searched : List ℕ
  updated : List (ℕ × ℕ)

def Worker.new : Worker := ⟨.connecting, {}, [], [], [], []⟩

/-- What the workers share. -/
structure Shared where
  searchIdx : ℕ
  updateIdx : ℕ

/-- What a worker does next; an outcome that is not the code's own is part of it. -/
inductive Move where
  | connect (result : Except String Unit)
  | claim
  | reply (result : Except String (List (ℤ × F64))) (queryTime : ℚ)
  | claimUpdate
  /-- Whether every field that was written was new. -/
  | write (outcome : Except String Bool) (updateTime : ℚ)

namespace Worker

/-- Take the next query index. -/
def claim (spec : MixedSpec) (j : ℕ) (sh : Shared) (w : Worker) : Worker × Shared :=
  let idx := sh.searchIdx
  let pc : Pc :=
    if spec.numToRun ≤ idx then .returned
    -- The ground truth gives the size of the answer, when it is not given.
    else if spec.explicitTop.isNone ∧ spec.neighbors.length ≤ idx then .panicked
    else .searching j idx
  ({ w with pc, claims := w.claims ++ [idx] }, { sh with searchIdx := idx + 1 })

/-- Where a worker goes on after search `j` of a block. -/
def afterSearch (ratio : UpdateSearchRatio) (j : ℕ) : Pc :=
  if j + 1 < ratio.searches then .block (j + 1)
  else if 0 < ratio.updates then .updating 0
  else .block 0

/-- The reply to a query. -/
def reply (spec : MixedSpec) (j idx : ℕ) (result : Except String (List (ℤ × F64)))
    (queryTime : ℚ) (w : Worker) : Worker :=
  let w := { w with searched := w.searched ++ [idx] }
  match result with
  | .ok resultIds =>
    match spec.neighbors[idx]? with
    | none => { w with pc := .panicked }
    | some truth =>
      let top := spec.explicitTop.getD (if 0 < truth.length then truth.length else 10)
      let m := computeMetrics spec.discount (resultIds.map Prod.fst) truth top
      { w with
        pc := afterSearch spec.ratio j
        samples :=
          { w.samples with
            t := w.samples.t ++ [queryTime]
            p := w.samples.p ++ [m.precision]
            r := w.samples.r ++ [m.recallAtK]
            mr := w.samples.mr ++ [m.mrr]
            nd := w.samples.nd ++ [m.ndcg] } }
  | .error _ => { w with pc := afterSearch spec.ratio j }

/-- Take the next update position; the remainder by an empty sequence panics. -/
def claimUpdate (spec : MixedSpec) (j : ℕ) (sh : Shared) (w : Worker) : Worker × Shared :=
  let uidx := sh.updateIdx
  let pc : Pc :=
    match spec.updateSeq[uidx % spec.updateSeq.length]? with
    | none => .panicked
    | some dataIdx => .writing j uidx dataIdx
  ({ w with pc, positions := w.positions ++ [uidx] }, { sh with updateIdx := uidx + 1 })

/-- The outcome of one write. -/
def tally (outcome : Except String Bool) (updateTime : ℚ) (ut : UpdateTally) : UpdateTally :=
  match outcome with
  | .ok false => { ut with times := ut.times ++ [updateTime] }
  | .ok true => { ut with unattributed := ut.unattributed + 1 }
  | .error _ => { ut with failed := ut.failed + 1 }

def write (spec : MixedSpec) (j uidx dataIdx : ℕ) (outcome : Except String Bool)
    (updateTime : ℚ) (w : Worker) : Worker :=
  { w with
    pc := if j + 1 < spec.ratio.updates then .updating (j + 1) else .block 0
    samples := { w.samples with ut := tally outcome updateTime w.samples.ut }
    updated := w.updated ++ [(uidx, dataIdx)] }

/-- One action of a worker; `none` when the action is not its next one. -/
def act (spec : MixedSpec) (sh : Shared) (w : Worker) (a : Move) : Option (Worker × Shared) :=
  match w.pc, a with
  | .connecting, .connect (.ok ()) => some ({ w with pc := .block 0 }, sh)
  | .connecting, .connect (.error _) => some ({ w with pc := .refused }, sh)
  | .block j, .claim => some (w.claim spec j sh)
  | .searching j idx, .reply result queryTime => some (w.reply spec j idx result queryTime, sh)
  | .updating j, .claimUpdate => some (w.claimUpdate spec j sh)
  | .writing j uidx dataIdx, .write outcome updateTime =>
    some (w.write spec j uidx dataIdx outcome updateTime, sh)
  | _, _ => none

end Worker

/-! ## The run -/

/-- The workers and what they share. -/
abbrev Run := Crew Shared Worker

namespace Run

def init (spec : MixedSpec) : Run := ⟨⟨0, 0⟩, List.replicate spec.parallel .new⟩

def machine (spec : MixedSpec) : Machine Run (ℕ × Move) :=
  ⟨init spec, Crew.step (Worker.act spec)⟩

/-- Every worker returned, from its loop or because it could not connect. -/
def Finished (s : Run) : Prop := ∀ w ∈ s.workers, w.pc = .returned ∨ w.pc = .refused

/-- At least one worker connected. -/
def Connected (s : Run) : Prop := ∃ w ∈ s.workers, w.pc ≠ .connecting ∧ w.pc ≠ .refused

/-- What the main thread merges from the workers. -/
def tally (s : Run) : UpdateTally := s.workers.foldl (fun ut w ↦ ut.merge w.samples.ut) {}

/-- The queries that were sent. -/
def searched (s : Run) : List ℕ := s.workers.flatMap (·.searched)

/-- The update positions that were claimed. -/
def positions (s : Run) : List ℕ := s.workers.flatMap (·.positions)

/-- The positions that were written, each with its row. -/
def updated (s : Run) : List (ℕ × ℕ) := s.workers.flatMap (·.updated)

end Run

/-! ## What a worker can do -/

variable {spec : MixedSpec}

/-- A worker acts, and the shared state follows. -/
inductive Does (spec : MixedSpec) (sh : Shared) : Worker → Worker → Shared → Prop
  | connect (w : Worker) (hpc : w.pc = .connecting) : Does spec sh w { w with pc := .block 0 } sh
  | refuse (w : Worker) (hpc : w.pc = .connecting) : Does spec sh w { w with pc := .refused } sh
  | claim (w : Worker) (j : ℕ) (hpc : w.pc = .block j) :
      Does spec sh w (w.claim spec j sh).1 (w.claim spec j sh).2
  | reply (w : Worker) (j idx : ℕ) (hpc : w.pc = .searching j idx)
      (result : Except String (List (ℤ × F64))) (queryTime : ℚ) :
      Does spec sh w (w.reply spec j idx result queryTime) sh
  | claimUpdate (w : Worker) (j : ℕ) (hpc : w.pc = .updating j) :
      Does spec sh w (w.claimUpdate spec j sh).1 (w.claimUpdate spec j sh).2
  | write (w : Worker) (j uidx dataIdx : ℕ) (hpc : w.pc = .writing j uidx dataIdx)
      (outcome : Except String Bool) (updateTime : ℚ) :
      Does spec sh w (w.write spec j uidx dataIdx outcome updateTime) sh

theorem does_of_act {sh sh' : Shared} {w w' : Worker} {a : Move}
    (h : w.act spec sh a = some (w', sh')) : Does spec sh w w' sh' := by
  revert h
  fun_cases Worker.act spec sh w a
  all_goals intro h
  case case1 hpc =>
      cases h
      exact .connect w hpc
  case case2 e hpc =>
      cases h
      exact .refuse w hpc
  case case3 j hpc =>
      have hdoes : Does spec sh w _ _ := .claim w j hpc
      rw [Option.some.inj h] at hdoes
      exact hdoes
  case case4 j idx result queryTime hpc =>
      cases h
      exact .reply w j idx hpc result queryTime
  case case5 j hpc =>
      have hdoes : Does spec sh w _ _ := .claimUpdate w j hpc
      rw [Option.some.inj h] at hdoes
      exact hdoes
  case case6 j uidx dataIdx outcome updateTime hpc =>
      cases h
      exact .write w j uidx dataIdx hpc outcome updateTime
  case case7 => cases h

theorem step_cases {s s' : Run} {a : ℕ × Move} (h : (Run.machine spec).step s a = some s') :
    ∃ i w w' sh', s.workers[i]? = some w ∧ Does spec s.shared w w' sh' ∧
      s' = ⟨sh', s.workers.set i w'⟩ := by
  obtain ⟨w, w', sh', hw, hact, rfl⟩ := Crew.step_cases h
  exact ⟨a.1, w, w', sh', hw, does_of_act hact, rfl⟩

/-! ## How far a run can go -/

/-- The thread of a worker is over. -/
def Pc.ended : Pc → Bool
  | .refused | .returned | .panicked => true
  | _ => false

/-- What a worker may still do before it comes back for a query. -/
def Pc.left (updates : ℕ) : Pc → ℕ
  | .connecting => 2
  | .block _ => 1
  | .searching _ _ => 2 * updates + 4
  | .updating j => 2 * (updates - j) + 3
  | .writing j _ _ => 2 * (updates - j) + 2
  | .refused | .returned | .panicked => 0

/-- What is left of a run. -/
def Run.left (spec : MixedSpec) (s : Run) : ℕ :=
  (spec.numToRun - s.shared.searchIdx) * (2 * spec.ratio.updates + 4) +
    (s.workers.map fun w ↦ w.pc.left spec.ratio.updates).sum

theorem afterSearch_left (ratio : UpdateSearchRatio) (j : ℕ) :
    (Worker.afterSearch ratio j).left ratio.updates < 2 * ratio.updates + 4 := by
  rw [Worker.afterSearch]
  split_ifs <;> simp only [Pc.left] <;> omega

theorem reply_left (w : Worker) (j idx : ℕ) (result : Except String (List (ℤ × F64)))
    (queryTime : ℚ) :
    (w.reply spec j idx result queryTime).pc.left spec.ratio.updates <
      2 * spec.ratio.updates + 4 := by
  fun_cases Worker.reply spec j idx result queryTime w
  · exact Nat.succ_pos _
  · exact afterSearch_left _ _
  · exact afterSearch_left _ _

theorem claim_left (w : Worker) (j : ℕ) (sh : Shared) :
    (spec.numToRun - (sh.searchIdx + 1)) * (2 * spec.ratio.updates + 4) +
        (w.claim spec j sh).1.pc.left spec.ratio.updates ≤
      (spec.numToRun - sh.searchIdx) * (2 * spec.ratio.updates + 4) := by
  rw [Worker.claim]
  by_cases hover : spec.numToRun ≤ sh.searchIdx
  · rw [if_pos hover, Pc.left, Nat.add_zero]
    exact Nat.mul_le_mul_right _ (Nat.sub_le_sub_left (Nat.le_succ _) _)
  · have hrest : spec.numToRun - sh.searchIdx = spec.numToRun - (sh.searchIdx + 1) + 1 := by
      omega
    rw [if_neg hover, hrest, Nat.add_one_mul (spec.numToRun - (sh.searchIdx + 1))]
    apply Nat.add_le_add_left
    split_ifs
    · exact Nat.zero_le _
    · exact le_rfl

theorem claimUpdate_left (w : Worker) (j : ℕ) (sh : Shared) :
    (w.claimUpdate spec j sh).1.pc.left spec.ratio.updates <
      (Pc.updating j).left spec.ratio.updates := by
  rw [Worker.claimUpdate]
  dsimp only
  split
  · exact Nat.succ_pos _
  · exact Nat.lt_succ_self _

theorem write_left (w : Worker) (j uidx dataIdx : ℕ) (outcome : Except String Bool)
    (updateTime : ℚ) :
    (w.write spec j uidx dataIdx outcome updateTime).pc.left spec.ratio.updates <
      (Pc.writing j uidx dataIdx).left spec.ratio.updates := by
  rw [Worker.write]
  split_ifs <;> simp only [Pc.left] <;> omega

/-- An action uses up part of what is left, of the queries or for the worker. -/
theorem left_of_does {sh sh' : Shared} {w w' : Worker} (h : Does spec sh w w' sh') :
    (spec.numToRun - sh'.searchIdx) * (2 * spec.ratio.updates + 4) +
        w'.pc.left spec.ratio.updates <
      (spec.numToRun - sh.searchIdx) * (2 * spec.ratio.updates + 4) +
        w.pc.left spec.ratio.updates := by
  cases h with
  | connect hpc =>
      rw [hpc]
      exact Nat.add_lt_add_left Nat.one_lt_two _
  | refuse hpc =>
      rw [hpc]
      exact Nat.add_lt_add_left Nat.two_pos _
  | claim j hpc =>
      rw [hpc]
      exact Nat.lt_succ_of_le (claim_left w j sh)
  | reply j idx hpc result queryTime =>
      rw [hpc]
      exact Nat.add_lt_add_left (reply_left w j idx result queryTime) _
  | claimUpdate j hpc =>
      rw [hpc]
      exact Nat.add_lt_add_left (claimUpdate_left w j sh) _
  | write j uidx dataIdx hpc outcome updateTime =>
      rw [hpc]
      exact Nat.add_lt_add_left (write_left w j uidx dataIdx outcome updateTime) _

theorem left_of_step {s s' : Run} {a : ℕ × Move} (h : (Run.machine spec).step s a = some s') :
    s'.left spec < s.left spec := by
  obtain ⟨i, w, w', sh', hi, hdoes, rfl⟩ := step_cases h
  have hset := sum_map_set (fun w : Worker ↦ w.pc.left spec.ratio.updates) hi w'
  have hleft := left_of_does hdoes
  simp only [Run.left] at hset hleft ⊢
  omega

/-- A run stops after so many actions. -/
theorem length_le_left {as : List (ℕ × Move)} {s : Run}
    (h : (Run.machine spec).runFrom (Run.init spec) as = some s) :
    as.length ≤ spec.numToRun * (2 * spec.ratio.updates + 4) + 2 * spec.parallel := by
  have hinit : (Run.init spec).left spec =
      spec.numToRun * (2 * spec.ratio.updates + 4) + 2 * spec.parallel := by
    rw [Run.left, Run.init, List.map_replicate, List.sum_replicate, smul_eq_mul,
      Nat.mul_comm 2 spec.parallel]
    rfl
  rw [← hinit]
  exact (Nat.le_add_right _ _).trans
    (Machine.length_le_of_decreasing (fun _ _ _ ↦ left_of_step) h)

/-- A worker whose thread is not over can act. -/
theorem exists_act {w : Worker} (h : w.pc.ended = false) (sh : Shared) :
    ∃ a, (w.act spec sh a).isSome = true := by
  obtain ⟨pc, samples, claims, positions, searched, updated⟩ := w
  cases pc with
  | connecting => exact ⟨.connect (.ok ()), rfl⟩
  | block j => exact ⟨.claim, rfl⟩
  | searching j idx => exact ⟨.reply (.ok []) 0, rfl⟩
  | updating j => exact ⟨.claimUpdate, rfl⟩
  | writing j uidx dataIdx => exact ⟨.write (.ok false) 0, rfl⟩
  | refused => cases h
  | returned => cases h
  | panicked => cases h

/-- Until every thread is over, some worker can act. -/
theorem exists_step {s : Run} {w : Worker} (hw : w ∈ s.workers) (h : w.pc.ended = false) :
    ∃ a, ((Run.machine spec).step s a).isSome = true := by
  obtain ⟨i, hi⟩ := List.mem_iff_getElem?.mp hw
  obtain ⟨a, ha⟩ := exists_act h s.shared
  refine ⟨(i, a), ?_⟩
  change (Crew.step (Worker.act spec) s (i, a)).isSome = true
  rw [Crew.step, hi, Option.bind_some, Option.isSome_map]
  exact ha

end VectorDbBenchmark.Mixed
