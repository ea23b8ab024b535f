import Mathlib.Data.List.Count
import VectorDbBenchmark.Kit.LastWins
import VectorDbBenchmark.Kit.Machine
import VectorDbBenchmark.Readers.StreamReader

/-!
# The parallel upload

`upload_parallel` of the engines as a machine: threads take the batches of a corpus that is in
memory from a shared counter, and send each of them, again as long as the replies say so.  Every
access to something shared is one action, and so is a connection attempt, a request and a reply;
any order of the threads' actions is a run.  A thread that panics takes no further action, and
nothing is returned then.

The server makes the writes of the requests it was sent, one at a time and in any order: it may
leave some of them out, make them after the reply was lost, after a later request or after the
upload, and make them twice.  A reply that acknowledges a request comes after all its writes.
-/

namespace VectorDbBenchmark.UploadParallel

open Kit
open Readers (F32 MetadataItem)

universe u v w

/-! ## Rows -/

/-- A row of the corpus: the three lists at one position. -/
structure Row where
  id : Int64
  vector : List F32
  metadata : Option MetadataItem
deriving DecidableEq, Repr

/-- `f as f64`. -/
def widen (f : F32) : F64 :=
  let bits : ℕ := f.bits.toNat
  let exponent : ℕ := bits / 2 ^ 23 % 2 ^ 8
  let fraction : ℕ := bits % 2 ^ 23
  let magnitude : ℚ :=
    if exponent = 0 then (fraction : ℚ) / 2 ^ 149
    else (2 ^ 23 + (fraction : ℚ)) * 2 ^ exponent / 2 ^ 150
  if exponent = 255 then
    if fraction ≠ 0 then .nan else if bits < 2 ^ 31 then .posInf else .negInf
  else .fin (if bits < 2 ^ 31 then magnitude else -magnitude)

/-! ## What is uploaded -/

/-- How an engine sends a batch: what it does with a reply, by the number of the batch and of the
attempts before.  It returns `Ok` on an acknowledgement only. -/
structure Sender (ρ : Type u) where
  maxRetries : ℕ
  acks : ρ → Bool
  step : ℕ → ℕ → ρ → ℕ ⊕ Except String Unit
  again : ∀ {idx attempt r attempt'}, step idx attempt r = .inl attempt' →
    attempt < maxRetries ∧ attempt' = attempt + 1
  ok : ∀ {idx attempt r}, step idx attempt r = .inr (.ok ()) → acks r

/-- `(0..n).step_by(batch_size)`, with the end of each batch. -/
def batches (n batchSize : ℕ) : List (ℕ × ℕ) :=
  (List.range' 0 ((n + batchSize - 1) / batchSize) batchSize).map fun start ↦
    (start, min (start + batchSize) n)

/-- The rows of a batch. -/
def batchRows (n batchSize idx : ℕ) : List ℕ :=
  match (batches n batchSize)[idx]? with
  | some (start, stop) => List.range' start (stop - start)
  | none => []

/-- What `upload_parallel` is called with. -/
structure Spec (ρ : Type u) where
  rows : ℕ
  batchSize : ℕ
  /-- How many threads are spawned. -/
  threads : ℕ
  /-- The error slot is looked at before each batch. -/
  checksError : Bool
  sender : Sender ρ

/-! ## The machine -/

/-- Where a thread is. -/
inductive Pc where
  | connecting
  /-- At the head of the loop. -/
  | claiming
  | checking (idx : ℕ)
  | sending (idx attempt : ℕ)
  | waiting (idx attempt : ℕ)
  | failing (e : String)
  | returned
deriving DecidableEq, Repr

/-- What the threads and the server share.  The last two fields are history: the batches of the
requests, in the order in which they were sent, and the rows that the server wrote. -/
structure Shared where
  batchIdx : ℕ
  error : Option String
  sent : List ℕ
  applied : List ℕ
deriving DecidableEq, Repr

/-- What a thread does next; an outcome that is not the code's own is part of it. -/
inductive Move (ρ : Type u) where
  | connect (result : Except String Unit)
  | claim
  | check
  | send
  | reply (r : ρ)
  | fail

inductive Action (ρ : Type u) where
  | thread (i : ℕ) (move : Move ρ)
  /-- The server writes a row. -/
  | write (row : ℕ)

namespace Spec

variable {ρ : Type u} (spec : Spec ρ)

/-- `batches.len()`. -/
def total : ℕ := (batches spec.rows spec.batchSize).length

def batchRows (idx : ℕ) : List ℕ := UploadParallel.batchRows spec.rows spec.batchSize idx

/-- One action of a thread; `none` when the action is not its next one. -/
def act (sh : Shared) : Pc → Move ρ → Option (Pc × Shared)
  | .connecting, .connect (.ok ()) => some (.claiming, sh)
  | .connecting, .connect (.error e) => some (.failing e, sh)
  | .claiming, .claim =>
    let idx := sh.batchIdx
    let sh := { sh with batchIdx := idx + 1 }
    if spec.total ≤ idx then some (.returned, sh)
    else some (if spec.checksError then .checking idx else .sending idx 0, sh)
  | .checking idx, .check =>
    some (if sh.error.isSome then .returned else .sending idx 0, sh)
  | .sending idx attempt, .send => some (.waiting idx attempt, { sh with sent := sh.sent ++ [idx] })
  | .waiting idx attempt, .reply r =>
    if spec.sender.acks r ∧ ¬∀ row ∈ spec.batchRows idx, row ∈ sh.applied then none
    else match spec.sender.step idx attempt r with
      | .inl attempt => some (.sending idx attempt, sh)
      | .inr (.ok ()) => some (.claiming, sh)
      | .inr (.error e) => some (.failing e, sh)
  | .failing e, .fail => some (.returned, { sh with error := some e })
  | _, _ => none

/-- The server writes rows of requests that were sent. -/
def write (sh : Shared) (row : ℕ) : Option Shared :=
  if ∃ idx ∈ sh.sent, row ∈ spec.batchRows idx then
    some { sh with applied := sh.applied ++ [row] }
  else none

def step (s : Crew Shared Pc) : Action ρ → Option (Crew Shared Pc)
  | .thread i move => Crew.step spec.act s (i, move)
  | .write row => (spec.write s.shared row).map fun shared ↦ ⟨shared, s.workers⟩

def start : Crew Shared Pc := ⟨⟨0, none, [], []⟩, List.replicate spec.threads .connecting⟩

def machine : Machine (Crew Shared Pc) (Action ρ) := ⟨spec.start, spec.step⟩

/-- What `upload_parallel` returns from a state in which its threads are over.  Batches of no rows
are a panic. -/
def returns (s : Crew Shared Pc) : Option (Except String Unit) :=
  if spec.batchSize = 0 ∨ ¬∀ pc ∈ s.workers, pc = .returned then none
  else some (match s.shared.error with
    | some e => .error e
    | none => .ok ())

end Spec

/-! ## Batches -/

section Batches

variable {n batchSize row : ℕ}

/-- Every row is in a batch. -/
theorem exists_mem_batchRows (hsize : batchSize ≠ 0) (hrow : row < n) :
    ∃ idx < (batches n batchSize).length, row ∈ batchRows n batchSize idx := by
  have hlt : row / batchSize < (n + batchSize - 1) / batchSize := by
    rw [Nat.div_lt_iff_lt_mul (Nat.pos_of_ne_zero hsize)]
    have hmul := Nat.lt_div_mul_add (a := n + batchSize - 1) (Nat.pos_of_ne_zero hsize)
    omega
  have hget : (batches n batchSize)[row / batchSize]? =
      some (row / batchSize * batchSize, min (row / batchSize * batchSize + batchSize) n) := by
    rw [batches, List.getElem?_map, List.getElem?_range' hlt, Option.map_some, Nat.zero_add,
      Nat.mul_comm]
  refine ⟨row / batchSize, (List.getElem?_eq_some_iff.mp hget).1, ?_⟩
  have hle := Nat.div_mul_le_self row batchSize
  have hmul := Nat.lt_div_mul_add (a := row) (Nat.pos_of_ne_zero hsize)
  rw [batchRows, hget]
  dsimp only
  rw [List.mem_range'_1]
  omega

end Batches

/-! ## One action -/

section Step

variable {ρ : Type u} {spec : Spec ρ} {s s' : Crew Shared Pc} {sh sh' : Shared} {pc pc' : Pc}

/-- What an action of a thread can be. -/
inductive Does (spec : Spec ρ) (sh : Shared) : Pc → Pc → Shared → Prop
  | connected : Does spec sh .connecting .claiming sh
  | refused (e : String) : Does spec sh .connecting (.failing e) sh
  | exhausted (h : spec.total ≤ sh.batchIdx) :
      Does spec sh .claiming .returned { sh with batchIdx := sh.batchIdx + 1 }
  | claimed (pc : Pc) (h : pc = .checking sh.batchIdx ∨ pc = .sending sh.batchIdx 0) :
      Does spec sh .claiming pc { sh with batchIdx := sh.batchIdx + 1 }
  | quit (idx : ℕ) (h : sh.error ≠ none) : Does spec sh (.checking idx) .returned sh
  | checked (idx : ℕ) : Does spec sh (.checking idx) (.sending idx 0) sh
  | sent (idx attempt : ℕ) :
      Does spec sh (.sending idx attempt) (.waiting idx attempt) { sh with sent :=
        sh.sent ++ [idx] }
  | again (idx attempt : ℕ) (h : attempt < spec.sender.maxRetries) :
      Does spec sh (.waiting idx attempt) (.sending idx (attempt + 1)) sh
  | acknowledged (idx attempt : ℕ) (h : ∀ row ∈ spec.batchRows idx, row ∈ sh.applied) :
      Does spec sh (.waiting idx attempt) .claiming sh
  | failed (idx attempt : ℕ) (e : String) : Does spec sh (.waiting idx attempt) (.failing e) sh
  | reported (e : String) : Does spec sh (.failing e) .returned { sh with error := some e }

theorem does_of_reply {idx attempt : ℕ} {r : ρ}
    (h : spec.act sh (.waiting idx attempt) (.reply r) = some (pc', sh')) :
    Does spec sh (.waiting idx attempt) pc' sh' := by
  rw [Spec.act] at h
  split_ifs at h with hacks
  cases hstep : spec.sender.step idx attempt r with
  | inl attempt' =>
      rw [hstep] at h
      cases h
      obtain ⟨hlt, rfl⟩ := spec.sender.again hstep
      exact .again idx attempt hlt
  | inr result =>
      cases result with
      | error e =>
          rw [hstep] at h
          cases h
          exact .failed idx attempt e
      | ok u =>
          rw [hstep] at h
          cases h
          rw [not_and, not_not] at hacks
          exact .acknowledged idx attempt (hacks (spec.sender.ok hstep))

theorem does_of_act {move : Move ρ} (h : spec.act sh pc move = some (pc', sh')) :
    Does spec sh pc pc' sh' := by
  cases pc with
  | connecting =>
      cases move with
      | connect result =>
          cases result with
          | ok u =>
              cases h
              exact .connected
          | error e =>
              cases h
              exact .refused e
      | _ => cases h
  | claiming =>
      cases move with
      | claim =>
          simp only [Spec.act] at h
          split_ifs at h with htotal hchecks
          · cases h
            exact .exhausted htotal
          · cases h
            exact .claimed _ (.inl rfl)
          · cases h
            exact .claimed _ (.inr rfl)
      | _ => cases h
  | checking idx =>
      cases move with
      | check =>
          rw [Spec.act] at h
          split_ifs at h with herror
          · cases h
            exact .quit idx (Option.isSome_iff_ne_none.mp herror)
          · cases h
            exact .checked idx
      | _ => cases h
  | sending idx attempt =>
      cases move with
      | send =>
          cases h
          exact .sent idx attempt
      | _ => cases h
  | waiting idx attempt =>
      cases move with
      | reply r => exact does_of_reply h
      | _ => cases h
  | failing e =>
      cases move with
      | fail =>
          cases h
          exact .reported e
      | _ => cases h
  | returned => cases move <;> cases h

/-- A step is an action of a thread, or a row of a request that the server writes. -/
theorem step_cases {a : Action ρ} (h : spec.step s a = some s') :
    (∃ (i : ℕ) (pc pc' : Pc) (sh' : Shared), s.workers[i]? = some pc ∧
      Does spec s.shared pc pc' sh' ∧ s' = ⟨sh', s.workers.set i pc'⟩) ∨
    ∃ idx row, idx ∈ s.shared.sent ∧ row ∈ spec.batchRows idx ∧
      s' = ⟨{ s.shared with applied := s.shared.applied ++ [row] }, s.workers⟩ := by
  cases a with
  | thread i move =>
      obtain ⟨pc, pc', sh', hi, hact, rfl⟩ := Crew.step_cases h
      exact .inl ⟨i, pc, pc', sh', hi, does_of_act hact, rfl⟩
  | write row =>
      obtain ⟨sh', hwrite, rfl⟩ := Option.map_eq_some_iff.mp h
      rw [Spec.write] at hwrite
      split_ifs at hwrite with hsent
      cases hwrite
      obtain ⟨idx, hidx, hrow⟩ := hsent
      exact .inr ⟨idx, row, hidx, hrow, rfl⟩

end Step

/-! ## Requests -/

/-- How often a thread may still send a batch. -/
def Pc.left (maxRetries idx : ℕ) : Pc → ℕ
  | .checking i => if i = idx then maxRetries + 1 else 0
  | .sending i attempt => if i = idx then maxRetries + 1 - attempt else 0
  | .waiting i attempt => if i = idx then maxRetries - attempt else 0
  | _ => 0

def Pc.Within (maxRetries : ℕ) : Pc → Prop
  | .sending _ attempt | .waiting _ attempt => attempt ≤ maxRetries
  | _ => True

/-- Of every batch that was claimed, the requests that were sent and those that its thread may
still send are no more than one and the retries; of the others there are none. -/
structure Bounded (spec : Spec ρ) (s : Crew Shared Pc) : Prop where
  within : ∀ pc ∈ s.workers, pc.Within spec.sender.maxRetries
  requests : ∀ idx, s.shared.sent.count idx +
      (s.workers.map (Pc.left spec.sender.maxRetries idx)).sum ≤
    if idx < s.shared.batchIdx then spec.sender.maxRetries + 1 else 0

section Requests

variable {spec : Spec ρ} {s s' : Crew Shared Pc} {sh sh' : Shared} {pc pc' : Pc}

theorem Does.within (h : Does spec sh pc pc' sh') (hpc : pc.Within spec.sender.maxRetries) :
    pc'.Within spec.sender.maxRetries := by
  cases h with
  | claimed pc hpc => rcases hpc with rfl | rfl <;> simp [Pc.Within]
  | sent idx attempt => exact hpc
  | again idx attempt hlt => exact hlt
  | checked idx => exact Nat.zero_le _
  | _ => trivial

/-- What is sent is taken from what is left, and what is left comes with the claim. -/
theorem Does.left (h : Does spec sh pc pc' sh') (hpc : pc.Within spec.sender.maxRetries)
    (idx : ℕ) :
    sh'.sent.count idx + pc'.left spec.sender.maxRetries idx +
        (if idx < sh.batchIdx then spec.sender.maxRetries + 1 else 0) ≤
      sh.sent.count idx + pc.left spec.sender.maxRetries idx +
        if idx < sh'.batchIdx then spec.sender.maxRetries + 1 else 0 := by
  cases h with
  | exhausted htotal =>
      simp only [Pc.left]
      split_ifs <;> omega
  | claimed pc hclaimed =>
      rcases hclaimed with rfl | rfl
      · simp only [Pc.left]
        split_ifs <;> omega
      · simp only [Pc.left]
        split_ifs <;> omega
  | sent i attempt =>
      simp only [Pc.Within] at hpc
      simp only [Pc.left, List.count_append, List.count_singleton, beq_iff_eq]
      split_ifs <;> omega
  | again i attempt hlt =>
      simp only [Pc.left]
      split_ifs <;> omega
  | checked i =>
      simp only [Pc.left]
      split_ifs <;> omega
  | _ =>
      simp only [Pc.left]
      omega

theorem Bounded.start : Bounded spec spec.start := by
  refine ⟨fun pc hpc ↦ ?_, fun idx ↦ ?_⟩
  · rw [List.eq_of_mem_replicate hpc]
    trivial
  · simp [Spec.start, Pc.left]

theorem Bounded.step {a : Action ρ} (hstep : spec.step s a = some s') (h : Bounded spec s) :
    Bounded spec s' := by
  rcases step_cases hstep with ⟨i, pc, pc', sh', hi, hdoes, rfl⟩ | ⟨idx, row, -, -, rfl⟩
  · have hpc := h.within pc (List.mem_of_getElem? hi)
    refine ⟨forall_mem_set h.within (hdoes.within hpc), fun idx ↦ ?_⟩
    have hset := sum_map_set (Pc.left spec.sender.maxRetries idx) hi pc'
    have hleft := hdoes.left hpc idx
    have hrequests := h.requests idx
    dsimp only
    omega
  · exact ⟨h.within, h.requests⟩

end Requests

/-! ## Batches that are not lost -/

/-- The thread has the batch, or it is about to report an error. -/
def Pc.Carries (idx : ℕ) : Pc → Prop
  | .checking i | .sending i _ | .waiting i _ => i = idx
  | .failing _ => True
  | _ => False

/-- Every batch that was claimed is written, or with a thread, or there is an error; a thread
that returned left no batch to claim, or there is an error. -/
structure Covered (spec : Spec ρ) (s : Crew Shared Pc) : Prop where
  length : s.workers.length = spec.threads
  claimed : ∀ idx < s.shared.batchIdx, idx < spec.total →
    (∀ row ∈ spec.batchRows idx, row ∈ s.shared.applied) ∨ s.shared.error ≠ none ∨
      ∃ pc ∈ s.workers, pc.Carries idx
  returned : .returned ∈ s.workers → spec.total ≤ s.shared.batchIdx ∨ s.shared.error ≠ none

section Covered

variable {spec : Spec ρ} {s s' : Crew Shared Pc} {sh sh' : Shared} {pc pc' : Pc}

theorem Does.grows (h : Does spec sh pc pc' sh') :
    sh'.applied = sh.applied ∧ sh.batchIdx ≤ sh'.batchIdx ∧
      (sh.error ≠ none → sh'.error ≠ none) := by
  cases h with
  | exhausted _ | claimed _ _ => exact ⟨rfl, Nat.le_succ _, id⟩
  | reported e => exact ⟨rfl, le_rfl, fun _ ↦ Option.some_ne_none e⟩
  | _ => exact ⟨rfl, le_rfl, id⟩

/-- A thread keeps its batch until it is written or there is an error. -/
theorem Does.carries (h : Does spec sh pc pc' sh') {idx : ℕ} (hpc : pc.Carries idx) :
    (∀ row ∈ spec.batchRows idx, row ∈ sh'.applied) ∨ sh'.error ≠ none ∨ pc'.Carries idx := by
  cases h with
  | quit i herror => exact .inr (.inl herror)
  | acknowledged i attempt happlied =>
      cases hpc
      exact .inl happlied
  | failed i attempt e => exact .inr (.inr trivial)
  | reported e => exact .inr (.inl (Option.some_ne_none e))
  | checked _ | sent _ _ | again _ _ _ => exact .inr (.inr hpc)
  | _ => cases hpc

/-- A batch that was not claimed before is with the thread that claimed it. -/
theorem Does.claims (h : Does spec sh pc pc' sh') {idx : ℕ} (hidx : idx < sh'.batchIdx)
    (htotal : idx < spec.total) : idx < sh.batchIdx ∨ pc'.Carries idx := by
  cases h with
  | exhausted hle => exact .inl (htotal.trans_le hle)
  | claimed pc hpc =>
      rcases Nat.lt_succ_iff_lt_or_eq.mp hidx with hlt | rfl
      · exact .inl hlt
      · rcases hpc with rfl | rfl <;> exact .inr rfl
  | _ => exact .inl hidx

theorem Does.returns (h : Does spec sh pc .returned sh') :
    spec.total ≤ sh'.batchIdx ∨ sh'.error ≠ none := by
  cases h with
  | exhausted hle => exact .inl (Nat.le_succ_of_le hle)
  | claimed _ hpc => rcases hpc with hpc | hpc <;> cases hpc
  | quit idx herror => exact .inr herror
  | reported e => exact .inr (Option.some_ne_none e)

theorem Covered.start : Covered spec spec.start := by
  refine ⟨List.length_replicate, fun idx hidx ↦ absurd hidx (Nat.not_lt_zero idx), fun h ↦ ?_⟩
  cases List.eq_of_mem_replicate h

theorem Covered.does {i : ℕ} (h : Covered spec s) (hi : s.workers[i]? = some pc)
    (hdoes : Does spec s.shared pc pc' sh') : Covered spec ⟨sh', s.workers.set i pc'⟩ := by
  obtain ⟨happlied, hbatchIdx, herror⟩ := hdoes.grows
  have hset : pc' ∈ s.workers.set i pc' :=
    List.mem_set (List.getElem?_eq_some_iff.mp hi).1 pc'
  refine ⟨(List.length_set ..).trans h.length, fun idx hidx htotal ↦ ?_, fun hreturned ↦ ?_⟩
  · rcases hdoes.claims hidx htotal with hlt | hcarries
    · rcases h.claimed idx hlt htotal with hwritten | hne | ⟨pc'', hmem, hcarries⟩
      · exact .inl (happlied ▸ hwritten)
      · exact .inr (.inl (herror hne))
      · obtain ⟨j, hj⟩ := List.mem_iff_getElem?.mp hmem
        by_cases hij : i = j
        · subst hij
          cases hi.symm.trans hj
          rcases hdoes.carries hcarries with hwritten | hne | hcarries
          · exact .inl hwritten
          · exact .inr (.inl hne)
          · exact .inr (.inr ⟨pc', hset, hcarries⟩)
        · refine .inr (.inr ⟨pc'', List.mem_of_getElem? (i := j) ?_, hcarries⟩)
          rw [List.getElem?_set_ne hij, hj]
    · exact .inr (.inr ⟨pc', hset, hcarries⟩)
  · rcases List.mem_or_eq_of_mem_set hreturned with hmem | rfl
    · exact (h.returned hmem).imp (·.trans hbatchIdx) herror
    · exact hdoes.returns

theorem Covered.step {a : Action ρ} (hstep : spec.step s a = some s') (h : Covered spec s) :
    Covered spec s' := by
  rcases step_cases hstep with ⟨i, pc, pc', sh', hi, hdoes, rfl⟩ | ⟨idx, row, -, -, rfl⟩
  · exact h.does hi hdoes
  · refine ⟨h.length, fun idx hidx htotal ↦ ?_, h.returned⟩
    refine (h.claimed idx hidx htotal).imp_left fun hwritten row' hrow' ↦ ?_
    exact List.mem_append_left _ (hwritten row' hrow')

end Covered

/-! ## Every run -/

theorem batchSize_ne_zero_of_returns {spec : Spec ρ} {s : Crew Shared Pc}
    {result : Except String Unit} (h : spec.returns s = some result) : spec.batchSize ≠ 0 := by
  rw [Spec.returns] at h
  split_ifs at h with hends
  exact fun hsize ↦ hends (.inl hsize)

section Runs

variable {spec : Spec ρ} {s : Crew Shared Pc} (h : spec.machine.Reachable s)

include h

/-- A batch is sent once, and once for each retry. -/
theorem count_sent_le (idx : ℕ) : s.shared.sent.count idx ≤ spec.sender.maxRetries + 1 := by
  have hbounded := h.invariant (P := Bounded spec) .start fun s a s' hstep ↦ Bounded.step hstep
  have hrequests := hbounded.requests idx
  split_ifs at hrequests <;> omega

/-- Where the upload returned `Ok`, every row is written. -/
theorem mem_applied_of_returns (hok : spec.returns s = some (.ok ())) (hthreads : spec.threads ≠ 0)
    {row : ℕ} (hrow : row < spec.rows) : row ∈ s.shared.applied := by
  have hcovered := h.invariant (P := Covered spec) .start fun s a s' hstep ↦ Covered.step hstep
  rw [Spec.returns] at hok
  split_ifs at hok with hends
  rw [not_or, not_not] at hends
  obtain ⟨hsize, hreturned⟩ := hends
  have herror : s.shared.error = none := by
    cases herror : s.shared.error with
    | none => rfl
    | some e =>
        rw [herror] at hok
        cases hok
  have hne : s.workers ≠ [] := by
    rw [← List.length_pos_iff, hcovered.length]
    exact Nat.pos_of_ne_zero hthreads
  obtain ⟨pc, hpc⟩ := List.exists_mem_of_ne_nil _ hne
  have hall : spec.total ≤ s.shared.batchIdx :=
    (hcovered.returned (hreturned pc hpc ▸ hpc)).resolve_right (not_not.mpr herror)
  obtain ⟨idx, hidx, hmem⟩ := exists_mem_batchRows hsize hrow
  rcases hcovered.claimed idx (hidx.trans_le hall) hidx with hwritten | hne | ⟨pc, hpc, hcarries⟩
  · exact hwritten row hmem
  · exact absurd herror hne
  · rw [hreturned pc hpc] at hcarries
    cases hcarries

/-- Without threads nothing is sent, and `Ok` is returned. -/
theorem returns_of_threads_eq_zero (hthreads : spec.threads = 0) (hsize : spec.batchSize ≠ 0) :
    spec.returns s = some (.ok ()) ∧ s.shared.applied = [] := by
  have hstart : s = spec.start := by
    refine h.invariant (P := fun s ↦ s = spec.start) rfl ?_
    rintro s a s' hstep rfl
    rcases step_cases hstep with ⟨i, pc, pc', sh', hi, -, -⟩ | ⟨idx, row, hidx, -, -⟩
    · rw [Spec.start, hthreads] at hi
      cases hi
    · cases hidx
  subst hstart
  refine ⟨if_neg ?_, rfl⟩
  rintro (hzero | hreturned)
  · exact hsize hzero
  · rw [Spec.start, hthreads] at hreturned
    exact hreturned (List.forall_mem_nil _)

end Runs

/-! ## What is stored -/

section Stores

variable {κ : Type u} {σ : Type v} {β : Type w} [DecidableEq κ]

/-- What is under each key after rows were written; a row has a key, and a value that becomes part
of what is there. -/
def stored (merge : β → σ → σ) (write : Row → κ × β) (rows : List Row) (store : κ → σ)
    (applied : List ℕ) : κ → σ :=
  written merge store (applied.filterMap fun row ↦ rows[row]?.map write)

variable {merge : β → σ → σ} {write : Row → κ × β} {rows : List Row} {store : κ → σ}
  {applied : List ℕ}

/-- Nothing changes under what is not the key of a row. -/
theorem stored_of_forall_ne {k : κ} (h : ∀ r ∈ rows, (write r).1 ≠ k) :
    stored merge write rows store applied k = store k := by
  refine written_of_notMem fun hmem ↦ ?_
  obtain ⟨e, he, rfl⟩ := List.mem_map.mp hmem
  obtain ⟨row, -, hwrite⟩ := List.mem_filterMap.mp he
  obtain ⟨r, hr, rfl⟩ := Option.map_eq_some_iff.mp hwrite
  exact h r (List.mem_of_getElem? hr) rfl

/-- Rows with one key are one row, so that under its key is its value once it is written. -/
theorem stored_row (hids : (rows.map Row.id).Nodup)
    (hkeys : ∀ r r', (write r).1 = (write r').1 → r.id = r'.id) {r : Row}
    (hidem : ∀ v, merge (write r).2 (merge (write r).2 v) = merge (write r).2 v) {row : ℕ}
    (hr : rows[row]? = some r) :
    stored merge write rows store applied (write r).1 =
      if row ∈ applied then merge (write r).2 (store (write r).1) else store (write r).1 := by
  have hrow : ∀ {row' r'}, rows[row']? = some r' → (write r').1 = (write r).1 → row' = row := by
    intro row' r' hr' hkey
    have hget : (rows.map Row.id)[row']? = (rows.map Row.id)[row]? := by
      rw [List.getElem?_map, List.getElem?_map, hr', hr, Option.map_some, Option.map_some,
        hkeys r' r hkey]
    refine (List.getElem?_inj ?_ hids).mp hget
    rw [List.length_map]
    exact (List.getElem?_eq_some_iff.mp hr').1
  have hmem : (write r).1 ∈ (applied.filterMap fun row ↦ rows[row]?.map write).map Prod.fst ↔
      row ∈ applied := by
    constructor
    · intro h
      obtain ⟨e, he, hkey⟩ := List.mem_map.mp h
      obtain ⟨row', happlied, hwrite⟩ := List.mem_filterMap.mp he
      obtain ⟨r', hr', rfl⟩ := Option.map_eq_some_iff.mp hwrite
      rwa [← hrow hr' hkey]
    · intro h
      refine List.mem_map.mpr ⟨write r, List.mem_filterMap.mpr ⟨row, h, ?_⟩, rfl⟩
      rw [hr, Option.map_some]
  have hsame : ∀ e ∈ applied.filterMap fun row ↦ rows[row]?.map write, e.1 = (write r).1 →
      e.2 = (write r).2 := by
    intro e he hkey
    obtain ⟨row', -, hwrite⟩ := List.mem_filterMap.mp he
    obtain ⟨r', hr', rfl⟩ := Option.map_eq_some_iff.mp hwrite
    rw [hrow hr' hkey, hr, Option.some.injEq] at hr'
    rw [hr']
  rw [stored, written_of_forall hidem hsame]
  simp only [hmem]

end Stores

end VectorDbBenchmark.UploadParallel
