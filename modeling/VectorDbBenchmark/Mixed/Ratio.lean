import VectorDbBenchmark.Kit.Cyclic
import VectorDbBenchmark.Mixed.Model

/-!
# The ratio of a mixed workload

A worker does whole blocks, except for the searches of the last one; so its updates fall
short of the ratio by less than a block, and those of the run by less than a block for each
worker.  The positions are handed out in order and name the rows round and round.
-/

namespace VectorDbBenchmark.Mixed

open Kit Quality

variable {spec : MixedSpec}

/-- Every index that is looked up is there: the queries to run have ground truth, and there
is a row when an update is reached. -/
structure MixedSpec.Covers (spec : MixedSpec) : Prop where
  truth : spec.numToRun ≤ spec.neighbors.length
  corpus : spec.ratio.updates = 0 ∨ 0 < spec.rows ∨ spec.numToRun < spec.ratio.searches

/-! ## One worker -/

/-- The query index a worker is at. -/
def Pc.idx : Pc → List ℕ
  | .searching _ idx => [idx]
  | _ => []

/-- The update position a worker is at. -/
def Pc.position : Pc → List ℕ
  | .writing _ uidx _ => [uidx]
  | _ => []

/-- How many searches and updates a worker has done where it is. -/
def Pc.Fits (ratio : UpdateSearchRatio) (searches updates : ℕ) : Pc → Prop
  | .connecting | .refused => searches = 0 ∧ updates = 0
  | .block j | .searching j _ =>
    j < ratio.searches ∧ ∃ b, searches = ratio.searches * b + j ∧ updates = ratio.updates * b
  | .updating j | .writing j _ _ =>
    j < ratio.updates ∧
      ∃ b, searches = ratio.searches * (b + 1) ∧ updates = ratio.updates * b + j
  | .returned =>
    ∃ j < ratio.searches, ∃ b, searches = ratio.searches * b + j ∧ updates = ratio.updates * b
  | .panicked => False

/-- The row at a position of the update sequence. -/
def MixedSpec.rowAt (spec : MixedSpec) (uidx : ℕ) : Option ℕ :=
  spec.updateSeq[uidx % spec.updateSeq.length]?

/-- The books of a worker. -/
structure Worker.Books (spec : MixedSpec) (w : Worker) : Prop where
  searched : w.claims.filter (· < spec.numToRun) = w.searched ++ w.pc.idx
  positions : w.positions = w.updated.map Prod.fst ++ w.pc.position
  rows : ∀ e ∈ w.updated, spec.rowAt e.1 = some e.2
  /-- The row that is being written. -/
  writing : ∀ j uidx dataIdx, w.pc = .writing j uidx dataIdx → spec.rowAt uidx = some dataIdx
  fits : w.pc.Fits spec.ratio w.searched.length w.updated.length
  /-- A worker stops at the first index that is none of the queries to run. -/
  stopped : w.pc = .returned → ∃ k ∈ w.claims, spec.numToRun ≤ k
  tally : w.samples.ut.attempted = w.updated.length

theorem Worker.Books.new : Worker.new.Books spec :=
  ⟨rfl, rfl, fun _ he ↦ (List.not_mem_nil he).elim, fun _ _ _ ↦ Pc.noConfusion,
    ⟨rfl, rfl⟩, Pc.noConfusion, rfl⟩

theorem Worker.Books.claim {w : Worker} {j : ℕ} (h : w.Books spec) (hcovers : spec.Covers)
    (hpc : w.pc = .block j) (sh : Shared) : (w.claim spec j sh).1.Books spec := by
  obtain ⟨hsearched, hpositions, hrows, -, hfits, -, htally⟩ := h
  rw [hpc] at hsearched hpositions hfits
  by_cases hover : spec.numToRun ≤ sh.searchIdx
  · have hclaim : (w.claim spec j sh).1 =
        { w with pc := .returned, claims := w.claims ++ [sh.searchIdx] } := by
      rw [Worker.claim, if_pos hover]
    rw [hclaim]
    refine ⟨?_, hpositions, hrows, fun _ _ _ ↦ Pc.noConfusion, ⟨j, hfits⟩, fun _ ↦ ?_, htally⟩
    · rw [List.filter_append, hsearched, List.filter_singleton, decide_eq_false hover.not_gt]
      exact List.append_nil _
    · exact ⟨sh.searchIdx, List.mem_append_right _ List.mem_cons_self, hover⟩
  · have htruth : ¬(spec.explicitTop.isNone ∧ spec.neighbors.length ≤ sh.searchIdx) := by
      rintro ⟨-, hle⟩
      exact hover (hcovers.truth.trans hle)
    have hclaim : (w.claim spec j sh).1 =
        { w with pc := .searching j sh.searchIdx, claims := w.claims ++ [sh.searchIdx] } := by
      rw [Worker.claim, if_neg hover, if_neg htruth]
    rw [hclaim]
    refine ⟨?_, hpositions, hrows, fun _ _ _ ↦ Pc.noConfusion, hfits, Pc.noConfusion, htally⟩
    rw [List.filter_append, hsearched, List.filter_singleton,
      decide_eq_true (not_le.mp hover)]
    exact congrArg (· ++ [sh.searchIdx]) (List.append_nil _)

theorem afterSearch_fits {ratio : UpdateSearchRatio} {j searches updates : ℕ}
    (hj : j < ratio.searches)
    (h : ∃ b, searches = ratio.searches * b + j ∧ updates = ratio.updates * b) :
    (Worker.afterSearch ratio j).Fits ratio (searches + 1) updates := by
  obtain ⟨b, rfl, rfl⟩ := h
  rw [Worker.afterSearch]
  split_ifs with hmore hupdates
  · exact ⟨hmore, b, Nat.add_assoc _ _ _, rfl⟩
  · have hlast : j + 1 = ratio.searches := by omega
    refine ⟨hupdates, b, ?_, rfl⟩
    rw [Nat.add_assoc, hlast, Nat.mul_succ]
  · have hlast : j + 1 = ratio.searches := by omega
    refine ⟨ratio.searches_pos, b + 1, ?_, ?_⟩
    · rw [Nat.add_assoc, hlast, Nat.mul_succ, Nat.add_zero]
    · rw [Nat.eq_zero_of_not_pos hupdates, Nat.zero_mul, Nat.zero_mul]

theorem afterSearch_idle (ratio : UpdateSearchRatio) (j : ℕ) :
    (Worker.afterSearch ratio j).idx = [] ∧ (Worker.afterSearch ratio j).position = [] ∧
      (∀ i uidx dataIdx, Worker.afterSearch ratio j ≠ .writing i uidx dataIdx) ∧
      Worker.afterSearch ratio j ≠ .returned := by
  rw [Worker.afterSearch]
  split_ifs <;> exact ⟨rfl, rfl, fun _ _ _ ↦ Pc.noConfusion, Pc.noConfusion⟩

/-- A worker that is through with a query. -/
theorem Worker.Books.afterSearch {w : Worker} {j idx : ℕ} (h : w.Books spec)
    (hpc : w.pc = .searching j idx) {samples : Samples} (hut : samples.ut = w.samples.ut) :
    ({ w with pc := Worker.afterSearch spec.ratio j, samples, searched := w.searched ++ [idx] } :
      Worker).Books spec := by
  obtain ⟨hsearched, hpositions, hrows, -, hfits, -, htally⟩ := h
  rw [hpc] at hsearched hpositions hfits
  obtain ⟨hidx, hposition, hwriting, hreturned⟩ := afterSearch_idle spec.ratio j
  refine ⟨?_, ?_, hrows, fun i uidx dataIdx heq ↦ absurd heq (hwriting i uidx dataIdx), ?_,
    fun heq ↦ absurd heq hreturned, ?_⟩
  · rw [hidx, List.append_nil]
    exact hsearched
  · rw [hposition]
    exact hpositions
  · rw [List.length_append]
    exact afterSearch_fits hfits.1 hfits.2
  · rw [hut]
    exact htally

theorem Worker.Books.reply {w : Worker} {j idx : ℕ} (h : w.Books spec) (hcovers : spec.Covers)
    (hpc : w.pc = .searching j idx) (result : Except String (List (ℤ × F64))) (queryTime : ℚ) :
    (w.reply spec j idx result queryTime).Books spec := by
  have hlt : idx < spec.neighbors.length := by
    have hmem : idx ∈ w.claims.filter (· < spec.numToRun) := by
      rw [h.searched, hpc]
      exact List.mem_append_right _ List.mem_cons_self
    exact (of_decide_eq_true (List.mem_filter.mp hmem).2).trans_le hcovers.truth
  cases result with
  | error e => exact h.afterSearch hpc rfl
  | ok resultIds =>
      rw [Worker.reply, List.getElem?_eq_getElem hlt]
      exact h.afterSearch hpc rfl

theorem Worker.Books.claimUpdate {w : Worker} {j : ℕ} (h : w.Books spec) (hcovers : spec.Covers)
    (hpc : w.pc = .updating j) (hle : w.searched.length ≤ spec.numToRun) (sh : Shared) :
    (w.claimUpdate spec j sh).1.Books spec := by
  obtain ⟨hsearched, hpositions, hrows, -, hfits, -, htally⟩ := h
  rw [hpc] at hsearched hpositions hfits
  have hpos : 0 < spec.updateSeq.length := by
    obtain ⟨hj, b, hb, -⟩ := hfits
    rw [spec.shuffled.length_eq, List.length_range]
    rcases hcovers.corpus with hzero | hrow | hfew
    · exact absurd hj (hzero ▸ Nat.not_lt_zero j)
    · exact hrow
    · have hblock : spec.ratio.searches ≤ spec.ratio.searches * (b + 1) :=
        Nat.le_mul_of_pos_right _ (Nat.succ_pos b)
      rw [← hb] at hblock
      exact absurd (hblock.trans hle) (not_le.mpr hfew)
  obtain ⟨dataIdx, hrow⟩ : ∃ dataIdx, spec.rowAt sh.updateIdx = some dataIdx :=
    ⟨_, List.getElem?_eq_getElem (Nat.mod_lt _ hpos)⟩
  have hclaim : (w.claimUpdate spec j sh).1 =
      { w with pc := .writing j sh.updateIdx dataIdx,
               positions := w.positions ++ [sh.updateIdx] } := by
    rw [Worker.claimUpdate, ← MixedSpec.rowAt, hrow]
  rw [hclaim]
  refine ⟨hsearched, ?_, hrows, ?_, hfits, Pc.noConfusion, htally⟩
  · rw [hpositions]
    exact congrArg (· ++ [sh.updateIdx]) (List.append_nil _)
  · rintro i uidx dataIdx' heq
    cases heq
    exact hrow

theorem tally_attempted (outcome : Except String Bool) (updateTime : ℚ) (ut : UpdateTally) :
    (Worker.tally outcome updateTime ut).attempted = ut.attempted + 1 := by
  fun_cases Worker.tally outcome updateTime ut
  · simp only [UpdateTally.attempted, List.length_append, List.length_singleton]
    omega
  · simp only [UpdateTally.attempted]
    omega
  · simp only [UpdateTally.attempted]
    omega

theorem Worker.Books.write {w : Worker} {j uidx dataIdx : ℕ} (h : w.Books spec)
    (hpc : w.pc = .writing j uidx dataIdx) (outcome : Except String Bool) (updateTime : ℚ) :
    (w.write spec j uidx dataIdx outcome updateTime).Books spec := by
  have hrow := h.writing j uidx dataIdx hpc
  obtain ⟨hsearched, hpositions, hrows, -, hfits, -, htally⟩ := h
  rw [hpc] at hsearched hpositions hfits
  obtain ⟨hj, b, hb, hu⟩ := hfits
  have hpositions' : w.positions = (w.updated ++ [(uidx, dataIdx)]).map Prod.fst := by
    rw [List.map_append]
    exact hpositions
  have hrows' : ∀ e ∈ w.updated ++ [(uidx, dataIdx)], spec.rowAt e.1 = some e.2 := by
    intro e he
    rcases List.mem_append.mp he with he | he
    · exact hrows e he
    · rw [List.mem_singleton.mp he]
      exact hrow
  have htally' : (Worker.tally outcome updateTime w.samples.ut).attempted =
      (w.updated ++ [(uidx, dataIdx)]).length := by
    rw [tally_attempted, htally, List.length_append, List.length_singleton]
  have hlength : (w.updated ++ [(uidx, dataIdx)]).length = spec.ratio.updates * b + (j + 1) := by
    rw [List.length_append, hu, List.length_singleton, Nat.add_assoc]
  rw [Worker.write]
  split_ifs with hmore
  · refine ⟨hsearched, ?_, hrows', fun _ _ _ ↦ Pc.noConfusion, ⟨hmore, b, hb, hlength⟩,
      Pc.noConfusion, htally'⟩
    exact hpositions'.trans (List.append_nil _).symm
  · have hlast : j + 1 = spec.ratio.updates := by omega
    refine ⟨hsearched, ?_, hrows', fun _ _ _ ↦ Pc.noConfusion,
      ⟨spec.ratio.searches_pos, b + 1, hb, ?_⟩, Pc.noConfusion, htally'⟩
    · exact hpositions'.trans (List.append_nil _).symm
    · rw [hlength, hlast, Nat.mul_succ]

theorem Worker.Books.does {sh sh' : Shared} {w w' : Worker} (hdoes : Does spec sh w w' sh')
    (hcovers : spec.Covers) (hle : w.searched.length ≤ spec.numToRun) (h : w.Books spec) :
    w'.Books spec := by
  cases hdoes with
  | connect hpc =>
      obtain ⟨hsearched, hpositions, hrows, -, hfits, -, htally⟩ := h
      rw [hpc] at hsearched hpositions hfits
      refine ⟨hsearched, hpositions, hrows, fun _ _ _ ↦ Pc.noConfusion,
        ⟨spec.ratio.searches_pos, 0, ?_⟩, Pc.noConfusion, htally⟩
      exact hfits
  | refuse hpc =>
      obtain ⟨hsearched, hpositions, hrows, -, hfits, -, htally⟩ := h
      rw [hpc] at hsearched hpositions hfits
      exact ⟨hsearched, hpositions, hrows, fun _ _ _ ↦ Pc.noConfusion, hfits, Pc.noConfusion,
        htally⟩
  | claim j hpc => exact h.claim hcovers hpc sh
  | reply j idx hpc result queryTime => exact h.reply hcovers hpc result queryTime
  | claimUpdate j hpc => exact h.claimUpdate hcovers hpc hle sh
  | write j uidx dataIdx hpc outcome updateTime => exact h.write hpc outcome updateTime

/-! ## All workers -/

/-- The books of a run. -/
structure Run.Books (spec : MixedSpec) (s : Run) : Prop where
  length : s.workers.length = spec.parallel
  /-- The counters hand out each index and each position once. -/
  claims : (s.workers.flatMap (·.claims)).Perm (List.range s.shared.searchIdx)
  positions : s.positions.Perm (List.range s.shared.updateIdx)
  workers : ∀ w ∈ s.workers, w.Books spec

/-- What an action takes from the counters. -/
theorem taken_of_does {sh sh' : Shared} {w w' : Worker} (h : Does spec sh w w' sh') :
    (∃ taken, w'.claims = w.claims ++ taken ∧
      List.range sh'.searchIdx = List.range sh.searchIdx ++ taken) ∧
    ∃ taken, w'.positions = w.positions ++ taken ∧
      List.range sh'.updateIdx = List.range sh.updateIdx ++ taken := by
  have hnil : ∀ {β : Type} (xs : List β), xs = xs ++ [] := fun xs ↦ (List.append_nil xs).symm
  cases h with
  | claim j hpc => exact ⟨⟨[sh.searchIdx], rfl, List.range_succ⟩, [], hnil _, hnil _⟩
  | claimUpdate j hpc => exact ⟨⟨[], hnil _, hnil _⟩, [sh.updateIdx], rfl, List.range_succ⟩
  | reply j idx hpc result queryTime =>
      have hkeeps : (w.reply spec j idx result queryTime).claims = w.claims ∧
          (w.reply spec j idx result queryTime).positions = w.positions := by
        fun_cases Worker.reply spec j idx result queryTime w <;> exact ⟨rfl, rfl⟩
      rw [hkeeps.1, hkeeps.2]
      exact ⟨⟨[], hnil _, hnil _⟩, [], hnil _, hnil _⟩
  | _ => exact ⟨⟨[], hnil _, hnil _⟩, [], hnil _, hnil _⟩

theorem Run.Books.init : (Run.init spec).Books spec := by
  have hnone : ∀ {β : Type} (f : Worker → List β), f .new = [] →
      (Run.init spec).workers.flatMap f = [] := by
    intro β f hf
    apply List.flatMap_eq_nil_iff.mpr
    intro w hw
    rw [List.eq_of_mem_replicate hw]
    exact hf
  refine ⟨List.length_replicate, ?_, ?_, fun w hw ↦ ?_⟩
  · rw [hnone _ rfl]
    exact List.Perm.nil
  · rw [Run.positions, hnone _ rfl]
    exact List.Perm.nil
  · rw [List.eq_of_mem_replicate hw]
    exact .new

/-- A worker sends no more queries than there are to run. -/
theorem Run.Books.length_searched_le {s : Run} (h : s.Books spec) {w : Worker}
    (hw : w ∈ s.workers) : w.searched.length ≤ spec.numToRun := by
  have hnodup : w.claims.Nodup :=
    (List.nodup_flatMap.mp (h.claims.nodup_iff.mpr List.nodup_range)).1 w hw
  have hsubset : w.claims.filter (· < spec.numToRun) ⊆ List.range spec.numToRun := by
    intro k hk
    exact List.mem_range.mpr (of_decide_eq_true (List.mem_filter.mp hk).2)
  have hle := (List.subperm_of_subset (hnodup.filter _) hsubset).length_le
  rw [(h.workers w hw).searched, List.length_append, List.length_range] at hle
  exact (Nat.le_add_right _ _).trans hle

theorem Run.Books.step {s s' : Run} {a : ℕ × Move} (hcovers : spec.Covers)
    (hstep : (Run.machine spec).step s a = some s') (h : s.Books spec) : s'.Books spec := by
  obtain ⟨i, w, w', sh', hi, hdoes, rfl⟩ := step_cases hstep
  have hw : w ∈ s.workers := List.mem_of_getElem? hi
  obtain ⟨⟨claimed, hclaims, hsearchIdx⟩, taken, hpositions, hupdateIdx⟩ := taken_of_does hdoes
  refine ⟨List.length_set.trans h.length, ?_, ?_, forall_mem_set h.workers
    ((h.workers w hw).does hdoes hcovers (h.length_searched_le hw))⟩
  · rw [hsearchIdx]
    exact (perm_flatMap_set hi hclaims).trans (h.claims.append_right claimed)
  · rw [hupdateIdx]
    exact (perm_flatMap_set hi hpositions).trans (h.positions.append_right taken)

theorem Run.Books.of_reachable {s : Run} (hcovers : spec.Covers)
    (h : (Run.machine spec).Reachable s) : s.Books spec :=
  h.invariant .init fun _ _ _ hstep hs ↦ hs.step hcovers hstep

/-! ## Searches and updates of a run that is over -/

theorem Run.Finished.idle {s : Run} (h : s.Finished) {w : Worker} (hw : w ∈ s.workers) :
    w.pc.idx = [] ∧ w.pc.position = [] := by
  rcases h w hw with hpc | hpc
  · rw [hpc]
    exact ⟨rfl, rfl⟩
  · rw [hpc]
    exact ⟨rfl, rfl⟩

/-- A worker that connected ran into the end of the queries. -/
theorem Run.Books.exhausted {s : Run} (h : s.Books spec) (hdone : s.Finished)
    (hconnected : s.Connected) : spec.numToRun ≤ s.shared.searchIdx := by
  obtain ⟨w, hw, -, hrefused⟩ := hconnected
  have hpc : w.pc = .returned := (hdone w hw).resolve_right hrefused
  obtain ⟨k, hk, hle⟩ := (h.workers w hw).stopped hpc
  have hmem : k ∈ List.range s.shared.searchIdx :=
    h.claims.mem_iff.mp (List.mem_flatMap.mpr ⟨w, hw, hk⟩)
  exact hle.trans (List.mem_range.mp hmem).le

/-- Every query is sent exactly once. -/
theorem Run.Books.searched_perm {s : Run} (h : s.Books spec) (hdone : s.Finished)
    (hconnected : s.Connected) : s.searched.Perm (List.range spec.numToRun) := by
  have hsearched : s.searched =
      (s.workers.flatMap (·.claims)).filter (· < spec.numToRun) := by
    rw [Run.searched, List.filter_flatMap]
    refine List.flatMap_congr fun w hw ↦ ?_
    rw [(h.workers w hw).searched, (hdone.idle hw).1, List.append_nil]
  rw [hsearched]
  refine (h.claims.filter _).trans ?_
  apply (List.perm_ext_iff_of_nodup (List.nodup_range.filter _) List.nodup_range).mpr
  intro k
  rw [List.mem_filter, List.mem_range, List.mem_range, decide_eq_true_eq]
  exact and_iff_right_of_imp fun hk ↦ hk.trans_le (h.exhausted hdone hconnected)

/-- Every position that was claimed is written exactly once. -/
theorem Run.Books.updated_perm {s : Run} (h : s.Books spec) (hdone : s.Finished) :
    (s.updated.map Prod.fst).Perm (List.range s.shared.updateIdx) := by
  have hupdated : s.updated.map Prod.fst = s.positions := by
    rw [Run.updated, Run.positions, List.map_flatMap]
    refine List.flatMap_congr fun w hw ↦ ?_
    rw [(h.workers w hw).positions, (hdone.idle hw).2, List.append_nil]
  rw [hupdated]
  exact h.positions

/-- The rows that were written are those of the update sequence, round and round. -/
theorem Run.Books.rows_perm {s : Run} (h : s.Books spec) (hdone : s.Finished) :
    (s.updated.map Prod.snd).Perm (cyclic spec.updateSeq s.shared.updateIdx) := by
  have hrows : s.updated.map Prod.snd = (s.updated.map Prod.fst).filterMap spec.rowAt := by
    rw [List.filterMap_map, ← List.filterMap_eq_map]
    refine List.filterMap_congr fun e he ↦ ?_
    obtain ⟨w, hw, hew⟩ := List.mem_flatMap.mp he
    exact ((h.workers w hw).rows e hew).symm
  rw [hrows]
  exact (h.updated_perm hdone).filterMap _

theorem attempted_merge (a b : UpdateTally) :
    (a.merge b).attempted = a.attempted + b.attempted := by
  simp only [UpdateTally.attempted, UpdateTally.merge, List.length_append]
  omega

theorem attempted_foldl (ws : List Worker) (ut : UpdateTally) :
    (ws.foldl (fun ut w ↦ ut.merge w.samples.ut) ut).attempted =
      ut.attempted + (ws.map fun w ↦ w.samples.ut.attempted).sum := by
  induction ws generalizing ut with
  | nil => rfl
  | cons w ws ih =>
      rw [List.foldl_cons, ih, attempted_merge, List.map_cons, List.sum_cons, Nat.add_assoc]

/-- The merged tally counts the writes. -/
theorem Run.Books.attempted {s : Run} (h : s.Books spec) :
    s.tally.attempted = s.updated.length := by
  rw [Run.tally, attempted_foldl, Run.updated, List.length_flatMap]
  exact (Nat.zero_add _).trans
    (congrArg List.sum (List.map_congr_left fun w hw ↦ (h.workers w hw).tally))

/-! ## The ratio -/

/-- A worker that is through did whole blocks, and at most all but one search of another. -/
theorem Worker.Books.blocks {w : Worker} (h : w.Books spec)
    (hpc : w.pc = .returned ∨ w.pc = .refused) :
    ∃ j < spec.ratio.searches, ∃ b, w.searched.length = spec.ratio.searches * b + j ∧
      w.updated.length = spec.ratio.updates * b := by
  have hfits := h.fits
  rcases hpc with hpc | hpc
  · rw [hpc] at hfits
    exact hfits
  · rw [hpc] at hfits
    exact ⟨0, spec.ratio.searches_pos, 0, hfits⟩

theorem Worker.Books.ratio {w : Worker} (h : w.Books spec)
    (hpc : w.pc = .returned ∨ w.pc = .refused) :
    w.updated.length * spec.ratio.searches ≤ spec.ratio.updates * w.searched.length ∧
    spec.ratio.updates * w.searched.length ≤
      w.updated.length * spec.ratio.searches +
        spec.ratio.updates * (spec.ratio.searches - 1) := by
  obtain ⟨j, hj, b, hsearched, hupdated⟩ := h.blocks hpc
  have hblocks : w.updated.length * spec.ratio.searches =
      spec.ratio.updates * (spec.ratio.searches * b) := by
    rw [hupdated, Nat.mul_assoc, Nat.mul_comm b]
  rw [hblocks, hsearched, Nat.mul_add]
  exact ⟨Nat.le_add_right _ _,
    Nat.add_le_add_left (Nat.mul_le_mul_left _ (Nat.le_sub_one_of_lt hj)) _⟩

theorem Run.Books.ratio {s : Run} (h : s.Books spec) (hdone : s.Finished) :
    s.updated.length * spec.ratio.searches ≤ spec.ratio.updates * s.searched.length ∧
    spec.ratio.updates * s.searched.length ≤
      s.updated.length * spec.ratio.searches +
        spec.parallel * (spec.ratio.updates * (spec.ratio.searches - 1)) := by
  rw [← h.length, Run.updated, Run.searched, List.length_flatMap, List.length_flatMap,
    ← List.sum_map_mul_right, ← List.sum_map_mul_left]
  constructor
  · exact List.sum_le_sum fun w hw ↦ ((h.workers w hw).ratio (hdone w hw)).1
  · calc
      _ ≤ (s.workers.map fun w ↦ w.updated.length * spec.ratio.searches +
            spec.ratio.updates * (spec.ratio.searches - 1)).sum :=
        List.sum_le_sum fun w hw ↦ ((h.workers w hw).ratio (hdone w hw)).2
      _ = _ := by
        rw [List.sum_map_add, List.map_const', List.sum_replicate, smul_eq_mul]

/-- Positions and rows of a run that is over. -/
structure Run.Balanced (spec : MixedSpec) (s : Run) : Prop where
  claimed : s.positions.Perm (List.range s.shared.updateIdx)
  /-- Every claimed position is written once. -/
  once : (s.updated.map Prod.fst).Perm (List.range s.shared.updateIdx)
  rows : ∀ a < spec.rows, ∀ b < spec.rows,
    (s.updated.map Prod.snd).count a ≤ (s.updated.map Prod.snd).count b + 1

/-- Searches and updates of a run that is over. -/
structure Run.KeptRatio (spec : MixedSpec) (s : Run) : Prop where
  /-- Every query is sent once. -/
  searched : s.searched.Perm (List.range spec.numToRun)
  attempted : s.tally.attempted = s.updated.length
  lower : spec.ratio.updates * (spec.numToRun - spec.parallel * (spec.ratio.searches - 1)) ≤
    s.tally.attempted * spec.ratio.searches
  upper : s.tally.attempted * spec.ratio.searches ≤ spec.ratio.updates * spec.numToRun

theorem Run.Books.balanced {s : Run} (h : s.Books spec) (hdone : s.Finished) :
    s.Balanced spec := by
  refine ⟨h.positions, h.updated_perm hdone, fun a ha b hb ↦ ?_⟩
  rw [(h.rows_perm hdone).count_eq, (h.rows_perm hdone).count_eq]
  apply count_cyclic_le
  · exact spec.shuffled.nodup_iff.mpr List.nodup_range
  · exact spec.shuffled.mem_iff.mpr (List.mem_range.mpr ha)
  · exact spec.shuffled.mem_iff.mpr (List.mem_range.mpr hb)

theorem Run.Books.keptRatio {s : Run} (h : s.Books spec) (hdone : s.Finished)
    (hconnected : s.Connected) : s.KeptRatio spec := by
  have hsearched := h.searched_perm hdone hconnected
  have hlength : s.searched.length = spec.numToRun := by
    rw [hsearched.length_eq, List.length_range]
  obtain ⟨hupper, hlower⟩ := h.ratio hdone
  rw [hlength] at hupper hlower
  refine ⟨hsearched, h.attempted, ?_, ?_⟩
  · rw [h.attempted, Nat.mul_sub, Nat.mul_left_comm]
    exact Nat.sub_le_of_le_add hlower
  · rw [h.attempted]
    exact hupper

/-- Without workers nothing is looked up. -/
theorem Run.Books.of_reachable_or {s : Run} (hcovers : spec.parallel = 0 ∨ spec.Covers)
    (h : (Run.machine spec).Reachable s) : s.Books spec := by
  refine h.invariant .init fun t a t' hstep ht ↦ ht.step (hcovers.resolve_left fun hnone ↦ ?_) hstep
  obtain ⟨i, w, w', sh', hi, -, -⟩ := step_cases hstep
  rw [List.eq_nil_of_length_eq_zero (ht.length.trans hnone)] at hi
  cases hi

theorem Run.Books.not_panicked {s : Run} (h : s.Books spec) {w : Worker} (hw : w ∈ s.workers) :
    w.pc ≠ .panicked := by
  intro hpc
  have hfits := (h.workers w hw).fits
  rw [hpc] at hfits
  exact hfits

/-- Until every worker returned, some worker can act. -/
theorem Run.Books.progress {s : Run} (h : s.Books spec) :
    s.Finished ∨ ∃ a, ((Run.machine spec).step s a).isSome = true := by
  by_cases hended : ∀ w ∈ s.workers, w.pc.ended = true
  · refine .inl fun w hw ↦ ?_
    have hend := hended w hw
    cases hpc : w.pc with
    | returned => exact .inl rfl
    | refused => exact .inr rfl
    | panicked => exact absurd hpc (h.not_panicked hw)
    | _ =>
        rw [hpc] at hend
        cases hend
  · push Not at hended
    obtain ⟨w, hw, hend⟩ := hended
    exact .inr (exists_step hw ((Bool.not_eq_true _).mp hend))

/-- **Mixed-workload ratio**: where every index that is looked up is there, every run ends, no
worker panics, and the run that is over kept the ratio and the balance of the rows. -/
theorem searchMixed_ratio (hcovers : spec.parallel = 0 ∨ spec.Covers) :
    (∀ as s, (Run.machine spec).runFrom (Run.init spec) as = some s →
      as.length ≤ spec.numToRun * (2 * spec.ratio.updates + 4) + 2 * spec.parallel) ∧
    ∀ s, (Run.machine spec).Reachable s →
      (∀ w ∈ s.workers, w.pc ≠ .panicked) ∧
      (s.Finished ∨ ∃ a, ((Run.machine spec).step s a).isSome = true) ∧
      (s.Finished → s.Balanced spec ∧ (s.Connected → s.KeptRatio spec)) := by
  refine ⟨fun as s h ↦ length_le_left h, fun s h ↦ ?_⟩
  have hbooks := Run.Books.of_reachable_or hcovers h
  exact ⟨fun w hw ↦ hbooks.not_panicked hw, hbooks.progress,
    fun hdone ↦ ⟨hbooks.balanced hdone, hbooks.keptRatio hdone⟩⟩

/-- Two workers, of which one may be refused: two searches and one update a block. -/
def twoToOne : MixedSpec where
  queryCount := 3
  neighbors := [[1], [2], [3]]
  explicitTop := none
  numQueries := -1
  ratio := ⟨1, 2, Nat.two_pos⟩
  rows := 2
  updateSeq := [1, 0]
  shuffled := by decide
  parallel := 2
  discount _ := 1

def twoToOneRun : List (ℕ × Move) :=
  [(0, .connect (.error "refused")), (1, .connect (.ok ())), (1, .claim),
    (1, .reply (.ok [(1, .fin 0)]) 1), (1, .claim), (1, .reply (.error "timeout") 1),
    (1, .claimUpdate), (1, .write (.ok false) 1), (1, .claim), (1, .reply (.ok []) 1), (1, .claim)]

theorem searchMixed_ratio_twoToOne :
    ∃ s, (Run.machine twoToOne).Reachable s ∧ s.Finished ∧ s.Connected ∧
      s.Balanced twoToOne ∧ s.KeptRatio twoToOne := by
  have hrun : ((Run.machine twoToOne).runFrom (Run.init twoToOne) twoToOneRun).any
      (fun s ↦ (∀ w ∈ s.workers, w.pc = .returned ∨ w.pc = .refused) ∧
        ∃ w ∈ s.workers, w.pc ≠ .connecting ∧ w.pc ≠ .refused) = true := by
    decide
  obtain ⟨s, hs, hend⟩ := (Option.any_eq_true _ _).mp hrun
  obtain ⟨hdone, hconnected⟩ := of_decide_eq_true hend
  have hreach : (Run.machine twoToOne).Reachable s := ⟨twoToOneRun, hs⟩
  have hcovers : twoToOne.Covers := ⟨by decide, .inr (.inl Nat.two_pos)⟩
  obtain ⟨hbalanced, hratio⟩ := ((searchMixed_ratio (.inr hcovers)).2 s hreach).2.2 hdone
  exact ⟨s, hreach, hdone, hconnected, hbalanced, hratio hconnected⟩

/-- Three queries of which one has ground truth. -/
def shortTruth : MixedSpec where
  queryCount := 3
  neighbors := [[1]]
  explicitTop := none
  numQueries := -1
  ratio := ⟨1, 1, Nat.one_pos⟩
  rows := 1
  updateSeq := [0]
  shuffled := by decide
  parallel := 1
  discount _ := 1

/-- The worker panics at the second query, and the third is never sent. -/
theorem searchMixed_shortTruth :
    ∃ s, (Run.machine shortTruth).Reachable s ∧ s.Connected ∧
      (∀ w ∈ s.workers, w.pc.ended = true) ∧ s.searched = [0] ∧
      ¬s.searched.Perm (List.range shortTruth.numToRun) := by
  have hrun : ((Run.machine shortTruth).runFrom (Run.init shortTruth)
      [(0, .connect (.ok ())), (0, .claim), (0, .reply (.ok [(1, .fin 0)]) 1), (0, .claimUpdate),
        (0, .write (.ok false) 1), (0, .claim)]).any
      (fun s ↦ (∃ w ∈ s.workers, w.pc ≠ .connecting ∧ w.pc ≠ .refused) ∧
        (∀ w ∈ s.workers, w.pc.ended = true) ∧ s.searched = [0]) = true := by
    decide
  obtain ⟨s, hs, hend⟩ := (Option.any_eq_true _ _).mp hrun
  obtain ⟨hconnected, hended, hsearched⟩ := of_decide_eq_true hend
  refine ⟨s, ⟨_, hs⟩, hconnected, hended, hsearched, ?_⟩
  rw [hsearched]
  intro hperm
  exact absurd hperm.length_eq (by decide)

end VectorDbBenchmark.Mixed
