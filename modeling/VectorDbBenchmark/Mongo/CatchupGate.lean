import Mathlib.Order.Interval.Finset.Nat
import VectorDbBenchmark.Kit.Text
import VectorDbBenchmark.Mongo.Filter

/-!
# The index catch-up gate

`wait_for_index_catchup` of the MongoDB engine: probes count the searchable documents of
ranges of `_id`, range by range from the top, a range whose reply is too large is halved, and
the search starts when a sweep has counted all documents.  Every probe is a tick; the index
may grow between two of them.
-/

namespace VectorDbBenchmark.Mongo

open Kit

/-! ## Probes -/

inductive SearchDialect where
  | vectorSearchStage
  | searchStage
deriving DecidableEq

/-- What a gate asks with. -/
structure ProbeSpec where
  indexName : String
  probeVector : List F64
  dialect : SearchDialect

/-- An exhaustive search in the ids from `gte` up to `lt`, and the count of what it finds. -/
structure CountPipeline where
  dialect : SearchDialect
  index : String
  path : String
  queryVector : List F64
  limit : ℕ
  exact : Bool
  filterField : String
  gte : ℕ
  lt : ℕ
  countName : String

def buildCatchupCountPipeline (spec : ProbeSpec) (lo hi : ℕ) : CountPipeline where
  dialect := spec.dialect
  index := spec.indexName
  path := "vector"
  queryVector := spec.probeVector
  limit := hi - lo
  exact := true
  filterField := "_id"
  gte := lo
  lt := hi
  countName := "n"

/-- The server: what an aggregation returns at a tick, documents that may each fail to be
read. -/
abbrev Collection := ℕ → CountPipeline → Except String (List (Except String Document))

/-- Error texts of the server and of the driver. -/
structure Texts where
  /-- `Debug` of a document. -/
  debug : Document → String
  /-- A share of the corpus in percent, with two decimals. -/
  percent : ℕ → ℕ → String
  /-- The seconds since the start, by rounds. -/
  elapsed : ℕ → String

section Gate

variable (texts : Texts) (spec : ProbeSpec) (coll : Collection)

/-- `get_i32`, else `get_i64`. -/
def catchupCountFromDoc (doc : Document) : Except String ℕ :=
  match (doc.find? fun e ↦ e.1 = "n").map Prod.snd with
  | some (.int32 n) => .ok n.toNat
  | some (.int64 n) => .ok n.toNat
  | _ => .error s!"catch-up count returned no `n` field: {texts.debug doc}"

/-- The count of the last document; nothing is searchable when there is none. -/
def readCounts (searchable : ℕ) : List (Except String Document) → Except String ℕ
  | [] => .ok searchable
  | .error e :: _ => .error s!"catch-up count read failed: {e}"
  | .ok doc :: docs =>
    match catchupCountFromDoc texts doc with
    | .error e => .error e
    | .ok n => readCounts n docs

def runCatchupCount (t : ℕ) (pipeline : CountPipeline) : Except String ℕ :=
  match coll t pipeline with
  | .error e => .error s!"catch-up count failed: {e}"
  | .ok docs => readCounts texts 0 docs

def isWireOverflowError (e : String) : Bool :=
  containsSub "BSONObjectTooLarge".toList e.toList || containsSub "ProtocolError".toList e.toList ||
    containsSub "msgLen".toList e.toList

def catchupMinPartitionWidth : ℕ := 500

def catchupPartitionWidth : ℕ := 50000

/-- The ranges from `lo` on. -/
def partitionFrom (expectedCount width lo : ℕ) : List (ℕ × ℕ) :=
  if lo < expectedCount then
    let hi := min (lo + max width 1) expectedCount
    (lo, hi) :: partitionFrom expectedCount width hi
  else []
termination_by expectedCount - lo
decreasing_by omega

def partitionRanges (expectedCount width : ℕ) : List (ℕ × ℕ) := partitionFrom expectedCount width 0

/-- The count of a range, and the tick after it. -/
def runCatchupCountRange (lo hi t : ℕ) : Except String ℕ × ℕ :=
  match runCatchupCount texts coll t (buildCatchupCountPipeline spec lo hi) with
  | .ok n => (.ok n, t + 1)
  | .error e =>
    if h : isWireOverflowError e = true ∧ catchupMinPartitionWidth < hi - lo then
      let mid := lo + (hi - lo) / 2
      match runCatchupCountRange lo mid (t + 1) with
      | (.error e, t') => (.error e, t')
      | (.ok left, t') =>
        match runCatchupCountRange mid hi t' with
        | (.error e, t'') => (.error e, t'')
        | (.ok right, t'') => (.ok (left + right), t'')
    else (.error e, t + 1)
termination_by hi - lo
decreasing_by
  · rw [catchupMinPartitionWidth] at h
    omega
  · rw [catchupMinPartitionWidth] at h
    omega

/-- The sum over ranges, up to the first that is not complete. -/
def sweepRanges : List (ℕ × ℕ) → ℕ → ℕ → Except String ℕ × ℕ
  | [], total, t => (.ok total, t)
  | (lo, hi) :: ranges, total, t =>
    match runCatchupCountRange texts spec coll lo hi t with
    | (.error e, t') => (.error e, t')
    | (.ok count, t') =>
      if count < hi - lo then (.ok (total + count), t')
      else sweepRanges ranges (total + count) t'

def runPartitionedCatchupCount (expectedCount width t : ℕ) : Except String ℕ × ℕ :=
  sweepRanges texts spec coll (partitionRanges expectedCount width).reverse 0 t

structure CatchupPlan where
  want : ℕ
  deadlineSecs : ℕ

def catchupPlan (expectedCount : ℕ) : CatchupPlan := ⟨expectedCount, 600 + expectedCount / 1000⟩

structure IndexCoverage where
  searchable : ℕ
  expected : ℕ

def catchupFailed (expectedCount lastSeen round : ℕ) (lastError : Option String) : String :=
  let last := lastError.getD "none"
  s!"MongoDB index catch-up FAILED: only {lastSeen} of {expectedCount} documents " ++
    s!"({texts.percent lastSeen expectedCount}%) were searchable after " ++
    s!"{texts.elapsed round}s. Refusing to run the search phase against a partially built " ++
    "index — any recall it produced would be measured against that fraction of the corpus, " ++
    s!"not the corpus the ground truth describes. Last probe error: {last}"

/-- The rounds of the gate until the deadline has passed, at most `rounds` of them: what it
returns, and the tick then. -/
def waitForIndexCatchup (expectedCount : ℕ) (overdue : ℕ → ℕ → Bool) :
    ℕ → ℕ → ℕ → ℕ → Option (Except String IndexCoverage × ℕ)
  | 0, _, _, _ => none
  | rounds + 1, round, lastSeen, t =>
    let plan := catchupPlan expectedCount
    match runPartitionedCatchupCount texts spec coll expectedCount catchupPartitionWidth t with
    | (.ok searchable, t') =>
      if plan.want ≤ searchable then some (.ok ⟨searchable, expectedCount⟩, t')
      else if overdue plan.deadlineSecs round then
        some (.error (catchupFailed texts expectedCount searchable round none), t')
      else waitForIndexCatchup expectedCount overdue rounds (round + 1) searchable t'
    | (.error e, t') =>
      if overdue plan.deadlineSecs round then
        some (.error (catchupFailed texts expectedCount lastSeen round (some e)), t')
      else waitForIndexCatchup expectedCount overdue rounds (round + 1) lastSeen t'

end Gate

/-! ## An index -/

/-- How many of the ids are in a range. -/
def countIn (ids : Finset ℕ) (lo hi : ℕ) : ℕ := (ids.filter fun id ↦ lo ≤ id ∧ id < hi).card

/-- A reply with a count, which is no document when there is nothing to count. -/
inductive CountReply (c : ℕ) : List (Except String Document) → Prop
  | none (h : c = 0) : CountReply c []
  | int32 : CountReply c [.ok [("n", .int32 c)]]
  | int64 : CountReply c [.ok [("n", .int64 c)]]

/-- An index over the documents `0 … n - 1` that only grows, and whose server counts what is
searchable in a range, or fails. -/
structure Index (n : ℕ) (spec : ProbeSpec) (coll : Collection) where
  searchable : ℕ → Finset ℕ
  grows : ∀ t, searchable t ⊆ searchable (t + 1)
  ids : ∀ t, searchable t ⊆ Finset.range n
  answers : ∀ t lo hi docs, coll t (buildCatchupCountPipeline spec lo hi) = .ok docs →
    CountReply (countIn (searchable t) lo hi) docs ∨ ∃ e, docs = [.error e]

theorem countIn_mono {ids ids' : Finset ℕ} (h : ids ⊆ ids') (lo hi : ℕ) :
    countIn ids lo hi ≤ countIn ids' lo hi := Finset.card_le_card (Finset.filter_subset_filter _ h)

/-- Two halves of a range. -/
theorem countIn_add (ids : Finset ℕ) {lo mid hi : ℕ} (hlo : lo ≤ mid) (hhi : mid ≤ hi) :
    countIn ids lo mid + countIn ids mid hi = countIn ids lo hi := by
  rw [countIn, countIn, countIn, ← Finset.card_union_of_disjoint]
  · congr 1
    ext id
    rw [Finset.mem_union, Finset.mem_filter, Finset.mem_filter, Finset.mem_filter, ← and_or_left]
    refine and_congr_right fun _ ↦ ?_
    omega
  · rw [Finset.disjoint_filter]
    intro id _ hleft hright
    omega

theorem countIn_all {n : ℕ} {ids : Finset ℕ} (h : ids ⊆ Finset.range n) :
    countIn ids 0 n = ids.card := by
  rw [countIn, Finset.filter_true_of_mem]
  exact fun id hid ↦ ⟨Nat.zero_le id, Finset.mem_range.mp (h hid)⟩

/-- All ids of a range. -/
theorem countIn_range {n lo hi : ℕ} (h : hi ≤ n) : countIn (Finset.range n) lo hi = hi - lo := by
  rw [countIn, ← Nat.card_Ico]
  congr 1
  ext id
  rw [Finset.mem_filter, Finset.mem_range, Finset.mem_Ico]
  omega

section Runs

variable {texts : Texts} {spec : ProbeSpec} {coll : Collection} {n : ℕ}

namespace Index

variable (I : Index n spec coll)

theorem searchable_mono {t t' : ℕ} (h : t ≤ t') : I.searchable t ⊆ I.searchable t' := by
  induction t', h using Nat.le_induction with
  | base => exact subset_rfl
  | succ t' _ ih => exact ih.trans (I.grows t')

/-- A probe that returns a count returns what is searchable. -/
theorem count_of_probe {t lo hi c : ℕ}
    (h : runCatchupCount texts coll t (buildCatchupCountPipeline spec lo hi) = .ok c) :
    c = countIn (I.searchable t) lo hi := by
  unfold runCatchupCount at h
  split at h
  · cases h
  · next docs hdocs =>
      rcases I.answers t lo hi docs hdocs with hreply | ⟨e, rfl⟩
      · cases hreply with
        | none hzero =>
            cases h
            exact hzero.symm
        | int32 =>
            cases h
            rfl
        | int64 =>
            cases h
            rfl
      · cases h

end Index

/-! ## A range -/

/-- What is known after the probes of a range: some were made, not more than twice its width,
and what they counted is searchable now. -/
structure RangeRun (I : Index n spec coll) (lo hi t : ℕ) (r : Except String ℕ × ℕ) : Prop where
  later : t < r.2
  probes : lo < hi → r.2 + 1 ≤ t + 2 * (hi - lo)
  count : ∀ c, r.1 = .ok c → c ≤ countIn (I.searchable r.2) lo hi

theorem rangeRun (texts : Texts) (I : Index n spec coll) (lo hi t : ℕ) :
    RangeRun I lo hi t (runCatchupCountRange texts spec coll lo hi t) := by
  fun_induction runCatchupCountRange texts spec coll lo hi t with
  | case1 lo hi t c hprobe =>
      refine ⟨Nat.lt_succ_self t, fun h ↦ ?_, fun c' hc ↦ ?_⟩
      · dsimp only
        omega
      · cases hc
        rw [I.count_of_probe hprobe]
        exact countIn_mono (I.grows t) lo hi
  | case2 lo hi t e hprobe h mid e' t' hleft ih =>
      have hwidth := h.2
      rw [catchupMinPartitionWidth] at hwidth
      rw [hleft] at ih
      refine ⟨(Nat.lt_succ_self t).trans ih.later, fun _ ↦ ?_, fun c hc ↦ by cases hc⟩
      have hprobes := ih.probes (by omega)
      dsimp only at hprobes ⊢
      omega
  | case3 lo hi t e hprobe h mid left t' hleft e' t'' hright ih ih' =>
      have hwidth := h.2
      rw [catchupMinPartitionWidth] at hwidth
      rw [hleft] at ih
      rw [hright] at ih'
      refine ⟨((Nat.lt_succ_self t).trans ih.later).trans ih'.later, fun _ ↦ ?_,
        fun c hc ↦ by cases hc⟩
      have hprobes := ih.probes (by omega)
      have hprobes' := ih'.probes (by omega)
      dsimp only at hprobes hprobes' ⊢
      omega
  | case4 lo hi t e hprobe h mid left t' hleft right t'' hright ih ih' =>
      have hwidth := h.2
      rw [catchupMinPartitionWidth] at hwidth
      rw [hleft] at ih
      rw [hright] at ih'
      refine ⟨((Nat.lt_succ_self t).trans ih.later).trans ih'.later, fun _ ↦ ?_, fun c hc ↦ ?_⟩
      · have hprobes := ih.probes (by omega)
        have hprobes' := ih'.probes (by omega)
        dsimp only at hprobes hprobes' ⊢
        omega
      · cases hc
        have hadd := countIn_add (I.searchable t'') (show lo ≤ mid by omega)
          (show mid ≤ hi by omega)
        have hlater := countIn_mono (I.searchable_mono ih'.later.le) lo mid
        have hcount := ih.count left rfl
        have hcount' := ih'.count right rfl
        dsimp only at hlater hcount hcount' ⊢
        omega
  | case5 lo hi t e hprobe h =>
      refine ⟨Nat.lt_succ_self t, fun hlt ↦ ?_, fun c hc ↦ by cases hc⟩
      dsimp only
      omega

/-- An index that has been complete from a tick on, whose probes fail only because a reply is
too large, and only on ranges that are halved. -/
structure CompleteFrom (I : Index n spec coll) (texts : Texts) (t : ℕ) : Prop where
  searchable : I.searchable t = Finset.range n
  fails : ∀ t', t ≤ t' → ∀ lo hi e,
    runCatchupCount texts coll t' (buildCatchupCountPipeline spec lo hi) = .error e →
      isWireOverflowError e = true ∧ catchupMinPartitionWidth < hi - lo

theorem CompleteFrom.later {I : Index n spec coll} {t t' : ℕ} (h : CompleteFrom I texts t)
    (hle : t ≤ t') : CompleteFrom I texts t' := by
  refine ⟨?_, fun t'' hle' ↦ h.fails t'' (hle.trans hle')⟩
  apply (I.ids t').antisymm
  rw [← h.searchable]
  exact I.searchable_mono hle

/-- On a complete index the whole range is counted. -/
theorem runCatchupCountRange_complete (I : Index n spec coll) (lo : ℕ) {hi t : ℕ} (hhi : hi ≤ n)
    (h : CompleteFrom I texts t) :
    (runCatchupCountRange texts spec coll lo hi t).1 = .ok (hi - lo) := by
  fun_induction runCatchupCountRange texts spec coll lo hi t with
  | case1 lo hi t c hprobe =>
      rw [I.count_of_probe hprobe, h.searchable, countIn_range hhi]
  | case2 lo hi t e hprobe hwidth mid e' t' hleft ih =>
      rw [hleft] at ih
      have hok := ih (by omega) (h.later (Nat.le_succ t))
      cases hok
  | case3 lo hi t e hprobe hwidth mid left t' hleft e' t'' hright ih ih' =>
      have hrun := rangeRun texts I lo mid (t + 1)
      rw [hleft] at hrun
      rw [hright] at ih'
      have hok := ih' hhi (h.later ((Nat.le_succ t).trans hrun.later.le))
      cases hok
  | case4 lo hi t e hprobe hwidth mid left t' hleft right t'' hright ih ih' =>
      have hrun := rangeRun texts I lo mid (t + 1)
      rw [hleft] at hrun ih
      rw [hright] at ih'
      have hok := ih (by omega) (h.later (Nat.le_succ t))
      have hok' := ih' hhi (h.later ((Nat.le_succ t).trans hrun.later.le))
      cases hok
      cases hok'
      refine congrArg Except.ok ?_
      omega
  | case5 lo hi t e hprobe hwidth => exact absurd (h.fails t le_rfl lo hi e hprobe) hwidth

/-! ## A sweep -/

/-- Ranges that follow each other from `lo` up to `hi`. -/
inductive Tiles : ℕ → ℕ → List (ℕ × ℕ) → Prop
  | nil (lo : ℕ) : Tiles lo lo []
  | cons {lo mid hi : ℕ} {ranges : List (ℕ × ℕ)} (hlt : lo < mid) (h : Tiles mid hi ranges) :
    Tiles lo hi ((lo, mid) :: ranges)

theorem tiles_partitionFrom {width lo : ℕ} (h : lo ≤ n) :
    Tiles lo n (partitionFrom n width lo) := by
  fun_induction partitionFrom n width lo with
  | case1 lo hlt hi ih => exact .cons (by omega) (ih (by omega))
  | case2 lo hge =>
      obtain rfl := le_antisymm h (not_lt.mp hge)
      exact .nil lo

namespace Tiles

variable {lo hi : ℕ} {ranges : List (ℕ × ℕ)}

theorem le (h : Tiles lo hi ranges) : lo ≤ hi := by
  induction h with
  | nil lo => exact le_rfl
  | cons hlt _ ih => exact hlt.le.trans ih

/-- The ranges count every id once. -/
theorem sum_countIn (h : Tiles lo hi ranges) (ids : Finset ℕ) :
    (ranges.map fun r ↦ countIn ids r.1 r.2).sum = countIn ids lo hi := by
  induction h with
  | nil lo =>
      rw [List.map_nil, List.sum_nil, countIn, Finset.filter_false_of_mem, Finset.card_empty]
      omega
  | cons hlt h ih => rw [List.map_cons, List.sum_cons, ih, countIn_add ids hlt.le h.le]

theorem sum_width (h : Tiles lo hi ranges) : (ranges.map fun r ↦ r.2 - r.1).sum = hi - lo := by
  induction h with
  | nil lo => simp
  | cons hlt h ih =>
      have hle := h.le
      rw [List.map_cons, List.sum_cons, ih]
      omega

theorem lt_and_le (h : Tiles lo hi ranges) : ∀ r ∈ ranges, r.1 < r.2 ∧ r.2 ≤ hi := by
  induction h with
  | nil lo => exact fun r hr ↦ absurd hr List.not_mem_nil
  | cons hlt h ih =>
      rw [List.forall_mem_cons]
      exact ⟨⟨hlt, h.le⟩, ih⟩

end Tiles

/-- What is known after a sweep over ranges. -/
structure SweepRun (I : Index n spec coll) (ranges : List (ℕ × ℕ)) (total t : ℕ)
    (r : Except String ℕ × ℕ) : Prop where
  later : t ≤ r.2
  probes : r.2 ≤ t + 2 * (ranges.map fun r ↦ r.2 - r.1).sum
  count : ∀ c, r.1 = .ok c →
    c ≤ total + (ranges.map fun range ↦ countIn (I.searchable r.2) range.1 range.2).sum

theorem sweepRun (texts : Texts) (I : Index n spec coll) {ranges : List (ℕ × ℕ)} (total t : ℕ)
    (h : ∀ r ∈ ranges, r.1 < r.2) :
    SweepRun I ranges total t (sweepRanges texts spec coll ranges total t) := by
  induction ranges generalizing total t with
  | nil =>
      refine ⟨le_rfl, Nat.le_add_right _ _, fun c hc ↦ ?_⟩
      cases hc
      exact Nat.le_add_right _ _
  | cons range ranges ih =>
      obtain ⟨lo, hi⟩ := range
      rw [List.forall_mem_cons] at h
      have hrun := rangeRun texts I lo hi t
      have hprobes := hrun.probes h.1
      rw [sweepRanges]
      split
      · next e t' heq =>
          rw [heq] at hrun hprobes
          refine ⟨hrun.later.le, ?_, fun c hc ↦ by cases hc⟩
          rw [List.map_cons, List.sum_cons]
          dsimp only at hprobes ⊢
          omega
      · next count t' heq =>
          rw [heq] at hrun hprobes
          have hcount := hrun.count count rfl
          dsimp only at hprobes hcount
          split_ifs with hshort
          · refine ⟨hrun.later.le, ?_, fun c hc ↦ ?_⟩
            · rw [List.map_cons, List.sum_cons]
              dsimp only
              omega
            · cases hc
              rw [List.map_cons, List.sum_cons]
              dsimp only
              omega
          · obtain ⟨hlater, hrest, hsum⟩ := ih (total + count) t' h.2
            refine ⟨hrun.later.le.trans hlater, ?_, fun c hc ↦ ?_⟩
            · rw [List.map_cons, List.sum_cons]
              dsimp only
              omega
            · have hmono := countIn_mono (I.searchable_mono hlater) lo hi
              have hc' := hsum c hc
              rw [List.map_cons, List.sum_cons]
              dsimp only
              omega

theorem sweepRanges_complete (I : Index n spec coll) {ranges : List (ℕ × ℕ)} (total : ℕ) {t : ℕ}
    (hranges : ∀ r ∈ ranges, r.1 < r.2 ∧ r.2 ≤ n) (h : CompleteFrom I texts t) :
    (sweepRanges texts spec coll ranges total t).1 =
      .ok (total + (ranges.map fun r ↦ r.2 - r.1).sum) := by
  induction ranges generalizing total t with
  | nil => rfl
  | cons range ranges ih =>
      obtain ⟨lo, hi⟩ := range
      rw [List.forall_mem_cons] at hranges
      have hrun := rangeRun texts I lo hi t
      have hcomplete := runCatchupCountRange_complete I lo hranges.1.2 h
      rw [sweepRanges]
      split
      · next e t' heq =>
          rw [heq] at hcomplete
          cases hcomplete
      · next count t' heq =>
          rw [heq] at hcomplete hrun
          have hcount : count = hi - lo := Except.ok.inj hcomplete
          rw [if_neg (not_lt.mpr hcount.ge), ih _ hranges.2 (h.later hrun.later.le), List.map_cons,
            List.sum_cons, hcount, Nat.add_assoc]

theorem tiles_partitionRanges (n width : ℕ) : Tiles 0 n (partitionRanges n width) :=
  tiles_partitionFrom (Nat.zero_le n)

/-- A sweep over all documents. -/
theorem partitionedRun (texts : Texts) (I : Index n spec coll) (width t : ℕ) :
    SweepRun I (partitionRanges n width).reverse 0 t
      (runPartitionedCatchupCount texts spec coll n width t) := by
  apply sweepRun
  intro r hr
  exact ((tiles_partitionRanges n width).lt_and_le r (List.mem_reverse.mp hr)).1

theorem SweepRun.probes_le {I : Index n spec coll} {width t : ℕ} {r : Except String ℕ × ℕ}
    (h : SweepRun I (partitionRanges n width).reverse 0 t r) : r.2 ≤ t + 2 * n := by
  have hprobes := h.probes
  rwa [List.map_reverse, List.sum_reverse, (tiles_partitionRanges n width).sum_width] at hprobes

theorem SweepRun.le_card {I : Index n spec coll} {width t c : ℕ} {r : Except String ℕ × ℕ}
    (h : SweepRun I (partitionRanges n width).reverse 0 t r) (hc : r.1 = .ok c) :
    c ≤ (I.searchable r.2).card := by
  have hcount := h.count c hc
  rwa [List.map_reverse, List.sum_reverse, (tiles_partitionRanges n width).sum_countIn,
    countIn_all (I.ids r.2), Nat.zero_add] at hcount

/-- Of all documents none is missing. -/
theorem Index.eq_range_of_le_card (I : Index n spec coll) {t : ℕ} (h : n ≤ (I.searchable t).card) :
    I.searchable t = Finset.range n := by
  apply Finset.eq_of_subset_of_card_le (I.ids t)
  rwa [Finset.card_range]

/-! ## The gate -/

/-- The gate returns after a sweep that has counted all documents. -/
theorem exists_sweep_of_wait {overdue : ℕ → ℕ → Bool} {rounds round lastSeen t t' : ℕ}
    {coverage : IndexCoverage}
    (h : waitForIndexCatchup texts spec coll n overdue rounds round lastSeen t =
      some (.ok coverage, t')) :
    ∃ t₀, runPartitionedCatchupCount texts spec coll n catchupPartitionWidth t₀ =
      (.ok coverage.searchable, t') ∧ n ≤ coverage.searchable ∧ coverage.expected = n := by
  induction rounds generalizing round lastSeen t with
  | zero => cases h
  | succ rounds ih =>
      rw [waitForIndexCatchup] at h
      split at h
      · next searchable t'' heq =>
          split_ifs at h with hwant hoverdue
          · cases h
            exact ⟨t, heq, hwant, rfl⟩
          · cases h
          · exact ih h
      · next e t'' heq =>
          split_ifs at h with hoverdue
          · cases h
          · exact ih h

/-- **The gate is complete.**  A sweep ends, what it counts is searchable at its end, on a
complete index it counts everything, and the gate only opens when all documents are
searchable. -/
theorem catchup_complete (texts : Texts) (I : Index n spec coll) (width t : ℕ) :
    (runPartitionedCatchupCount texts spec coll n width t).2 ≤ t + 2 * n ∧
      (∀ c t', runPartitionedCatchupCount texts spec coll n width t = (.ok c, t') →
        c ≤ (I.searchable t').card ∧ (n ≤ c → ∀ id < n, id ∈ I.searchable t')) ∧
      (CompleteFrom I texts t →
        (runPartitionedCatchupCount texts spec coll n width t).1 = .ok n) ∧
      ∀ overdue rounds coverage t', waitForIndexCatchup texts spec coll n overdue rounds 0 0 t =
          some (.ok coverage, t') →
        (∃ t₀, runPartitionedCatchupCount texts spec coll n catchupPartitionWidth t₀ =
          (.ok coverage.searchable, t')) ∧ n ≤ coverage.searchable ∧
          ∀ id < n, id ∈ I.searchable t' := by
  have hsweep : ∀ {width t c t'},
      runPartitionedCatchupCount texts spec coll n width t = (.ok c, t') →
        c ≤ (I.searchable t').card := by
    intro width t c t' heq
    have hrun := partitionedRun texts I width t
    rw [heq] at hrun
    exact hrun.le_card rfl
  have hall : ∀ {t c : ℕ}, c ≤ (I.searchable t).card → n ≤ c → ∀ id < n, id ∈ I.searchable t := by
    intro t c hc hn id hid
    rw [I.eq_range_of_le_card (hn.trans hc)]
    exact Finset.mem_range.mpr hid
  refine ⟨(partitionedRun texts I width t).probes_le,
    fun c t' heq ↦ ⟨hsweep heq, hall (hsweep heq)⟩,
    fun hcomplete ↦ ?_, fun overdue rounds coverage t' hwait ↦ ?_⟩
  · have htiles := tiles_partitionRanges n width
    have hok := sweepRanges_complete I 0
      (fun r hr ↦ htiles.lt_and_le r (List.mem_reverse.mp hr)) hcomplete
    rwa [List.map_reverse, List.sum_reverse, htiles.sum_width, Nat.zero_add] at hok
  · obtain ⟨t₀, heq, hn, -⟩ := exists_sweep_of_wait hwait
    exact ⟨⟨t₀, heq⟩, hn, hall (hsweep heq) hn⟩

end Runs

/-! ### An index that is complete -/

def plainSpec : ProbeSpec := ⟨"vector_index", [], .vectorSearchStage⟩

def plainTexts : Texts := ⟨fun _ ↦ "", fun _ _ ↦ "", fun _ ↦ ""⟩

/-- A server that counts all documents of a range. -/
def fullCollection (n : ℕ) : Collection := fun _ p ↦
  .ok [.ok [("n", .int32 (countIn (Finset.range n) p.gte p.lt))]]

def fullIndex (n : ℕ) : Index n plainSpec (fullCollection n) where
  searchable _ := Finset.range n
  grows _ := subset_rfl
  ids _ := subset_rfl
  answers t lo hi docs h := by
    cases h
    exact .inl .int32

theorem catchup_complete_full :
    (runPartitionedCatchupCount plainTexts plainSpec (fullCollection 1200000) 1200000 50000 0).1 =
      .ok 1200000 := by
  apply (catchup_complete plainTexts (fullIndex 1200000) 50000 0).2.2.1
  refine ⟨rfl, fun t' _ lo hi e h ↦ ?_⟩
  cases h

end VectorDbBenchmark.Mongo
