import Mathlib.Algebra.Order.Floor.Semiring
import Mathlib.Data.Rat.Floor
import VectorDbBenchmark.Kit.Ordered
import VectorDbBenchmark.Results.ResultsDump

/-!
# Statistics of a timed search

`compute_search_stats`, `zero_search_results` and `attach_open_loop_metrics` of
`engine/mod.rs`, over exact rationals; the square root is a parameter.
-/

namespace VectorDbBenchmark.Search

open Kit Results

/-- An open-loop plan; the times are nanoseconds. -/
structure OpenLoopPlan where
  targetQps : ℚ
  totalRequests : ℕ
  maxLateness : ℕ
  lateThreshold : ℕ

def OpenLoopPlan.isLate (plan : OpenLoopPlan) (delay : ℕ) : Bool := plan.lateThreshold < delay

structure SearchResults where
  totalTime : ℚ := 0
  meanTime : ℚ := 0
  meanPrecisionAtReturned : ℚ := 0
  meanRecall : ℚ := 0
  recallP10 : ℚ := 0
  meanMrr : ℚ := 0
  meanNdcg : ℚ := 0
  recalls : List ℚ := []
  mrrs : List ℚ := []
  ndcgs : List ℚ := []
  stdTime : ℚ := 0
  minTime : ℚ := 0
  maxTime : ℚ := 0
  rps : ℚ := 0
  p50Time : ℚ := 0
  p90Time : ℚ := 0
  p95Time : ℚ := 0
  p99Time : ℚ := 0
  precisionsAtReturned : List ℚ := []
  latencies : List ℚ := []
  top : ℕ := 0
  /-- Queries that succeeded. -/
  numQueries : ℕ := 0
  requestedQueries : ℕ := 0
  failedQueries : ℕ := 0
  parallel : ℕ := 0
  targetQps : Option ℚ := none
  offeredQueries : Option ℕ := none
  droppedQueries : ℕ := 0
  lateQueries : ℕ := 0
  scheduleDelayP50Time : Option ℚ := none
  scheduleDelayP90Time : Option ℚ := none
  scheduleDelayP95Time : Option ℚ := none
  scheduleDelayP99Time : Option ℚ := none
  endToEndP50Time : Option ℚ := none
  endToEndP90Time : Option ℚ := none
  endToEndP95Time : Option ℚ := none
  endToEndP99Time : Option ℚ := none
  queryRecords : Option (List RawQueryResult) := none

/-- Linear interpolation between the two neighbouring samples. -/
def percentileLinear (sorted : List ℚ) (q : ℚ) : ℚ :=
  match sorted with
  | [] => 0
  | [x] => x
  | _ =>
    let rank := q * (sorted.length - 1)
    let lo := ⌊rank⌋₊
    let hi := ⌈rank⌉₊
    if lo = hi then sorted.getD lo 0
    else
      let frac := rank - lo
      sorted.getD lo 0 * (1 - frac) + sorted.getD hi 0 * frac

def mean (v : List ℚ) : ℚ := if v.isEmpty then 0 else v.sum / v.length

def computeSearchStats (sqrt : ℚ → ℚ) (times precisions recalls mrrs ndcgs : List ℚ)
    (totalTime : ℚ) (top parallel requestedQueries : ℕ) : Except String SearchResults :=
  match times with
  | [] => .error "No searches completed"
  | time :: rest =>
    let times := time :: rest
    let meanTime := mean times
    let sorted := sortByKey id times
    .ok
      { totalTime
        meanTime
        meanPrecisionAtReturned := mean precisions
        meanRecall := mean recalls
        recallP10 := if recalls.isEmpty then 0 else percentileLinear (sortByKey id recalls) (1 / 10)
        meanMrr := mean mrrs
        meanNdcg := mean ndcgs
        recalls
        mrrs
        ndcgs
        stdTime := sqrt ((times.map fun t ↦ (t - meanTime) ^ 2).sum / times.length)
        minTime := rest.foldl min time
        maxTime := rest.foldl max time
        rps := times.length / totalTime
        p50Time := percentileLinear sorted (1 / 2)
        p90Time := percentileLinear sorted (9 / 10)
        p95Time := percentileLinear sorted (95 / 100)
        p99Time := percentileLinear sorted (99 / 100)
        precisionsAtReturned := precisions
        latencies := times
        top
        numQueries := times.length
        requestedQueries
        failedQueries := requestedQueries - times.length
        parallel }

/-- The results of a run in which no query succeeded. -/
def zeroSearchResults (totalTime : ℚ) (top parallel attempted : ℕ) : SearchResults :=
  { totalTime, rps := 0, top, numQueries := 0, requestedQueries := attempted,
    failedQueries := attempted, parallel }

def attachOpenLoopMetrics (results : SearchResults) (plan : OpenLoopPlan)
    (scheduleDelays endToEndLatencies : List ℚ) (droppedQueries lateQueries : ℕ) :
    SearchResults :=
  let sd := percentileLinear (sortByKey id scheduleDelays)
  let e2e := percentileLinear (sortByKey id endToEndLatencies)
  { results with
    targetQps := some plan.targetQps
    offeredQueries := some plan.totalRequests
    droppedQueries
    lateQueries
    scheduleDelayP50Time := some (sd (1 / 2))
    scheduleDelayP90Time := some (sd (9 / 10))
    scheduleDelayP95Time := some (sd (95 / 100))
    scheduleDelayP99Time := some (sd (99 / 100))
    endToEndP50Time := some (e2e (1 / 2))
    endToEndP90Time := some (e2e (9 / 10))
    endToEndP95Time := some (e2e (95 / 100))
    endToEndP99Time := some (e2e (99 / 100)) }

/-! ## The counts of the results -/

/-- What results say about a number of successes and failures. -/
structure SearchResults.Counts (r : SearchResults) (succeeded failed : ℕ) : Prop where
  requested : r.requestedQueries = succeeded + failed
  num : r.numQueries = succeeded
  failed : r.failedQueries = failed

theorem computeSearchStats_counts {sqrt : ℚ → ℚ} {times precisions recalls mrrs ndcgs : List ℚ}
    {totalTime : ℚ} {top parallel failed : ℕ} {r : SearchResults}
    (h : computeSearchStats sqrt times precisions recalls mrrs ndcgs totalTime top parallel
      (times.length + failed) = .ok r) : r.Counts times.length failed := by
  cases times with
  | nil => cases h
  | cons time rest =>
      cases h
      exact ⟨rfl, rfl, Nat.add_sub_cancel_left _ _⟩

theorem zeroSearchResults_counts (totalTime : ℚ) (top parallel failed : ℕ) :
    (zeroSearchResults totalTime top parallel failed).Counts 0 failed :=
  ⟨(Nat.zero_add _).symm, rfl, rfl⟩

theorem attachOpenLoopMetrics_counts {r : SearchResults} {succeeded failed : ℕ}
    (h : r.Counts succeeded failed) (plan : OpenLoopPlan) (sd e2e : List ℚ) (dropped late : ℕ) :
    (attachOpenLoopMetrics r plan sd e2e dropped late).Counts succeeded failed :=
  ⟨h.requested, h.num, h.failed⟩

end VectorDbBenchmark.Search
