import Mathlib.Data.Nat.Log
import Mathlib.Order.Bounds.Basic
import VectorDbBenchmark.JsonFields
import VectorDbBenchmark.Kit.LastWins
import VectorDbBenchmark.Kit.Walk
import VectorDbBenchmark.QueryMetrics
import VectorDbBenchmark.Search.Stats

/-!
# The calibration of a search parameter

The widths of the ground truth (`ground_truth.rs`), which bound the precision that a search can
have, and the loop that looks for the value of a parameter whose precision is the target
(`calibrate` of `experiment.rs`).  Numbers are exact; how a float prints is a parameter.  The sum
of the two bounds wraps as an `i64` does.
-/

namespace VectorDbBenchmark.Search

open Kit Quality

universe u

/-! ## Ground-truth widths -/

structure GroundTruthStats where
  queries : ℕ
  top : ℕ
  meanWidth : ℚ
  minWidth : ℕ
  queriesBelowTop : ℕ
  recallAtTopCeiling : ℚ

/-- The valid ids that a row contributes. -/
def validWidth (row : List ℤ) (top : ℕ) : ℕ := ((row.filter (0 ≤ ·)).take top).toFinset.card

def groundTruthStats (rows : List (List ℤ)) (top : ℕ) : Option GroundTruthStats :=
  if top = 0 ∨ rows = [] then none
  else
    let widths := rows.map (validWidth · top)
    let meanWidth := (widths.sum : ℚ) / widths.length
    some
      { queries := widths.length
        top
        meanWidth
        minWidth := widths.min?.getD 0
        queriesBelowTop := widths.countP (· < top)
        recallAtTopCeiling := meanWidth / top }

section Notes

variable (fixed : ℕ → ℚ → String)

def GroundTruthStats.unreachableTargetNote (s : GroundTruthStats) (target : ℚ) : Option String :=
  if target ≤ s.recallAtTopCeiling + 1 / 10 ^ 9 then none
  else
    some (s!"target precision {fixed 4 target} is above the ceiling this dataset allows: " ++
      s!"{s.queriesBelowTop} of {s.queries} queries have fewer than top={s.top} valid " ++
      s!"ground-truth neighbours (mean {fixed 2 s.meanWidth}, min {s.minWidth}), so " ++
      s!"mean_precision_at_returned cannot exceed {fixed 4 s.recallAtTopCeiling} for an engine " ++
      s!"that returns a full page of {s.top} results. Raising the calibrated parameter cannot " ++
      "close that gap — it will converge on the maximum value tried. Lower " ++
      s!"calibration_precision to <= {fixed 4 s.recallAtTopCeiling}, lower `top`, or calibrate " ++
      "against a dataset with full-width ground truth. (A filtered query that returns fewer " ++
      s!"than {s.top} results can score above this ceiling, so treat it as an estimate.)")

/-! ## The loop -/

structure InnerSearchParams where
  ef : Option ℤ
  extra : Option (List (String × Json))

/-- A search config; `rest` is what calibration does not look at. -/
structure SearchParams (ρ : Type u) where
  searchParams : Option InnerSearchParams
  top : Option ℤ
  rest : ρ

def canonicalKnobName : String → String
  | "ef" | "EF" => "ef"
  | other => other

/-- The config with a value for the calibrated parameter. -/
def SearchParams.withKnob {ρ : Type u} (params : SearchParams ρ) (knob : String) (value : ℤ) :
    SearchParams ρ :=
  let inner := params.searchParams.getD ⟨none, none⟩
  { params with
    searchParams := some <|
      if knob = "ef" then { inner with ef := some value }
      else { inner with extra := some (insertKey knob (Json.ofI64 value) (inner.extra.getD [])) } }

structure CalibrationOutcome where
  param : String
  value : ℤ
  target : ℚ
  /-- The precision that goes with the value. -/
  achieved : ℚ
  reachedTarget : Bool
  ceiling : Option ℚ
  note : Option String

def maxValue : ℤ := 1000

def finishCalibration (param : String) (value : ℤ) (achieved target : ℚ) (ceiling : Option ℚ)
    (unreachableNote : Option String) (minValue maxValue : ℤ) : CalibrationOutcome :=
  let reachedTarget := decide (target ≤ achieved + 1 / 10 ^ 9)
  let missed := s!"the sweep of `{param}` over [{minValue}, {maxValue}] topped out at " ++
    s!"mean_precision_at_returned={fixed 4 achieved}, below the target {fixed 4 target}" ++
    (if maxValue ≤ value then
      s!", with `{param}` pinned at the maximum swept value ({maxValue})" else "") ++
    ". The reported value is the closest point found, not a value that meets the target."
  { param, value, target, achieved, reachedTarget, ceiling
    note := if reachedTarget then none else some (unreachableNote.getD missed) }

/-- The middle, rounded toward zero. -/
def middle (a b : ℤ) : ℤ := (Int64.ofInt (a + b)).toInt.tdiv 2

structure Bounds where
  lowerBound : ℤ
  upperBound : ℤ
  lowerVisited : Bool
  upperVisited : Bool

namespace Bounds

/-- A search at a value makes it one of the bounds. -/
def move (b : Bounds) (above : Prop) [Decidable above] (current : ℤ) : Bounds :=
  if above then { b with upperBound := current, upperVisited := true }
  else { b with lowerBound := current, lowerVisited := true }

def nextValue (b : Bounds) : ℤ := middle b.lowerBound b.upperBound

/-- The next value would be a bound that was searched with. -/
def Revisits (b : Bounds) : Prop :=
  b.lowerVisited = true ∧ b.nextValue = b.lowerBound ∨
    b.upperVisited = true ∧ b.nextValue = b.upperBound

instance (b : Bounds) : Decidable b.Revisits := inferInstanceAs (Decidable (_ ∨ _))

end Bounds

/-- What the loop knows; `tried` are the values that were searched with and the precision of
each, the last one first. -/
structure Sweep where
  bounds : Bounds
  current : ℤ
  previous : ℤ
  previousPrecision : ℚ
  tried : List (ℤ × ℚ)

variable {ρ : Type u}

/-- `engine` answers a search, which may depend on the searches before it. -/
def calibrateStep (engine : List (ℤ × ℚ) → SearchParams ρ → Except String SearchResults)
    (params : SearchParams ρ) (knob : String) (target : ℚ)
    (finish : ℤ → ℚ → CalibrationOutcome) (s : Sweep) : Sweep ⊕ Except String CalibrationOutcome :=
  match engine s.tried (params.withKnob knob s.current) with
  | .error e => .inr (.error e)
  | .ok results =>
    let precision := results.meanPrecisionAtReturned
    if |precision - target| < 1 / 10 ^ 9 then .inr (.ok (finish s.current precision))
    else
      let bounds := s.bounds.move (target < precision) s.current
      if bounds.Revisits then
        if |s.previousPrecision - target| < |precision - target| then
          .inr (.ok (finish s.previous s.previousPrecision))
        else .inr (.ok (finish s.current precision))
      else
        .inl
          { bounds
            current := bounds.nextValue
            previous := s.current
            previousPrecision := precision
            tried := (s.current, precision) :: s.tried }

def minValue (params : SearchParams ρ) : ℤ := params.top.getD 10

def startSweep (minValue : ℤ) : Sweep :=
  { bounds := ⟨minValue, maxValue, false, false⟩
    current := middle minValue maxValue
    previous := middle minValue maxValue
    previousPrecision := 0
    tried := [] }

/-- The widths at the result limit of the config, else at the width of the first row. -/
def calibrationStats (params : SearchParams ρ) (groundTruth : Option (List (List ℤ))) :
    Option GroundTruthStats :=
  groundTruth.bind fun rows ↦
    let top := (params.top.bind fun t ↦ if 0 ≤ t then some t.toNat else none).orElse fun _ ↦
      rows.head?.map List.length
    top.bind (groundTruthStats rows)

def calibrationOutcome (params : SearchParams ρ) (knob : String) (target : ℚ)
    (groundTruth : Option (List (List ℤ))) (value : ℤ) (achieved : ℚ) : CalibrationOutcome :=
  let stats := calibrationStats params groundTruth
  finishCalibration fixed knob value achieved target (stats.map (·.recallAtTopCeiling))
    (stats.bind fun s ↦ s.unreachableTargetNote fixed target) (minValue params) maxValue

def calibrate (engine : List (ℤ × ℚ) → SearchParams ρ → Except String SearchResults)
    (params : SearchParams ρ) (calibrationParam : String) (target : ℚ)
    (groundTruth : Option (List (List ℤ))) (fuel : ℕ) :
    Option (Except String CalibrationOutcome) :=
  let knob := canonicalKnobName calibrationParam
  Walk.run
    (calibrateStep engine params knob target
      (calibrationOutcome fixed params knob target groundTruth))
    fuel (startSweep (minValue params))

end Notes

/-! ## What full pages can reach -/

section FullPages

variable {top : ℕ} {row : List ℤ}

/-- An answer with `top` distinct ids or more. -/
def FullPage (top : ℕ) (resultIds : List ℤ) : Prop := (resultsTopk resultIds top).length = top

def meanPrecision (discount : ℕ → ℚ) (answers rows : List (List ℤ)) (top : ℕ) : ℚ :=
  mean (answers.zipWith (fun a row ↦ (computeMetrics discount a row top).precision) rows)

/-- A query with no truth counts as answered. -/
def rowCeiling (row : List ℤ) (top : ℕ) : ℚ :=
  if validWidth row top = 0 then 1 else (validWidth row top : ℚ) / top

theorem length_truthSet : (truthSet row top).length = validWidth row top :=
  (card_toFinset_eq_length_distinct _).symm

theorem precision_of_no_truth (discount : ℕ → ℚ) (resultIds : List ℤ) (htop : top ≠ 0)
    (htruth : validWidth row top = 0) :
    (computeMetrics discount resultIds row top).precision = 1 := by
  have hcount : (truthSet row top).length = 0 := length_truthSet.trans htruth
  rw [computeMetrics, if_neg htop]
  simp only [if_pos hcount]
  rfl

theorem precision_of_fullPage (discount : ℕ → ℚ) (htop : top ≠ 0) (htruth : validWidth row top ≠ 0)
    {resultIds : List ℤ} (hfull : FullPage top resultIds) :
    (computeMetrics discount resultIds row top).precision =
      (hits (truthSet row top) (resultsTopk resultIds top) : ℚ) / top := by
  have hlength : (resultsTopk resultIds top).length = top := hfull
  have hsome : (resultsTopk resultIds top).isEmpty = false := by
    rw [List.isEmpty_eq_false_iff_exists_mem]
    apply List.exists_mem_of_length_pos
    omega
  have hcount : (truthSet row top).length ≠ 0 := length_truthSet.trans_ne htruth
  rw [computeMetrics, if_neg htop]
  simp only [if_neg hcount, hsome, Bool.false_eq_true, if_false, hlength]

/-- On a full page the truth is at most what the row has of it. -/
theorem precision_le_rowCeiling (discount : ℕ → ℚ) (htop : top ≠ 0) {resultIds : List ℤ}
    (hfull : FullPage top resultIds) :
    (computeMetrics discount resultIds row top).precision ≤ rowCeiling row top := by
  rw [rowCeiling]
  split_ifs with htruth
  · exact (precision_of_no_truth discount resultIds htop htruth).le
  · rw [precision_of_fullPage discount htop htruth hfull]
    gcongr
    exact (hits_le_truth (nodup_resultsTopk resultIds top)).trans_eq length_truthSet

/-- The truth, and after it ids that the row does not have. -/
def bestPage (row : List ℤ) (top : ℕ) : List ℤ :=
  truthSet row top ++
    (List.range (top - validWidth row top)).map fun i : ℕ ↦
      (((row.map Int.natAbs).sum + 1 + i : ℕ) : ℤ)

theorem natAbs_le_of_mem_truthSet {id : ℤ} (h : id ∈ truthSet row top) :
    id.natAbs ≤ (row.map Int.natAbs).sum := by
  have hmem : id ∈ row :=
    (List.mem_filter.mp (List.mem_of_mem_take (mem_distinct.mp h))).1
  exact List.single_le_sum (fun _ _ ↦ Nat.zero_le _) _ (List.mem_map_of_mem hmem)

theorem nodup_bestPage : (bestPage row top).Nodup := by
  refine List.nodup_append.mpr ⟨nodup_distinct _, ?_, ?_⟩
  · refine List.nodup_range.map fun i j hij ↦ ?_
    omega
  · intro id hid other hother
    obtain ⟨i, -, rfl⟩ := List.mem_map.mp hother
    have hle := natAbs_le_of_mem_truthSet hid
    omega

theorem validWidth_le : validWidth row top ≤ top :=
  (List.toFinset_card_le _).trans (List.length_take_le _ _)

theorem length_bestPage : (bestPage row top).length = top := by
  rw [bestPage, List.length_append, List.length_map, List.length_range,
    length_truthSet, Nat.add_sub_cancel' validWidth_le]

theorem resultsTopk_bestPage : resultsTopk (bestPage row top) top = bestPage row top := by
  rw [resultsTopk, distinct_of_nodup nodup_bestPage]
  exact List.take_of_length_le length_bestPage.le

theorem fullPage_bestPage : FullPage top (bestPage row top) := by
  rw [FullPage, resultsTopk_bestPage, length_bestPage]

theorem hits_bestPage : hits (truthSet row top) (bestPage row top) = validWidth row top := by
  rw [hits, bestPage, List.countP_append, ← length_truthSet, List.countP_eq_length.mpr,
    Nat.add_eq_left, List.countP_eq_zero]
  · intro id hid hmem
    obtain ⟨i, -, rfl⟩ := List.mem_map.mp hid
    have hle := natAbs_le_of_mem_truthSet (of_decide_eq_true hmem)
    omega
  · intro id hid
    exact decide_eq_true hid

theorem precision_bestPage (discount : ℕ → ℚ) (htop : top ≠ 0) :
    (computeMetrics discount (bestPage row top) row top).precision = rowCeiling row top := by
  rw [rowCeiling]
  split_ifs with htruth
  · exact precision_of_no_truth discount _ htop htruth
  · rw [precision_of_fullPage discount htop htruth fullPage_bestPage, resultsTopk_bestPage,
      hits_bestPage]

variable {rows : List (List ℤ)}

theorem sum_precision_le (discount : ℕ → ℚ) (htop : top ≠ 0) {answers : List (List ℤ)}
    (hlength : answers.length = rows.length) (hfull : ∀ a ∈ answers, FullPage top a) :
    (answers.zipWith (fun a row ↦ (computeMetrics discount a row top).precision) rows).sum ≤
      (rows.map (rowCeiling · top)).sum := by
  induction rows generalizing answers with
  | nil => rw [List.zipWith_nil_right, List.map_nil]
  | cons row rows ih =>
      obtain ⟨a, answers, rfl⟩ := List.exists_cons_of_length_eq_add_one hlength
      rw [List.forall_mem_cons] at hfull
      rw [List.zipWith_cons_cons, List.map_cons, List.sum_cons, List.sum_cons]
      exact add_le_add (precision_le_rowCeiling discount htop hfull.1)
        (ih (Nat.succ.inj hlength) hfull.2)

theorem sum_precision_bestPage (discount : ℕ → ℚ) (htop : top ≠ 0) (rows : List (List ℤ)) :
    ((rows.map (bestPage · top)).zipWith
      (fun a row ↦ (computeMetrics discount a row top).precision) rows).sum =
      (rows.map (rowCeiling · top)).sum := by
  induction rows with
  | nil => rfl
  | cons row rows ih =>
      rw [List.map_cons, List.zipWith_cons_cons, List.map_cons, List.sum_cons, List.sum_cons, ih,
        precision_bestPage discount htop]

theorem sum_rowCeiling (rows : List (List ℤ)) :
    (rows.map (rowCeiling · top)).sum =
      ((rows.map (validWidth · top)).sum : ℚ) / top + rows.countP (validWidth · top = 0) := by
  induction rows with
  | nil => simp
  | cons row rows ih =>
      rw [List.map_cons, List.sum_cons, List.map_cons, List.sum_cons, List.countP_cons, ih,
        rowCeiling]
      by_cases hzero : validWidth row top = 0
      · simp only [hzero, if_true, decide_true, Nat.zero_add]
        push_cast
        ring
      · simp only [hzero, if_false, decide_false, Bool.false_eq_true, Nat.add_zero]
        push_cast
        ring

/-- The greatest precision that full pages have on the average is the ceiling, and what the
queries with no truth add to it. -/
theorem ceiling_isGreatest (discount : ℕ → ℚ) (rows : List (List ℤ)) (top : ℕ)
    (s : GroundTruthStats) (h : groundTruthStats rows top = some s) :
    IsGreatest
      {p | ∃ answers : List (List ℤ), answers.length = rows.length ∧
        (∀ a ∈ answers, FullPage top a) ∧ meanPrecision discount answers rows top = p}
      (s.recallAtTopCeiling + (rows.countP (validWidth · top = 0) : ℚ) / rows.length) := by
  rw [groundTruthStats] at h
  split_ifs at h with hnone
  obtain ⟨htop, hrows⟩ := not_or.mp hnone
  cases h
  have hmean : ∀ answers : List (List ℤ), answers.length = rows.length →
      meanPrecision discount answers rows top =
        (answers.zipWith (fun a row ↦ (computeMetrics discount a row top).precision) rows).sum /
          rows.length := by
    intro answers hlength
    have hlengths : (answers.zipWith
        (fun a row ↦ (computeMetrics discount a row top).precision) rows).length = rows.length := by
      rw [List.length_zipWith, hlength, Nat.min_self]
    rw [meanPrecision, mean, if_neg, hlengths]
    rw [List.isEmpty_iff, ← List.length_eq_zero_iff, hlengths, List.length_eq_zero_iff]
    exact hrows
  have hceiling : (rows.map (rowCeiling · top)).sum / rows.length =
      ((rows.map (validWidth · top)).sum : ℚ) / (rows.map (validWidth · top)).length / top +
        (rows.countP (validWidth · top = 0) : ℚ) / rows.length := by
    rw [sum_rowCeiling, List.length_map, add_div, div_right_comm]
  rw [← hceiling]
  constructor
  · refine ⟨rows.map (bestPage · top), List.length_map _, ?_, ?_⟩
    · rw [List.forall_mem_map]
      exact fun _ _ ↦ fullPage_bestPage
    · rw [hmean _ (List.length_map _), sum_precision_bestPage discount htop]
  · rintro _ ⟨answers, hlength, hfull, rfl⟩
    rw [hmean answers hlength]
    gcongr
    exact sum_precision_le discount htop hlength hfull

/-- Of the two queries one has half of its page, the other no truth. -/
theorem ceiling_isGreatest_half :
    IsGreatest
      {p | ∃ answers : List (List ℤ), answers.length = 2 ∧ (∀ a ∈ answers, FullPage 2 a) ∧
        meanPrecision (fun _ ↦ 1) answers [[7, -1], []] 2 = p}
      (3 / 4) := by
  have h : groundTruthStats [[7, -1], []] 2 = some
      { queries := 2, top := 2, meanWidth := (1 : ℕ) / (2 : ℕ), minWidth := 0, queriesBelowTop := 2
        recallAtTopCeiling := (1 : ℕ) / (2 : ℕ) / (2 : ℕ) } := rfl
  have hsum : (3 / 4 : ℚ) = (1 : ℕ) / (2 : ℕ) / (2 : ℕ) + ((1 : ℕ) : ℚ) / (2 : ℕ) := by norm_num
  rw [hsum]
  exact ceiling_isGreatest (fun _ ↦ 1) [[7, -1], []] 2 _ h

end FullPages

/-! ## One step -/

/-- A value whose sum with another such value does not wrap. -/
def Addable (a : ℤ) : Prop := -2 ^ 62 ≤ a ∧ a < 2 ^ 62

instance (a : ℤ) : Decidable (Addable a) := inferInstanceAs (Decidable (_ ∧ _))

theorem middle_eq {a b : ℤ} (ha : Addable a) (hb : Addable b) : middle a b = (a + b).tdiv 2 := by
  have hlow : -2 ^ 63 ≤ a + b := by
    have hsum := add_le_add ha.1 hb.1
    omega
  have hhigh : a + b < 2 ^ 63 := by
    have hsum := add_lt_add ha.2 hb.2
    omega
  rw [middle, Int64.toInt_ofInt_of_le hlow hhigh]

theorem middle_mem {a b : ℤ} (ha : Addable a) (hb : Addable b) :
    2 * middle a b ≤ a + b + 1 ∧ a + b ≤ 2 * middle a b + 1 := by
  have hdiv := Int.mul_tdiv_add_tmod (a + b) 2
  have hmod := Int.tmod_two_eq (a + b)
  rw [middle_eq ha hb]
  omega

theorem middle_of_nonneg {a b : ℤ} (ha : Addable a) (hb : Addable b) (h : 0 ≤ a + b) :
    2 * middle a b ≤ a + b ∧ a + b ≤ 2 * middle a b + 1 := by
  rw [middle_eq ha hb, Int.tdiv_eq_ediv_of_nonneg h]
  omega

/-- Half of a distance, rounded up, has one binary digit less. -/
theorem clog_succ_le {m n : ℕ} (hn : 2 ≤ n) (hm : 2 * m ≤ n + 1) :
    Nat.clog 2 m + 1 ≤ Nat.clog 2 n := by
  rw [Nat.clog_of_two_le one_lt_two hn]
  exact Nat.succ_le_succ (Nat.clog_mono_right 2 (by omega))

variable {ρ : Type u} {engine : List (ℤ × ℚ) → SearchParams ρ → Except String SearchResults}
  {params : SearchParams ρ} {knob : String} {target : ℚ} {finish : ℤ → ℚ → CalibrationOutcome}

/-- The precisions are those that the engine had with the values, one search after another. -/
def Measured (engine : List (ℤ × ℚ) → SearchParams ρ → Except String SearchResults)
    (params : SearchParams ρ) (knob : String) : List (ℤ × ℚ) → Prop
  | [] => True
  | (value, precision) :: before =>
    Measured engine params knob before ∧ ∃ results,
      engine before (params.withKnob knob value) = .ok results ∧
        results.meanPrecisionAtReturned = precision

/-- What a step that goes on does. -/
theorem calibrateStep_eq_inl {s s' : Sweep}
    (h : calibrateStep engine params knob target finish s = .inl s') :
    ∃ results, engine s.tried (params.withKnob knob s.current) = .ok results ∧
      1 / 10 ^ 9 ≤ |results.meanPrecisionAtReturned - target| ∧
      s'.bounds = s.bounds.move (target < results.meanPrecisionAtReturned) s.current ∧
      ¬s'.bounds.Revisits ∧ s'.current = s'.bounds.nextValue ∧ s'.previous = s.current ∧
      s'.previousPrecision = results.meanPrecisionAtReturned ∧
      s'.tried = (s.current, results.meanPrecisionAtReturned) :: s.tried := by
  rw [calibrateStep] at h
  cases hengine : engine s.tried (params.withKnob knob s.current) with
  | error e =>
      rw [hengine] at h
      cases h
  | ok results =>
      rw [hengine] at h
      dsimp only at h
      split_ifs at h with hexact hrevisits
      cases h
      exact ⟨results, rfl, not_lt.mp hexact, rfl, hrevisits, rfl, rfl, rfl, rfl⟩

/-- What a step that ends the loop does, unless the engine failed. -/
theorem calibrateStep_eq_inr {s : Sweep} {outcome : CalibrationOutcome}
    (h : calibrateStep engine params knob target finish s = .inr (.ok outcome)) :
    ∃ results, engine s.tried (params.withKnob knob s.current) = .ok results ∧
      ((|results.meanPrecisionAtReturned - target| < 1 / 10 ^ 9 ∧
          outcome = finish s.current results.meanPrecisionAtReturned) ∨
        (s.bounds.move (target < results.meanPrecisionAtReturned) s.current).Revisits ∧
          ((|s.previousPrecision - target| < |results.meanPrecisionAtReturned - target| ∧
              outcome = finish s.previous s.previousPrecision) ∨
            |results.meanPrecisionAtReturned - target| ≤ |s.previousPrecision - target| ∧
              outcome = finish s.current results.meanPrecisionAtReturned)) := by
  rw [calibrateStep] at h
  cases hengine : engine s.tried (params.withKnob knob s.current) with
  | error e =>
      rw [hengine] at h
      cases h
  | ok results =>
      rw [hengine] at h
      dsimp only at h
      refine ⟨results, rfl, ?_⟩
      split_ifs at h with hexact hrevisits hcloser
      · cases h
        exact .inl ⟨hexact, rfl⟩
      · cases h
        exact .inr ⟨hrevisits, .inl ⟨hcloser, rfl⟩⟩
      · cases h
        exact .inr ⟨hrevisits, .inr ⟨not_lt.mp hcloser, rfl⟩⟩

/-- A step fails where the engine does. -/
theorem calibrateStep_eq_error {s : Sweep} {e : String}
    (h : calibrateStep engine params knob target finish s = .inr (.error e)) :
    engine s.tried (params.withKnob knob s.current) = .error e := by
  rw [calibrateStep] at h
  cases hengine : engine s.tried (params.withKnob knob s.current) with
  | error e' =>
      rw [hengine] at h
      cases h
      rfl
  | ok results =>
      rw [hengine] at h
      dsimp only at h
      split_ifs at h <;> cases h

/-! ## The bounds -/

namespace Bounds

def width (b : Bounds) : ℕ := (b.upperBound - b.lowerBound).natAbs

theorem middle_self {a : ℤ} (ha : Addable a) : middle a a = a := by
  have hmiddle := middle_mem ha ha
  omega

/-- The sums of the bounds and of the values between them do not wrap. -/
structure Addable (b : Bounds) : Prop where
  lower : Search.Addable b.lowerBound
  upper : Search.Addable b.upperBound

variable {b : Bounds} {above : Prop} [Decidable above]

/-- Between bounds that are next to each other there is nothing left to search with. -/
theorem two_le_width (hb : b.Addable) (h : ¬(b.move above b.nextValue).Revisits) :
    2 ≤ b.width := by
  by_contra hwidth
  have hmiddle := middle_mem hb.lower hb.upper
  have hend : b.nextValue = b.lowerBound ∨ b.nextValue = b.upperBound := by
    rw [width] at hwidth
    rw [nextValue]
    omega
  apply h
  rw [move]
  split_ifs
  · right
    refine ⟨rfl, ?_⟩
    rcases hend with hend | hend
    · rw [hend]
      exact middle_self hb.lower
    · change middle b.lowerBound b.nextValue = b.nextValue
      nth_rewrite 1 [hend]
      rfl
  · left
    refine ⟨rfl, ?_⟩
    rcases hend with hend | hend
    · change middle b.nextValue b.upperBound = b.nextValue
      nth_rewrite 1 [hend]
      rfl
    · rw [hend]
      exact middle_self hb.upper

/-- The next value lies between the bounds, and is a bound only when they are close. -/
theorem nextValue_between (hb : b.Addable) :
    min b.lowerBound b.upperBound ≤ b.nextValue ∧ b.nextValue ≤ max b.lowerBound b.upperBound := by
  have hmiddle := middle_mem hb.lower hb.upper
  rw [nextValue]
  omega

theorem move_lowerBound :
    (b.move above b.nextValue).lowerBound = if above then b.lowerBound else b.nextValue := by
  rw [move]
  split_ifs <;> rfl

theorem move_upperBound :
    (b.move above b.nextValue).upperBound = if above then b.nextValue else b.upperBound := by
  rw [move]
  split_ifs <;> rfl

theorem width_move_le (hb : b.Addable) : 2 * (b.move above b.nextValue).width ≤ b.width + 1 := by
  have hmiddle := middle_mem hb.lower hb.upper
  rw [width, move_lowerBound, move_upperBound, width, nextValue]
  split_ifs <;> omega

end Bounds

/-! ## Any sweep -/

/-- What holds before every search of a sweep that starts at `low`. -/
structure Sweep.Inv (engine : List (ℤ × ℚ) → SearchParams ρ → Except String SearchResults)
    (params : SearchParams ρ) (knob : String) (target : ℚ) (low : ℤ) (s : Sweep) : Prop where
  current_eq : s.current = s.bounds.nextValue
  measured : Measured engine params knob s.tried
  /-- No value between the bounds was searched with, and a bound only when it says so. -/
  outside : ∀ e ∈ s.tried,
    e.1 ≤ min s.bounds.lowerBound s.bounds.upperBound ∨
      max s.bounds.lowerBound s.bounds.upperBound ≤ e.1
  lower : ∀ e ∈ s.tried, e.1 = s.bounds.lowerBound → s.bounds.lowerVisited = true
  upper : ∀ e ∈ s.tried, e.1 = s.bounds.upperBound → s.bounds.upperVisited = true
  continues : ¬s.bounds.Revisits
  once : (s.tried.map Prod.fst).Nodup
  inside : min low maxValue ≤ min s.bounds.lowerBound s.bounds.upperBound ∧
    max s.bounds.lowerBound s.bounds.upperBound ≤ max low maxValue
  between : ∀ e ∈ s.tried, min low maxValue ≤ e.1 ∧ e.1 ≤ max low maxValue
  few : s.tried.length + Nat.clog 2 s.bounds.width ≤ Nat.clog 2 (maxValue - low).natAbs
  far : ∀ e ∈ s.tried, 1 / 10 ^ 9 ≤ |e.2 - target|
  last : s = startSweep low ∨ ∃ before, s.tried = (s.previous, s.previousPrecision) :: before

namespace Sweep.Inv

variable {low : ℤ} {s s' : Sweep}

theorem start (low : ℤ) : Inv engine params knob target low (startSweep low) := by
  constructor
  case last => exact .inl rfl
  case current_eq => rfl
  case measured => trivial
  case inside => exact ⟨le_rfl, le_rfl⟩
  case few => exact (Nat.zero_add _).le
  case once => exact List.nodup_nil
  case continues =>
    rintro (⟨h, -⟩ | ⟨h, -⟩)
    · cases h
    · cases h
  all_goals
    intro e he
    cases he

theorem addable (h : Inv engine params knob target low s) (hlow : Addable low) :
    s.bounds.Addable := by
  have hinside := h.inside
  have hmin : -2 ^ 62 ≤ min low maxValue := le_min hlow.1 (by decide)
  have hmax : max low maxValue < 2 ^ 62 := max_lt hlow.2 (by decide)
  constructor
  · constructor <;> omega
  · constructor <;> omega

/-- The value of the next search is new. -/
theorem notMem_tried (h : Inv engine params knob target low s) (hlow : Addable low) :
    s.current ∉ s.tried.map Prod.fst := by
  rintro hmem
  obtain ⟨e, he, heq⟩ := List.mem_map.mp hmem
  have hbetween := Bounds.nextValue_between (h.addable hlow)
  rw [← h.current_eq, ← heq] at hbetween
  have hend : e.1 = s.bounds.lowerBound ∨ e.1 = s.bounds.upperBound := by
    have houtside := h.outside e he
    omega
  apply h.continues
  rw [Bounds.Revisits, ← h.current_eq, ← heq]
  rcases hend with hend | hend
  · exact .inl ⟨h.lower e he hend, hend⟩
  · exact .inr ⟨h.upper e he hend, hend⟩

theorem next (h : Inv engine params knob target low s) (hlow : Addable low)
    (hnext : Walk.Next (calibrateStep engine params knob target finish) s s') :
    Inv engine params knob target low s' ∧ Nat.clog 2 s'.bounds.width <
      Nat.clog 2 s.bounds.width := by
  obtain ⟨results, hengine, hfar, hbounds, hcontinues, hcurrent, hprevious, hprecision, htried⟩ :=
    calibrateStep_eq_inl hnext
  have hnew := h.notMem_tried hlow
  have haddable := h.addable hlow
  rw [h.current_eq] at hbounds
  have hwidth := Bounds.two_le_width haddable (hbounds ▸ hcontinues)
  have hclog : Nat.clog 2 s'.bounds.width + 1 ≤ Nat.clog 2 s.bounds.width := by
    apply clog_succ_le hwidth
    rw [hbounds]
    exact Bounds.width_move_le haddable
  -- the value is strictly between the bounds, and becomes one of them
  have hmiddle := middle_mem haddable.lower haddable.upper
  have hvalue : s.current = middle s.bounds.lowerBound s.bounds.upperBound := h.current_eq
  rw [Bounds.width] at hwidth
  have hinside := h.inside
  have hmoved : (s'.bounds.lowerBound = s.bounds.lowerBound ∧ s'.bounds.upperBound = s.current ∧
        s'.bounds.lowerVisited = s.bounds.lowerVisited ∧ s'.bounds.upperVisited = true) ∨
      (s'.bounds.lowerBound = s.current ∧ s'.bounds.upperBound = s.bounds.upperBound ∧
        s'.bounds.lowerVisited = true ∧ s'.bounds.upperVisited = s.bounds.upperVisited) := by
    rw [hbounds, ← h.current_eq, Bounds.move]
    split_ifs
    · exact .inl ⟨rfl, rfl, rfl, rfl⟩
    · exact .inr ⟨rfl, rfl, rfl, rfl⟩
  refine ⟨?_, hclog⟩
  constructor
  case current_eq => exact hcurrent
  case continues => exact hcontinues
  case last => exact .inr ⟨s.tried, by rw [htried, hprevious, hprecision]⟩
  case measured =>
    rw [htried]
    exact ⟨h.measured, results, hengine, rfl⟩
  case once =>
    rw [htried, List.map_cons, List.nodup_cons]
    exact ⟨hnew, h.once⟩
  case few =>
    have hfew := h.few
    rw [htried, List.length_cons]
    omega
  case inside => omega
  all_goals
    rw [htried, List.forall_mem_cons]
    constructor
  case far.left => exact hfar
  case far.right => exact h.far
  case between.left =>
    dsimp only
    omega
  case between.right => exact h.between
  case outside.left =>
    dsimp only
    omega
  case outside.right =>
    intro e he
    have houtside := h.outside e he
    omega
  case lower.left =>
    dsimp only
    intro hlower
    obtain ⟨hsame, -⟩ | ⟨-, -, hvisited, -⟩ := hmoved
    · omega
    · exact hvisited
  case lower.right =>
    intro e he hlower
    have houtside := h.outside e he
    obtain ⟨hsame, -, hvisited, -⟩ | ⟨-, -, hvisited, -⟩ := hmoved
    · exact hvisited.trans (h.lower e he (hlower.trans hsame))
    · exact hvisited
  case upper.left =>
    dsimp only
    intro hupper
    obtain ⟨-, -, -, hvisited⟩ | ⟨-, hsame, -⟩ := hmoved
    · exact hvisited
    · omega
  case upper.right =>
    intro e he hupper
    obtain ⟨-, -, -, hvisited⟩ | ⟨-, hsame, -, hvisited⟩ := hmoved
    · exact hvisited
    · exact hvisited.trans (h.upper e he (hupper.trans hsame))

end Sweep.Inv

/-- A first search far from both ends does not end the sweep, unless it has the target. -/
theorem not_revisits_start {low : ℤ} (hlow : Addable low) (h : 3 ≤ (maxValue - low).natAbs)
    {above : Prop} [Decidable above] :
    ¬((startSweep low).bounds.move above (startSweep low).bounds.nextValue).Revisits := by
  have hmax : Addable maxValue := by decide
  have hmiddle := middle_mem hlow hmax
  have hcurrent : Addable (middle low maxValue) := by
    have hmin := hlow.1
    have hbelow := hlow.2
    have hconst : maxValue = 1000 := rfl
    constructor <;> omega
  have hlow := middle_mem hlow hcurrent
  have hhigh := middle_mem hcurrent hmax
  have hnear : (maxValue - low).natAbs = 3 →
    middle low (middle low maxValue) ≠ middle low maxValue ∧
      middle (middle low maxValue) maxValue ≠ middle low maxValue := by
    intro hwidth
    have hlow : low = 997 ∨ low = 1003 := by
      rw [maxValue] at hwidth
      omega
    rcases hlow with rfl | rfl <;> decide
  rw [Bounds.move]
  split_ifs
  · rintro (⟨hvisited, -⟩ | ⟨-, heq⟩)
    · cases hvisited
    · change middle low (middle low maxValue) = middle low maxValue at heq
      rw [maxValue] at h hnear hmiddle hlow heq
      omega
  · rintro (⟨-, heq⟩ | ⟨hvisited, -⟩)
    · change middle (middle low maxValue) maxValue = middle low maxValue at heq
      rw [maxValue] at h hnear hmiddle hhigh heq
      omega
    · cases hvisited

/-- What is known of the outcome of a sweep from the values that were searched with. -/
structure Calibrated (engine : List (ℤ × ℚ) → SearchParams ρ → Except String SearchResults)
    (params : SearchParams ρ) (knob : String) (target : ℚ) (low : ℤ) (tried : List (ℤ × ℚ))
    (outcome : CalibrationOutcome) : Prop where
  measured : Measured engine params knob tried
  /-- No value is searched with twice. -/
  once : (tried.map Prod.fst).Nodup
  few : tried.length ≤ Nat.clog 2 (maxValue - low).natAbs + 1
  between : ∀ e ∈ tried, min low maxValue ≤ e.1 ∧ e.1 ≤ max low maxValue
  value : outcome.value ∈ (tried.take 2).map Prod.fst
  /-- With hardly anything to search, a zero stands for the precision before the first search. -/
  achieved : 3 ≤ (maxValue - low).natAbs → (outcome.value, outcome.achieved) ∈ tried.take 2
  nearest : ∀ e ∈ tried.take 2, |outcome.achieved - target| ≤ |e.2 - target|

/-- What is known of a sweep that fails: the engine does at a value, which is none of those that
were searched with before. -/
structure Failed (engine : List (ℤ × ℚ) → SearchParams ρ → Except String SearchResults)
    (params : SearchParams ρ) (knob : String) (low : ℤ) (tried : List (ℤ × ℚ)) (value : ℤ)
    (e : String) : Prop where
  measured : Measured engine params knob tried
  error : engine tried (params.withKnob knob value) = .error e
  once : (value :: tried.map Prod.fst).Nodup
  few : tried.length ≤ Nat.clog 2 (maxValue - low).natAbs
  between : ∀ v ∈ value :: tried.map Prod.fst, min low maxValue ≤ v ∧ v ≤ max low maxValue

theorem Sweep.Inv.failed {low : ℤ} {s : Sweep} {e : String}
    (h : s.Inv engine params knob target low) (hlow : Addable low)
    (hend : calibrateStep engine params knob target finish s = .inr (.error e)) :
    Failed engine params knob low s.tried s.current e := by
  have hbetween := Bounds.nextValue_between (h.addable hlow)
  rw [← h.current_eq] at hbetween
  have hinside := h.inside
  constructor
  case measured => exact h.measured
  case error => exact calibrateStep_eq_error hend
  case once => exact List.nodup_cons.mpr ⟨h.notMem_tried hlow, h.once⟩
  case few => exact (Nat.le_add_right _ _).trans h.few
  case between =>
    rw [List.forall_mem_cons, List.forall_mem_map]
    constructor
    · omega
    · exact h.between

theorem Sweep.Inv.calibrated {low : ℤ} {s : Sweep} {outcome : CalibrationOutcome}
    (h : s.Inv engine params knob target low) (hlow : Addable low)
    (hfinish : ∀ value achieved,
      (finish value achieved).value = value ∧ (finish value achieved).achieved = achieved)
    (hend : calibrateStep engine params knob target finish s = .inr (.ok outcome)) :
    ∃ precision, Calibrated engine params knob target low ((s.current, precision) :: s.tried)
      outcome := by
  obtain ⟨results, hengine, hcases⟩ := calibrateStep_eq_inr hend
  have hbetween := Bounds.nextValue_between (h.addable hlow)
  rw [← h.current_eq] at hbetween
  have hinside := h.inside
  have hreport : (outcome.value = s.current ∧
        outcome.achieved = results.meanPrecisionAtReturned ∧
        ∀ e ∈ s.tried.take 1, |outcome.achieved - target| ≤ |e.2 - target|) ∨
      (outcome.value = s.previous ∧ outcome.achieved = s.previousPrecision ∧
        |outcome.achieved - target| ≤ |results.meanPrecisionAtReturned - target| ∧
        (s.bounds.move (target < results.meanPrecisionAtReturned) s.current).Revisits) := by
    rcases hcases with ⟨hexact, rfl⟩ | ⟨hrevisits, ⟨hcloser, rfl⟩ | ⟨hcloser, rfl⟩⟩
    · left
      refine ⟨(hfinish _ _).1, (hfinish _ _).2, fun e he ↦ ?_⟩
      rw [(hfinish _ _).2]
      exact (hexact.trans_le (h.far e (List.mem_of_mem_take he))).le
    · right
      rw [(hfinish _ _).1, (hfinish _ _).2]
      exact ⟨rfl, rfl, hcloser.le, hrevisits⟩
    · left
      refine ⟨(hfinish _ _).1, (hfinish _ _).2, fun e he ↦ ?_⟩
      rw [(hfinish _ _).2]
      rcases h.last with rfl | ⟨before, hbefore⟩
      · cases he
      · rw [hbefore] at he
        cases List.mem_singleton.mp he
        exact hcloser
  refine ⟨results.meanPrecisionAtReturned, ?_⟩
  constructor
  case measured => exact ⟨h.measured, results, hengine, rfl⟩
  case once => exact List.nodup_cons.mpr ⟨h.notMem_tried hlow, h.once⟩
  case few =>
    have hfew := h.few
    rw [List.length_cons]
    omega
  case between =>
    rw [List.forall_mem_cons]
    constructor
    · dsimp only
      omega
    · exact h.between
  case value =>
    rw [List.take_succ_cons, List.map_cons, List.mem_cons]
    rcases hreport with ⟨hvalue, -⟩ | ⟨hvalue, -⟩
    · exact .inl hvalue
    · rcases h.last with rfl | ⟨before, hbefore⟩
      · exact .inl hvalue
      · rw [hbefore, hvalue]
        exact .inr List.mem_cons_self
  case achieved =>
    intro hwide
    rw [List.take_succ_cons, List.mem_cons]
    rcases hreport with ⟨hvalue, hachieved, -⟩ | ⟨hvalue, hachieved, -, hrevisits⟩
    · rw [hvalue, hachieved]
      exact .inl rfl
    · rcases h.last with rfl | ⟨before, hbefore⟩
      · exact absurd hrevisits (not_revisits_start hlow hwide)
      · rw [hbefore, hvalue, hachieved]
        exact .inr List.mem_cons_self
  case nearest =>
    rw [List.take_succ_cons, List.forall_mem_cons]
    rcases hreport with ⟨-, hachieved, hlast⟩ | ⟨-, hachieved, hcloser, -⟩
    · exact ⟨by rw [hachieved], hlast⟩
    · refine ⟨hcloser, fun e he ↦ ?_⟩
      rcases h.last with rfl | ⟨before, hbefore⟩
      · cases he
      · rw [hbefore] at he
        cases List.mem_singleton.mp he
        rw [hachieved]

section Calibrate

variable (fixed : ℕ → ℚ → String)
  (engine : List (ℤ × ℚ) → SearchParams ρ → Except String SearchResults) (params : SearchParams ρ)
  (calibrationParam : String) (target : ℚ) (groundTruth : Option (List (List ℤ)))

/-- The loop ends, in a state that its steps lead to. -/
theorem exists_calibrate (hlow : Addable (minValue params)) :
    ∃ r s, (∀ fuel, Nat.clog 2 (maxValue - minValue params).natAbs < fuel →
        calibrate fixed engine params calibrationParam target groundTruth fuel = some r) ∧
      Walk.Path
        (calibrateStep engine params (canonicalKnobName calibrationParam) target
          (calibrationOutcome fixed params (canonicalKnobName calibrationParam) target groundTruth))
        (startSweep (minValue params)) s ∧
      calibrateStep engine params (canonicalKnobName calibrationParam) target
        (calibrationOutcome fixed params (canonicalKnobName calibrationParam) target groundTruth)
        s = .inr r := by
  obtain ⟨r, hr⟩ := Walk.exists_run (μ := fun s : Sweep ↦ Nat.clog 2 s.bounds.width)
    (fun s s' hs hnext ↦ Sweep.Inv.next hs hlow hnext) (Sweep.Inv.start (minValue params))
  obtain ⟨s, hpath, hend⟩ := Walk.ends_iff.mp ⟨_, hr _ (Nat.lt_succ_self _)⟩
  exact ⟨r, s, hr, hpath, hend⟩

/-- However the engine answers, calibration ends: it fails as the engine does, or reports the
nearer of the last two values, after a number of searches that is logarithmic in the distance
of the bounds. -/
theorem calibrate_calibrated (hlow : Addable (minValue params)) :
    ∃ r, (∀ fuel, Nat.clog 2 (maxValue - minValue params).natAbs < fuel →
        calibrate fixed engine params calibrationParam target groundTruth fuel = some r) ∧
      (∀ outcome, r = .ok outcome → ∃ tried,
        Calibrated engine params (canonicalKnobName calibrationParam) target (minValue params)
          tried outcome) ∧
      ∀ e, r = .error e → ∃ tried value,
        Failed engine params (canonicalKnobName calibrationParam) (minValue params) tried value
          e := by
  obtain ⟨r, s, hr, hpath, hend⟩ :=
    exists_calibrate fixed engine params calibrationParam target groundTruth hlow
  have hinv := hpath.preserves (fun s s' hs hnext ↦ (Sweep.Inv.next hs hlow hnext).1)
    (Sweep.Inv.start (minValue params))
  refine ⟨r, hr, ?_, ?_⟩
  · rintro outcome rfl
    obtain ⟨precision, hcalibrated⟩ := hinv.calibrated hlow (fun _ _ ↦ ⟨rfl, rfl⟩) hend
    exact ⟨_, hcalibrated⟩
  · rintro e rfl
    exact ⟨_, _, hinv.failed hlow hend⟩

/-- An engine whose precision falls from search to search, and that fails at the values of
`failing`. -/
def tiringEngine (failing : ℤ → Bool) (tried : List (ℤ × ℚ)) (params : SearchParams Unit) :
    Except String SearchResults :=
  if failing ((params.searchParams.bind (·.ef)).getD 0) then .error "the engine is gone"
  else .ok { meanPrecisionAtReturned := 1 / (tried.length + 2 : ℕ) }

/-- The third search is with 387: where the engine fails there, calibration does, and else it goes
on. -/
theorem calibrate_calibrated_tiring :
    (∃ r, (∀ fuel, Nat.clog 2 980 < fuel →
        calibrate (fun _ _ ↦ "") (tiringEngine (· = 387)) ⟨none, some 20, ()⟩ "EF" (2 / 5) none
          fuel = some r) ∧
      (∀ outcome, r = .ok outcome → ∃ tried,
        Calibrated (tiringEngine (· = 387)) ⟨none, some 20, ()⟩ "ef" (2 / 5) 20 tried outcome) ∧
      ∀ e, r = .error e → ∃ tried value,
        Failed (tiringEngine (· = 387)) ⟨none, some 20, ()⟩ "ef" 20 tried value e) ∧
    calibrate (fun _ _ ↦ "") (tiringEngine (· = 387)) ⟨none, some 20, ()⟩ "EF" (2 / 5) none 11 =
      some (.error "the engine is gone") ∧
    (calibrate (fun _ _ ↦ "") (tiringEngine fun _ ↦ false) ⟨none, some 20, ()⟩ "EF" (2 / 5) none
      11).any (fun r ↦ r.isOk) = true := by
  refine ⟨?_, by with_unfolding_all rfl, by with_unfolding_all rfl⟩
  exact calibrate_calibrated (fun _ _ ↦ "") (tiringEngine (· = 387)) ⟨none, some 20, ()⟩ "EF"
    (2 / 5) none (by decide)

end Calibrate

/-! ## A precision that grows with the parameter -/

section Crossing

variable {f : ℤ → ℚ} {low : ℤ}

theorem Measured.eq_of_engine (hengine : ∀ tried value, ∃ results,
      engine tried (params.withKnob knob value) = .ok results ∧
        results.meanPrecisionAtReturned = f value)
    {tried : List (ℤ × ℚ)} (h : Measured engine params knob tried) : ∀ e ∈ tried, e.2 = f e.1 := by
  induction tried with
  | nil => exact List.forall_mem_nil _
  | cons e before ih =>
      obtain ⟨value, precision⟩ := e
      obtain ⟨hbefore, results, hresults, hprecision⟩ := h
      obtain ⟨results', hresults', hf⟩ := hengine before value
      cases hresults.symm.trans hresults'
      rw [List.forall_mem_cons]
      exact ⟨hprecision.symm.trans hf, ih hbefore⟩

/-- The bounds are on the two sides of the target, where they were searched with. -/
structure Sweep.Brackets (f : ℤ → ℚ) (target : ℚ) (low : ℤ) (s : Sweep) : Prop where
  le : s.bounds.lowerBound ≤ s.bounds.upperBound
  low_le : low ≤ s.bounds.lowerBound
  le_max : s.bounds.upperBound ≤ maxValue
  below : s.bounds.lowerVisited = true → f s.bounds.lowerBound < target
  above : s.bounds.upperVisited = true → target < f s.bounds.upperBound
  lower : s.bounds.lowerVisited = false → s.bounds.lowerBound = low
  upper : s.bounds.upperVisited = false → s.bounds.upperBound = maxValue
  previous : s = startSweep low ∨ s.previous = s.bounds.lowerBound ∨
    s.previous = s.bounds.upperBound

/-- Where the precision comes to the target: below it the target is not reached, and more than
one step above it the precision is over the target. -/
structure Crosses (f : ℤ → ℚ) (target : ℚ) (low c : ℤ) : Prop where
  mem : c ∈ Set.Icc low maxValue
  below : ∀ x ∈ Set.Ico low c, f x < target
  above : ∀ x ∈ Set.Ioc (c + 1) maxValue, target < f x

namespace Sweep.Brackets

variable {s s' : Sweep} {precision : ℚ}

theorem start (hhigh : low ≤ maxValue) : Brackets f target low (startSweep low) := by
  constructor
  case previous => exact .inl rfl
  case le => exact hhigh
  case low_le => exact le_rfl
  case le_max => exact le_rfl
  case lower => exact fun _ ↦ rfl
  case upper => exact fun _ ↦ rfl
  all_goals
    intro h
    cases h

theorem addable (h : Brackets f target low s) (hlow : 0 ≤ low) : s.bounds.Addable := by
  have hle := h.le
  have hlowLe := h.low_le
  have hmax := h.le_max
  rw [maxValue] at hmax
  constructor
  · constructor <;> omega
  · constructor <;> omega

/-- A search moves the bound on its side. -/
theorem move (h : Brackets f target low s) (hlow : 0 ≤ low)
    (hcurrent : s.current = s.bounds.nextValue) (hfar : 1 / 10 ^ 9 ≤ |f s.current - target|)
    (hbounds : s'.bounds = s.bounds.move (target < f s.current) s.current)
    (hprevious : s'.previous = s.current) : Brackets f target low s' := by
  have hle := h.le
  have hlowLe := h.low_le
  have hmax := h.le_max
  have hmiddle : 2 * s.current ≤ s.bounds.lowerBound + s.bounds.upperBound ∧
      s.bounds.lowerBound + s.bounds.upperBound ≤ 2 * s.current + 1 := by
    rw [hcurrent]
    exact middle_of_nonneg (h.addable hlow).lower (h.addable hlow).upper (by omega)
  rw [Bounds.move] at hbounds
  split_ifs at hbounds with habove
  · constructor <;> rw [hbounds]
    case le => dsimp only; omega
    case low_le => exact hlowLe
    case le_max => dsimp only; omega
    case below => exact h.below
    case above => exact fun _ ↦ habove
    case lower => exact h.lower
    case upper => exact fun hvisited ↦ by cases hvisited
    case previous => exact .inr (.inr hprevious)
  · have hbelow : f s.current < target := by
      refine lt_of_le_of_ne (not_lt.mp habove) fun heq ↦ ?_
      rw [heq, sub_self, abs_zero] at hfar
      norm_num at hfar
    constructor <;> rw [hbounds]
    case le => dsimp only; omega
    case low_le => dsimp only; omega
    case le_max => exact hmax
    case below => exact fun _ ↦ hbelow
    case above => exact h.above
    case lower => exact fun hvisited ↦ by cases hvisited
    case upper => exact h.upper
    case previous => exact .inr (.inl hprevious)

/-- Where the loop ends, the precision comes to the target, and the value before is close. -/
theorem crosses (h : Brackets f target low s) (hlow : 0 ≤ low)
    (hmono : MonotoneOn f (Set.Icc low maxValue)) (hcurrent : s.current = s.bounds.nextValue)
    (hfar : 1 / 10 ^ 9 ≤ |f s.current - target|)
    (hrevisits : (s.bounds.move (target < f s.current) s.current).Revisits) :
    Crosses f target low s.current ∧ (s = startSweep low ∨ |s.previous - s.current| ≤ 2) := by
  have hle := h.le
  have hlowLe := h.low_le
  have hmax := h.le_max
  have hmiddle : 2 * s.current ≤ s.bounds.lowerBound + s.bounds.upperBound ∧
      s.bounds.lowerBound + s.bounds.upperBound ≤ 2 * s.current + 1 := by
    rw [hcurrent]
    exact middle_of_nonneg (h.addable hlow).lower (h.addable hlow).upper (by omega)
  have hmem : s.current ∈ Set.Icc low maxValue := ⟨by omega, by omega⟩
  have hmoved : Brackets f target low { s with
      bounds := s.bounds.move (target < f s.current) s.current, previous := s.current } :=
    h.move hlow hcurrent hfar rfl rfl
  have hends : (s.current = (s.bounds.move (target < f s.current) s.current).lowerBound ∧
        s.bounds.upperBound = (s.bounds.move (target < f s.current) s.current).upperBound ∧
        f s.current < target) ∨
      (s.current = (s.bounds.move (target < f s.current) s.current).upperBound ∧
        s.bounds.lowerBound = (s.bounds.move (target < f s.current) s.current).lowerBound ∧
        target < f s.current) := by
    by_cases habove : target < f s.current
    · right
      rw [Bounds.move, if_pos habove]
      exact ⟨rfl, rfl, habove⟩
    · left
      have hbelow := hmoved.below
      rw [Bounds.move, if_neg habove] at hbelow
      rw [Bounds.move, if_neg habove]
      exact ⟨rfl, rfl, hbelow rfl⟩
  have haddable := hmoved.addable hlow
  obtain ⟨-, hlowLe', hmax', hbelow, habove, hlower, hupper, -⟩ := hmoved
  dsimp only at haddable hlowLe' hmax' hbelow habove hlower hupper
  generalize s.bounds.move (target < f s.current) s.current = b at *
  have hle' : b.lowerBound ≤ b.upperBound := by omega
  -- the bounds have met, or are next to each other and the lower one was searched with
  have hmet : b.upperBound ≤ b.lowerBound ∨
      b.lowerVisited = true ∧ b.upperBound ≤ b.lowerBound + 1 := by
    have hnext := middle_of_nonneg haddable.lower haddable.upper (by omega)
    rcases hrevisits with ⟨hvisited, heq⟩ | ⟨-, heq⟩
    · rw [Bounds.nextValue] at heq
      exact .inr ⟨hvisited, by omega⟩
    · rw [Bounds.nextValue] at heq
      exact .inl (by omega)
  refine ⟨⟨hmem, ?_, ?_⟩, ?_⟩
  · rintro x ⟨hx, hxc⟩
    rcases hends with ⟨-, -, hc⟩ | ⟨hc, -⟩
    · exact (hmono ⟨hx, hxc.le.trans hmem.2⟩ hmem hxc.le).trans_lt hc
    · cases hvisited : b.lowerVisited with
      | true =>
          refine (hmono ⟨hx, hxc.le.trans hmem.2⟩ ⟨hlowLe', ?_⟩ ?_).trans_lt (hbelow hvisited)
          · omega
          · omega
      | false =>
          have hlow := hlower hvisited
          have hsame := hmet.resolve_right fun h ↦ Bool.false_ne_true (hvisited.symm.trans h.1)
          omega
  · rintro x ⟨hcx, hx⟩
    rcases hends with ⟨hc, -⟩ | ⟨-, -, hc⟩
    · cases hvisited : b.upperVisited with
      | true =>
          refine (habove hvisited).trans_le (hmono ⟨?_, hmax'⟩ ⟨?_, hx⟩ ?_)
          · omega
          · omega
          · omega
      | false =>
          have hmax := hupper hvisited
          omega
    · exact hc.trans_le (hmono hmem ⟨by omega, hx⟩ (by omega))
  · rcases h.previous with hstart | hprevious | hprevious
    · exact .inl hstart
    · right
      rw [hprevious, abs_le]
      omega
    · right
      rw [hprevious, abs_le]
      omega

end Sweep.Brackets

theorem calibrateStep_ne_error (hengine : ∀ tried value, ∃ results,
      engine tried (params.withKnob knob value) = .ok results ∧
        results.meanPrecisionAtReturned = f value) (s : Sweep) (e : String) :
    calibrateStep engine params knob target finish s ≠ .inr (.error e) := by
  intro h
  obtain ⟨results, hresults, -⟩ := hengine s.tried s.current
  rw [calibrateStep, hresults] at h
  dsimp only at h
  split_ifs at h <;> cases h

/-- With a precision that does not fall when the parameter grows, calibration reports a value with
the target precision, or one at most two steps away from where the precision comes to the target,
and no farther from the target than there. -/
theorem calibrate_crosses (fixed : ℕ → ℚ → String)
    (engine : List (ℤ × ℚ) → SearchParams ρ → Except String SearchResults)
    (params : SearchParams ρ) (calibrationParam : String) (target : ℚ)
    (groundTruth : Option (List (List ℤ))) (f : ℤ → ℚ)
    (hlow : 0 ≤ minValue params) (hhigh : minValue params + 3 ≤ maxValue)
    (hengine : ∀ tried value, ∃ results,
      engine tried (params.withKnob (canonicalKnobName calibrationParam) value) = .ok results ∧
        results.meanPrecisionAtReturned = f value)
    (hmono : MonotoneOn f (Set.Icc (minValue params) maxValue)) :
    ∃ outcome,
      (∀ fuel, Nat.clog 2 (maxValue - minValue params).natAbs < fuel →
        calibrate fixed engine params calibrationParam target groundTruth fuel =
          some (.ok outcome)) ∧
      outcome.achieved = f outcome.value ∧
      (|outcome.achieved - target| < 1 / 10 ^ 9 ∨
        ∃ c, Crosses f target (minValue params) c ∧ |outcome.value - c| ≤ 2 ∧
          |outcome.achieved - target| ≤ |f c - target|) := by
  have haddable : Addable (minValue params) := by
    rw [maxValue] at hhigh
    constructor <;> omega
  obtain ⟨r, s, hr, hpath, hend⟩ :=
    exists_calibrate fixed engine params calibrationParam target groundTruth haddable
  obtain ⟨hinv, hbrackets⟩ := hpath.preserves
    (P := fun s : Sweep ↦ s.Inv engine params (canonicalKnobName calibrationParam) target
      (minValue params) ∧ s.Brackets f target (minValue params))
    (by
      rintro s s' ⟨hinv, hbrackets⟩ hnext
      refine ⟨(hinv.next haddable hnext).1, ?_⟩
      obtain ⟨results, hresults, hfar, hbounds, -, -, hprevious, -⟩ := calibrateStep_eq_inl hnext
      obtain ⟨results', hresults', hf⟩ := hengine s.tried s.current
      cases hresults.symm.trans hresults'
      rw [hf] at hfar hbounds
      exact hbrackets.move hlow hinv.current_eq hfar hbounds hprevious)
    ⟨Sweep.Inv.start _, Sweep.Brackets.start (by omega)⟩
  cases r with
  | error e => exact absurd hend (calibrateStep_ne_error hengine s e)
  | ok outcome =>
      refine ⟨outcome, hr, ?_⟩
      obtain ⟨precision, h⟩ := hinv.calibrated haddable (fun _ _ ↦ ⟨rfl, rfl⟩) hend
      have hmeasured := h.measured.eq_of_engine hengine
      have hreported := h.achieved (by omega)
      have hcurrent : precision = f s.current := hmeasured _ List.mem_cons_self
      refine ⟨hmeasured _ (List.mem_of_mem_take hreported), ?_⟩
      obtain ⟨results, hresults, hcases⟩ := calibrateStep_eq_inr hend
      obtain ⟨results', hresults', hf⟩ := hengine s.tried s.current
      cases hresults.symm.trans hresults'
      rw [hf] at hcases
      rcases hcases with ⟨hexact, rfl⟩ | ⟨hrevisits, hreport⟩
      · exact .inl hexact
      have hnearest := h.nearest _ List.mem_cons_self
      rw [hcurrent] at hnearest
      by_cases hfar : 1 / 10 ^ 9 ≤ |f s.current - target|
      · right
        obtain ⟨hcrosses, hprevious⟩ :=
          hbrackets.crosses hlow hmono hinv.current_eq hfar hrevisits
        refine ⟨s.current, hcrosses, ?_, hnearest⟩
        rcases List.mem_cons.mp hreported with heq | hmem
        · have hvalue : outcome.value = s.current := congrArg Prod.fst heq
          rw [hvalue, sub_self, abs_zero]
          norm_num
        · rcases hinv.last with rfl | ⟨before, hbefore⟩
          · cases hmem
          · rw [hbefore] at hmem
            have hvalue : outcome.value = s.previous :=
              congrArg Prod.fst (List.mem_singleton.mp hmem)
            rw [hvalue]
            refine hprevious.resolve_left fun hstart ↦ ?_
            rw [hstart] at hbefore
            cases hbefore
      · exact .inl (hnearest.trans_lt (not_le.mp hfar))

/-- An engine whose precision is a thousandth of `ef`. -/
def efEngine (_ : List (ℤ × ℚ)) (params : SearchParams Unit) : Except String SearchResults :=
  .ok { meanPrecisionAtReturned := ((params.searchParams.bind (·.ef)).getD 0 : ℚ) / 1000 }

theorem calibrate_crosses_ef :
    ∃ outcome,
      (∀ fuel, Nat.clog 2 990 < fuel →
        calibrate (fun _ _ ↦ "") efEngine ⟨none, none, ()⟩ "EF" (1 / 3) none fuel =
          some (.ok outcome)) ∧
      outcome.achieved = (outcome.value : ℚ) / 1000 ∧
      (|outcome.achieved - 1 / 3| < 1 / 10 ^ 9 ∨
        ∃ c, Crosses (fun v : ℤ ↦ (v : ℚ) / 1000) (1 / 3) 10 c ∧ |outcome.value - c| ≤ 2 ∧
          |outcome.achieved - 1 / 3| ≤ |(c : ℚ) / 1000 - 1 / 3|) := by
  refine calibrate_crosses (fun _ _ ↦ "") efEngine ⟨none, none, ()⟩ "EF" (1 / 3) none
    (fun v : ℤ ↦ (v : ℚ) / 1000) (by decide) (by decide) ?_ ?_
  · intro tried value
    exact ⟨_, rfl, rfl⟩
  · intro x _ y _ hxy
    have hcast : (x : ℚ) ≤ y := Int.cast_le.mpr hxy
    dsimp only
    gcongr

end Crossing

end VectorDbBenchmark.Search
