import VectorDbBenchmark.Kit.Distinct

/-!
# Retrieval quality metrics

`compute_metrics` of `src/metrics.rs`, over any ordered field and with any discount of a
rank in place of the logarithm.  The ids are of any type that tells padding, what is below
zero, from an id.
-/

namespace VectorDbBenchmark.Quality

open Kit

universe u

structure QueryMetrics (R : Type u) where
  recallAtK : R
  precision : R
  recallAtTop : R
  mrr : R
  ndcg : R
deriving DecidableEq

section Model

variable {R : Type u} [Field R] {ι : Type*} [DecidableEq ι]

/-- The metrics of a query for which there is nothing to retrieve. -/
def unpenalized : QueryMetrics R := ⟨1, 1, 1, 1, 1⟩

/-- The first `k` ids of the ground truth that are no padding, each once. -/
def truthSet [Zero ι] [LE ι] [DecidableLE ι] (groundTruth : List ι) (k : ℕ) : List ι :=
  distinct ((groundTruth.filter fun id ↦ 0 ≤ id).take k)

def resultsTopk (resultIds : List ι) (k : ℕ) : List ι := (distinct resultIds).take k

def hits (truth results : List ι) : ℕ := results.countP (· ∈ truth)

/-- One over the rank of the first relevant result. -/
def reciprocalRank (truth results : List ι) : R :=
  match results.findIdx? (· ∈ truth) with
  | some rank => 1 / ((rank + 1 : ℕ) : R)
  | none => 0

def dcg (discount : ℕ → R) (truth results : List ι) : R :=
  ((results.zipIdx.filter fun e ↦ e.1 ∈ truth).map fun e ↦ discount e.2).sum

def idcg (discount : ℕ → R) (truthCount : ℕ) : R := ((List.range truthCount).map discount).sum

def computeMetrics [LinearOrder R] [Zero ι] [LE ι] [DecidableLE ι] (discount : ℕ → R)
    (resultIds groundTruth : List ι) (k : ℕ) : QueryMetrics R :=
  if k = 0 then unpenalized
  else
    let truth := truthSet groundTruth k
    if truth.length = 0 then unpenalized
    else
      let results := resultsTopk resultIds k
      { recallAtK := hits truth results / truth.length
        precision := if results.isEmpty then 0 else hits truth results / results.length
        recallAtTop := hits truth results / k
        mrr := reciprocalRank truth results
        ndcg :=
          let ideal := idcg discount truth.length
          if 0 < ideal then dcg discount truth results / ideal else 0 }

end Model

/-! ## Hits -/

section Hits

variable {ι : Type*} [DecidableEq ι]

theorem nodup_resultsTopk (resultIds : List ι) (k : ℕ) : (resultsTopk resultIds k).Nodup :=
  (nodup_distinct resultIds).sublist (List.take_sublist k _)

/-- A result that is there once is a hit of one truth id. -/
theorem hits_le_truth {truth results : List ι} (h : results.Nodup) :
    hits truth results ≤ truth.length := by
  rw [hits, List.countP_eq_length_filter]
  apply List.Subperm.length_le
  apply (h.filter _).subperm
  intro id hid
  exact of_decide_eq_true (List.mem_filter.mp hid).2

theorem hits_le_results (truth results : List ι) : hits truth results ≤ results.length :=
  List.countP_le_length

theorem length_resultsTopk_le (resultIds : List ι) (k : ℕ) :
    (resultsTopk resultIds k).length ≤ k := List.length_take_le k _

/-- The ground truth is empty exactly when every id of it is padding. -/
theorem truthSet_eq_nil [Zero ι] [LinearOrder ι] {groundTruth : List ι} {k : ℕ} (hk : k ≠ 0) :
    truthSet groundTruth k = [] ↔ ∀ id ∈ groundTruth, id < 0 := by
  rw [truthSet, distinct_eq_nil, List.take_eq_nil_iff, or_iff_right hk, List.filter_eq_nil_iff]
  simp only [decide_eq_true_eq, not_le]

/-- With ground truth to find, the recall is the share of it that was found. -/
theorem recallAtK_computeMetrics {R : Type u} [Field R] [LinearOrder R] [Zero ι] [LE ι]
    [DecidableLE ι] {discount : ℕ → R} {resultIds groundTruth : List ι} {k : ℕ} (hk : k ≠ 0)
    (htruth : (truthSet groundTruth k).length ≠ 0) :
    (computeMetrics discount resultIds groundTruth k).recallAtK =
      hits (truthSet groundTruth k) (resultsTopk resultIds k) /
        (truthSet groundTruth k).length := by
  rw [computeMetrics, if_neg hk]
  simp only [if_neg htruth]

end Hits

/-! ## Discounted gain -/

section Gain

variable {R : Type u} [Field R] [LinearOrder R] [IsStrictOrderedRing R] {discount : ℕ → R}

omit [LinearOrder R] [IsStrictOrderedRing R] in
theorem idcg_succ (discount : ℕ → R) (n : ℕ) :
    idcg discount (n + 1) = discount 0 + idcg (fun i ↦ discount (i + 1)) n := by
  rw [idcg, List.range_succ_eq_map, List.map_cons, List.sum_cons, List.map_map]
  rfl

theorem idcg_nonneg (hpos : ∀ i, 0 < discount i) (n : ℕ) : 0 ≤ idcg discount n := by
  apply List.sum_nonneg
  intro x hx
  obtain ⟨i, -, rfl⟩ := List.mem_map.mp hx
  exact (hpos i).le

theorem idcg_pos (hpos : ∀ i, 0 < discount i) {n : ℕ} (h : n ≠ 0) : 0 < idcg discount n := by
  obtain ⟨n, rfl⟩ := Nat.exists_eq_succ_of_ne_zero h
  rw [Nat.succ_eq_add_one, idcg_succ]
  exact add_pos_of_pos_of_nonneg (hpos 0) (idcg_nonneg (fun i ↦ hpos (i + 1)) n)

theorem idcg_mono (hpos : ∀ i, 0 < discount i) {m n : ℕ} (h : m ≤ n) :
    idcg discount m ≤ idcg discount n := by
  induction n, h using Nat.le_induction with
  | base => exact le_rfl
  | succ n _ ih =>
      refine ih.trans ?_
      rw [idcg, idcg, List.range_succ, List.map_append, List.sum_append, List.map_singleton,
        List.sum_singleton]
      exact le_add_of_nonneg_right (hpos n).le

/-- The gain of results that stand at the ranks from `n` on. -/
def gainFrom (discount : ℕ → R) (truth : List Int64) (n : ℕ) (results : List Int64) : R :=
  (((results.zipIdx n).filter fun e ↦ e.1 ∈ truth).map fun e ↦ discount e.2).sum

omit [LinearOrder R] [IsStrictOrderedRing R] in
theorem gainFrom_cons (truth : List Int64) (n : ℕ) (id : Int64) (results : List Int64) :
    gainFrom discount truth n (id :: results) =
      (if id ∈ truth then discount n else 0) + gainFrom discount truth (n + 1) results := by
  rw [gainFrom, List.zipIdx_cons, List.filter_cons]
  split_ifs with hid hid' hid'
  · rw [List.map_cons, List.sum_cons]
    rfl
  · exact absurd (of_decide_eq_true hid) hid'
  · exact absurd (decide_eq_true hid') hid
  · rw [zero_add]
    rfl

/-- Hits gain at most what as many hits at the first ranks gain. -/
theorem gainFrom_le (hanti : Antitone discount) {m n : ℕ} (h : m ≤ n) (truth results : List Int64) :
    gainFrom discount truth n results ≤ idcg (fun i ↦ discount (i + m)) (hits truth results) := by
  induction results generalizing m n with
  | nil => exact le_rfl
  | cons id results ih =>
      rw [gainFrom_cons, hits, List.countP_cons]
      by_cases hid : id ∈ truth
      · rw [if_pos hid, if_pos (decide_eq_true hid), idcg_succ]
        have hrest := ih (Nat.succ_le_succ h)
        rw [Nat.zero_add]
        simp only [Nat.succ_eq_add_one] at hrest
        simp only [Nat.add_right_comm _ 1 m]
        exact add_le_add (hanti h) hrest
      · rw [if_neg hid, if_neg (mt of_decide_eq_true hid), zero_add, Nat.add_zero]
        exact ih (Nat.le_succ_of_le h)

theorem gainFrom_nonneg (hpos : ∀ i, 0 < discount i) (truth : List Int64) (n : ℕ)
    (results : List Int64) : 0 ≤ gainFrom discount truth n results := by
  apply List.sum_nonneg
  intro x hx
  obtain ⟨e, -, rfl⟩ := List.mem_map.mp hx
  exact (hpos e.2).le

/-- The gain is at most the ideal one. -/
theorem dcg_le_idcg (hpos : ∀ i, 0 < discount i) (hanti : Antitone discount)
    {truth results : List Int64} (h : results.Nodup) :
    dcg discount truth results ≤ idcg discount truth.length :=
  (gainFrom_le hanti (Nat.zero_le 0) truth results).trans (idcg_mono hpos (hits_le_truth h))

end Gain

/-! ## The range of the metrics -/

section Range

variable {R : Type u} [Field R] [LinearOrder R] [IsStrictOrderedRing R] {discount : ℕ → R}

/-- The number is a share of a whole. -/
def InUnit (x : R) : Prop := 0 ≤ x ∧ x ≤ 1

theorem inUnit_zero : InUnit (0 : R) := ⟨le_rfl, zero_le_one⟩

theorem inUnit_one : InUnit (1 : R) := ⟨zero_le_one, le_rfl⟩

theorem inUnit_div {x y : R} (hx : 0 ≤ x) (hxy : x ≤ y) : InUnit (x / y) :=
  ⟨div_nonneg hx (hx.trans hxy), div_le_one_of_le₀ hxy (hx.trans hxy)⟩

theorem inUnit_natDiv {m n : ℕ} (h : m ≤ n) : InUnit ((m : R) / n) :=
  inUnit_div (Nat.cast_nonneg m) (Nat.cast_le.mpr h)

theorem inUnit_reciprocalRank (truth results : List Int64) :
    InUnit (reciprocalRank truth results : R) := by
  unfold reciprocalRank
  split
  · next rank _ =>
      have hdiv : InUnit (((1 : ℕ) : R) / ((rank + 1 : ℕ) : R)) :=
        inUnit_natDiv (Nat.succ_le_succ (Nat.zero_le rank))
      rwa [Nat.cast_one] at hdiv
  · exact inUnit_zero

/-- All metrics of a query are shares. -/
structure QueryMetrics.InRange (m : QueryMetrics R) : Prop where
  recallAtK : InUnit m.recallAtK
  precision : InUnit m.precision
  recallAtTop : InUnit m.recallAtTop
  mrr : InUnit m.mrr
  ndcg : InUnit m.ndcg

theorem inRange_unpenalized : (unpenalized : QueryMetrics R).InRange :=
  ⟨inUnit_one, inUnit_one, inUnit_one, inUnit_one, inUnit_one⟩

theorem inRange_computeMetrics (hpos : ∀ i, 0 < discount i) (hanti : Antitone discount)
    (resultIds groundTruth : List Int64) (k : ℕ) :
    (computeMetrics discount resultIds groundTruth k).InRange := by
  have hnodup := nodup_resultsTopk resultIds k
  have hresults := hits_le_results (truthSet groundTruth k) (resultsTopk resultIds k)
  have hprecision : InUnit (if (resultsTopk resultIds k).isEmpty then (0 : R)
      else hits (truthSet groundTruth k) (resultsTopk resultIds k) /
        (resultsTopk resultIds k).length) := by
    split_ifs
    · exact inUnit_zero
    · exact inUnit_natDiv hresults
  rw [computeMetrics]
  by_cases hk : k = 0
  · rw [if_pos hk]
    exact inRange_unpenalized
  · rw [if_neg hk]
    by_cases htruth : (truthSet groundTruth k).length = 0
    · simp only [if_pos htruth]
      exact inRange_unpenalized
    · simp only [if_neg htruth, if_pos (idcg_pos hpos htruth)]
      exact ⟨inUnit_natDiv (hits_le_truth hnodup), hprecision,
        inUnit_natDiv (hresults.trans (length_resultsTopk_le resultIds k)),
        inUnit_reciprocalRank _ _,
        inUnit_div (gainFrom_nonneg hpos _ 0 _) (dcg_le_idcg hpos hanti hnodup)⟩

end Range

/-! ## Only the top counts -/

section Top

variable {R : Type u} [Field R] [LinearOrder R]

/-- Behind `k` distinct ids nothing changes the top. -/
theorem resultsTopk_append {resultIds : List Int64} {k : ℕ}
    (h : k ≤ (distinct resultIds).length) (extra : List Int64) :
    resultsTopk (resultIds ++ extra) k = resultsTopk resultIds k := by
  rw [resultsTopk, distinct_append, List.take_append_of_le_length h]
  rfl

theorem computeMetrics_congr (discount : ℕ → R) {resultIds resultIds' : List Int64} {k : ℕ}
    (h : resultsTopk resultIds k = resultsTopk resultIds' k) (groundTruth : List Int64) :
    computeMetrics discount resultIds groundTruth k =
      computeMetrics discount resultIds' groundTruth k := by
  unfold computeMetrics
  rw [h]

/-- Of ids that are distinct at the first `k` positions only these are kept. -/
theorem resultsTopk_take {resultIds : List Int64} {k : ℕ} (h : (resultIds.take k).Nodup) :
    resultsTopk (resultIds.take k) k = resultsTopk resultIds k := by
  rcases Nat.le_total resultIds.length k with hlen | hlen
  · rw [List.take_of_length_le hlen]
  · have htake : k ≤ (distinct (resultIds.take k)).length := by
      rw [distinct_of_nodup h, List.length_take_of_le hlen]
    have happend := resultsTopk_append htake (resultIds.drop k)
    rw [List.take_append_drop] at happend
    exact happend.symm

end Top

/-- The metrics are shares, the gain is at most the ideal one, and ids that are returned
behind the `k`-th distinct one change nothing. -/
theorem computeMetrics_bounded {R : Type u} [Field R] [LinearOrder R] [IsStrictOrderedRing R]
    {discount : ℕ → R} (hpos : ∀ i, 0 < discount i) (hanti : Antitone discount)
    (resultIds groundTruth : List Int64) (k : ℕ) :
    (computeMetrics discount resultIds groundTruth k).InRange ∧
      dcg discount (truthSet groundTruth k) (resultsTopk resultIds k) ≤
        idcg discount (truthSet groundTruth k).length ∧
      (k ≤ (distinct resultIds).length → ∀ extra,
        computeMetrics discount (resultIds ++ extra) groundTruth k =
          computeMetrics discount resultIds groundTruth k) ∧
      ((resultIds.take k).Nodup → computeMetrics discount resultIds groundTruth k =
        computeMetrics discount (resultIds.take k) groundTruth k) :=
  ⟨inRange_computeMetrics hpos hanti resultIds groundTruth k,
    dcg_le_idcg hpos hanti (nodup_resultsTopk resultIds k),
    fun h extra ↦ computeMetrics_congr discount (resultsTopk_append h extra) groundTruth,
    fun h ↦ computeMetrics_congr discount (resultsTopk_take h).symm groundTruth⟩

/-- A discount without logarithms. -/
def harmonic (i : ℕ) : ℚ := 1 / ((i + 1 : ℕ) : ℚ)

theorem harmonic_pos (i : ℕ) : 0 < harmonic i :=
  div_pos zero_lt_one (Nat.cast_pos.mpr (Nat.succ_pos i))

theorem antitone_harmonic : Antitone harmonic := fun i _ h ↦
  one_div_le_one_div_of_le (Nat.cast_pos.mpr (Nat.succ_pos i))
    (Nat.cast_le.mpr (Nat.succ_le_succ h))

theorem computeMetrics_bounded_harmonic :
    (computeMetrics harmonic [(7 : Int64), 7, 3] [3, -1, 7, 3] 2).InRange ∧
      dcg harmonic (truthSet [(3 : Int64), -1, 7, 3] 2) (resultsTopk [7, 7, 3] 2) ≤
        idcg harmonic (truthSet [(3 : Int64), -1, 7, 3] 2).length ∧
      (2 ≤ (distinct [(7 : Int64), 7, 3]).length → ∀ extra,
        computeMetrics harmonic ([(7 : Int64), 7, 3] ++ extra) [3, -1, 7, 3] 2 =
          computeMetrics harmonic [(7 : Int64), 7, 3] [3, -1, 7, 3] 2) ∧
      (([(7 : Int64), 7, 3].take 2).Nodup →
        computeMetrics harmonic [(7 : Int64), 7, 3] [3, -1, 7, 3] 2 =
          computeMetrics harmonic ([(7 : Int64), 7, 3].take 2) [3, -1, 7, 3] 2) :=
  computeMetrics_bounded harmonic_pos antitone_harmonic [7, 7, 3] [3, -1, 7, 3] 2

/-- With a repeated id at the first two positions, the third one counts. -/
theorem beyond_position_counts :
    (computeMetrics harmonic [(7 : Int64), 7, 3] [3, 7] 2).recallAtK ≠
      (computeMetrics harmonic ([(7 : Int64), 7, 3].take 2) [3, 7] 2).recallAtK := by
  with_unfolding_all decide

end VectorDbBenchmark.Quality
