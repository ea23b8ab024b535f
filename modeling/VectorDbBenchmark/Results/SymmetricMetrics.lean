import Mathlib.Data.Int.Order.Basic
import VectorDbBenchmark.Results.CompareResults

/-!
# Metrics under an exchange of the sides

Which metrics of a query or of a shape stay as they are when reference and
candidate are exchanged.  Rank correlation does, although the code walks the
reference's ranking: its score counts, over all pairs of shared ids, whether the
two rankings agree on the pair.  Overlap is a fraction of the reference's ids, so it
stays only when both sides return equally many.
-/

namespace VectorDbBenchmark.Results

open Kit

/-! ## Shared ids -/

/-- The ids of `r` that `c` has, in the order of `r`. -/
def shared (r c : List String) : List String := r.filter (· ∈ c)

theorem perm_shared {r c : List String} (hr : r.Nodup) (hc : c.Nodup) :
    (shared r c).Perm (shared c r) := by
  rw [shared, shared, List.perm_ext_iff_of_nodup (hr.filter _) (hc.filter _)]
  intro x
  simp only [List.mem_filter, decide_eq_true_eq, and_comm]

theorem nodup_topK (ids : List String) (k : ℕ) : (topK ids k).Nodup :=
  (nodup_distinct ids).sublist (List.take_sublist _ _)

theorem jaccardAtK_comm (r c : List String) (k : ℕ) : jaccardAtK r c k = jaccardAtK c r k := by
  rw [jaccardAtK, jaccardAtK, Finset.union_comm, Finset.inter_comm]

/-- Overlap is symmetric between sides that return equally many ids. -/
theorem overlapAtK_comm {r c : List String} {k : ℕ}
    (hlen : (topK r k).length = (topK c k).length) : overlapAtK r c k = overlapAtK c r k := by
  have hempty : (topK r k).isEmpty = (topK c k).isEmpty := by
    rw [Bool.eq_iff_iff, List.isEmpty_iff_length_eq_zero, List.isEmpty_iff_length_eq_zero, hlen]
  have hcount : (topK r k).countP (· ∈ topK c k) = (topK c k).countP (· ∈ topK r k) := by
    rw [List.countP_eq_length_filter, List.countP_eq_length_filter]
    exact (perm_shared (nodup_topK r k) (nodup_topK c k)).length_eq
  rw [overlapAtK, overlapAtK, hempty, hcount, hlen]

/-! ## Rank correlation -/

/-- Whether two rankings put `x` and `y` in the same order: `1` if so, `-1` if in
opposite orders. -/
def agreement {α : Type} (f g : α → ℕ) (x y : α) : ℤ :=
  Int.sign ((f y : ℤ) - f x) * Int.sign ((g y : ℤ) - g x)

theorem agreement_comm {α : Type} (f g : α → ℕ) (x y : α) :
    agreement f g x y = agreement g f x y := mul_comm _ _

theorem agreement_self {α : Type} (f g : α → ℕ) (x : α) : agreement f g x x = 0 := by
  simp [agreement]

theorem agreement_swap {α : Type} (f g : α → ℕ) (x y : α) :
    agreement f g y x = agreement f g x y := by
  rw [agreement, agreement, ← neg_sub (f y : ℤ), ← neg_sub (g y : ℤ), Int.sign_neg, Int.sign_neg,
    neg_mul_neg]

/-- Along the first ranking, agreement is what the score counts. -/
theorem agreement_of_lt {α : Type} {f g : α → ℕ} {x y : α} (hf : f x < f y) (hg : g x ≠ g y) :
    agreement f g x y = if g x < g y then 1 else -1 := by
  rw [agreement, Int.sign_eq_one_of_pos (by omega), one_mul]
  split_ifs with h
  · exact Int.sign_eq_one_of_pos (by omega)
  · exact Int.sign_eq_neg_one_of_neg (by omega)

/-- The score counts every unordered pair once; the sum over ordered pairs counts
it twice. -/
theorem two_mul_pairScore {α : Type} {f g : α → ℕ} {s : List α}
    (hf : s.Pairwise fun x y ↦ f x < f y) (hg : s.Pairwise fun x y ↦ g x ≠ g y) :
    2 * pairScore (s.map g) = (s.map fun x ↦ (s.map (agreement f g x)).sum).sum := by
  induction s with
  | nil => rfl
  | cons x s ih =>
      obtain ⟨hfx, hf⟩ := List.pairwise_cons.mp hf
      obtain ⟨hgx, hg⟩ := List.pairwise_cons.mp hg
      have hrow : ((s.map g).map fun q ↦ if g x < q then (1 : ℤ) else -1) =
          s.map (agreement f g x) := by
        rw [List.map_map]
        exact List.map_congr_left fun y hy ↦ (agreement_of_lt (hfx y hy) (hgx y hy)).symm
      have hcolumn : (s.map fun y ↦ agreement f g y x) = s.map (agreement f g x) :=
        List.map_congr_left fun y _ ↦ agreement_swap f g x y
      simp only [List.map_cons, pairScore, List.sum_cons, agreement_self, zero_add, hrow,
        List.sum_map_add, hcolumn, ← ih hf hg]
      ring

theorem sharedPositions_eq (r c : List String) :
    sharedPositions r c = (shared r c).map fun x ↦ c.idxOf x := by
  induction r with
  | nil => rfl
  | cons x r ih =>
      have hx : c.idxOf? x = if x ∈ c then some (c.idxOf x) else none := by
        split_ifs with h
        · obtain ⟨i, hi⟩ := Option.isSome_iff_exists.mp (List.isSome_idxOf?.mpr h)
          rw [List.idxOf_eq_getD_idxOf?, hi, Option.getD_some]
        · exact List.idxOf?_eq_none_iff.mpr h
      rw [sharedPositions, List.filterMap_cons, hx, shared]
      by_cases h : x ∈ c
      · rw [if_pos h, List.filter_cons_of_pos (by simpa using h), List.map_cons]
        exact congrArg (c.idxOf x :: ·) ih
      · rw [if_neg h, List.filter_cons_of_neg (by simpa using h)]
        exact ih

theorem pairwise_idxOf {r : List String} (hr : r.Nodup) :
    r.Pairwise fun x y ↦ r.idxOf x < r.idxOf y := by
  rw [List.pairwise_iff_getElem]
  intro i j hi hj hij
  rwa [hr.idxOf_getElem, hr.idxOf_getElem]

theorem two_mul_pairScore_shared {r c : List String} (hr : r.Nodup) :
    2 * pairScore (sharedPositions r c) = ((shared r c).map fun x ↦
      ((shared r c).map (agreement (fun z ↦ r.idxOf z) (fun z ↦ c.idxOf z) x)).sum).sum := by
  rw [sharedPositions_eq]
  refine two_mul_pairScore ((pairwise_idxOf hr).sublist List.filter_sublist) ?_
  refine List.Pairwise.imp_of_mem ?_ (hr.filter _)
  intro x y hx hy hne heq
  exact hne ((List.idxOf_inj (of_decide_eq_true (List.mem_filter.mp hx).2)).mp heq)

/-- Rank correlation does not depend on which side is the reference. -/
theorem rankCorrelation_comm (r c : List String) (k : ℕ) :
    rankCorrelation r c k = rankCorrelation c r k := by
  have hr := nodup_topK r k
  have hc := nodup_topK c k
  have hperm := perm_shared hr hc
  have hlen : (sharedPositions (topK r k) (topK c k)).length =
      (sharedPositions (topK c k) (topK r k)).length := by
    rw [sharedPositions_eq, sharedPositions_eq, List.length_map, List.length_map, hperm.length_eq]
  have hscore : pairScore (sharedPositions (topK r k) (topK c k)) =
      pairScore (sharedPositions (topK c k) (topK r k)) := by
    refine mul_left_cancel₀ two_ne_zero ?_
    rw [two_mul_pairScore_shared hr, two_mul_pairScore_shared hc, (hperm.map _).sum_eq]
    refine congrArg List.sum (List.map_congr_left fun x _ ↦ ?_)
    rw [(hperm.map _).sum_eq]
    exact congrArg List.sum (List.map_congr_left fun y _ ↦ agreement_comm _ _ x y)
  rw [rankCorrelation, rankCorrelation, hlen, hscore]

/-! ## Shapes -/

/-- The totals of a query with the sides exchanged. -/
def swapTotals (t : AnswerPair × ℕ × ℕ) : AnswerPair × ℕ × ℕ := (t.1.swap, t.2.2, t.2.1)

theorem bothTotals_swap (p : AnswerPair) : bothTotals p.swap = (bothTotals p).map swapTotals := by
  obtain ⟨r, c⟩ := p
  simp only [bothTotals, Prod.swap]
  cases r.total <;> cases c.total <;> rfl

theorem absDiff_comm (a b : ℕ) : absDiff a b = absDiff b a := Nat.add_comm _ _

theorem countAgreement_swap (workload : Workload) (k : ℕ) (qs : List AnswerPair) :
    countAgreement workload k (qs.map Prod.swap) = countAgreement workload k qs := by
  have htotals : (qs.map Prod.swap).filterMap bothTotals =
      (qs.filterMap bothTotals).map swapTotals := by
    rw [List.filterMap_map, List.map_filterMap]
    exact List.filterMap_congr fun p _ ↦ bothTotals_swap p
  have hany : (qs.map Prod.swap).any (fun p ↦ p.1.total.isSome && p.2.total.isSome) =
      qs.any fun p ↦ p.1.total.isSome && p.2.total.isSome := by
    rw [List.any_map]
    exact congrArg qs.any (funext fun p ↦ Bool.and_comm _ _)
  have hexact : ∀ ts : List (AnswerPair × ℕ × ℕ), (ts.map swapTotals).countP
      (fun t ↦ t.2.1 = t.2.2) = ts.countP fun t ↦ t.2.1 = t.2.2 := by
    intro ts
    rw [List.countP_map]
    exact List.countP_congr fun t _ ↦ by simp [swapTotals, eq_comm]
  have hcomplete : ∀ ts : List (AnswerPair × ℕ × ℕ), (ts.map swapTotals).filter
      (fun t ↦ t.2.1 ≤ k && t.2.2 ≤ k) =
        (ts.filter fun t ↦ t.2.1 ≤ k && t.2.2 ≤ k).map swapTotals := by
    intro ts
    rw [List.filter_map]
    exact congrArg _ (List.filter_congr fun t _ ↦ Bool.and_comm _ _)
  have hsets : ∀ ts : List (AnswerPair × ℕ × ℕ), (ts.map swapTotals).countP
      (fun t ↦ t.1.1.ids.toFinset = t.1.2.ids.toFinset) =
        ts.countP fun t ↦ t.1.1.ids.toFinset = t.1.2.ids.toFinset := by
    intro ts
    rw [List.countP_map]
    exact List.countP_congr fun t _ ↦ by simp [swapTotals, eq_comm]
  have hmax : ∀ ts : List (AnswerPair × ℕ × ℕ), (ts.map swapTotals).foldl
      (fun m t ↦ max m (absDiff t.2.1 t.2.2)) 0 =
        ts.foldl (fun m t ↦ max m (absDiff t.2.1 t.2.2)) 0 := by
    intro ts
    rw [List.foldl_map]
    simp only [swapTotals, absDiff_comm]
  rw [countAgreement, countAgreement, hany, htotals]
  simp only [hexact, hcomplete, hsets, hmax, List.length_map]

/-- What a shape reports stays or moves to the other side, overlap apart. -/
structure ShapeExchanged (s t : ShapeReport) : Prop where
  shape : t.shape = s.shape
  queries : t.queries = s.queries
  jaccardAtK : t.jaccardAtK = s.jaccardAtK
  rankCorrelation : t.rankCorrelation = s.rankCorrelation
  rankCorrelationQueries : t.rankCorrelationQueries = s.rankCorrelationQueries
  countAgreement : t.countAgreement = s.countAgreement
  recallAtKReference : t.recallAtKReference = s.recallAtKCandidate
  recallAtKCandidate : t.recallAtKCandidate = s.recallAtKReference

section ShapeReport

variable (shape : String) (workload : Workload) (k : ℕ) (qs : List AnswerPair)

/-- The queries of a shape that are compared by rank. -/
def rankedPairs : List AnswerPair := if workload.isRanked then qs else []

theorem rankedPairs_swap :
    rankedPairs workload (qs.map Prod.swap) = (rankedPairs workload qs).map Prod.swap := by
  rw [rankedPairs, rankedPairs]
  split_ifs <;> rfl

theorem shapeReport_swap :
    ShapeExchanged (shapeReport shape workload k qs)
      (shapeReport shape workload k (qs.map Prod.swap)) := by
  have hranked := rankedPairs_swap workload qs
  rw [rankedPairs, rankedPairs] at hranked
  have htau : ∀ ps : List AnswerPair,
      (ps.map Prod.swap).filterMap (fun p ↦ rankCorrelation p.1.ids p.2.ids k) =
        ps.filterMap fun p ↦ rankCorrelation p.1.ids p.2.ids k := by
    intro ps
    rw [List.filterMap_map]
    exact List.filterMap_congr fun p _ ↦ rankCorrelation_comm _ _ _
  have hjaccard : ∀ ps : List AnswerPair,
      (ps.map Prod.swap).map (fun p ↦ jaccardAtK p.1.ids p.2.ids k) =
        ps.map fun p ↦ jaccardAtK p.1.ids p.2.ids k := by
    intro ps
    rw [List.map_map]
    exact List.map_congr_left fun p _ ↦ jaccardAtK_comm _ _ _
  have hfst : (qs.map Prod.swap).map Prod.fst = qs.map Prod.snd := by rw [List.map_map]; rfl
  have hsnd : (qs.map Prod.swap).map Prod.snd = qs.map Prod.fst := by rw [List.map_map]; rfl
  constructor
  · rfl
  · exact List.length_map _
  · simp only [shapeReport, hranked, hjaccard]
  · simp only [shapeReport, hranked, htau]
  · simp only [shapeReport, hranked, htau]
  · exact countAgreement_swap workload k qs
  · simp only [shapeReport, hfst]
  · simp only [shapeReport, hsnd]

/-- Overlap stays too where both sides return equally many ids. -/
theorem overlapAtK_shapeReport_swap
    (heven : ∀ p ∈ qs, (topK p.1.ids k).length = (topK p.2.ids k).length) :
    (shapeReport shape workload k (qs.map Prod.swap)).overlapAtK =
      (shapeReport shape workload k qs).overlapAtK := by
  have hranked := rankedPairs_swap workload qs
  have hoverlap : ((rankedPairs workload qs).map Prod.swap).map
      (fun p ↦ overlapAtK p.1.ids p.2.ids k) =
        (rankedPairs workload qs).map fun p ↦ overlapAtK p.1.ids p.2.ids k := by
    rw [List.map_map]
    refine List.map_congr_left fun p hp ↦ (overlapAtK_comm (heven p ?_)).symm
    rw [rankedPairs] at hp
    split_ifs at hp with h
    · exact hp
    · exact absurd hp List.not_mem_nil
  rw [← hranked] at hoverlap
  exact congrArg mean hoverlap

end ShapeReport

end VectorDbBenchmark.Results
