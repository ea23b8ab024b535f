import Mathlib.Data.Nat.Choose.Basic
import VectorDbBenchmark.Results.SymmetricMetrics

/-!
# How far two rankings agree

The range of the metrics of a query, and when they take their extremes: the score of a
ranking counts the pairs of shared ids that both rankings put in one order.
-/

namespace VectorDbBenchmark.Results

open Kit

/-! ## Pairs in order -/

/-- The pairs of a list that are in order. -/
def concordant : List ℕ → ℕ
  | [] => 0
  | p :: ps => ps.countP (p < ·) + concordant ps

theorem sum_sign {P : ℕ → Prop} [DecidablePred P] (ps : List ℕ) :
    (ps.map fun q ↦ if P q then (1 : ℤ) else -1).sum = 2 * ps.countP P - ps.length := by
  induction ps with
  | nil => rfl
  | cons p ps ih =>
      rw [List.map_cons, List.sum_cons, ih, List.countP_cons, List.length_cons]
      by_cases h : P p
      · simp [h]
        ring
      · simp [h]
        ring

theorem choose_two_succ (n : ℕ) : (n + 1).choose 2 = n + n.choose 2 := by
  rw [Nat.choose_succ_succ', Nat.choose_one_right]

theorem pairScore_eq (ps : List ℕ) :
    pairScore ps = 2 * concordant ps - (ps.length.choose 2 : ℕ) := by
  induction ps with
  | nil => rfl
  | cons p ps ih =>
      rw [pairScore, sum_sign, ih, concordant, List.length_cons, choose_two_succ]
      push_cast
      ring

theorem concordant_le (ps : List ℕ) : concordant ps ≤ ps.length.choose 2 := by
  induction ps with
  | nil => exact Nat.zero_le _
  | cons p ps ih =>
      rw [concordant, List.length_cons, choose_two_succ]
      exact Nat.add_le_add List.countP_le_length ih

/-- All pairs are in order. -/
theorem concordant_eq_choose {ps : List ℕ} :
    concordant ps = ps.length.choose 2 ↔ ps.Pairwise (· < ·) := by
  induction ps with
  | nil => exact ⟨fun _ ↦ .nil, fun _ ↦ rfl⟩
  | cons p ps ih =>
      have hcount : ps.countP (p < ·) ≤ ps.length := List.countP_le_length
      have hrest := concordant_le ps
      rw [concordant, List.length_cons, choose_two_succ, List.pairwise_cons, ← ih]
      constructor
      · intro h
        have hall : ps.countP (p < ·) = ps.length := by omega
        refine ⟨fun q hq ↦ ?_, by omega⟩
        exact of_decide_eq_true (List.countP_eq_length.mp hall q hq)
      · rintro ⟨hall, h⟩
        rw [h, List.countP_eq_length.mpr fun q hq ↦ decide_eq_true (hall q hq)]

/-- No pair is in order. -/
theorem concordant_eq_zero {ps : List ℕ} :
    concordant ps = 0 ↔ ps.Pairwise fun p q ↦ ¬p < q := by
  induction ps with
  | nil => exact ⟨fun _ ↦ .nil, fun _ ↦ rfl⟩
  | cons p ps ih =>
      rw [concordant, Nat.add_eq_zero_iff, ih, List.pairwise_cons, List.countP_eq_zero]
      simp only [decide_eq_true_eq]

/-! ## Rank correlation -/

theorem length_sharedPositions (r c : List String) :
    (sharedPositions r c).length = (shared r c).length := by
  rw [sharedPositions_eq, List.length_map]

/-- Rank correlation is defined for two shared ids or more. -/
theorem rankCorrelation_eq_some {r c : List String} {k : ℕ} {q : ℚ} :
    rankCorrelation r c k = some q ↔ 2 ≤ (shared (topK r k) (topK c k)).length ∧
      q = (2 * concordant (sharedPositions (topK r k) (topK c k)) -
        ((shared (topK r k) (topK c k)).length.choose 2 : ℕ)) /
          ((shared (topK r k) (topK c k)).length.choose 2 : ℕ) := by
  rw [rankCorrelation]
  rw [length_sharedPositions, ← Nat.choose_two_right, pairScore_eq, length_sharedPositions]
  split_ifs with h
  · constructor
    · intro hnone
      cases hnone
    · rintro ⟨hlen, -⟩
      exact absurd hlen (Nat.not_le.mpr h)
  · rw [Option.some_inj, and_iff_right (Nat.not_lt.mp h), eq_comm]
    push_cast
    rfl

/-- Along a list that is ordered by `f`, all pairs are related if all ids in this order are. -/
theorem pairwise_iff_of_ordered {s : List String} {f : String → ℕ} {R : String → String → Prop}
    (hs : s.Pairwise fun x y ↦ f x < f y) :
    s.Pairwise R ↔ ∀ x ∈ s, ∀ y ∈ s, f x < f y → R x y := by
  constructor
  · intro h x hx y hy hlt
    obtain ⟨i, hi, rfl⟩ := List.getElem_of_mem hx
    obtain ⟨j, hj, rfl⟩ := List.getElem_of_mem hy
    rcases lt_trichotomy i j with hij | rfl | hij
    · exact List.pairwise_iff_getElem.mp h i j hi hj hij
    · exact absurd hlt (lt_irrefl _)
    · exact absurd hlt (lt_asymm (List.pairwise_iff_getElem.mp hs j i hj hi hij))
  · intro h
    exact hs.imp_of_mem fun hx hy hlt ↦ h _ hx _ hy hlt

section Orders

variable {r c : List String}

theorem mem_shared {x : String} : x ∈ shared r c ↔ x ∈ r ∧ x ∈ c := by
  rw [shared, List.mem_filter, decide_eq_true_eq]

/-- Shared ids stand in different places. -/
theorem idxOf_ne {x y : String} (hx : x ∈ shared r c) (hne : x ≠ y) : c.idxOf x ≠ c.idxOf y :=
  fun h ↦ hne ((List.idxOf_inj (mem_shared.mp hx).2).mp h)

theorem pairwise_sharedPositions (hr : r.Nodup) {R : ℕ → ℕ → Prop} :
    (sharedPositions r c).Pairwise R ↔ ∀ x ∈ shared r c, ∀ y ∈ shared r c,
      r.idxOf x < r.idxOf y → R (c.idxOf x) (c.idxOf y) := by
  rw [sharedPositions_eq, List.pairwise_map]
  exact pairwise_iff_of_ordered ((pairwise_idxOf hr).sublist List.filter_sublist)

variable (r c) in
/-- Both lists put any two common ids in one order. -/
def SameOrder : Prop :=
  ∀ x ∈ shared r c, ∀ y ∈ shared r c, r.idxOf x < r.idxOf y ↔ c.idxOf x < c.idxOf y

variable (r c) in
/-- The lists put any two common ids in opposite orders. -/
def ReversedOrder : Prop :=
  ∀ x ∈ shared r c, ∀ y ∈ shared r c, r.idxOf x < r.idxOf y ↔ c.idxOf y < c.idxOf x

theorem concordant_eq_choose_iff (hr : r.Nodup) :
    concordant (sharedPositions r c) = (shared r c).length.choose 2 ↔ SameOrder r c := by
  rw [← length_sharedPositions, concordant_eq_choose, pairwise_sharedPositions hr]
  constructor
  · intro h x hx y hy
    refine ⟨h x hx y hy, fun hlt ↦ ?_⟩
    rcases lt_trichotomy (r.idxOf x) (r.idxOf y) with hxy | hxy | hxy
    · exact hxy
    · have heq := (List.idxOf_inj (mem_shared.mp hx).1).mp hxy
      exact absurd hlt (heq ▸ lt_irrefl _)
    · exact absurd hlt (lt_asymm (h y hy x hx hxy))
  · exact fun h x hx y hy ↦ (h x hx y hy).mp

theorem concordant_eq_zero_iff (hr : r.Nodup) :
    concordant (sharedPositions r c) = 0 ↔ ReversedOrder r c := by
  rw [concordant_eq_zero, pairwise_sharedPositions hr]
  constructor
  · intro h x hx y hy
    constructor
    · intro hlt
      have hne : x ≠ y := by
        rintro rfl
        exact lt_irrefl _ hlt
      exact lt_of_le_of_ne (not_lt.mp (h x hx y hy hlt)) (idxOf_ne hx hne).symm
    · intro hlt
      rcases lt_trichotomy (r.idxOf x) (r.idxOf y) with hxy | hxy | hxy
      · exact hxy
      · have heq := (List.idxOf_inj (mem_shared.mp hx).1).mp hxy
        exact absurd hlt (heq ▸ lt_irrefl _)
      · exact absurd hlt (h y hy x hx hxy)
  · exact fun h x hx y hy hlt ↦ lt_asymm ((h x hx y hy).mp hlt)

end Orders

/-- Rank correlation lies between its extremes, which are full agreement and full reversal. -/
theorem rankCorrelation_range {r c : List String} {k : ℕ} {q : ℚ}
    (h : rankCorrelation r c k = some q) :
    (-1 ≤ q ∧ q ≤ 1) ∧ (q = 1 ↔ SameOrder (topK r k) (topK c k)) ∧
      (q = -1 ↔ ReversedOrder (topK r k) (topK c k)) := by
  obtain ⟨hlen, rfl⟩ := rankCorrelation_eq_some.mp h
  rw [← concordant_eq_choose_iff (nodup_topK r k), ← concordant_eq_zero_iff (nodup_topK r k)]
  have hle := concordant_le (sharedPositions (topK r k) (topK c k))
  rw [length_sharedPositions] at hle
  generalize concordant (sharedPositions (topK r k) (topK c k)) = n at hle ⊢
  have hpos : 0 < (shared (topK r k) (topK c k)).length.choose 2 := Nat.choose_pos hlen
  generalize (shared (topK r k) (topK c k)).length.choose 2 = m at hle hpos ⊢
  have hpos' : (0 : ℚ) < m := Nat.cast_pos.mpr hpos
  have hle' : (n : ℚ) ≤ m := Nat.cast_le.mpr hle
  have hnonneg : (0 : ℚ) ≤ n := Nat.cast_nonneg n
  refine ⟨⟨?_, ?_⟩, ?_, ?_⟩
  · rw [le_div_iff₀ hpos']
    linarith
  · rw [div_le_one hpos']
    linarith
  · rw [div_eq_one_iff_eq hpos'.ne']
    constructor
    · intro heq
      have : (n : ℚ) = m := by linarith
      exact Nat.cast_injective this
    · rintro rfl
      ring
  · rw [div_eq_iff hpos'.ne']
    constructor
    · intro heq
      have : (n : ℚ) = 0 := by linarith
      exact Nat.cast_eq_zero.mp this
    · rintro rfl
      push_cast
      ring

/-! ## Overlap and Jaccard -/

theorem jaccardAtK_range (r c : List String) (k : ℕ) :
    0 ≤ jaccardAtK r c k ∧ jaccardAtK r c k ≤ 1 := by
  rw [jaccardAtK]
  split_ifs
  · exact ⟨zero_le_one, le_refl _⟩
  · refine ⟨by positivity, div_le_one_of_le₀ ?_ (Nat.cast_nonneg _)⟩
    exact_mod_cast Finset.card_le_card (Finset.inter_subset_union)

theorem overlapAtK_range (r c : List String) (k : ℕ) :
    0 ≤ overlapAtK r c k ∧ overlapAtK r c k ≤ 1 := by
  rw [overlapAtK]
  split_ifs
  · exact ⟨zero_le_one, le_refl _⟩
  · exact ⟨le_refl _, zero_le_one⟩
  · refine ⟨by positivity, div_le_one_of_le₀ ?_ (Nat.cast_nonneg _)⟩
    exact_mod_cast List.countP_le_length

theorem jaccardAtK_self (r : List String) (k : ℕ) : jaccardAtK r r k = 1 := by
  rw [jaccardAtK, Finset.union_self, Finset.inter_self]
  split_ifs with h
  · rfl
  · exact div_self (Nat.cast_ne_zero.mpr h)

theorem overlapAtK_self (r : List String) (k : ℕ) : overlapAtK r r k = 1 := by
  have hall : (topK r k).countP (· ∈ topK r k) = (topK r k).length :=
    List.countP_eq_length.mpr fun x hx ↦ decide_eq_true hx
  rw [overlapAtK, hall]
  split_ifs with h
  · rfl
  · rw [List.isEmpty_iff_length_eq_zero] at h
    exact div_self (Nat.cast_ne_zero.mpr h)

theorem shared_self (r : List String) : shared r r = r :=
  List.filter_eq_self.mpr fun _ hx ↦ decide_eq_true hx

theorem rankCorrelation_self {r : List String} {k : ℕ} (h : 2 ≤ (topK r k).length) :
    rankCorrelation r r k = some 1 := by
  have hsome := rankCorrelation_eq_some.mpr ⟨by rwa [shared_self], rfl⟩
  rw [hsome, Option.some_inj]
  exact (rankCorrelation_range hsome).2.1.mpr fun _ _ _ _ ↦ Iff.rfl

/-- The metrics of two result lists: rank correlation and Jaccard do not depend on which is
the reference, overlap does not for lists of equally many ids; all lie in their ranges, rank
correlation at an end of it exactly for full agreement or full reversal, and a list agrees
fully with itself. -/
theorem metrics_agree (r c : List String) (k : ℕ) :
    (rankCorrelation r c k = rankCorrelation c r k ∧
      (rankCorrelation r c k = none ↔ (shared (topK r k) (topK c k)).length < 2) ∧
      ∀ q, rankCorrelation r c k = some q → (-1 ≤ q ∧ q ≤ 1) ∧
        (q = 1 ↔ SameOrder (topK r k) (topK c k)) ∧
        (q = -1 ↔ ReversedOrder (topK r k) (topK c k))) ∧
    (jaccardAtK r c k = jaccardAtK c r k ∧ 0 ≤ jaccardAtK r c k ∧ jaccardAtK r c k ≤ 1) ∧
    (((topK r k).length = (topK c k).length → overlapAtK r c k = overlapAtK c r k) ∧
      0 ≤ overlapAtK r c k ∧ overlapAtK r c k ≤ 1) ∧
    jaccardAtK r r k = 1 ∧ overlapAtK r r k = 1 ∧
      (2 ≤ (topK r k).length → rankCorrelation r r k = some 1) := by
  refine ⟨⟨rankCorrelation_comm r c k, ?_, fun q ↦ rankCorrelation_range⟩,
    ⟨jaccardAtK_comm r c k, jaccardAtK_range r c k⟩,
    ⟨overlapAtK_comm, overlapAtK_range r c k⟩,
    jaccardAtK_self r k, overlapAtK_self r k, rankCorrelation_self⟩
  rw [rankCorrelation]
  rw [length_sharedPositions]
  simp

/-- Two common ids that are reversed, and a list with a repeated id. -/
theorem metrics_agree_cases :
    overlapAtK ["a", "b", "c"] ["b", "a", "d"] 3 = overlapAtK ["b", "a", "d"] ["a", "b", "c"] 3 ∧
      (rankCorrelation ["a", "b", "c"] ["b", "a", "d"] 3 = some (-1) ∧
        ReversedOrder (topK ["a", "b", "c"] 3) (topK ["b", "a", "d"] 3)) ∧
      rankCorrelation ["a", "b", "a"] ["a", "b", "a"] 3 = some 1 := by
  have hagree := metrics_agree ["a", "b", "c"] ["b", "a", "d"] 3
  have hsome : rankCorrelation ["a", "b", "c"] ["b", "a", "d"] 3 = some (-1) := by
    with_unfolding_all decide
  refine ⟨hagree.2.2.1.1 (by decide), ⟨hsome, ?_⟩, ?_⟩
  · exact (hagree.1.2.2 (-1) hsome).2.2.mp rfl
  · exact (metrics_agree ["a", "b", "a"] [] 3).2.2.2.2.2 (by decide)

/-- Lists of different lengths: overlap is a fraction of the reference's ids. -/
theorem overlapAtK_shorter : overlapAtK ["a"] ["a", "b"] 2 = 1 ∧
    overlapAtK ["a", "b"] ["a"] 2 = 1 / 2 ∧ rankCorrelation ["a"] ["a"] 2 = none := by
  with_unfolding_all decide

end VectorDbBenchmark.Results
