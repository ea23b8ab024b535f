import VectorDbBenchmark.HybridRrf.Fusion
import VectorDbBenchmark.Kit.Rounding

/-!
# The lattice of fused scores

`check_rrf_score` of `src/hybrid_rrf.rs`, over exact rationals: whether a score that a server
returned is the reciprocal of a rank, or the sum of two of them.
-/

namespace VectorDbBenchmark.HybridRrf

open Kit

def minRankConstant : ℕ := 1

def maxRankConstant : ℕ := 10000

def maxWindow : ℕ := 10000

/-- The checks of `parse_spec` on the numbers of a block. -/
def checkSpec (spec : RrfSpec) : Except String RrfSpec :=
  if spec.window = 0 || maxWindow < spec.window then
    .error (s!"`rrf.window` must be in 1..={maxWindow} (OpenSearch's default " ++
      s!"index.max_result_window bounds pagination_depth), got {spec.window}")
  else if spec.rankConstant < minRankConstant || maxRankConstant < spec.rankConstant then
    .error (s!"`rrf.rank_constant` must be an integer in " ++
      s!"{minRankConstant}..={maxRankConstant}, got {spec.rankConstant}")
  else .ok spec

def tieTolerance : ℚ := 1 / 100000

def close (a b : ℚ) : Bool := |a - b| ≤ |b| * tieTolerance

section Check

variable (display : ℚ → String) (score : ℚ) (spec : RrfSpec)

def maxScore : ℚ := 2 / ((spec.rankConstant : ℚ) + 1)

def minScore : ℚ := 1 / ((spec.rankConstant : ℚ) + spec.window)

def offLattice : String :=
  s!"hybrid-rrf: returned score {display score} is not a reciprocal-rank-fusion score at " ++
    s!"rank_constant {spec.rankConstant} and window {spec.window} (range " ++
    s!"[{display (minScore spec)}, {display (maxScore spec)}]) — the server did not fuse " ++
    "with RRF as requested"

/-- One round of the search: the score is the share of the rank, or another rank has the rest
of it. -/
def acceptsAt (a : ℕ) : Bool :=
  let k : ℚ := spec.rankConstant
  let first := 1 / (k + a)
  if close score first then true
  else
    let rest := score - first
    if rest ≤ 0 then false
    else
      let b := roundAway (1 / rest - k)
      1 ≤ b && b ≤ spec.window && close score (first + 1 / (k + b))

def checkRrfScore : Except String Unit :=
  if maxScore spec * (1 + tieTolerance) < score || score < minScore spec * (1 - tieTolerance) then
    .error (offLattice display score spec)
  else if (List.range' 1 spec.window).any (acceptsAt score spec) then .ok ()
  else .error (offLattice display score spec)

end Check

/-- What a rank contributes. -/
def rankShare (spec : RrfSpec) (a : ℕ) : ℚ := 1 / ((spec.rankConstant : ℚ) + a)

/-- The score is within the tolerance of the share of a rank, or of the sum of two. -/
def OnLattice (spec : RrfSpec) (score : ℚ) : Prop :=
  (∃ a, 1 ≤ a ∧ a ≤ spec.window ∧ close score (rankShare spec a) = true) ∨
    ∃ a b, 1 ≤ a ∧ a ≤ spec.window ∧ 1 ≤ b ∧ b ≤ spec.window ∧
      close score (rankShare spec a + rankShare spec b) = true

variable {display : ℚ → String} {score : ℚ} {spec : RrfSpec}

/-! ## Closeness -/

theorem close_iff {v : ℚ} (hv : 0 < v) :
    close score v = true ↔ v * (1 - tieTolerance) ≤ score ∧ score ≤ v * (1 + tieTolerance) := by
  rw [close, decide_eq_true_eq, abs_of_pos hv, abs_le]
  constructor
  · rintro ⟨hlo, hhi⟩
    constructor <;> linarith
  · rintro ⟨hlo, hhi⟩
    constructor <;> linarith

theorem close_self (v : ℚ) : close v v = true := by
  rw [close, decide_eq_true_eq, sub_self, abs_zero]
  exact mul_nonneg (abs_nonneg v) (by norm_num [tieTolerance])

theorem rankShare_pos {a : ℕ} (ha : 1 ≤ a) : 0 < rankShare spec a := by
  have hcast : (1 : ℚ) ≤ a := Nat.one_le_cast.mpr ha
  have hk : (0 : ℚ) ≤ spec.rankConstant := Nat.cast_nonneg _
  exact one_div_pos.mpr (by linarith)

/-- A lower rank contributes more. -/
theorem rankShare_anti {a b : ℕ} (ha : 1 ≤ a) (hab : a ≤ b) :
    rankShare spec b ≤ rankShare spec a := by
  have hcast : (1 : ℚ) ≤ a := Nat.one_le_cast.mpr ha
  have hle : (a : ℚ) ≤ b := Nat.cast_le.mpr hab
  have hk : (0 : ℚ) ≤ spec.rankConstant := Nat.cast_nonneg _
  exact one_div_le_one_div_of_le (by linarith) (by linarith)

/-! ## What is accepted is on the lattice -/

theorem mem_ranks {a : ℕ} : a ∈ List.range' 1 spec.window ↔ 1 ≤ a ∧ a ≤ spec.window := by
  rw [List.mem_range'_1]
  omega

theorem onLattice_of_acceptsAt {a : ℕ} (ha : 1 ≤ a) (hw : a ≤ spec.window)
    (h : acceptsAt score spec a = true) : OnLattice spec score := by
  unfold acceptsAt at h
  dsimp only at h
  split_ifs at h with hfirst hrest
  · exact .inl ⟨a, ha, hw, hfirst⟩
  · rw [Bool.and_eq_true, Bool.and_eq_true, decide_eq_true_eq, decide_eq_true_eq] at h
    obtain ⟨⟨hb, hbw⟩, hclose⟩ := h
    obtain ⟨b, hb'⟩ := Int.eq_ofNat_of_zero_le (Int.le_of_lt hb)
    rw [hb'] at hb hbw hclose
    refine .inr ⟨a, b, ha, hw, ?_, ?_, hclose⟩
    · exact Int.ofNat_le.mp hb
    · exact Int.ofNat_le.mp hbw

theorem onLattice_of_check (h : checkRrfScore display score spec = .ok ()) :
    OnLattice spec score := by
  unfold checkRrfScore at h
  split_ifs at h with hrange hany
  obtain ⟨a, hmem, haccepts⟩ := List.any_eq_true.mp hany
  obtain ⟨ha, hw⟩ := mem_ranks.mp hmem
  exact onLattice_of_acceptsAt ha hw haccepts

/-! ## What is on the lattice is accepted -/

/-- A score close to a value of the range is in the range. -/
theorem not_outOfRange {v : ℚ} (hpos : 0 < v) (hmin : minScore spec ≤ v) (hmax : v ≤ maxScore spec)
    (h : close score v = true) : ¬((maxScore spec * (1 + tieTolerance) < score ||
      score < minScore spec * (1 - tieTolerance)) = true) := by
  obtain ⟨hlo, hhi⟩ := (close_iff hpos).mp h
  have htol : (0 : ℚ) ≤ 1 - tieTolerance := by norm_num [tieTolerance]
  have htol' : (0 : ℚ) ≤ 1 + tieTolerance := by norm_num [tieTolerance]
  rw [Bool.or_eq_true, decide_eq_true_eq, decide_eq_true_eq, not_or, not_lt, not_lt]
  exact ⟨hhi.trans (mul_le_mul_of_nonneg_right hmax htol'),
    (mul_le_mul_of_nonneg_right hmin htol).trans hlo⟩

theorem minScore_le_rankShare {a : ℕ} (ha : 1 ≤ a) (hw : a ≤ spec.window) :
    minScore spec ≤ rankShare spec a := rankShare_anti ha hw

theorem rankShare_le_half {a : ℕ} (ha : 1 ≤ a) : 2 * rankShare spec a ≤ maxScore spec := by
  have hle : rankShare spec a ≤ rankShare spec 1 := rankShare_anti le_rfl ha
  have hmax : maxScore spec = 2 * rankShare spec 1 := by
    rw [maxScore, rankShare, Nat.cast_one]
    ring
  rw [hmax]
  linarith

/-- Behind the share of the higher rank, the rest rounds to the lower one: the tolerance,
which inverting the rest amplifies, stays below a half. -/
theorem roundAway_rest {a b : ℕ} (ha : 1 ≤ a) (hab : a ≤ b) (hb : spec.rankConstant + b < 25000)
    (h : close score (rankShare spec a + rankShare spec b) = true) :
    0 < score - rankShare spec b ∧
      roundAway (1 / (score - rankShare spec b) - spec.rankConstant) = a := by
  have hapos : 0 < rankShare spec a := rankShare_pos ha
  have hbpos : 0 < rankShare spec b := rankShare_pos (ha.trans hab)
  have hanti : rankShare spec b ≤ rankShare spec a := rankShare_anti ha hab
  obtain ⟨hlo, hhi⟩ := (close_iff (add_pos hapos hbpos)).mp h
  rw [tieTolerance] at hlo hhi
  -- The rest, as a multiple of the share of the lower rank.
  have hrestlo : rankShare spec a * (1 - 2 / 100000) ≤ score - rankShare spec b := by linarith
  have hresthi : score - rankShare spec b ≤ rankShare spec a * (1 + 2 / 100000) := by linarith
  have hrestpos : 0 < score - rankShare spec b := by linarith
  refine ⟨hrestpos, ?_⟩
  have hy : (spec.rankConstant : ℚ) + a ≤ 24999 := by
    have hnat : spec.rankConstant + a ≤ 24999 := by omega
    exact_mod_cast hnat
  have hypos : (0 : ℚ) < (spec.rankConstant : ℚ) + a := by
    have hcast : (1 : ℚ) ≤ a := Nat.one_le_cast.mpr ha
    have hk : (0 : ℚ) ≤ spec.rankConstant := Nat.cast_nonneg _
    linarith
  have hshare : rankShare spec a * ((spec.rankConstant : ℚ) + a) = 1 :=
    one_div_mul_cancel hypos.ne'
  have hsmall : 1 / 24999 ≤ rankShare spec a := one_div_le_one_div_of_le hypos hy
  apply roundAway_eq ha
  · have hle : (spec.rankConstant : ℚ) + a - 1 / 2 ≤ 1 / (score - rankShare spec b) := by
      rw [le_div_iff₀ hrestpos]
      have hhalf : 0 ≤ (spec.rankConstant : ℚ) + a - 1 / 2 := by
        have hcast : (1 : ℚ) ≤ a := Nat.one_le_cast.mpr ha
        have hk : (0 : ℚ) ≤ spec.rankConstant := Nat.cast_nonneg _
        linarith
      calc ((spec.rankConstant : ℚ) + a - 1 / 2) * (score - rankShare spec b)
          ≤ ((spec.rankConstant : ℚ) + a - 1 / 2) * (rankShare spec a * (1 + 2 / 100000)) :=
            mul_le_mul_of_nonneg_left hresthi hhalf
        _ = (rankShare spec a * ((spec.rankConstant : ℚ) + a) - rankShare spec a / 2) *
              (1 + 2 / 100000) := by ring
        _ ≤ 1 := by
            rw [hshare]
            linarith
    linarith
  · have hlt : 1 / (score - rankShare spec b) < (spec.rankConstant : ℚ) + a + 1 / 2 := by
      rw [div_lt_iff₀ hrestpos]
      calc (1 : ℚ) < (rankShare spec a * ((spec.rankConstant : ℚ) + a) + rankShare spec a / 2) *
              (1 - 2 / 100000) := by
            rw [hshare]
            linarith
        _ = ((spec.rankConstant : ℚ) + a + 1 / 2) * (rankShare spec a * (1 - 2 / 100000)) := by ring
        _ ≤ ((spec.rankConstant : ℚ) + a + 1 / 2) * (score - rankShare spec b) :=
            mul_le_mul_of_nonneg_left hrestlo (by linarith)
    linarith

theorem acceptsAt_of_close {a : ℕ} (h : close score (rankShare spec a) = true) :
    acceptsAt score spec a = true := if_pos h

theorem acceptsAt_of_pair {a b : ℕ} (ha : 1 ≤ a) (hab : a ≤ b) (hw : b ≤ spec.window)
    (hbound : spec.rankConstant + spec.window < 25000)
    (h : close score (rankShare spec a + rankShare spec b) = true) :
    acceptsAt score spec b = true := by
  obtain ⟨hpos, hround⟩ := roundAway_rest ha hab (by omega) h
  rw [rankShare] at hpos hround
  have hclose : close score (1 / ((spec.rankConstant : ℚ) + b) +
      1 / ((spec.rankConstant : ℚ) + (a : ℤ))) = true := by
    rw [Int.cast_natCast, add_comm]
    exact h
  have hrank : (1 : ℤ) ≤ a ∧ (a : ℤ) ≤ spec.window :=
    ⟨Int.ofNat_le.mpr ha, Int.ofNat_le.mpr (hab.trans hw)⟩
  unfold acceptsAt
  dsimp only
  split_ifs with hfirst hrest
  · rfl
  · exact absurd hpos (not_lt.mpr hrest)
  · rw [hround, hclose, decide_eq_true hrank.1, decide_eq_true hrank.2]
    rfl

theorem check_of_acceptsAt {a : ℕ} (ha : 1 ≤ a) (hw : a ≤ spec.window) {v : ℚ} (hpos : 0 < v)
    (hmin : minScore spec ≤ v) (hmax : v ≤ maxScore spec) (hclose : close score v = true)
    (h : acceptsAt score spec a = true) : checkRrfScore display score spec = .ok () := by
  rw [checkRrfScore, if_neg (not_outOfRange hpos hmin hmax hclose),
    if_pos (List.any_eq_true.mpr ⟨a, mem_ranks.mpr ⟨ha, hw⟩, h⟩)]

theorem check_of_pair {a b : ℕ} (ha : 1 ≤ a) (hab : a ≤ b) (hw : b ≤ spec.window)
    (hbound : spec.rankConstant + spec.window < 25000)
    (h : close score (rankShare spec a + rankShare spec b) = true) :
    checkRrfScore display score spec = .ok () := by
  have hapos : 0 < rankShare spec a := rankShare_pos ha
  have hbpos : 0 < rankShare spec b := rankShare_pos (ha.trans hab)
  refine check_of_acceptsAt (ha.trans hab) hw (add_pos hapos hbpos) ?_ ?_ h
    (acceptsAt_of_pair ha hab hw hbound h)
  · exact (minScore_le_rankShare ha (hab.trans hw)).trans (le_add_of_nonneg_right hbpos.le)
  · have hhalf : 2 * rankShare spec a ≤ maxScore spec := rankShare_le_half ha
    have hanti : rankShare spec b ≤ rankShare spec a := rankShare_anti ha hab
    linarith

theorem check_of_onLattice (hbound : spec.rankConstant + spec.window < 25000)
    (h : OnLattice spec score) : checkRrfScore display score spec = .ok () := by
  rcases h with ⟨a, ha, hw, hclose⟩ | ⟨a, b, ha, haw, hb, hbw, hclose⟩
  · have hpos : 0 < rankShare spec a := rankShare_pos ha
    have hhalf : 2 * rankShare spec a ≤ maxScore spec := rankShare_le_half ha
    exact check_of_acceptsAt ha hw hpos (minScore_le_rankShare ha hw) (by linarith) hclose
      (acceptsAt_of_close hclose)
  · rcases Nat.le_total a b with hab | hab
    · exact check_of_pair ha hab hbw hbound hclose
    · rw [add_comm] at hclose
      exact check_of_pair hb hab haw hbound hclose

theorem bound_of_checkSpec (h : checkSpec spec = .ok spec) :
    1 ≤ spec.window ∧ spec.rankConstant + spec.window < 25000 := by
  unfold checkSpec at h
  split_ifs at h with hwindow hconstant
  rw [Bool.or_eq_true, decide_eq_true_eq, decide_eq_true_eq] at hwindow hconstant
  rw [maxWindow] at hwindow
  rw [maxRankConstant] at hconstant
  omega

/-- The rank of an id of a window, which contributes its share. -/
theorem exists_rank_of_mem {xs : List Int64} {id : Int64} (h : id ∈ xs)
    (hlen : xs.length ≤ spec.window) :
    ∃ a, 1 ≤ a ∧ a ≤ spec.window ∧ share spec.rankConstant xs id = rankShare spec a := by
  have hmem : id ∈ distinct xs := mem_distinct.mpr h
  have hidx := List.idxOf_lt_length_of_mem hmem
  have hle : (distinct xs).length ≤ xs.length := by
    rw [← card_toFinset_eq_length_distinct]
    exact List.toFinset_card_le xs
  refine ⟨(distinct xs).idxOf id + 1, Nat.succ_le_succ (Nat.zero_le _),
    (Nat.succ_le_of_lt hidx).trans (hle.trans hlen), ?_⟩
  rw [share, if_pos h, rankShare]

/-- The score of a document in either window is on the lattice. -/
theorem onLattice_share {xs ys : List Int64} {id : Int64} (hx : xs.length ≤ spec.window)
    (hy : ys.length ≤ spec.window) (h : id ∈ xs ∨ id ∈ ys) :
    OnLattice spec (share spec.rankConstant xs id + share spec.rankConstant ys id) := by
  by_cases hxs : id ∈ xs
  · obtain ⟨a, ha, haw, heq⟩ := exists_rank_of_mem hxs hx
    by_cases hys : id ∈ ys
    · obtain ⟨b, hb, hbw, heq'⟩ := exists_rank_of_mem hys hy
      refine .inr ⟨a, b, ha, haw, hb, hbw, ?_⟩
      rw [heq, heq']
      exact close_self _
    · refine .inl ⟨a, ha, haw, ?_⟩
      rw [heq, share, if_neg hys, add_zero]
      exact close_self _
  · obtain ⟨b, hb, hbw, heq⟩ := exists_rank_of_mem (h.resolve_left hxs) hy
    refine .inl ⟨b, hb, hbw, ?_⟩
    rw [heq, share, if_neg hxs, zero_add]
    exact close_self _

/-- A score is accepted only on the lattice, and all of the lattice is accepted as long as the
rank constant and the window together are below 25000, as `parse_spec` has them. -/
theorem checkRrfScore_iff (display : ℚ → String) (spec : RrfSpec) :
    (∀ score, checkRrfScore display score spec = .ok () → OnLattice spec score) ∧
      (spec.rankConstant + spec.window < 25000 →
        (∀ score, checkRrfScore display score spec = .ok () ↔ OnLattice spec score) ∧
          ∀ xs ys id, xs.length ≤ spec.window → ys.length ≤ spec.window → id ∈ xs ∨ id ∈ ys →
            checkRrfScore display
              (share spec.rankConstant xs id + share spec.rankConstant ys id) spec = .ok ()) ∧
      (checkSpec spec = .ok spec → spec.rankConstant + spec.window < 25000) :=
  ⟨fun _ ↦ onLattice_of_check,
    fun hbound ↦ ⟨fun _ ↦ ⟨onLattice_of_check, check_of_onLattice hbound⟩,
      fun _ _ _ hx hy h ↦ check_of_onLattice hbound (onLattice_share hx hy h)⟩,
    fun h ↦ (bound_of_checkSpec h).2⟩

theorem checkRrfScore_iff_hundred :
    (∀ score, checkRrfScore (fun _ ↦ "") score ⟨100, 60⟩ = .ok () ↔ OnLattice ⟨100, 60⟩ score) ∧
      ∀ xs ys id, xs.length ≤ 100 → ys.length ≤ 100 → id ∈ xs ∨ id ∈ ys →
        checkRrfScore (fun _ ↦ "") (share 60 xs id + share 60 ys id) ⟨100, 60⟩ = .ok () :=
  (checkRrfScore_iff (fun _ ↦ "") ⟨100, 60⟩).2.1 (by decide)

/-- A score that is close to the sum of two shares, at a rank constant that is too large: the
rest is inverted to another rank. -/
theorem checkRrfScore_refuses :
    OnLattice ⟨1, 30000⟩ (2 / 30001 * (1 - 1 / 100000)) ∧
      checkRrfScore (fun _ ↦ "") (2 / 30001 * (1 - 1 / 100000)) ⟨1, 30000⟩ ≠ .ok () := by
  refine ⟨.inr ⟨1, 1, le_rfl, le_rfl, le_rfl, le_rfl, by with_unfolding_all decide⟩, ?_⟩
  have hnone : (List.range' 1 1).any (acceptsAt (2 / 30001 * (1 - 1 / 100000)) ⟨1, 30000⟩) =
      false := by
    with_unfolding_all decide
  rw [checkRrfScore, hnone, if_neg Bool.false_ne_true, ite_self]
  intro h
  cases h

end VectorDbBenchmark.HybridRrf
