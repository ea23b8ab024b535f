import VectorDbBenchmark.F64Text
import VectorDbBenchmark.Search.Model

/-!
# Building an open-loop plan

`OpenLoopPlan::from_params` and `scheduled_at` of `engine/mod.rs`, over exact rationals.  A
`Duration` is a number of nanoseconds below `2^64` seconds; a conversion that is out of its range
panics, which stands as an error whose text says so.
-/

namespace VectorDbBenchmark.Search

open Kit

deriving instance DecidableEq for OpenLoopPlan

/-- What `from_params` reads of the search parameters. -/
structure OpenLoopParams where
  targetQps : Option F64
  durationSeconds : Option F64
  maxLatenessMs : Option F64

/-- `Duration::from_secs_f64`. -/
def durationFromSecs (secs : ℚ) : Except String ℕ :=
  if secs < 0 then
    .error ("panic: " ++ "cannot convert float seconds to Duration: value is negative")
  else
    let nanos := (roundEven (secs * 10 ^ 9)).toNat
    if nanos < 2 ^ 64 * 10 ^ 9 then .ok nanos
    else .error ("panic: " ++ "cannot convert float seconds to Duration: value is too big")

/-- The number that passes a check. -/
def finiteIf (allowed : ℚ → Bool) (e : String) : F64 → Except String ℚ
  | .fin q => if allowed q then .ok q else .error e
  | _ => .error e

namespace OpenLoopPlan

def fromParams (params : OpenLoopParams) : Except String (Option OpenLoopPlan) :=
  match params.targetQps with
  | none => .ok none
  | some targetQps => do
    let durationSeconds ←
      params.durationSeconds.elim
        (.error "open-loop search requires duration_seconds (use --search-duration)") .ok
    let maxLatenessMs := params.maxLatenessMs.getD (.fin 1000)
    let targetQps ← finiteIf (0 < ·) "target_qps must be finite and greater than zero" targetQps
    let durationSeconds ← finiteIf (fun d ↦ 0 < d ∧ d ≤ 10 ^ 9)
      "duration_seconds must be finite, greater than zero, and <= 1e9 seconds" durationSeconds
    let maxLatenessMs ← finiteIf (fun ms ↦ 0 ≤ ms ∧ ms ≤ 10 ^ 12)
      "max_lateness_ms must be finite, non-negative, and <= 1e12 ms" maxLatenessMs
    let total := roundAway (targetQps * durationSeconds)
    -- `usize::MAX as f64` is `2^64`
    if total < 1 ∨ 2 ^ 64 < total then
      .error "target_qps * duration_seconds is outside the supported range"
    else
      let lateThreshold ← durationFromSecs (max (2 / targetQps) (1 / 1000))
      let maxLateness ← durationFromSecs (maxLatenessMs / 1000)
      .ok (some ⟨targetQps, min total.toNat usizeMax, maxLateness, lateThreshold⟩)

/-- Seconds from the start to the arrival of a request. -/
def arrival (plan : OpenLoopPlan) (ordinal : ℕ) : ℚ := ordinal / plan.targetQps

/-- Instants are nanoseconds. -/
def scheduledAt (plan : OpenLoopPlan) (start ordinal : ℕ) : Except String ℕ := do
  let offset ← durationFromSecs (plan.arrival ordinal)
  .ok (start + offset)

end OpenLoopPlan

/-! ## Conversions -/

theorem durationFromSecs_eq {secs : ℚ} (hnonneg : 0 ≤ secs) (hle : secs ≤ 2 ^ 63) :
    durationFromSecs secs = .ok (roundEven (secs * 10 ^ 9)).toNat := by
  have hround : roundEven (secs * 10 ^ 9) ≤ 2 ^ 63 * 10 ^ 9 := by
    apply roundEven_le_intCast
    push_cast
    linarith
  rw [durationFromSecs, if_neg (not_lt.mpr hnonneg)]
  exact if_pos (by omega)

theorem finiteIf_eq_ok {allowed : ℚ → Bool} {e : String} {x : F64} {q : ℚ}
    (h : finiteIf allowed e x = .ok q) : x = .fin q ∧ allowed q = true := by
  cases x with
  | fin p =>
      rw [finiteIf] at h
      split_ifs at h with hallowed
      cases h
      exact ⟨rfl, hallowed⟩
  | nan => cases h
  | negInf => cases h
  | posInf => cases h

theorem not_panics_finiteIf {allowed : ℚ → Bool} {e : String} (he : e.toList.head? ≠ some 'p')
    (x : F64) : ¬ Panics (finiteIf allowed e x) := by
  cases x with
  | fin p =>
      rw [finiteIf]
      split_ifs
      · exact not_panics_ok p
      · exact not_panics_error he
  | nan => exact not_panics_error he
  | negInf => exact not_panics_error he
  | posInf => exact not_panics_error he

/-! ## Plans -/

namespace OpenLoopPlan

/-- A rate and a duration that `from_params` accepts. -/
structure Accepted (targetQps durationSeconds : ℚ) : Prop where
  qps_pos : 0 < targetQps
  duration_pos : 0 < durationSeconds
  duration_le : durationSeconds ≤ 10 ^ 9
  total_pos : 1 ≤ roundAway (targetQps * durationSeconds)

variable {targetQps durationSeconds : ℚ} {plan : OpenLoopPlan}

/-- At least half a request falls into the duration, which bounds the rate from below. -/
theorem Accepted.half_le (h : Accepted targetQps durationSeconds) :
    1 / 2 ≤ targetQps * durationSeconds := by
  have hround := lt_of_lt_roundAway (n := 0) (mul_pos h.qps_pos h.duration_pos).le h.total_pos
  rwa [Int.cast_zero, zero_add] at hround

/-- Two arrival intervals are at most four times the duration. -/
theorem Accepted.two_div_le (h : Accepted targetQps durationSeconds) :
    2 / targetQps ≤ 4 * durationSeconds := by
  rw [div_le_iff₀ h.qps_pos]
  linarith [h.half_le]

theorem Accepted.lateThreshold (h : Accepted targetQps durationSeconds) :
    ∃ nanos, durationFromSecs (max (2 / targetQps) (1 / 1000)) = .ok nanos := by
  have hbound := h.duration_le
  refine ⟨_, durationFromSecs_eq ?_ ?_⟩
  · exact le_max_of_le_right (by norm_num)
  · exact max_le (h.two_div_le.trans (by linarith)) (by norm_num)

/-- Every ordinal below the total arrives before the duration is over. -/
theorem Accepted.arrival_lt (h : Accepted targetQps durationSeconds) {ordinal : ℕ}
    (hordinal : ordinal < roundAway (targetQps * durationSeconds)) :
    ordinal / targetQps < durationSeconds := by
  have hround := lt_of_lt_roundAway (mul_pos h.qps_pos h.duration_pos).le hordinal
  rw [Int.cast_natCast] at hround
  rw [div_lt_iff₀ h.qps_pos]
  linarith

/-- The arrivals of a plan for a duration, and the instants they are scheduled at. -/
structure Schedulable (plan : OpenLoopPlan) (durationSeconds : ℚ) : Prop where
  first : plan.arrival 0 = 0
  spacing : ∀ ordinal, plan.arrival (ordinal + 1) = plan.arrival ordinal + 1 / plan.targetQps
  increasing : StrictMono plan.arrival
  nonempty : 0 < plan.totalRequests
  last : plan.arrival (plan.totalRequests - 1) < durationSeconds + 1 / plan.targetQps
  /-- Each request is scheduled at the nanosecond nearest to its arrival. -/
  scheduled : ∀ start ordinal, ordinal < plan.totalRequests →
    plan.scheduledAt start ordinal =
      .ok (start + (roundEven (plan.arrival ordinal * 10 ^ 9)).toNat)

theorem strictMono_arrival (hqps : 0 < plan.targetQps) : StrictMono plan.arrival := by
  intro i j hij
  exact div_lt_div_of_pos_right (Nat.cast_lt.mpr hij) hqps

theorem Accepted.schedulable (h : Accepted plan.targetQps durationSeconds)
    (htotal : plan.totalRequests =
      min (roundAway (plan.targetQps * durationSeconds)).toNat usizeMax) :
    plan.Schedulable durationSeconds := by
  have htotalPos := h.total_pos
  have hbelow : ∀ ordinal < plan.totalRequests, plan.arrival ordinal < durationSeconds := by
    intro ordinal hordinal
    exact h.arrival_lt (by omega)
  have hpositive : 0 < plan.totalRequests := by
    rw [htotal, usizeMax]
    omega
  refine ⟨?_, ?_, strictMono_arrival h.qps_pos, hpositive, ?_, ?_⟩
  · rw [arrival, Nat.cast_zero, zero_div]
  · intro ordinal
    rw [arrival, arrival, Nat.cast_add, Nat.cast_one, add_div]
  · have hinterval : 0 < 1 / plan.targetQps := one_div_pos.mpr h.qps_pos
    exact (hbelow _ (Nat.sub_one_lt hpositive.ne')).trans (lt_add_of_pos_right _ hinterval)
  · intro start ordinal hordinal
    have hbound := h.duration_le
    have hoffset := durationFromSecs_eq (div_nonneg (Nat.cast_nonneg ordinal) h.qps_pos.le)
      ((hbelow ordinal hordinal).le.trans (by linarith))
    rw [scheduledAt, arrival, hoffset]
    rfl

/-- The end of `from_params`, once the three numbers are checked. -/
theorem not_panics_durations (h : Accepted targetQps durationSeconds) {maxLatenessMs : ℚ}
    (hnonneg : 0 ≤ maxLatenessMs) (hle : maxLatenessMs ≤ 10 ^ 12) (total : ℕ) :
    ¬ Panics (do
      let lateThreshold ← durationFromSecs (max (2 / targetQps) (1 / 1000))
      let maxLateness ← durationFromSecs (maxLatenessMs / 1000)
      .ok (some (OpenLoopPlan.mk targetQps total maxLateness lateThreshold))) := by
  obtain ⟨late, hlate⟩ := h.lateThreshold
  have hsecs : maxLatenessMs / 1000 ≤ 2 ^ 63 := by linarith
  rw [hlate, durationFromSecs_eq (div_nonneg hnonneg (by norm_num)) hsecs]
  exact not_panics_ok _

theorem not_panics_fromParams (params : OpenLoopParams) : ¬ Panics (fromParams params) := by
  rw [fromParams]
  split
  · exact not_panics_ok _
  next qps _ =>
    refine not_panics_bind ?_ fun duration _ ↦ ?_
    · cases params.durationSeconds with
      | none => exact not_panics_error (by decide)
      | some duration => exact not_panics_ok duration
    refine not_panics_bind (not_panics_finiteIf (by decide) _) fun qps hqps ↦ ?_
    refine not_panics_bind (not_panics_finiteIf (by decide) _) fun duration hduration ↦ ?_
    refine not_panics_bind (not_panics_finiteIf (by decide) _) fun lateness hlateness ↦ ?_
    obtain ⟨-, hqps⟩ := finiteIf_eq_ok hqps
    obtain ⟨-, hduration⟩ := finiteIf_eq_ok hduration
    obtain ⟨-, hlateness⟩ := finiteIf_eq_ok hlateness
    simp only [decide_eq_true_eq] at hqps hduration hlateness
    dsimp only
    split_ifs with htotal
    · exact not_panics_error (by decide)
    · exact not_panics_durations ⟨hqps, hduration.1, hduration.2, by omega⟩ hlateness.1
        hlateness.2 _

/-- What an accepted plan was built from. -/
theorem accepted_of_fromParams {params : OpenLoopParams}
    (h : fromParams params = .ok (some plan)) :
    ∃ durationSeconds, params.targetQps = some (.fin plan.targetQps) ∧
      params.durationSeconds = some (.fin durationSeconds) ∧
      Accepted plan.targetQps durationSeconds ∧
      plan.totalRequests = min (roundAway (plan.targetQps * durationSeconds)).toNat usizeMax := by
  rw [fromParams] at h
  split at h
  · cases h
  next qps hparam =>
    obtain ⟨duration, hsome, h⟩ := bind_eq_ok.mp h
    obtain ⟨q, hqps, h⟩ := bind_eq_ok.mp h
    obtain ⟨d, hduration, h⟩ := bind_eq_ok.mp h
    obtain ⟨ms, -, h⟩ := bind_eq_ok.mp h
    dsimp only at h
    split_ifs at h with htotal
    obtain ⟨late, -, h⟩ := bind_eq_ok.mp h
    obtain ⟨max, -, h⟩ := bind_eq_ok.mp h
    cases h
    obtain ⟨rfl, hq⟩ := finiteIf_eq_ok hqps
    obtain ⟨rfl, hd⟩ := finiteIf_eq_ok hduration
    simp only [decide_eq_true_eq] at hq hd
    have htotalPos : 1 ≤ roundAway (q * d) := by omega
    refine ⟨d, hparam, ?_, ⟨hq, hd.1, hd.2, htotalPos⟩, rfl⟩
    cases hcase : params.durationSeconds with
    | none =>
        rw [hcase] at hsome
        cases hsome
    | some duration =>
        rw [hcase] at hsome
        cases hsome
        rfl

/-- No search parameters make a conversion panic, and what is accepted can be scheduled. -/
theorem fromParams_schedulable (params : OpenLoopParams) :
    ¬ Panics (fromParams params) ∧
    ∀ plan, fromParams params = .ok (some plan) →
      ∃ durationSeconds, params.targetQps = some (.fin plan.targetQps) ∧
        params.durationSeconds = some (.fin durationSeconds) ∧
        plan.Schedulable durationSeconds := by
  refine ⟨not_panics_fromParams params, fun plan h ↦ ?_⟩
  obtain ⟨durationSeconds, hqps, hduration, haccepted, htotal⟩ := accepted_of_fromParams h
  exact ⟨durationSeconds, hqps, hduration, haccepted.schedulable htotal⟩

/-- Four requests in two seconds, with the default lateness. -/
theorem fromParams_schedulable_four :
    fromParams ⟨some (.fin 2), some (.fin 2), none⟩ = .ok (some ⟨2, 4, 10 ^ 9, 10 ^ 9⟩) ∧
      (OpenLoopPlan.mk 2 4 (10 ^ 9) (10 ^ 9)).Schedulable 2 := by
  have hplan : fromParams ⟨some (.fin 2), some (.fin 2), none⟩ =
      .ok (some ⟨2, 4, 10 ^ 9, 10 ^ 9⟩) := by with_unfolding_all decide
  obtain ⟨duration, -, hduration, hschedulable⟩ :=
    (fromParams_schedulable ⟨some (.fin 2), some (.fin 2), none⟩).2 _ hplan
  cases hduration
  exact ⟨hplan, hschedulable⟩

end OpenLoopPlan

end VectorDbBenchmark.Search
