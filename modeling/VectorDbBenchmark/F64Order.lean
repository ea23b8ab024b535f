import VectorDbBenchmark.F64Text

/-!
# Neighbours among binary64 values

`f64::next_up` and `f64::next_down`, and that between a value and its neighbour there is no
other: a strict comparison with a value is a comparison with its neighbour.
-/

namespace VectorDbBenchmark

namespace F64

/-! ## Values as multiples -/

/-- A number is a value when it is a multiple of the distance of the values around it. -/
theorem isValue_iff {q : ℚ} : IsValue q ↔ (∃ z : ℤ, q = z * ulp q) ∧ |q| < 2 ^ 1024 := by
  constructor
  · intro h
    rw [IsValue, ofRat] at h
    split_ifs at h with hbound
    have heq := F64.fin.inj h
    refine ⟨⟨_, heq.symm⟩, ?_⟩
    rw [heq] at hbound
    exact not_le.mp hbound
  · rintro ⟨⟨z, hz⟩, hq⟩
    exact isValue_of_eq_mul_ulp z hz hq

theorem ulp_neg (q : ℚ) : ulp (-q) = ulp q := by rw [ulp, ulp, abs_neg]

theorem IsValue.neg {q : ℚ} (h : IsValue q) : IsValue (-q) := by
  obtain ⟨⟨z, hz⟩, hq⟩ := isValue_iff.mp h
  refine isValue_iff.mpr ⟨⟨-z, ?_⟩, by rwa [abs_neg]⟩
  rw [ulp_neg, Int.cast_neg, neg_mul, ← hz]

/-- Significand and exponent of a positive value. -/
structure Scaled (p : ℚ) (z e : ℤ) : Prop where
  eq : p = z * 2 ^ e
  pos : 0 < z
  lt : z < 2 ^ 53
  exponent : -1074 ≤ e
  ulp : ulp p = 2 ^ e
  /-- All 53 bits are used, unless the value is subnormal. -/
  normal : e = -1074 ∨ 2 ^ 52 ≤ z

theorem two_zpow_pos (e : ℤ) : (0 : ℚ) < 2 ^ e := zpow_pos (by norm_num) e

/-- Multiples of one power compare as their factors. -/
theorem mul_zpow_lt {z w e : ℤ} : (z : ℚ) * 2 ^ e < w * 2 ^ e ↔ z < w := by
  rw [mul_lt_mul_iff_left₀ (two_zpow_pos e), Int.cast_lt]

theorem mul_zpow_le {z w e : ℤ} : (z : ℚ) * 2 ^ e ≤ w * 2 ^ e ↔ z ≤ w := by
  rw [mul_le_mul_iff_left₀ (two_zpow_pos e), Int.cast_le]

/-- A power of two as a multiple of a lower one. -/
theorem two_zpow_eq {k e : ℤ} (h : e ≤ k) :
    (2 : ℚ) ^ k = ((2 ^ (k - e).toNat : ℤ) : ℚ) * 2 ^ e := by
  have hk : k = ((k - e).toNat : ℤ) + e := by omega
  conv_lhs => rw [hk, zpow_add₀ (by norm_num), zpow_natCast]
  push_cast
  rfl

theorem exists_scaled {p : ℚ} (hp : IsValue p) (hpos : 0 < p) : ∃ z e, Scaled p z e := by
  obtain ⟨⟨z, hz⟩, -⟩ := isValue_iff.mp hp
  have hlow : (2 : ℚ) ^ Int.log 2 p ≤ p := Int.zpow_log_le_self (by decide) hpos
  have hhigh : p < (2 : ℚ) ^ (Int.log 2 p + 1) := Int.lt_zpow_succ_log_self (by decide) p
  have hulp : ulp p = 2 ^ max (Int.log 2 p - 52) (-1074) := by rw [ulp, abs_of_pos hpos]
  rw [hulp] at hz
  generalize hk : Int.log 2 p = k at hlow hhigh hulp hz
  generalize he : max (k - 52) (-1074) = e at hulp hz
  refine ⟨z, e, hz, ?_, ?_, by omega, hulp, ?_⟩
  · have hzero : ((0 : ℤ) : ℚ) * 2 ^ e < z * 2 ^ e := by
      rwa [Int.cast_zero, zero_mul, ← hz]
    exact mul_zpow_lt.mp hzero
  · have hbound : (2 : ℚ) ^ (k + 1) ≤ 2 ^ (53 + e) := zpow_le_zpow_right₀ (by norm_num) (by omega)
    rw [two_zpow_eq (by omega : e ≤ 53 + e), Int.add_sub_cancel] at hbound
    rw [hz] at hhigh
    exact mul_zpow_lt.mp (hhigh.trans_le hbound)
  · by_cases hnormal : -1074 ≤ k - 52
    · refine .inr ?_
      have hpow := two_zpow_eq (by omega : e ≤ k)
      rw [hpow, hz] at hlow
      have hexp : (k - e).toNat = 52 := by omega
      rw [hexp] at hlow
      exact mul_zpow_le.mp hlow
    · exact .inl (by omega)

/-- Such a multiple is a value. -/
theorem isValue_mul_zpow {z e : ℤ} (hz : z.natAbs ≤ 2 ^ 53) (he : -1074 ≤ e)
    (hbound : |(z : ℚ) * 2 ^ e| < 2 ^ 1024) : IsValue (z * 2 ^ e) := by
  refine isValue_iff.mpr ⟨?_, hbound⟩
  by_cases hzero : z = 0
  · exact ⟨0, by simp [hzero]⟩
  · have hpos : 0 < |(z : ℚ) * 2 ^ e| :=
      abs_pos.mpr (mul_ne_zero (Int.cast_ne_zero.mpr hzero) (two_zpow_pos e).ne')
    have habs : |(z : ℚ) * 2 ^ e| = ((z.natAbs : ℤ) : ℚ) * 2 ^ e := by
      rw [abs_mul, abs_of_pos (two_zpow_pos e), Int.natCast_natAbs, Int.cast_abs]
    have hlow : (2 : ℚ) ^ Int.log 2 |(z : ℚ) * 2 ^ e| ≤ _ := Int.zpow_log_le_self (by decide) hpos
    rw [ulp]
    generalize Int.log 2 |(z : ℚ) * 2 ^ e| = k at hlow ⊢
    generalize hu : max (k - 52) (-1074) = u
    by_cases hue : u ≤ e
    · -- The grid is no coarser than the multiples.
      refine ⟨z * 2 ^ (e - u).toNat, ?_⟩
      rw [two_zpow_eq hue]
      push_cast
      ring
    · -- It is coarser only for the power of two after 53 bits.
      have hk : e + 53 ≤ k := by omega
      rw [habs] at hlow
      have hmono : (2 : ℚ) ^ (53 + e) ≤ 2 ^ k := zpow_le_zpow_right₀ (by norm_num) (by omega)
      have hle := hmono.trans hlow
      rw [two_zpow_eq (by omega : e ≤ 53 + e), Int.add_sub_cancel] at hle
      have h53 : (2 : ℤ) ^ 53 ≤ z.natAbs := mul_zpow_le.mp hle
      have hnat : z.natAbs = 2 ^ 53 := by omega
      have hone : u = e + 1 := by
        rw [hnat] at hlow
        have hpow : (2 : ℚ) ^ k ≤ 2 ^ (53 + e) := by
          rw [zpow_add₀ (by norm_num)]
          exact_mod_cast hlow
        have hkle : k ≤ 53 + e := (zpow_le_zpow_iff_right₀ (by norm_num)).mp hpow
        omega
      obtain ⟨w, rfl⟩ : (2 : ℤ) ∣ z := by omega
      refine ⟨w, ?_⟩
      rw [hone, zpow_add_one₀ (by norm_num)]
      push_cast
      ring

/-! ## Between values -/

/-- The larger value has the larger exponent. -/
theorem Scaled.exponent_le {p x : ℚ} {z e w u : ℤ} (hz : Scaled p z e) (hw : Scaled x w u)
    (hpos : 0 < p) (hle : p ≤ x) : e ≤ u := by
  have hlog : Int.log 2 p ≤ Int.log 2 x := Int.log_mono_right hpos hle
  have hpow : (2 : ℚ) ^ e ≤ 2 ^ u := by
    rw [← hz.ulp, ← hw.ulp, F64.ulp, F64.ulp, abs_of_pos hpos, abs_of_pos (hpos.trans_le hle)]
    exact zpow_le_zpow_right₀ (by norm_num) (by omega)
  exact (zpow_le_zpow_iff_right₀ (by norm_num)).mp hpow

/-- Between a positive value and the next multiple of its distance there is no value. -/
theorem add_ulp_le {p x : ℚ} (hp : IsValue p) (hpos : 0 < p) (hx : IsValue x) (hlt : p < x) :
    p + ulp p ≤ x := by
  obtain ⟨z, e, hz⟩ := exists_scaled hp hpos
  obtain ⟨w, u, hw⟩ := exists_scaled hx (hpos.trans hlt)
  have hexp : e ≤ u := hz.exponent_le hw hpos hlt.le
  have hx' : x = ((w * 2 ^ (u - e).toNat : ℤ) : ℚ) * 2 ^ e := by
    rw [hw.eq, two_zpow_eq hexp]
    push_cast
    ring
  have hp' : p + ulp p = ((z + 1 : ℤ) : ℚ) * 2 ^ e := by
    rw [hz.ulp, hz.eq]
    push_cast
    ring
  rw [hz.eq, hx', mul_zpow_lt] at hlt
  rw [hp', hx', mul_zpow_le]
  exact hlt

/-- No positive value is below the least subnormal one. -/
theorem min_le {x : ℚ} (hx : IsValue x) (hpos : 0 < x) : (2 : ℚ) ^ (-1074 : ℤ) ≤ x := by
  obtain ⟨w, u, hw⟩ := exists_scaled hx hpos
  have hone : ((1 : ℤ) : ℚ) * 2 ^ u ≤ w * 2 ^ u := mul_zpow_le.mpr hw.pos
  rw [Int.cast_one, one_mul, ← hw.eq] at hone
  exact (zpow_le_zpow_right₀ (by norm_num) hw.exponent).trans hone

/-- The neighbour above a number that is not negative. -/
def above (p : ℚ) : ℚ := p + if p = 0 then 2 ^ (-1074 : ℤ) else ulp p

/-- The neighbour below a positive number; at a power of two the distance changes. -/
def below (p : ℚ) : ℚ :=
  if p = 2 ^ Int.log 2 p ∧ -1074 < Int.log 2 p - 52 then p - ulp p / 2 else p - ulp p

theorem lt_iff_above_le {p x : ℚ} (hp : IsValue p) (hnonneg : 0 ≤ p) (hx : IsValue x) :
    p < x ↔ above p ≤ x := by
  rw [above]
  split_ifs with hzero
  · rw [hzero, zero_add]
    exact ⟨min_le hx, (two_zpow_pos _).trans_le⟩
  · have hpos : 0 < p := lt_of_le_of_ne hnonneg (Ne.symm hzero)
    constructor
    · exact add_ulp_le hp hpos hx
    · intro hle
      exact (lt_add_of_pos_right p (ulp_pos p)).trans_le hle

theorem below_lt {p : ℚ} : below p < p := by
  have hulp := ulp_pos p
  rw [below]
  split_ifs
  · linarith
  · linarith

/-- Significand and exponent of the neighbour below. -/
theorem below_eq {p : ℚ} {z e : ℤ} (hz : Scaled p z e) :
    below p = (if z = 2 ^ 52 ∧ -1074 < e then ((2 ^ 53 - 1 : ℤ) : ℚ) * 2 ^ (e - 1)
      else ((z - 1 : ℤ) : ℚ) * 2 ^ e) := by
  have hexp : max (Int.log 2 p - 52) (-1074) = e := by
    have hp : 0 < p := hz.eq ▸ mul_pos (Int.cast_pos.mpr hz.pos) (two_zpow_pos e)
    have hulp := hz.ulp
    rw [F64.ulp, abs_of_pos hp] at hulp
    exact (zpow_right_inj₀ (by norm_num) (by norm_num)).mp hulp
  have hcond : (p = 2 ^ Int.log 2 p ∧ -1074 < Int.log 2 p - 52) ↔ (z = 2 ^ 52 ∧ -1074 < e) := by
    have hpow : -1074 < e → (p = 2 ^ Int.log 2 p ↔ z = 2 ^ 52) := by
      intro he
      have hlog : Int.log 2 p = 52 + e := by omega
      have hcast : (2 : ℚ) ^ (52 + e) = ((2 ^ 52 : ℤ) : ℚ) * 2 ^ e := by
        rw [two_zpow_eq (by omega : e ≤ 52 + e), Int.add_sub_cancel]
        rfl
      rw [hlog, hcast, hz.eq, mul_left_inj' (two_zpow_pos e).ne', Int.cast_inj]
    constructor
    · rintro ⟨hp, he⟩
      have he' : -1074 < e := by omega
      exact ⟨(hpow he').mp hp, he'⟩
    · rintro ⟨hp, he⟩
      exact ⟨(hpow he).mpr hp, by omega⟩
  rw [below, hz.ulp]
  by_cases h : z = 2 ^ 52 ∧ -1074 < e
  · rw [if_pos (hcond.mpr h), if_pos h, hz.eq, h.1, zpow_sub_one₀ (by norm_num)]
    push_cast
    ring
  · rw [if_neg (hcond.not.mpr h), if_neg h, hz.eq]
    push_cast
    ring

theorem lt_iff_le_below {p x : ℚ} (hp : IsValue p) (hpos : 0 < p) (hx : IsValue x) :
    x < p ↔ x ≤ below p := by
  refine ⟨fun hlt ↦ ?_, fun hle ↦ hle.trans_lt below_lt⟩
  obtain ⟨z, e, hz⟩ := exists_scaled hp hpos
  rw [below_eq hz]
  have hzpos := hz.pos
  rcases le_or_gt x 0 with hneg | hxpos
  · refine hneg.trans ?_
    split_ifs
    · exact mul_nonneg (by norm_num) (two_zpow_pos _).le
    · exact mul_nonneg (Int.cast_nonneg (by omega)) (two_zpow_pos _).le
  · obtain ⟨w, u, hw⟩ := exists_scaled hx hxpos
    have hwlt := hw.lt
    rcases eq_or_lt_of_le (hw.exponent_le hz hxpos hlt.le) with rfl | hue
    · -- Multiples of one distance.
      have hwz : w < z := by
        rw [hz.eq, hw.eq] at hlt
        exact mul_zpow_lt.mp hlt
      split_ifs with h
      · have := hw.normal
        omega
      · rw [hw.eq]
        exact mul_zpow_le.mpr (by omega)
    · -- The smaller one has a lower exponent and at most 53 bits.
      have hbound : x ≤ ((2 ^ 53 - 1 : ℤ) : ℚ) * 2 ^ (e - 1) := by
        rw [hw.eq]
        refine mul_le_mul (Int.cast_le.mpr (by omega)) ?_ (two_zpow_pos u).le (by norm_num)
        exact zpow_le_zpow_right₀ (by norm_num) (by omega)
      split_ifs with h
      · exact hbound
      · have hlow := hw.exponent
        have hnormal := hz.normal
        refine hbound.trans ?_
        have hdouble : ((z - 1 : ℤ) : ℚ) * 2 ^ e = ((2 * (z - 1) : ℤ) : ℚ) * 2 ^ (e - 1) := by
          rw [zpow_sub_one₀ (by norm_num)]
          push_cast
          ring
        rw [hdouble]
        exact mul_zpow_le.mpr (by omega)

/-! ## Neighbours -/

/-- A finite number that an `f64` takes, or a value that is none. -/
def Valid : F64 → Prop
  | .fin q => IsValue q
  | _ => True

/-- The largest finite value. -/
def maxFinite : ℚ := (2 ^ 53 - 1) * 2 ^ (971 : ℤ)

/-- `x.next_up()`. -/
def nextUp : F64 → F64
  | .nan => .nan
  | .negInf => .fin (-maxFinite)
  | .fin q =>
    if 0 ≤ q then if 2 ^ 1024 ≤ above q then .posInf else .fin (above q)
    else .fin (-below (-q))
  | .posInf => .posInf

def neg : F64 → F64
  | .nan => .nan
  | .negInf => .posInf
  | .fin q => .fin (-q)
  | .posInf => .negInf

/-- `x.next_down()`. -/
def nextDown (x : F64) : F64 := (nextUp x.neg).neg

theorem isValue_zero : IsValue 0 := by
  have h := isValue_intCast (i := 0) (by decide)
  rwa [Int.cast_zero] at h

theorem maxFinite_eq : maxFinite = ((2 ^ 53 - 1 : ℤ) : ℚ) * 2 ^ (971 : ℤ) :=
  congrArg (· * (2 : ℚ) ^ (971 : ℤ)) (by norm_num)

/-- The bound of the values as a multiple. -/
theorem two_pow_1024 : (2 : ℚ) ^ 1024 = ((2 ^ 53 : ℤ) : ℚ) * 2 ^ (971 : ℤ) := by
  have hcast : (2 : ℚ) ^ (53 + 971 : ℤ) = 2 ^ 1024 := zpow_ofNat 2 1024
  rw [← hcast, two_zpow_eq (by omega : (971 : ℤ) ≤ 53 + 971), Int.add_sub_cancel]
  rfl

theorem maxFinite_lt : maxFinite < 2 ^ 1024 := by
  rw [maxFinite_eq, two_pow_1024]
  exact mul_zpow_lt.mpr (by decide)

theorem maxFinite_pos : 0 < maxFinite := mul_pos (by norm_num) (two_zpow_pos _)

/-- No value is beyond the largest one. -/
theorem le_maxFinite {x : ℚ} (hx : IsValue x) : x ≤ maxFinite := by
  rcases le_or_gt x 0 with hneg | hpos
  · exact hneg.trans maxFinite_pos.le
  · obtain ⟨z, e, hz⟩ := exists_scaled hx hpos
    have hbound := (isValue_iff.mp hx).2
    have hzlt := hz.lt
    rw [maxFinite_eq]
    rcases le_or_gt e 971 with he | he
    · rw [hz.eq]
      refine mul_le_mul (Int.cast_le.mpr (by omega)) ?_ (two_zpow_pos e).le (by norm_num)
      exact zpow_le_zpow_right₀ (by norm_num) he
    · -- A larger exponent goes with 53 bits.
      have hbits : 2 ^ 52 ≤ z := hz.normal.resolve_left (by omega)
      rw [abs_of_pos hpos] at hbound
      refine absurd hbound (not_lt.mpr ?_)
      have hdouble : (z : ℚ) * 2 ^ e = ((2 * z : ℤ) : ℚ) * 2 ^ (e - 1) := by
        rw [zpow_sub_one₀ (by norm_num)]
        push_cast
        ring
      rw [two_pow_1024, hz.eq, hdouble]
      refine mul_le_mul (Int.cast_le.mpr (by omega)) ?_ (two_zpow_pos _).le
        (Int.cast_nonneg (by omega))
      exact zpow_le_zpow_right₀ (by norm_num) (by omega)

theorem isValue_maxFinite : IsValue maxFinite := by
  rw [maxFinite_eq]
  refine isValue_mul_zpow (by decide) (by decide) ?_
  rw [← maxFinite_eq, abs_of_pos maxFinite_pos]
  exact maxFinite_lt

theorem isValue_above {p : ℚ} (hp : IsValue p) (hnonneg : 0 ≤ p) (hbound : above p < 2 ^ 1024) :
    IsValue (above p) := by
  have hpos : 0 < above p := by
    rw [above]
    split_ifs with hzero
    · exact add_pos_of_nonneg_of_pos hnonneg (two_zpow_pos _)
    · exact add_pos_of_nonneg_of_pos hnonneg (ulp_pos p)
  rw [← abs_of_pos hpos] at hbound
  rw [above] at hbound ⊢
  split_ifs at hbound ⊢ with hzero
  · have hone : p + 2 ^ (-1074 : ℤ) = ((1 : ℤ) : ℚ) * 2 ^ (-1074 : ℤ) := by
      rw [hzero, zero_add, Int.cast_one, one_mul]
    rw [hone] at hbound ⊢
    exact isValue_mul_zpow (by decide) le_rfl hbound
  · obtain ⟨z, e, hz⟩ := exists_scaled hp (lt_of_le_of_ne hnonneg (Ne.symm hzero))
    have hnext : p + ulp p = ((z + 1 : ℤ) : ℚ) * 2 ^ e := by
      rw [hz.ulp, hz.eq]
      push_cast
      ring
    have hzpos := hz.pos
    have hzlt := hz.lt
    rw [hnext] at hbound ⊢
    exact isValue_mul_zpow (by omega) hz.exponent hbound

theorem isValue_below {p : ℚ} (hp : IsValue p) (hpos : 0 < p) : IsValue (below p) := by
  obtain ⟨z, e, hz⟩ := exists_scaled hp hpos
  have hzpos := hz.pos
  have hzlt := hz.lt
  have hnonneg : 0 ≤ below p := (lt_iff_le_below hp hpos isValue_zero).mp hpos
  have hbound : |below p| < 2 ^ 1024 := by
    rw [abs_of_nonneg hnonneg]
    exact below_lt.trans (lt_of_abs_lt (isValue_iff.mp hp).2)
  rw [below_eq hz] at hbound ⊢
  split_ifs at hbound ⊢ with h
  · exact isValue_mul_zpow (by decide) (by omega) hbound
  · exact isValue_mul_zpow (by omega) hz.exponent hbound

theorem Valid.neg {x : F64} (h : x.Valid) : x.neg.Valid := by
  cases x with
  | fin q => exact IsValue.neg h
  | nan => exact h
  | negInf => exact h
  | posInf => exact h

theorem Valid.nextUp {x : F64} (h : x.Valid) : x.nextUp.Valid := by
  cases x with
  | fin q =>
      rw [F64.nextUp]
      split_ifs with hnonneg hbound
      · exact trivial
      · exact isValue_above h hnonneg (not_le.mp hbound)
      · exact (isValue_below (IsValue.neg h) (neg_pos.mpr (not_le.mp hnonneg))).neg
  | nan => exact h
  | negInf => exact isValue_maxFinite.neg
  | posInf => exact h

theorem Valid.nextDown {x : F64} (h : x.Valid) : x.nextDown.Valid := h.neg.nextUp.neg

/-- To be above a value is to reach its upper neighbour. -/
theorem nextUp_le {x : F64} (h : x.Valid) {q : ℚ} (hq : IsValue q) :
    x.nextUp.le (.fin q) = x.lt (.fin q) := by
  cases x with
  | fin p =>
      rw [nextUp, lt]
      split_ifs with hnonneg hbound
      · refine (decide_eq_false fun hlt ↦ ?_).symm
        rw [lt_iff_above_le h hnonneg hq] at hlt
        exact absurd (hbound.trans hlt) (not_le.mpr (lt_of_abs_lt (isValue_iff.mp hq).2))
      · rw [le, decide_eq_decide]
        exact (lt_iff_above_le h hnonneg hq).symm
      · rw [le, decide_eq_decide, neg_le, ← neg_lt_neg_iff]
        exact (lt_iff_le_below (IsValue.neg h) (neg_pos.mpr (not_le.mp hnonneg)) hq.neg).symm
  | nan => rfl
  | negInf =>
      rw [nextUp, le, lt]
      · refine decide_eq_true ?_
        rw [neg_le]
        exact le_maxFinite hq.neg
      · rintro ⟨⟩
      · rintro ⟨⟩
  | posInf => rfl

theorem neg_lt_neg (x y : F64) : x.neg.lt y.neg = y.lt x := by
  cases x <;> cases y <;> simp [neg, lt]

theorem neg_le_neg (x y : F64) : x.neg.le y.neg = y.le x := by
  cases x <;> cases y <;> simp [neg, le]

theorem neg_neg_eq (x : F64) : x.neg.neg = x := by
  cases x <;> simp [neg]

/-- To be below a value is to reach its lower neighbour. -/
theorem le_nextDown {x : F64} (h : x.Valid) {q : ℚ} (hq : IsValue q) :
    (F64.fin q).le x.nextDown = (F64.fin q).lt x := by
  have hup := nextUp_le h.neg hq.neg
  have hneg : F64.fin (-q) = (F64.fin q).neg := rfl
  rw [hneg, neg_lt_neg] at hup
  rw [← hup, ← neg_le_neg, nextDown, neg_neg_eq]

/-! ## Integers -/

theorem isValue_roundNat {n : ℕ} (h : n < 2 ^ 64) : IsValue (roundNat n) := by
  rw [roundNat]
  split_ifs with hsmall
  · exact isValue_intCast (i := n) (by omega)
  · have hlog : 2 ^ Nat.log2 n ≤ n := Nat.log2_self_le (by omega)
    have hlt : n < 2 ^ (Nat.log2 n + 1) := Nat.lt_log2_self
    have hle : Nat.log2 n < 64 := (Nat.pow_lt_pow_iff_right (by decide)).mp (hlog.trans_lt h)
    have hge : 53 < Nat.log2 n + 1 + 1 :=
      (Nat.pow_lt_pow_iff_right (by decide : 1 < 2)).mp (by omega)
    generalize Nat.log2 n = k at hlog hlt hle hge
    dsimp only
    have hquotient : n / 2 ^ (k - 52) < 2 ^ 53 := by
      refine Nat.div_lt_of_lt_mul (hlt.trans_eq ?_)
      rw [← pow_add]
      exact congrArg (2 ^ ·) (by omega)
    -- Either of the two neighbours has at most 53 bits.
    have hvalue : ∀ m : ℕ, m ≤ 2 ^ 53 → IsValue ((m * 2 ^ (k - 52) : ℕ) : ℚ) := by
      intro m hm
      have hcast : ((m * 2 ^ (k - 52) : ℕ) : ℚ) = ((m : ℤ) : ℚ) * 2 ^ ((k - 52 : ℕ) : ℤ) := by
        rw [zpow_natCast]
        push_cast
        rfl
      rw [hcast]
      refine isValue_mul_zpow (by omega) (by omega) ?_
      rw [abs_of_nonneg (mul_nonneg (by exact_mod_cast Nat.zero_le m) (two_zpow_pos _).le)]
      have hcoarse : ((m : ℤ) : ℚ) * 2 ^ ((k - 52 : ℕ) : ℤ) ≤
        ((2 ^ 53 : ℤ) : ℚ) * 2 ^ (12 : ℤ) := by
        refine mul_le_mul (Int.cast_le.mpr (by exact_mod_cast hm)) ?_ (two_zpow_pos _).le
          (by norm_num)
        exact zpow_le_zpow_right₀ (by norm_num) (by omega)
      rw [two_pow_1024]
      refine hcoarse.trans_lt (mul_lt_mul_of_pos_left ?_ (by norm_num))
      exact zpow_lt_zpow_right₀ (by norm_num) (by norm_num)
    split_ifs
    · exact hvalue _ hquotient
    · exact hvalue _ hquotient.le

/-- An integer that is a value is not rounded. -/
theorem roundNat_of_isValue {n : ℕ} (h : IsValue n) : roundNat n = n := by
  rcases Nat.lt_or_ge n (2 ^ 53) with hsmall | hlarge
  · exact roundNat_of_le hsmall.le
  · obtain ⟨⟨z, hz⟩, -⟩ := isValue_iff.mp h
    have hlog : 53 ≤ Nat.log 2 n := (Nat.le_log_iff_pow_le (by decide) (by omega)).mpr hlarge
    have hulp : ulp (n : ℚ) = ((2 ^ (Nat.log 2 n - 52) : ℤ) : ℚ) := by
      have habs := log_abs_intCast (n : ℤ)
      rw [Int.natAbs_natCast, Int.cast_natCast] at habs
      have hshift : max ((Nat.log 2 n : ℤ) - 52) (-1074) = ((Nat.log 2 n - 52 : ℕ) : ℤ) := by omega
      rw [ulp, habs, hshift, zpow_natCast]
      push_cast
      rfl
    rw [hulp, ← Int.cast_mul] at hz
    have hdvd : 2 ^ (Nat.log 2 n - 52) ∣ n := by
      have hint : (n : ℤ) = z * 2 ^ (Nat.log 2 n - 52) := by exact_mod_cast hz
      exact_mod_cast Dvd.intro_left z hint.symm
    -- No bits are cut off.
    rw [roundNat, if_neg (by omega), Nat.log2_eq_log_two]
    dsimp only
    rw [Nat.mod_eq_zero_of_dvd hdvd, if_neg, Nat.div_mul_cancel hdvd]
    have hhalf : 0 < 2 ^ (Nat.log 2 n - 52 - 1) := Nat.two_pow_pos _
    omega

theorem ofInt_of_isValue {i : ℤ} (h : IsValue i) : ofInt i = .fin i := by
  rw [ofInt]
  split_ifs with hi
  · obtain ⟨n, rfl⟩ := Int.eq_ofNat_of_zero_le hi
    rw [Int.natAbs_natCast, roundNat_of_isValue (by exact_mod_cast h), Int.cast_natCast]
  · obtain ⟨n, hn⟩ := Int.eq_ofNat_of_zero_le (by omega : 0 ≤ -i)
    obtain rfl : i = -n := by omega
    have hneg := h.neg
    rw [Int.cast_neg, neg_neg] at hneg
    rw [Int.natAbs_neg, Int.natAbs_natCast, roundNat_of_isValue (by exact_mod_cast hneg),
      Int.cast_neg, Int.cast_natCast]

/-- What an integer is converted to is a value. -/
theorem valid_ofInt {i : ℤ} (h : i.natAbs < 2 ^ 64) : (ofInt i).Valid := by
  rw [ofInt]
  split_ifs
  · exact isValue_roundNat h
  · exact (isValue_roundNat h).neg

end F64

end VectorDbBenchmark
