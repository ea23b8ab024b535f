import Mathlib.Data.Rat.Floor
import Mathlib.Tactic

/-!
# Rounding to integers

The two ways of rounding a rational number to the nearest integer: ties to even, and ties away
from zero.
-/

namespace Kit

/-! ## Ties to even -/

/-- The nearest integer, ties to even. -/
def roundEven (x : ℚ) : ℤ :=
  let below := ⌊x⌋
  if x - below < 1 / 2 then below
  else if 1 / 2 < x - below then below + 1
  else if below % 2 = 0 then below
  else below + 1

theorem roundEven_intCast (z : ℤ) : roundEven z = z := by
  rw [roundEven, Int.floor_intCast, sub_self]
  exact if_pos (by norm_num)

theorem intCast_le_roundEven {z : ℤ} {x : ℚ} (h : z ≤ x) : z ≤ roundEven x := by
  have hfloor : z ≤ ⌊x⌋ := Int.le_floor.mpr h
  rw [roundEven]
  split_ifs <;> omega

theorem roundEven_le_intCast {z : ℤ} {x : ℚ} (h : x ≤ z) : roundEven x ≤ z := by
  have hfloor : ⌊x⌋ ≤ z := Int.floor_le_iff.mpr (h.trans_lt (lt_add_one _))
  rcases hfloor.eq_or_lt with heq | hlt
  · have hx : x - ⌊x⌋ < 1 / 2 := by
      have hle : x ≤ ⌊x⌋ := by rwa [heq]
      linarith
    rw [roundEven, if_pos hx]
    exact hfloor
  · rw [roundEven]
    split_ifs <;> omega

theorem intCast_le_abs_roundEven {z : ℤ} {x : ℚ} (h : z ≤ |x|) : z ≤ |roundEven x| := by
  rcases le_abs.mp h with h | h
  · exact (intCast_le_roundEven h).trans (le_abs_self _)
  · have hneg : roundEven x ≤ -z := roundEven_le_intCast (by push_cast; linarith)
    exact (le_neg_of_le_neg hneg).trans (neg_le_abs _)

/-! ## Ties away from zero -/

/-- `f64::round`: the nearest integer, ties away from zero. -/
def roundAway (x : ℚ) : ℤ := if 0 ≤ x then ⌊x + 1 / 2⌋ else ⌈x - 1 / 2⌉

theorem lt_of_lt_roundAway {x : ℚ} {n : ℤ} (hx : 0 ≤ x) (h : n < roundAway x) : n + 1 / 2 ≤ x := by
  rw [roundAway, if_pos hx, ← Int.add_one_le_iff, Int.le_floor] at h
  push_cast at h
  linarith

theorem roundAway_eq {x : ℚ} {a : ℕ} (ha : 1 ≤ a) (hlo : (a : ℚ) - 1 / 2 ≤ x)
    (hhi : x < a + 1 / 2) : roundAway x = a := by
  have hcast : (1 : ℚ) ≤ a := Nat.one_le_cast.mpr ha
  rw [roundAway, if_pos (by linarith), Int.floor_eq_iff]
  constructor
  · push_cast
    linarith
  · push_cast
    linarith

end Kit
