import Mathlib.Data.Nat.Dist
import Mathlib.Tactic

/-!
# Bisection

The loop that narrows a half-open window to the first index at which a test fails, and the value
of a monotone sequence that is nearest to a target: it is at that index or right before it.
-/

namespace Kit

/-! ## The loop -/

/-- `while lo < hi` with the middle of the window, which moves one of the two ends. -/
def bisect (below : ℕ → Bool) (lo hi : ℕ) : ℕ :=
  if lo < hi then
    let mid := lo + (hi - lo) / 2
    if below mid then bisect below (mid + 1) hi else bisect below lo mid
  else lo
termination_by hi - lo

/-- What the loop ends with: the test holds right before and fails at the index, unless that is an
end of the window. -/
structure Bisects (below : ℕ → Bool) (lo hi p : ℕ) : Prop where
  lo_le : lo ≤ p
  le_hi : p ≤ hi
  before : p = lo ∨ below (p - 1) = true
  after : p = hi ∨ below p = false

theorem bisect_bisects {below : ℕ → Bool} {lo hi : ℕ} (h : lo ≤ hi) :
    Bisects below lo hi (bisect below lo hi) := by
  induction lo, hi using bisect.induct below with
  | case1 lo hi hlt mid hmid ih =>
      rw [bisect, if_pos hlt]
      change Bisects below lo hi (if below mid then bisect below (mid + 1) hi else _)
      rw [if_pos hmid]
      have hbound : mid < hi := by omega
      obtain ⟨hlo, hhi, hbefore, hafter⟩ := ih hbound
      refine ⟨by omega, hhi, .inr ?_, hafter⟩
      rcases hbefore with heq | hbelow
      · rw [heq]
        exact hmid
      · exact hbelow
  | case2 lo hi hlt mid hmid ih =>
      rw [bisect, if_pos hlt]
      change Bisects below lo hi (if below mid then _ else bisect below lo mid)
      rw [if_neg hmid]
      have hbound : mid < hi := by omega
      obtain ⟨hlo, hhi, hbefore, hafter⟩ := ih (Nat.le_add_right lo _)
      refine ⟨hlo, by omega, hbefore, .inr ?_⟩
      rcases hafter with heq | habove
      · rw [heq]
        exact Bool.eq_false_iff.mpr hmid
      · exact habove
  | case3 lo hi hge =>
      rw [bisect, if_neg hge]
      exact ⟨le_rfl, h, .inl rfl, .inl (le_antisymm h (not_lt.mp hge))⟩

/-! ## The nearest value -/

section Nearest

variable {f : ℕ → ℕ} {target n p : ℕ}

/-- From the index where the target is reached on, the first value is the nearest. -/
theorem dist_le_of_le (hf : Monotone f) (hp : p = n ∨ target ≤ f p) {t : ℕ} (hpt : p ≤ t)
    (ht : t ≤ n) : target.dist (f p) ≤ target.dist (f t) := by
  rcases hp with rfl | hreached
  · rw [le_antisymm ht hpt]
  · have hle := hf hpt
    rw [Nat.dist_eq_sub_of_le hreached, Nat.dist_eq_sub_of_le (hreached.trans hle)]
    exact Nat.sub_le_sub_right hle target

/-- Before that index, the last value is the nearest. -/
theorem dist_le_of_lt (hf : Monotone f) (hp : f (p - 1) < target) {t : ℕ} (htp : t < p) :
    target.dist (f (p - 1)) ≤ target.dist (f t) := by
  have hle : f t ≤ f (p - 1) := hf (Nat.le_sub_one_of_lt htp)
  rw [Nat.dist_eq_sub_of_le_right hp.le, Nat.dist_eq_sub_of_le_right (hle.trans hp.le)]
  exact Nat.sub_le_sub_left hle target

/-- One of the two values around the index is nearest to the target. -/
theorem Bisects.dist_le (h : Bisects (fun i ↦ f i < target) 0 n p) (hf : Monotone f) {t : ℕ}
    (ht : t ≤ n) :
    (p ≠ 0 ∧ target.dist (f (p - 1)) ≤ target.dist (f t)) ∨
      target.dist (f p) ≤ target.dist (f t) := by
  rcases le_or_gt p t with hpt | htp
  · refine .inr (dist_le_of_le hf ?_ hpt ht)
    exact h.after.imp_right fun habove ↦ not_lt.mp (of_decide_eq_false habove)
  · have hne : p ≠ 0 := Nat.ne_zero_of_lt htp
    have hbefore := of_decide_eq_true (h.before.resolve_left hne)
    exact .inl ⟨hne, dist_le_of_lt hf hbefore htp⟩

end Nearest

end Kit
