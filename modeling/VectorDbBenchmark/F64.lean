import Mathlib.Data.Rat.Defs
import Mathlib.Tactic

/-!
# Binary64 values

The values an `f64` takes, with the two zeros identified: nothing that is
modelled here tells them apart.  Comparison is IEEE's, so that every comparison with
`nan` is false.
-/

namespace VectorDbBenchmark

inductive F64 where
  | nan
  | negInf
  | fin (q : ℚ)
  | posInf
deriving DecidableEq, Repr

namespace F64

/-- `a < b` as the code's `<` computes it. -/
def lt : F64 → F64 → Bool
  | .nan, _ | _, .nan => false
  | .fin a, .fin b => decide (a < b)
  | .negInf, .negInf => false
  | .negInf, _ => true
  | _, .negInf => false
  | .fin _, .posInf => true
  | .posInf, _ => false

/-- `a <= b` as the code's `<=` computes it. -/
def le : F64 → F64 → Bool
  | .nan, _ | _, .nan => false
  | .fin a, .fin b => decide (a ≤ b)
  | .negInf, _ => true
  | _, .negInf => false
  | _, .posInf => true
  | .posInf, _ => false

/-- `a == b`. -/
def eq : F64 → F64 → Bool
  | .nan, _ => false
  | a, b => decide (a = b)

def isFinite : F64 → Bool
  | .fin _ => true
  | _ => false

/-! ## Integers as `f64` -/

/-- A natural number rounded to 53 significant bits, ties to even: the value of
`n as f64`. -/
def roundNat (n : ℕ) : ℕ :=
  if n < 2 ^ 53 then n
  else
    let shift := Nat.log2 n - 52
    let quotient := n / 2 ^ shift
    let remainder := n % 2 ^ shift
    let half := 2 ^ (shift - 1)
    let up := half < remainder ∨ (half = remainder ∧ quotient % 2 = 1)
    (if up then quotient + 1 else quotient) * 2 ^ shift

/-- `i as f64`. -/
def ofInt (i : ℤ) : F64 :=
  .fin (if 0 ≤ i then (roundNat i.natAbs : ℚ) else -(roundNat i.natAbs : ℚ))

theorem roundNat_of_le {n : ℕ} (h : n ≤ 2 ^ 53) : roundNat n = n := by
  rcases Nat.lt_or_eq_of_le h with hlt | rfl
  · exact if_pos hlt
  · decide

/-- Nothing from two above `2 ^ 53` on is rounded to it. -/
theorem lt_roundNat {n : ℕ} (h : 2 ^ 53 + 2 ≤ n) : 2 ^ 53 < roundNat n := by
  have hlog : 2 ^ Nat.log2 n ≤ n := Nat.log2_self_le (by omega)
  have hlt : n < 2 ^ (Nat.log2 n + 1) := Nat.lt_log2_self
  have hge : 53 < Nat.log2 n + 1 := (Nat.pow_lt_pow_iff_right (by decide : 1 < 2)).mp (by omega)
  rw [roundNat, if_neg (by omega)]
  generalize Nat.log2 n = k at hlog hge
  have hquotient : 2 ^ 53 < n / 2 ^ (k - 52) * 2 ^ (k - 52) := by
    rcases (Nat.le_of_lt_succ hge).eq_or_lt with rfl | hk
    · change 2 ^ 53 < n / 2 * 2
      omega
    · have hshift : 2 ^ 2 ≤ 2 ^ (k - 52) := Nat.pow_le_pow_right (by decide) (by omega)
      have hpow : 2 ^ 52 * 2 ^ (k - 52) ≤ n := by
        rw [← pow_add]
        exact (Nat.pow_le_pow_right (by decide) (by omega)).trans hlog
      have hdiv : 2 ^ 52 ≤ n / 2 ^ (k - 52) :=
        (Nat.le_div_iff_mul_le (Nat.two_pow_pos _)).mpr hpow
      calc 2 ^ 53 < 2 ^ 52 * 2 ^ 2 := by decide
        _ ≤ n / 2 ^ (k - 52) * 2 ^ (k - 52) := Nat.mul_le_mul hdiv hshift
  dsimp only
  split_ifs
  · exact hquotient.trans_le (Nat.mul_le_mul_right _ (Nat.le_succ _))
  · exact hquotient

/-- Integers of at most 53 bits convert without rounding. -/
theorem ofInt_of_le {i : ℤ} (h : i.natAbs ≤ 2 ^ 53) : ofInt i = .fin i := by
  rw [ofInt, roundNat_of_le h]
  split_ifs with hi
  · rw [Nat.cast_natAbs, abs_of_nonneg hi]
  · rw [Nat.cast_natAbs, abs_of_neg (not_le.mp hi), Int.cast_neg, neg_neg]

/-! ## Equality -/

theorem eq_iff {a b : F64} : a.eq b = true ↔ a = b ∧ a ≠ .nan := by
  cases a with
  | nan => exact iff_of_false Bool.false_ne_true fun h ↦ h.2 rfl
  | negInf => exact ⟨fun h ↦ ⟨of_decide_eq_true h, F64.noConfusion⟩, fun h ↦ decide_eq_true h.1⟩
  | fin q => exact ⟨fun h ↦ ⟨of_decide_eq_true h, F64.noConfusion⟩, fun h ↦ decide_eq_true h.1⟩
  | posInf => exact ⟨fun h ↦ ⟨of_decide_eq_true h, F64.noConfusion⟩, fun h ↦ decide_eq_true h.1⟩

/-- The numbers between a number and itself. -/
theorem le_and_le (x : F64) (q : ℚ) :
    (x.le (.fin q) && (F64.fin q).le x) = decide (x = .fin q) := by
  cases x with
  | nan => rfl
  | negInf => rfl
  | posInf => rfl
  | fin p =>
      rw [Bool.eq_iff_iff, Bool.and_eq_true, decide_eq_true_eq, F64.fin.injEq]
      exact ⟨fun ⟨h, h'⟩ ↦ le_antisymm (of_decide_eq_true h) (of_decide_eq_true h'),
        fun h ↦ ⟨decide_eq_true h.le, decide_eq_true h.ge⟩⟩

/-- A number that is at most another is not greater. -/
theorem lt_eq_false_of_le {a b : F64} (h : a.le b = true) : b.lt a = false := by
  cases a with
  | nan => cases h
  | negInf => cases b <;> rfl
  | posInf =>
      cases b with
      | posInf => rfl
      | nan => rfl
      | negInf => cases h
      | fin q => cases h
  | fin p =>
      cases b with
      | fin q => exact decide_eq_false (not_lt.mpr (of_decide_eq_true h))
      | posInf => rfl
      | nan => rfl
      | negInf => cases h

theorem eq_of_le_of_le {a b : F64} (h : a.le b = true) (h' : b.le a = true) : a = b := by
  cases a with
  | nan => cases h
  | negInf =>
      cases b with
      | negInf => rfl
      | nan => cases h
      | fin q => cases h'
      | posInf => cases h'
  | posInf =>
      cases b with
      | posInf => rfl
      | nan => cases h
      | negInf => cases h
      | fin q => cases h
  | fin p =>
      cases b with
      | fin q => exact congrArg fin (le_antisymm (of_decide_eq_true h) (of_decide_eq_true h'))
      | nan => cases h
      | negInf => cases h
      | posInf => cases h'

theorem eq_of_isEqv {xs ys : List F64} (h : xs.isEqv ys F64.eq = true) : xs = ys := by
  induction xs generalizing ys with
  | nil =>
      cases ys with
      | nil => rfl
      | cons y ys => cases h
  | cons x xs ih =>
      cases ys with
      | nil => cases h
      | cons y ys =>
          obtain ⟨hx, hxs⟩ := Bool.and_eq_true_iff.mp h
          rw [(eq_iff.mp hx).1, ih hxs]

theorem isEqv_iff {xs ys : List F64} :
    xs.isEqv ys F64.eq = true ↔ xs = ys ∧ ∀ x ∈ xs, x ≠ .nan := by
  induction xs generalizing ys with
  | nil =>
      cases ys with
      | nil => exact iff_of_true rfl ⟨rfl, List.forall_mem_nil _⟩
      | cons y ys => exact iff_of_false Bool.false_ne_true fun h ↦ by cases h.1
  | cons x xs ih =>
      cases ys with
      | nil => exact iff_of_false Bool.false_ne_true fun h ↦ by cases h.1
      | cons y ys =>
          rw [List.isEqv, Bool.and_eq_true, eq_iff, ih, List.cons.injEq, List.forall_mem_cons]
          tauto

end F64

end VectorDbBenchmark
