import Mathlib.Data.Int.Log
import VectorDbBenchmark.F64
import VectorDbBenchmark.Kit.DecimalText
import VectorDbBenchmark.Kit.Rounding

/-!
# Numerals of binary64 values

`Display` of an `f64`, which prints the shortest decimal numeral that is read as the same
value, and the reading of a numeral, which rounds to the nearest value, ties to even.
-/

namespace VectorDbBenchmark

open Kit

namespace F64

/-! ## Rounding -/

/-- The distance of the values around a number. -/
def ulp (x : ℚ) : ℚ := 2 ^ max (Int.log 2 |x| - 52) (-1074)

/-- The value nearest to a number, ties to even. -/
def ofRat (x : ℚ) : F64 :=
  let y := roundEven (x / ulp x) * ulp x
  if 2 ^ 1024 ≤ |y| then if 0 < y then .posInf else .negInf
  else .fin y

/-- Numbers that an `f64` takes. -/
def IsValue (q : ℚ) : Prop := ofRat q = .fin q

instance (q : ℚ) : Decidable (IsValue q) := inferInstanceAs (Decidable (ofRat q = .fin q))

theorem ulp_pos (x : ℚ) : 0 < ulp x := zpow_pos (by norm_num) _

/-- A multiple of the distance of the values around it is not rounded. -/
theorem isValue_of_eq_mul_ulp {q : ℚ} (z : ℤ) (hz : q = z * ulp q) (hq : |q| < 2 ^ 1024) :
    IsValue q := by
  have hround : (roundEven (q / ulp q) : ℚ) * ulp q = q := by
    have hdiv : q / ulp q = z := by
      rw [div_eq_iff (ulp_pos q).ne']
      exact hz
    rw [hdiv, roundEven_intCast]
    exact hz.symm
  rw [IsValue, ofRat, hround, if_neg (not_le.mpr hq)]

/-- What is rounded to a small value is small. -/
theorem two_pow_53_le_of_ofRat {x q : ℚ} (h : ofRat x = .fin q) (hx : 2 ^ 53 ≤ |x|) :
    2 ^ 53 ≤ |q| := by
  have hpos : 0 < |x| := lt_of_lt_of_le (by norm_num) hx
  have hlog : 53 ≤ Int.log 2 |x| :=
    (Int.zpow_le_iff_le_log (by decide) hpos).mp (by exact_mod_cast hx)
  have hulp : ulp x = 2 ^ (Int.log 2 |x| - 52) := by rw [ulp, max_eq_left (by omega)]
  have htwo : (2 : ℚ) ≤ ulp x := by
    rw [hulp]
    calc (2 : ℚ) = 2 ^ (1 : ℤ) := (zpow_one _).symm
      _ ≤ 2 ^ (Int.log 2 |x| - 52) := zpow_le_zpow_right₀ (by norm_num) (by omega)
  have hquotient : ((2 ^ 52 : ℤ) : ℚ) ≤ |x / ulp x| := by
    rw [abs_div, abs_of_pos (ulp_pos x), le_div_iff₀ (ulp_pos x), hulp]
    calc ((2 ^ 52 : ℤ) : ℚ) * 2 ^ (Int.log 2 |x| - 52) = 2 ^ Int.log 2 |x| := by
          rw [zpow_sub₀ (by norm_num)]
          norm_num
          ring
      _ ≤ |x| := Int.zpow_log_le_self (by decide) hpos
  have hround : (2 ^ 52 : ℚ) ≤ |(roundEven (x / ulp x) : ℚ)| := by
    exact_mod_cast intCast_le_abs_roundEven hquotient
  have hvalue : q = roundEven (x / ulp x) * ulp x := by
    rw [ofRat] at h
    split_ifs at h
    exact (F64.fin.inj h).symm
  rw [hvalue, abs_mul, abs_of_pos (ulp_pos x)]
  calc (2 ^ 53 : ℚ) = 2 ^ 52 * 2 := by norm_num
    _ ≤ _ := mul_le_mul hround htwo (by norm_num) (abs_nonneg _)

theorem log_abs_intCast (i : ℤ) : Int.log 2 |(i : ℚ)| = Nat.log 2 i.natAbs := by
  rw [← Int.cast_abs, ← Nat.cast_natAbs]
  exact Int.log_natCast 2 i.natAbs

/-- Integers of at most 53 bits. -/
theorem isValue_intCast {i : ℤ} (h : i.natAbs ≤ 2 ^ 53) : IsValue i := by
  have hsmall : |(i : ℚ)| < 2 ^ 1024 := by
    have hcast : |(i : ℚ)| ≤ 2 ^ 53 := by
      rw [← Int.cast_abs, ← Nat.cast_natAbs]
      exact_mod_cast h
    exact hcast.trans_lt (pow_lt_pow_right₀ (by norm_num) (by norm_num))
  rcases Nat.lt_or_eq_of_le h with hlt | heq
  · have hlog : Nat.log 2 i.natAbs ≤ 52 := by
      by_cases hi : i.natAbs = 0
      · rw [hi, Nat.log_zero_right]
        exact Nat.zero_le _
      · exact Nat.lt_succ_iff.mp (Nat.log_lt_of_lt_pow hi hlt)
    have hmax : max ((Nat.log 2 i.natAbs : ℤ) - 52) (-1074) =
      -((52 - Nat.log 2 i.natAbs : ℕ) : ℤ) := by
      omega
    refine isValue_of_eq_mul_ulp (i * 2 ^ (52 - Nat.log 2 i.natAbs)) ?_ hsmall
    rw [ulp, log_abs_intCast, hmax, zpow_neg, zpow_natCast]
    push_cast
    rw [mul_assoc, mul_inv_cancel₀ (pow_ne_zero _ (by norm_num)), mul_one]
  · have hlog : Nat.log 2 i.natAbs = 53 := by
      rw [heq]
      exact Nat.log_pow (by decide) 53
    obtain ⟨k, hk⟩ : (2 : ℤ) ∣ i := by
      omega
    refine isValue_of_eq_mul_ulp k ?_ hsmall
    rw [ulp, log_abs_intCast, hlog, hk]
    push_cast
    norm_num
    exact mul_comm _ _

theorem isDecimal_of_isValue {q : ℚ} (h : IsValue q) : IsDecimal q := by
  have heq : (roundEven (q / ulp q) : ℚ) * ulp q = q := by
    rw [IsValue, ofRat] at h
    split_ifs at h
    exact F64.fin.inj h
  rw [← heq, ulp]
  exact isDecimal_mul_zpow (by decide : 2 ∣ 10) (roundEven (q / ulp q)) _

/-! ## Printing -/

/-- The numbers of `digits` significant digits on either side of a number, the nearer one
first. -/
def decimalsAround (q : ℚ) (digits : ℕ) : List ℚ :=
  let grid : ℚ := 10 ^ (Int.log 10 |q| + 1 - digits)
  let below : ℤ := ⌊q / grid⌋
  if q - below * grid ≤ (below + 1 : ℤ) * grid - q then [below * grid, (below + 1 : ℤ) * grid]
  else [(below + 1 : ℤ) * grid, below * grid]

/-- The number of the fewest digits, at most 17, that is read as the value. -/
def shortest (q : ℚ) : ℚ :=
  (((List.range 17).flatMap fun k ↦ decimalsAround q (k + 1)).find? fun c ↦
    ofRat c = .fin q).getD q

/-- `Display`. -/
def display : F64 → Text
  | .nan => "NaN".toList
  | .negInf => "-inf".toList
  | .fin q => decimalText (shortest q)
  | .posInf => "inf".toList

/-- `{:?}`, with an exponent for what is large or close to zero. -/
def debug : F64 → Text
  | .fin q =>
    let d := shortest q
    if 10 ^ 16 ≤ |q| ∨ (q ≠ 0 ∧ |q| < 1 / 10 ^ 4) then
      decimalText (d / 10 ^ Int.log 10 |d|) ++ 'e' :: intText (Int.log 10 |d|)
    else pointText d
  | x => display x

/-- The value of a numeral. -/
def parse (t : Text) : Option F64 :=
  if t = "inf".toList ∨ t = "+inf".toList then some .posInf
  else if t = "-inf".toList then some .negInf
  else if t = "NaN".toList then some .nan
  else (parseDecimal t).map ofRat

/-! ## Reading back -/

theorem isDecimal_of_mem_decimalsAround {q c : ℚ} {digits : ℕ} (h : c ∈ decimalsAround q digits) :
    IsDecimal c := by
  have hmul : ∀ z e : ℤ, IsDecimal (z * (10 : ℚ) ^ e) := isDecimal_mul_zpow (dvd_refl 10)
  rw [decimalsAround] at h
  split_ifs at h
  · rcases List.mem_cons.mp h with rfl | h
    · exact hmul _ _
    · rw [List.mem_singleton.mp h]
      exact hmul _ _
  · rcases List.mem_cons.mp h with rfl | h
    · exact hmul _ _
    · rw [List.mem_singleton.mp h]
      exact hmul _ _

theorem shortest_of_isValue {q : ℚ} (h : IsValue q) :
    IsDecimal (shortest q) ∧ ofRat (shortest q) = .fin q := by
  rw [shortest]
  cases hfind : ((List.range 17).flatMap fun k ↦ decimalsAround q (k + 1)).find? fun c ↦
      ofRat c = .fin q with
  | none => exact ⟨isDecimal_of_isValue h, h⟩
  | some c =>
      obtain ⟨k, -, hk⟩ := List.mem_flatMap.mp (List.mem_of_find?_eq_some hfind)
      have hround := List.find?_some hfind
      rw [decide_eq_true_eq] at hround
      exact ⟨isDecimal_of_mem_decimalsAround hk, hround⟩

theorem display_ne_nil (q : ℚ) : display (.fin q) ≠ [] := decimalText_ne_nil _

/-- What does not occur in a numeral that is printed. -/
theorem notMem_display {q : ℚ} {c : Char} (hc : (c.isDigit || c = '.' || c = '-') = false) :
    c ∉ display (.fin q) := notMem_decimalText hc

/-- What does not occur in what `{:?}` prints. -/
theorem notMem_debug {b : F64} {c : Char}
    (hc : (c.isDigit || c = '.' || c = '-' || c.isAlpha) = false) : c ∉ b.debug := by
  rw [Bool.or_eq_false_iff] at hc
  obtain ⟨hnumeral, halpha⟩ := hc
  have hword : ∀ t : Text, (t.all fun d ↦ d = '-' || d.isAlpha) = true → c ∉ t := by
    intro t ht hmem
    have hkind := List.all_eq_true.mp ht c hmem
    rw [halpha, Bool.or_false, decide_eq_true_eq] at hkind
    subst hkind
    cases hnumeral
  cases b with
  | nan => exact hword _ (by decide)
  | negInf => exact hword _ (by decide)
  | posInf => exact hword _ (by decide)
  | fin q =>
      rw [debug]
      split_ifs
      · intro hmem
        rcases List.mem_append.mp hmem with hmem | hmem
        · exact notMem_decimalText hnumeral hmem
        · rcases List.mem_cons.mp hmem with rfl | hmem
          · cases halpha
          · exact notMem_intText hnumeral hmem
      · intro hmem
        rw [Bool.or_eq_false_iff, Bool.or_eq_false_iff, decide_eq_false_iff_not,
          decide_eq_false_iff_not] at hnumeral
        rcases mem_pointText hmem with h | h | h
        · rw [hnumeral.1.1] at h
          cases h
        · exact hnumeral.1.2 h
        · exact hnumeral.2 h

/-- A decimal numeral is read as the nearest value. -/
theorem parse_decimalText {q : ℚ} (h : IsDecimal q) : parse (decimalText q) = some (ofRat q) := by
  have hnot : ∀ (t : Text) (c : Char), c ∈ t → (c.isDigit || c = '.' || c = '-') = false →
      decimalText q ≠ t := by
    rintro t c ht hc rfl
    exact notMem_decimalText hc ht
  rw [parse, if_neg, if_neg (hnot _ 'n' (by decide) (by decide)),
    if_neg (hnot _ 'N' (by decide) (by decide)), parseDecimal_decimalText h, Option.map_some]
  exact not_or.mpr ⟨hnot _ 'n' (by decide) (by decide), hnot _ 'n' (by decide) (by decide)⟩

/-- A value is read back from what is printed of it. -/
theorem parse_display {q : ℚ} (h : IsValue q) : parse (display (.fin q)) = some (.fin q) := by
  obtain ⟨hdecimal, hround⟩ := shortest_of_isValue h
  rw [display, parse_decimalText hdecimal, hround]

/-- So is an integer of at most 53 bits. -/
theorem parse_intText {n : ℤ} (h : n.natAbs ≤ 2 ^ 53) : parse (intText n) = some (.fin n) := by
  rw [← decimalText_intCast, parse_decimalText (isDecimal_intCast n), isValue_intCast h]

example : display (ofRat (1 / 10)) = "0.1".toList := by decide +kernel

example : [ofRat 2, ofRat (15 * 10 ^ 15), ofRat (1 / 10 ^ 5)].map debug =
    ["2.0".toList, "1.5e16".toList, "1e-5".toList] := by decide +kernel

end F64

end VectorDbBenchmark
