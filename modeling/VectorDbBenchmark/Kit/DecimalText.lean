import VectorDbBenchmark.Kit.Text

/-!
# Decimal fractions as text

The expansion of a fraction whose denominator divides a power of ten, without an exponent
and without a needless zero, and the value of such a numeral.  An expansion is read back as
the fraction it was made from.
-/

namespace Kit

/-! ## Decimals of a fraction -/

/-- The least `j` from the first on with `d ∣ 10 ^ j`, within the given number of tries. -/
def decimalsFrom (d : ℕ) : ℕ → ℕ → ℕ
  | j, 0 => j
  | j, tries + 1 => if d ∣ 10 ^ j then j else decimalsFrom d (j + 1) tries

/-- How many decimals a fraction has. -/
def decimals (q : ℚ) : ℕ := decimalsFrom q.den 0 q.den

/-- A fraction with finitely many decimals. -/
def IsDecimal (q : ℚ) : Prop := ∃ n, q.den ∣ 10 ^ n

theorem dvd_decimalsFrom {d j tries : ℕ} (h : d ∣ 10 ^ (j + tries)) :
    d ∣ 10 ^ decimalsFrom d j tries := by
  induction tries generalizing j with
  | zero => exact h
  | succ tries ih =>
      rw [decimalsFrom]
      split_ifs with hj
      · exact hj
      · apply ih
        rwa [Nat.add_right_comm, Nat.add_assoc]

/-- A power that a number divides may be replaced by the one with the number itself as
exponent. -/
theorem dvd_pow_self_of_dvd_pow {d b n : ℕ} (hd : d ≠ 0) (hb : b ≠ 0) (h : d ∣ b ^ n) :
    d ∣ b ^ d := by
  rw [← Nat.factorization_le_iff_dvd hd (pow_ne_zero d hb)]
  intro p
  rw [Nat.factorization_pow, Finsupp.smul_apply, smul_eq_mul]
  by_cases hp : d.factorization p = 0
  · rw [hp]
    exact Nat.zero_le _
  · have hmem : p ∈ d.primeFactors := by
      rw [← Nat.support_factorization]
      exact Finsupp.mem_support_iff.mpr hp
    have hprime := Nat.prime_of_mem_primeFactors hmem
    have hdvd : p ∣ b := hprime.dvd_of_dvd_pow ((Nat.dvd_of_mem_primeFactors hmem).trans h)
    have hone : 1 ≤ b.factorization p := (hprime.dvd_iff_one_le_factorization hb).mp hdvd
    exact (Nat.factorization_lt p hd).le.trans (Nat.le_mul_of_pos_right d hone)

theorem IsDecimal.den_dvd {q : ℚ} (h : IsDecimal q) : q.den ∣ 10 ^ decimals q := by
  obtain ⟨n, hn⟩ := h
  apply dvd_decimalsFrom
  rw [Nat.zero_add]
  exact dvd_pow_self_of_dvd_pow q.den_ne_zero (by decide) hn

/-- A quotient by a number that divides a power of ten. -/
theorem isDecimal_of_div {z : ℤ} {d n : ℕ} (h : d ∣ 10 ^ n) : IsDecimal ((z : ℚ) / d) := by
  refine ⟨n, Nat.dvd_trans ?_ h⟩
  have hdvd := Rat.den_dvd z d
  rw [Rat.divInt_eq_div, Int.cast_natCast] at hdvd
  exact Int.natCast_dvd_natCast.mp hdvd

/-- A multiple of a power of a divisor of ten. -/
theorem isDecimal_mul_zpow {b : ℕ} (hb : b ∣ 10) (z e : ℤ) : IsDecimal (z * (b : ℚ) ^ e) := by
  rcases e with n | n
  · have hz : (z : ℚ) * (b : ℚ) ^ Int.ofNat n = (z * b ^ n : ℤ) / ((1 : ℕ) : ℚ) := by
      rw [Int.ofNat_eq_natCast, zpow_natCast, Nat.cast_one, div_one]
      push_cast
      rfl
    rw [hz]
    exact isDecimal_of_div (one_dvd (10 ^ 0))
  · have hz : (z : ℚ) * (b : ℚ) ^ Int.negSucc n = (z : ℚ) / ((b ^ (n + 1) : ℕ) : ℚ) := by
      rw [zpow_negSucc, div_eq_mul_inv, Nat.cast_pow]
    rw [hz]
    exact isDecimal_of_div (pow_dvd_pow_of_dvd hb (n + 1))

/-! ## Numerals -/

/-- The digits of a number. -/
def digitText (n : ℕ) : Text := n.repr.toList

theorem isDigit_of_mem_digitText {n : ℕ} {c : Char} (h : c ∈ digitText n) : c.isDigit = true :=
  isDigit_of_mem_natRepr h

theorem digitText_ne_nil (n : ℕ) : digitText n ≠ [] := by
  rw [digitText, Nat.toList_repr]
  exact Nat.toDigits_ne_nil

@[simp] theorem ofDigitChars_digitText (n : ℕ) : Nat.ofDigitChars 10 (digitText n) 0 = n := by
  rw [digitText, Nat.toList_repr, Nat.ofDigitChars_ten_toDigits]

theorem parseDigits_digitText (n : ℕ) : parseDigits (digitText n) = some n :=
  parseDigits_of_ofDigitChars (digitText_ne_nil n) (fun _ ↦ isDigit_of_mem_digitText)
    (ofDigitChars_digitText n)

/-- The digits of a number with zeros in front, `width` characters together. -/
def padded (width n : ℕ) : Text :=
  List.replicate (width - (digitText n).length) '0' ++ digitText n

@[simp] theorem ofDigitChars_padded (width n : ℕ) :
    Nat.ofDigitChars 10 (padded width n) 0 = n := by
  rw [padded, Nat.ofDigitChars_append, Nat.ofDigitChars_replicate_zero, Nat.mul_zero,
    ofDigitChars_digitText]

theorem isDigit_of_mem_padded {width n : ℕ} {c : Char} (h : c ∈ padded width n) :
    c.isDigit = true := by
  rcases List.mem_append.mp h with h | h
  · rw [List.eq_of_mem_replicate h]
    rfl
  · exact isDigit_of_mem_digitText h

theorem padded_ne_nil (width n : ℕ) : padded width n ≠ [] :=
  List.append_ne_nil_of_right_ne_nil _ (digitText_ne_nil n)

theorem length_digitText_le {width n : ℕ} (hwidth : 0 < width) (h : n < 10 ^ width) :
    (digitText n).length ≤ width := by
  rw [digitText, Nat.toList_repr]
  exact (Nat.length_toDigits_le_iff (by decide) hwidth).mpr h

theorem length_padded {width n : ℕ} (hwidth : 0 < width) (h : n < 10 ^ width) :
    (padded width n).length = width := by
  rw [padded, List.length_append, List.length_replicate]
  exact Nat.sub_add_cancel (length_digitText_le hwidth h)

/-- An expansion of a fraction without a sign: what stands before the point, and after it
if there is something. -/
def magnitudeText (m j : ℕ) : Text :=
  digitText (m / 10 ^ j) ++ (if j = 0 then [] else '.' :: padded j (m % 10 ^ j))

/-- The decimal expansion. -/
def decimalText (q : ℚ) : Text :=
  let j := decimals q
  let m := (|q| * 10 ^ j).num.natAbs
  if q < 0 then '-' :: magnitudeText m j else magnitudeText m j

/-- The value of a numeral without a sign. -/
def parseMagnitude (t : Text) : Option ℚ :=
  let whole := t.takeWhile Char.isDigit
  if whole.isEmpty then none
  else
    match t.dropWhile Char.isDigit with
    | [] => some (Nat.ofDigitChars 10 whole 0)
    | c :: frac =>
      if c = '.' ∧ !frac.isEmpty ∧ frac.all Char.isDigit then
        some (Nat.ofDigitChars 10 whole 0 + Nat.ofDigitChars 10 frac 0 / 10 ^ frac.length)
      else none

/-- The value of a numeral. -/
def parseDecimal (t : Text) : Option ℚ :=
  match t with
  | '-' :: t => (parseMagnitude t).map (- ·)
  | t => parseMagnitude t

/-- What `{}` prints of an integer. -/
def intText (n : ℤ) : Text :=
  if n < 0 then '-' :: digitText n.natAbs else digitText n.natAbs

theorem isDecimal_intCast (n : ℤ) : IsDecimal n := ⟨0, one_dvd _⟩

/-- The expansion of an integer is its numeral. -/
theorem decimalText_intCast (n : ℤ) : decimalText n = intText n := by
  have hdecimals : decimals (n : ℚ) = 0 := by
    rw [decimals, Rat.den_intCast]
    rfl
  have hnum : (|(n : ℚ)| * 10 ^ 0).num.natAbs = n.natAbs := by
    rw [pow_zero, mul_one, ← Int.cast_abs, Rat.num_intCast, Int.natAbs_abs]
  rw [decimalText, hdecimals, hnum, magnitudeText, if_pos rfl, pow_zero, Nat.div_one,
    List.append_nil, intText]
  exact if_congr Int.cast_lt_zero rfl rfl

/-! ## Reading back -/

theorem takeWhile_isDigit_append {xs ys : Text} (hxs : ∀ c ∈ xs, c.isDigit = true)
    (hys : ys.takeWhile Char.isDigit = []) : (xs ++ ys).takeWhile Char.isDigit = xs := by
  rw [List.takeWhile_append_of_pos hxs, hys, List.append_nil]

theorem dropWhile_isDigit_append {xs ys : Text} (hxs : ∀ c ∈ xs, c.isDigit = true)
    (hys : ys.dropWhile Char.isDigit = ys) : (xs ++ ys).dropWhile Char.isDigit = ys := by
  rw [List.dropWhile_append_of_pos hxs, hys]

theorem parseMagnitude_magnitudeText (m j : ℕ) :
    parseMagnitude (magnitudeText m j) = some ((m : ℚ) / 10 ^ j) := by
  have hwhole : ∀ c ∈ digitText (m / 10 ^ j), c.isDigit = true := fun c ↦ isDigit_of_mem_digitText
  have hne : (digitText (m / 10 ^ j)).isEmpty = false :=
    List.isEmpty_eq_false_iff.mpr (digitText_ne_nil _)
  by_cases hj : j = 0
  · subst hj
    rw [magnitudeText, if_pos rfl, parseMagnitude, takeWhile_isDigit_append hwhole rfl,
      dropWhile_isDigit_append hwhole rfl, hne, if_neg Bool.false_ne_true, ofDigitChars_digitText]
    simp
  · have hfrac : (padded j (m % 10 ^ j)).length = j :=
      length_padded (Nat.pos_of_ne_zero hj) (Nat.mod_lt _ (Nat.pow_pos (by decide)))
    have hcond : '.' = '.' ∧ (!(padded j (m % 10 ^ j)).isEmpty) = true ∧
        (padded j (m % 10 ^ j)).all Char.isDigit = true := by
      refine ⟨rfl, ?_, List.all_eq_true.mpr fun c ↦ isDigit_of_mem_padded⟩
      rw [List.isEmpty_eq_false_iff.mpr (padded_ne_nil _ _)]
      rfl
    have hsplit : ((m / 10 ^ j : ℕ) : ℚ) * 10 ^ j + (m % 10 ^ j : ℕ) = m := by
      exact_mod_cast Nat.div_add_mod' m (10 ^ j)
    rw [magnitudeText, if_neg hj, parseMagnitude, takeWhile_isDigit_append hwhole rfl,
      dropWhile_isDigit_append hwhole rfl, hne, if_neg Bool.false_ne_true]
    dsimp only
    rw [if_pos hcond, hfrac, ofDigitChars_digitText, ofDigitChars_padded, ← hsplit]
    have hpow : (10 : ℚ) ^ j ≠ 0 := pow_ne_zero j (by norm_num)
    rw [add_div, mul_div_cancel_right₀ _ hpow]

theorem magnitudeText_eq_cons (m j : ℕ) :
    ∃ c t, magnitudeText m j = c :: t ∧ c.isDigit = true := by
  obtain ⟨c, t, hct⟩ := List.exists_cons_of_ne_nil (digitText_ne_nil (m / 10 ^ j))
  have hc : c.isDigit = true := by
    have hmem : c ∈ digitText (m / 10 ^ j) := by
      rw [hct]
      exact List.mem_cons_self
    exact isDigit_of_mem_digitText hmem
  exact ⟨c, _, by rw [magnitudeText, hct, List.cons_append], hc⟩

theorem parseDecimal_magnitudeText (m j : ℕ) :
    parseDecimal (magnitudeText m j) = some ((m : ℚ) / 10 ^ j) := by
  rw [← parseMagnitude_magnitudeText]
  obtain ⟨c, t, hct, hc⟩ := magnitudeText_eq_cons m j
  rw [hct]
  unfold parseDecimal
  split
  · next heq =>
      rw [(List.cons.inj heq).1] at hc
      cases hc
  · rfl

/-- The scaled magnitude of a fraction is the number that its expansion is written with. -/
theorem magnitude_eq_of_dvd {q : ℚ} {j : ℕ} (h : q.den ∣ 10 ^ j) :
    (((|q| * 10 ^ j).num.natAbs : ℕ) : ℚ) / 10 ^ j = |q| := by
  obtain ⟨k, hk⟩ := h
  have hpow : (10 : ℚ) ^ j = (q.den : ℚ) * k := by exact_mod_cast hk
  have hscaled : |q| * 10 ^ j = ((q.num.natAbs * k : ℕ) : ℚ) := by
    have habs : |q| * q.den = (q.num.natAbs : ℚ) := by
      rw [Nat.cast_natAbs, Int.cast_abs, ← Rat.mul_den_eq_num q, abs_mul,
        abs_of_nonneg (Nat.cast_nonneg q.den : (0 : ℚ) ≤ q.den)]
    rw [hpow, ← mul_assoc, habs]
    push_cast
    ring
  rw [hscaled, Rat.num_natCast, Int.natAbs_natCast, ← hscaled]
  exact mul_div_cancel_right₀ _ (pow_ne_zero _ (by norm_num))

theorem magnitude_eq {q : ℚ} (h : IsDecimal q) :
    (((|q| * 10 ^ decimals q).num.natAbs : ℕ) : ℚ) / 10 ^ decimals q = |q| :=
  magnitude_eq_of_dvd h.den_dvd

/-- An expansion is read as the fraction it is the expansion of. -/
theorem parseDecimal_decimalText {q : ℚ} (h : IsDecimal q) :
    parseDecimal (decimalText q) = some q := by
  have hmag := magnitude_eq h
  rw [decimalText]
  split_ifs with hq
  · rw [parseDecimal]
    rw [parseMagnitude_magnitudeText, hmag, abs_of_neg hq, Option.map_some, neg_neg]
  · rw [parseDecimal_magnitudeText, hmag, abs_of_nonneg (not_lt.mp hq)]

theorem mem_magnitudeText {m j : ℕ} {c : Char} (h : c ∈ magnitudeText m j) :
    c.isDigit = true ∨ c = '.' := by
  rcases List.mem_append.mp h with h | h
  · exact .inl (isDigit_of_mem_digitText h)
  · split_ifs at h
    · cases h
    · rcases List.mem_cons.mp h with rfl | h
      · exact .inr rfl
      · exact .inl (isDigit_of_mem_padded h)

/-- The characters of an expansion. -/
theorem mem_decimalText {q : ℚ} {c : Char} (h : c ∈ decimalText q) :
    c.isDigit = true ∨ c = '.' ∨ c = '-' := by
  rw [decimalText] at h
  split_ifs at h
  · rcases List.mem_cons.mp h with rfl | h
    · exact .inr (.inr rfl)
    · exact (mem_magnitudeText h).imp_right .inl
  · exact (mem_magnitudeText h).imp_right .inl

/-- What does not occur in an expansion. -/
theorem notMem_decimalText {q : ℚ} {c : Char} (hc : (c.isDigit || c = '.' || c = '-') = false) :
    c ∉ decimalText q := by
  intro hmem
  rw [Bool.or_eq_false_iff, Bool.or_eq_false_iff] at hc
  rcases mem_decimalText hmem with h | rfl | rfl
  · rw [hc.1.1] at h
    cases h
  · exact absurd hc.1.2 (by decide)
  · exact absurd hc.2 (by decide)

theorem notMem_intText {n : ℤ} {c : Char} (hc : (c.isDigit || c = '.' || c = '-') = false) :
    c ∉ intText n := by
  rw [← decimalText_intCast]
  exact notMem_decimalText hc

theorem decimalText_ne_nil (q : ℚ) : decimalText q ≠ [] := by
  rw [decimalText]
  split_ifs
  · exact List.cons_ne_nil _ _
  · obtain ⟨c, t, hct, -⟩ := magnitudeText_eq_cons (|q| * 10 ^ decimals q).num.natAbs (decimals q)
    rw [hct]
    exact List.cons_ne_nil _ _

example : decimalText (-5 / 4) = "-1.25".toList := by with_unfolding_all decide

/-! ## Expansions with a point -/

/-- The expansion with a digit behind the point, as floats are printed. -/
def pointText (q : ℚ) : Text :=
  let j := max (decimals q) 1
  let m := (|q| * 10 ^ j).num.natAbs
  if q < 0 then '-' :: magnitudeText m j else magnitudeText m j

theorem parseDecimal_pointText {q : ℚ} (h : IsDecimal q) : parseDecimal (pointText q) = some q := by
  have hdvd : q.den ∣ 10 ^ max (decimals q) 1 :=
    h.den_dvd.trans (Nat.pow_dvd_pow 10 (Nat.le_max_left _ _))
  have hmag := magnitude_eq_of_dvd hdvd
  rw [pointText]
  split_ifs with hq
  · rw [parseDecimal]
    rw [parseMagnitude_magnitudeText, hmag, abs_of_neg hq, Option.map_some, neg_neg]
  · rw [parseDecimal_magnitudeText, hmag, abs_of_nonneg (not_lt.mp hq)]

theorem mem_pointText {q : ℚ} {c : Char} (h : c ∈ pointText q) :
    c.isDigit = true ∨ c = '.' ∨ c = '-' := by
  rw [pointText] at h
  split_ifs at h
  · rcases List.mem_cons.mp h with rfl | h
    · exact .inr (.inr rfl)
    · exact (mem_magnitudeText h).imp_right .inl
  · exact (mem_magnitudeText h).imp_right .inl

theorem point_mem_magnitudeText {m j : ℕ} (hj : j ≠ 0) : '.' ∈ magnitudeText m j := by
  rw [magnitudeText, if_neg hj]
  exact List.mem_append_right _ List.mem_cons_self

theorem point_mem_pointText (q : ℚ) : '.' ∈ pointText q := by
  have hj : max (decimals q) 1 ≠ 0 := by omega
  rw [pointText]
  split_ifs
  · exact List.mem_cons_of_mem _ (point_mem_magnitudeText hj)
  · exact point_mem_magnitudeText hj

end Kit
