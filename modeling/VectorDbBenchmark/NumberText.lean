import VectorDbBenchmark.F64Text
import VectorDbBenchmark.Json
import VectorDbBenchmark.Kit.Lexer

/-!
# The texts of JSON numbers

Numerals as query languages read them: integers exactly, numerals with a point or an
exponent as the nearest double.  What a printer of JSON numbers has to satisfy, and one that
does.
-/

namespace VectorDbBenchmark

open Kit

/-! ## Reading -/

def readInteger : Text → Option ℤ
  | '-' :: t => (parseDigits t).map fun n : ℕ ↦ -(n : ℤ)
  | t => (parseDigits t).map fun n : ℕ ↦ (n : ℤ)

/-- A decimal numeral, with or without an exponent. -/
def readScientific (t : Text) : Option ℚ :=
  match splitAtSep 'e' (t.map Char.toLower) with
  | [m] => parseDecimal m
  | [m, e] => do
    let q ← parseDecimal m
    let i ← readInteger (stripPlus e)
    some (q * 10 ^ i)
  | _ => none

/-- The number of a numeral: integers are exact, other numbers are doubles. -/
def readNumber (t : Text) : Option ℚ :=
  match readInteger t with
  | some i => some i
  | none =>
    (readScientific t).bind fun q ↦
      match F64.ofRat q with
      | .fin x => some x
      | _ => none

/-! ## Printers -/

/-- A character of a numeral. -/
def isNumeralChar (c : Char) : Bool :=
  c.isDigit || c = '.' || c = '-' || c = '+' || c = 'e' || c = 'E'

/-- Numbers of which the floats are doubles. -/
def Number.Represented (n : Number) : Prop := ∀ q ∈ (Json.number n).floats, F64.IsValue q

/-- Every number is printed as a numeral that is read as the number. -/
structure Prints (numberText : Number → Text) : Prop where
  head : ∀ n, ∃ c t, numberText n = c :: t ∧ (c.isDigit || c = '-') = true
  chars : ∀ n, ∀ c ∈ numberText n, isNumeralChar c = true
  read : ∀ n, n.Represented → readNumber (numberText n) = some n.value

theorem Prints.ne_nil {numberText : Number → Text} (h : Prints numberText) (n : Number) :
    numberText n ≠ [] := by
  obtain ⟨c, t, ht, -⟩ := h.head n
  rw [ht]
  exact List.cons_ne_nil c t

theorem readInteger_intText (i : ℤ) : readInteger (intText i) = some i := by
  rw [intText]
  split_ifs with h
  · rw [readInteger, parseDigits_digitText, Option.map_some, Int.natCast_natAbs, abs_of_neg h,
      neg_neg]
  · have hplain : readInteger (digitText i.natAbs) =
        (parseDigits (digitText i.natAbs)).map fun n : ℕ ↦ (n : ℤ) := by
      unfold readInteger
      split
      · next t ht =>
          have hdigit : '-'.isDigit = true :=
            isDigit_of_mem_digitText (n := i.natAbs) (ht ▸ List.mem_cons_self)
          cases hdigit
      · rfl
    rw [hplain, parseDigits_digitText, Option.map_some, Int.natCast_natAbs,
      abs_of_nonneg (not_lt.mp h)]

theorem readNumber_intText (i : ℤ) : readNumber (intText i) = some (i : ℚ) := by
  rw [readNumber, readInteger_intText]

theorem isNumeralChar_of_decimal {c : Char} (h : c.isDigit = true ∨ c = '.' ∨ c = '-') :
    isNumeralChar c = true := by
  rcases h with h | rfl | rfl
  · rw [isNumeralChar, h]
    rfl
  · rfl
  · rfl

theorem isNumeralChar_of_mem_intText {i : ℤ} {c : Char} (h : c ∈ intText i) :
    isNumeralChar c = true := by
  rw [← decimalText_intCast] at h
  exact isNumeralChar_of_decimal (mem_decimalText h)

theorem intText_ne_nil (i : ℤ) : intText i ≠ [] := by
  rw [← decimalText_intCast]
  exact decimalText_ne_nil i

theorem head_decimalText (q : ℚ) :
    ∃ c t, decimalText q = c :: t ∧ (c.isDigit || c = '-') = true := by
  rw [decimalText]
  split_ifs
  · exact ⟨_, _, rfl, rfl⟩
  · obtain ⟨c, t, ht, hc⟩ := magnitudeText_eq_cons (|q| * 10 ^ decimals q).num.natAbs (decimals q)
    exact ⟨c, t, ht, by rw [hc, Bool.true_or]⟩

theorem head_intText (i : ℤ) : ∃ c t, intText i = c :: t ∧ (c.isDigit || c = '-') = true := by
  rw [← decimalText_intCast]
  exact head_decimalText i

/-! ## Numerals in a language -/

section Numerals

variable {s : Spelling} {L : Type} {read : Token → Option L} {number : ℚ → L}

/-- A language in which numerals are words. -/
structure NumeralWords (s : Spelling) : Prop where
  digit : ∀ c, c.isDigit = true → s.classOf c = some .word
  mark : ∀ c ∈ ['.', '-', '+', 'e', 'E'], s.classOf c = some .word

/-- Numerals are literals. -/
structure ReadsNumerals (s : Spelling) (read : Token → Option L) (number : ℚ → L) : Prop
    extends NumeralWords s where
  read : ∀ t q, readNumber t = some q → read (.word t) = some (number q)

namespace NumeralWords

theorem classOf (hs : NumeralWords s) {c : Char} (h : isNumeralChar c = true) :
    s.classOf c = some .word := by
  simp only [isNumeralChar, Bool.or_eq_true, decide_eq_true_eq] at h
  rcases h with ((((h | rfl) | rfl) | rfl) | rfl) | rfl
  · exact hs.digit c h
  all_goals exact hs.mark _ (by decide)

theorem isWord (hs : NumeralWords s) {t : Text} (hne : t ≠ [])
    (hchars : ∀ c ∈ t, isNumeralChar c = true) : Lexer.IsWord s t :=
  ⟨hne, fun c hc ↦ hs.classOf (hchars c hc)⟩

theorem isWord_numberText (hs : NumeralWords s) {numberText : Number → Text}
    (h : Prints numberText) (n : Number) : Lexer.IsWord s (numberText n) :=
  hs.isWord (h.ne_nil n) (h.chars n)

end NumeralWords

namespace ReadsNumerals

theorem denotes (hs : ReadsNumerals s read number) {t : Text} {q : ℚ} (hne : t ≠ [])
    (hchars : ∀ c ∈ t, isNumeralChar c = true) (h : readNumber t = some q) :
    Lexer.Denotes s read t (number q) :=
  ⟨_, (hs.isWord hne hchars).lex, hs.read t q h⟩

theorem denotes_intText (hs : ReadsNumerals s read number) (i : ℤ) :
    Lexer.Denotes s read (intText i) (number i) :=
  hs.denotes (intText_ne_nil i) (fun _ ↦ isNumeralChar_of_mem_intText) (readNumber_intText i)

theorem denotes_numberText (hs : ReadsNumerals s read number) {numberText : Number → Text}
    (h : Prints numberText) {n : Number} (hn : n.Represented) :
    Lexer.Denotes s read (numberText n) (number n.value) :=
  hs.denotes (h.ne_nil n) (h.chars n) (h.read n hn)

end ReadsNumerals

end Numerals

/-! ## A printer -/

section Printer

/-- `Display` of a JSON number whose float needs no exponent. -/
def printNumber : Number → Text
  | .posInt n _ => intText n
  | .negInt i _ => intText i
  | .float q => pointText q

theorem readInteger_of_point {t : Text} (h : '.' ∈ t) : readInteger t = none := by
  have hdigits : ∀ u : Text, '.' ∈ u → parseDigits u = none := by
    intro u hu
    by_contra hsome
    obtain ⟨n, hn⟩ := Option.ne_none_iff_exists'.mp hsome
    have hdigit := isDigit_of_parseDigits hn '.' hu
    cases hdigit
  unfold readInteger
  split
  · next t =>
      rw [hdigits t ((List.mem_cons.mp h).resolve_left (by decide)), Option.map_none]
  · rw [hdigits t h, Option.map_none]

theorem toLower_of_isDigit {c : Char} (h : c.isDigit = true) : c.toLower = c := by
  refine dif_neg fun hupper ↦ ?_
  have hdigit := toNat_of_isDigit h
  have hletter : 65 ≤ c.toNat := UInt32.le_iff_toNat_le.mp hupper.1
  omega

/-- A numeral with a point is read as the nearest double. -/
theorem readNumber_of_point {t : Text} {c q : ℚ} (hpoint : '.' ∈ t)
    (hchars : ∀ d ∈ t, d.isDigit = true ∨ d = '.' ∨ d = '-') (hparse : parseDecimal t = some c)
    (hround : F64.ofRat c = .fin q) : readNumber t = some q := by
  have hlower : t.map Char.toLower = t := by
    conv_rhs => rw [← List.map_id t]
    refine List.map_congr_left fun d hd ↦ ?_
    rcases hchars d hd with h | rfl | rfl
    · exact toLower_of_isDigit h
    · rfl
    · rfl
  have hexponent : 'e' ∉ t := by
    intro he
    rcases hchars _ he with h | h | h <;> cases h
  rw [readNumber, readInteger_of_point hpoint]
  dsimp only
  rw [readScientific, hlower, splitAtSep_of_not_mem hexponent]
  dsimp only
  rw [hparse, Option.bind_some, hround]

theorem readNumber_pointText {q : ℚ} (h : F64.IsValue q) : readNumber (pointText q) = some q :=
  readNumber_of_point (point_mem_pointText q) (fun _ ↦ mem_pointText)
    (parseDecimal_pointText (F64.isDecimal_of_isValue h)) h

/-- Small doubles are read back from what `Display` prints of them. -/
theorem readNumber_display {q : ℚ} (h : F64.IsValue q) (hq : |q| < 2 ^ 53) :
    readNumber (F64.display (.fin q)) = some q := by
  obtain ⟨hdecimal, hround⟩ := F64.shortest_of_isValue h
  rw [F64.display]
  generalize F64.shortest q = c at hdecimal hround
  by_cases hint : decimals c = 0
  · -- an integer, which is printed without a point
    have hden : c.den = 1 := by
      have hdvd := hdecimal.den_dvd
      rwa [hint, pow_zero, Nat.dvd_one] at hdvd
    obtain ⟨z, rfl⟩ : ∃ z : ℤ, c = z := ⟨c.num, ((Rat.den_eq_one_iff c).mp hden).symm⟩
    have hz : z.natAbs ≤ 2 ^ 53 := by
      by_contra hlarge
      have habs : (2 : ℚ) ^ 53 ≤ |(z : ℚ)| := by
        rw [← Int.cast_abs, ← Nat.cast_natAbs]
        exact_mod_cast (not_le.mp hlarge).le
      exact absurd (F64.two_pow_53_le_of_ofRat hround habs) (not_le.mpr hq)
    have hvalue := (F64.isValue_intCast hz).symm.trans hround
    rw [decimalText_intCast, readNumber_intText, F64.fin.inj hvalue]
  · have hpoint : '.' ∈ decimalText c := by
      rw [decimalText]
      split_ifs
      · exact List.mem_cons_of_mem _ (point_mem_magnitudeText hint)
      · exact point_mem_magnitudeText hint
    exact readNumber_of_point hpoint (fun _ ↦ mem_decimalText) (parseDecimal_decimalText hdecimal)
      hround

theorem head_pointText (q : ℚ) :
    ∃ c t, pointText q = c :: t ∧ (c.isDigit || c = '-') = true := by
  rw [pointText]
  split_ifs
  · exact ⟨_, _, rfl, rfl⟩
  · obtain ⟨c, t, ht, hc⟩ := magnitudeText_eq_cons
      (|q| * 10 ^ max (decimals q) 1).num.natAbs (max (decimals q) 1)
    exact ⟨c, t, ht, by rw [hc, Bool.true_or]⟩

theorem prints_printNumber : Prints printNumber where
  head n := by
    cases n with
    | posInt n _ => exact head_intText n
    | negInt i _ => exact head_intText i
    | float q => exact head_pointText q
  chars n c hc := by
    cases n with
    | posInt n _ => exact isNumeralChar_of_mem_intText hc
    | negInt i _ => exact isNumeralChar_of_mem_intText hc
    | float q => exact isNumeralChar_of_decimal (mem_pointText hc)
  read n hn := by
    cases n with
    | posInt n _ =>
        show readNumber (intText n) = some (n : ℚ)
        rw [readNumber_intText, Int.cast_natCast]
    | negInt i _ => exact readNumber_intText i
    | float q => exact readNumber_pointText (hn q List.mem_cons_self)

end Printer

end VectorDbBenchmark
