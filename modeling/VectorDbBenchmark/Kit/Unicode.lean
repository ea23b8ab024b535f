import VectorDbBenchmark.Kit.Text

/-!
# Lowercase text

`str::to_lowercase` over the tables of the Unicode character database.  The tables are a
parameter: what the standard says of them is kept with them.
-/

namespace Kit

/-- `İ`, whose lowercase is two characters. -/
def dottedI : Char := '\u0130'

/-- What `İ` leaves behind an `i`. -/
def dotAbove : Char := '\u0307'

def rightQuote : Char := '\u2019'

/-- The Kelvin sign, the only character outside ASCII with lowercase in ASCII. -/
def kelvin : Char := '\u212A'

structure Unicode where
  /-- `char::is_alphanumeric`. -/
  isAlphanumeric : Char → Bool
  /-- The lowercase of a character other than `İ`, in no context. -/
  lowerChar : Char → Char
  cased : Char → Bool
  caseIgnorable : Char → Bool
  isAlphanumeric_ascii : ∀ c, c.toNat < 128 → isAlphanumeric c = c.isAlphanum
  isAlphanumeric_whiteSpace : ∀ c, isWhiteSpace c = true → isAlphanumeric c = false
  isAlphanumeric_rightQuote : isAlphanumeric rightQuote = false
  isAlphanumeric_dotAbove : isAlphanumeric dotAbove = false
  isAlphanumeric_dottedI : isAlphanumeric dottedI = true
  isAlphanumeric_sigma : isAlphanumeric 'Σ' = true
  isAlphanumeric_finalSigma : isAlphanumeric 'ς' = true
  isAlphanumeric_lowerChar : ∀ c, c ≠ dottedI → isAlphanumeric (lowerChar c) = isAlphanumeric c
  lowerChar_ascii : ∀ c, c.toNat < 128 → lowerChar c = c.toLower
  lowerChar_kelvin : lowerChar kelvin = 'k'
  lowerChar_sigma : lowerChar 'Σ' = 'σ'
  lowerChar_finalSigma : lowerChar 'ς' = 'ς'
  ascii_of_lowerChar : ∀ c, c ≠ dottedI → (lowerChar c).toNat < 128 → c.toNat < 128 ∨ c = kelvin
  /-- Only letters and digits have a lowercase. -/
  lowerChar_of_other : ∀ c, isAlphanumeric c = false → lowerChar c = c
  lowerChar_ne : ∀ c, c ≠ dottedI → lowerChar c ≠ dottedI
  lowerChar_lowerChar : ∀ c, c ≠ dottedI → lowerChar (lowerChar c) = lowerChar c

theorem forall_ascii {P : Char → Prop} (h : ∀ n < 128, P (Char.ofNat n)) {c : Char}
    (hc : c.toNat < 128) : P c := by
  rw [← Char.ofNat_toNat c]
  exact h c.toNat hc

/-- Outside ASCII nothing is lowered. -/
theorem toLower_of_not_ascii {c : Char} (h : 128 ≤ c.toNat) : c.toLower = c := by
  refine dif_neg ?_
  rintro ⟨-, hle⟩
  have hval : c.val.toNat ≤ 90 := UInt32.le_iff_toNat_le.mp hle
  exact absurd hval (by change ¬c.toNat ≤ 90; omega)

namespace Unicode

variable (u : Unicode)

/-- Whether the first character that is not ignored has a case. -/
def thenCased (t : Text) : Bool := (t.dropWhile u.caseIgnorable).head?.any u.cased

/-- `Σ` after the characters of `before`, the last one first: `ς` at the end of a word. -/
def lowerSigma (before after : Text) : Char :=
  if u.thenCased before && !u.thenCased after then 'ς' else 'σ'

/-- The lowercase of the first character of `c :: after`. -/
def lowerAt (before : Text) (c : Char) (after : Text) : Text :=
  if c = 'Σ' then [u.lowerSigma before after]
  else if c = dottedI then ['i', dotAbove]
  else [u.lowerChar c]

def lowerFrom (before : Text) : Text → Text
  | [] => []
  | c :: after => u.lowerAt before c after ++ lowerFrom (c :: before) after

/-- `str::to_lowercase`. -/
def toLowercase (t : Text) : Text := u.lowerFrom [] t

variable {u : Unicode} {before after t : Text} {c x : Char}

theorem isAlphanumeric_smallSigma : u.isAlphanumeric 'σ' = true := by
  rw [← u.lowerChar_sigma, u.isAlphanumeric_lowerChar 'Σ' (by decide)]
  exact u.isAlphanumeric_sigma

theorem lowerSigma_cases : u.lowerSigma before after = 'ς' ∨ u.lowerSigma before after = 'σ' := by
  rw [lowerSigma]
  split_ifs
  · exact .inl rfl
  · exact .inr rfl

theorem isAlphanumeric_lowerSigma : u.isAlphanumeric (u.lowerSigma before after) = true := by
  rcases u.lowerSigma_cases with h | h
  · rw [h]
    exact u.isAlphanumeric_finalSigma
  · rw [h]
    exact isAlphanumeric_smallSigma

/-- The lowercase of a character is one of its kind, or an `i` with a dot. -/
theorem lowerAt_cases (before : Text) (c : Char) (after : Text) :
    (∃ d, u.lowerAt before c after = [d] ∧ u.isAlphanumeric d = u.isAlphanumeric c ∧
      (u.isAlphanumeric c = false → d = c) ∧ (d = 's' ∨ d = 'S' → c = 's' ∨ c = 'S')) ∨
    (c = dottedI ∧ u.lowerAt before c after = ['i', dotAbove]) := by
  rw [lowerAt]
  split_ifs with hsigma hdotted
  · subst hsigma
    refine .inl ⟨_, rfl, ?_, ?_, ?_⟩
    · rw [u.isAlphanumeric_sigma, isAlphanumeric_lowerSigma]
    · intro h
      rw [u.isAlphanumeric_sigma] at h
      cases h
    · intro h
      rcases u.lowerSigma_cases with hs | hs
      · rw [hs] at h
        exact absurd h (by decide)
      · rw [hs] at h
        exact absurd h (by decide)
  · exact .inr ⟨hdotted, rfl⟩
  · refine .inl ⟨_, rfl, u.isAlphanumeric_lowerChar c hdotted, u.lowerChar_of_other c, ?_⟩
    intro h
    have hascii : (u.lowerChar c).toNat < 128 := by
      rcases h with h | h <;> rw [h] <;> decide
    rcases u.ascii_of_lowerChar c hdotted hascii with hlow | rfl
    · rw [u.lowerChar_ascii c hlow] at h
      exact forall_ascii (P := fun c ↦ c.toLower = 's' ∨ c.toLower = 'S' → c = 's' ∨ c = 'S')
        (by decide) hlow h
    · rw [u.lowerChar_kelvin] at h
      exact absurd h (by decide)

theorem mem_lowerFrom : x ∈ u.lowerFrom before t →
    ∃ before' c after, c ∈ t ∧ x ∈ u.lowerAt before' c after := by
  induction t generalizing before with
  | nil => exact fun h ↦ absurd h List.not_mem_nil
  | cons c t ih =>
      intro h
      rcases List.mem_append.mp h with h | h
      · exact ⟨before, c, t, List.mem_cons_self, h⟩
      · obtain ⟨before', d, after, hd, hx⟩ := ih h
        exact ⟨before', d, after, List.mem_cons_of_mem c hd, hx⟩

/-- Lowercasing adds letters, digits and dots only. -/
theorem mem_of_mem_toLowercase (h : x ∈ u.toLowercase t) (hx : u.isAlphanumeric x = false)
    (hdot : x ≠ dotAbove) : x ∈ t := by
  obtain ⟨before, c, after, hc, hmem⟩ := mem_lowerFrom h
  rcases u.lowerAt_cases before c after with ⟨d, hd, halnum, hother, -⟩ | ⟨-, hd⟩
  · rw [hd, List.mem_singleton] at hmem
    subst hmem
    rw [hother (halnum ▸ hx)]
    exact hc
  · rw [hd, List.mem_cons, List.mem_singleton] at hmem
    rcases hmem with rfl | rfl
    · rw [u.isAlphanumeric_ascii 'i' (by decide)] at hx
      cases hx
    · exact absurd rfl hdot

/-! ## Lowercasing twice -/

/-- A character that lowercasing keeps wherever it stands. -/
structure Lowered (u : Unicode) (x : Char) : Prop where
  ne_sigma : x ≠ 'Σ'
  ne_dottedI : x ≠ dottedI
  lowerChar_eq : u.lowerChar x = x

theorem Lowered.lowerAt_eq (h : u.Lowered x) : u.lowerAt before x after = [x] := by
  rw [lowerAt, if_neg h.ne_sigma, if_neg h.ne_dottedI, h.lowerChar_eq]

theorem lowered_lowerChar (hc : c ≠ dottedI) : u.Lowered (u.lowerChar c) where
  ne_sigma := by
    intro heq
    have htwice := u.lowerChar_lowerChar c hc
    rw [heq, u.lowerChar_sigma] at htwice
    exact absurd htwice (by decide)
  ne_dottedI := u.lowerChar_ne c hc
  lowerChar_eq := u.lowerChar_lowerChar c hc

theorem lowered_of_mem_lowerAt (h : x ∈ u.lowerAt before c after) : u.Lowered x := by
  rw [lowerAt] at h
  split_ifs at h with hsigma hdotted
  · rw [List.mem_singleton.mp h]
    rcases u.lowerSigma_cases with hs | hs
    · rw [hs, ← u.lowerChar_finalSigma]
      exact lowered_lowerChar (by decide)
    · rw [hs, ← u.lowerChar_sigma]
      exact lowered_lowerChar (by decide)
  · rw [List.mem_cons, List.mem_singleton] at h
    rcases h with rfl | rfl
    · have hi : u.lowerChar 'i' = 'i' := u.lowerChar_ascii 'i' (by decide)
      rw [← hi]
      exact lowered_lowerChar (by decide)
    · rw [← u.lowerChar_of_other dotAbove u.isAlphanumeric_dotAbove]
      exact lowered_lowerChar (by decide)
  · rw [List.mem_singleton.mp h]
    exact lowered_lowerChar hdotted

theorem lowerFrom_of_lowered (h : ∀ x ∈ t, u.Lowered x) : u.lowerFrom before t = t := by
  induction t generalizing before with
  | nil => rfl
  | cons c t ih =>
      rw [lowerFrom, (h c List.mem_cons_self).lowerAt_eq,
        ih fun x hx ↦ h x (List.mem_cons_of_mem c hx)]
      rfl

/-- Lowercase text has no other lowercase, for no context is left to look at. -/
theorem toLowercase_toLowercase (t : Text) :
    u.toLowercase (u.toLowercase t) = u.toLowercase t := by
  apply lowerFrom_of_lowered
  intro x hx
  obtain ⟨before, c, after, -, hmem⟩ := mem_lowerFrom hx
  exact lowered_of_mem_lowerAt hmem

end Unicode

/-! ## Tables for ASCII -/

/-- Letters and digits of ASCII, and the letters that the rules name. -/
def basicAlphanumeric (c : Char) : Bool :=
  c.isAlphanum || [dottedI, kelvin, 'Σ', 'σ', 'ς'].contains c

def basicLower (c : Char) : Char :=
  if c = kelvin then 'k' else if c = 'Σ' then 'σ' else c.toLower

theorem basicLower_cases (c : Char) :
    c.toNat < 128 ∨ c = kelvin ∨ c = 'Σ' ∨ basicLower c = c := by
  by_cases hascii : c.toNat < 128
  · exact .inl hascii
  · right
    rw [basicLower]
    split_ifs with hkelvin hsigma
    · exact .inl hkelvin
    · exact .inr (.inl hsigma)
    · exact .inr (.inr (toLower_of_not_ascii (not_lt.mp hascii)))

theorem basicAlphanumeric_basicLower (c : Char) :
    basicAlphanumeric (basicLower c) = basicAlphanumeric c := by
  rcases basicLower_cases c with hascii | rfl | rfl | h
  · exact forall_ascii (P := fun c ↦ basicAlphanumeric (basicLower c) = basicAlphanumeric c)
      (by decide) hascii
  · decide
  · decide
  · rw [h]

theorem basicLower_basicLower (c : Char) : basicLower (basicLower c) = basicLower c := by
  rcases basicLower_cases c with hascii | rfl | rfl | h
  · exact forall_ascii (P := fun c ↦ basicLower (basicLower c) = basicLower c) (by decide) hascii
  · decide
  · decide
  · rw [h, h]

theorem basicLower_of_other (c : Char) (hc : basicAlphanumeric c = false) : basicLower c = c := by
  rcases basicLower_cases c with hascii | rfl | rfl | h
  · exact forall_ascii (P := fun c ↦ basicAlphanumeric c = false → basicLower c = c) (by decide)
      hascii hc
  · exact absurd hc (by decide)
  · exact absurd hc (by decide)
  · exact h

theorem ascii_of_basicLower (c : Char) (hc : (basicLower c).toNat < 128) :
    c.toNat < 128 ∨ c = kelvin := by
  rcases basicLower_cases c with hascii | rfl | rfl | h
  · exact .inl hascii
  · exact .inr rfl
  · exact absurd hc (by decide)
  · rw [h] at hc
    exact .inl hc

theorem basicLower_ne (c : Char) (hc : c ≠ dottedI) : basicLower c ≠ dottedI := by
  rcases basicLower_cases c with hascii | rfl | rfl | h
  · exact forall_ascii (P := fun c ↦ basicLower c ≠ dottedI) (by decide) hascii
  · decide
  · decide
  · rw [h]
    exact hc

/-- No blank is a letter or a digit. -/
theorem basicAlphanumeric_whiteSpace (c : Char) (hc : isWhiteSpace c = true) :
    basicAlphanumeric c = false := by
  by_contra h
  rw [Bool.not_eq_false, basicAlphanumeric, Bool.or_eq_true] at h
  rcases h with h | h
  · have hblocks := toNat_of_isAlphanum h
    simp only [isWhiteSpace, Bool.or_eq_true, Bool.and_eq_true, decide_eq_true_eq] at hc
    omega
  · have hnone : [dottedI, kelvin, 'Σ', 'σ', 'ς'].all fun c ↦ !isWhiteSpace c := by decide
    have hblank := List.all_eq_true.mp hnone c (List.contains_iff_mem.mp h)
    rw [hc] at hblank
    cases hblank

/-- The tables that know ASCII and the characters above only. -/
def basicUnicode : Unicode where
  isAlphanumeric := basicAlphanumeric
  lowerChar := basicLower
  cased c := basicAlphanumeric c && !c.isDigit
  caseIgnorable c := [dotAbove, rightQuote, '\'', '.', ':'].contains c
  isAlphanumeric_ascii c hc :=
    forall_ascii (P := fun c ↦ basicAlphanumeric c = c.isAlphanum) (by decide) hc
  isAlphanumeric_whiteSpace := basicAlphanumeric_whiteSpace
  isAlphanumeric_rightQuote := by decide
  isAlphanumeric_dotAbove := by decide
  isAlphanumeric_dottedI := by decide
  isAlphanumeric_sigma := by decide
  isAlphanumeric_finalSigma := by decide
  isAlphanumeric_lowerChar c _ := basicAlphanumeric_basicLower c
  lowerChar_ascii c hc := forall_ascii (P := fun c ↦ basicLower c = c.toLower) (by decide) hc
  lowerChar_kelvin := by decide
  lowerChar_sigma := by decide
  lowerChar_finalSigma := by decide
  ascii_of_lowerChar c _ := ascii_of_basicLower c
  lowerChar_of_other := basicLower_of_other
  lowerChar_ne := basicLower_ne
  lowerChar_lowerChar c _ := basicLower_basicLower c

example : basicUnicode.toLowercase "aΣ, ΣA\u0130".toList = "aς, σai\u0307".toList := by decide

end Kit
