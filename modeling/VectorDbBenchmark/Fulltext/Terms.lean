import VectorDbBenchmark.Kit.Distinct
import VectorDbBenchmark.Kit.Unicode

/-!
# Query terms

`strip_possessives` and `query_terms` of `src/fulltext.rs`: the terms that both engines receive.
Possessives go before the text is split and its words are lowered, and yet terms that are joined
again have no possessive and no other words.
-/

namespace VectorDbBenchmark.Fulltext

open Kit

/-- `EnglishAnalyzer.ENGLISH_STOP_WORDS_SET`. -/
def stopwords : List String :=
  ["a", "an", "and", "are", "as", "at", "be", "but", "by", "for", "if", "in", "into", "is", "it",
    "no", "not", "of", "on", "or", "such", "that", "the", "their", "then", "there", "these",
    "they", "this", "to", "was", "will", "with"]

/-- The token separators of RediSearch, and its escape character. -/
def redisearchSeparators : String := ",./()\x7b\x7d[]:;~!@#$%^&*-=+|'`\"<>?\\"

def isSeparator (c : Char) : Bool := isWhiteSpace c || redisearchSeparators.toList.contains c

section Code

variable (u : Unicode)

/-- Whether a possessive starts here; `afterAlnum` tells of the character in front. -/
def isPossessive (afterAlnum : Bool) : Text → Bool
  | c :: n :: rest =>
    (c = '\'' || c = rightQuote) && afterAlnum && (n = 's' || n = 'S') &&
      rest.head?.all fun n ↦ !u.isAlphanumeric n
  | _ => false

/-- The loop of `strip_possessives`. -/
def stripFrom (afterAlnum : Bool) : Text → Text
  | [] => []
  | [c] => [c]
  | c :: n :: rest =>
    if isPossessive u afterAlnum (c :: n :: rest) then stripFrom (u.isAlphanumeric n) rest
    else c :: stripFrom (u.isAlphanumeric c) (n :: rest)

def stripPossessives (text : Text) : Text := stripFrom u false text

/-- The words of a text, before any is dropped. -/
def words (text : Text) : List Text :=
  ((stripPossessives u text).splitOnP isSeparator).map u.toLowercase

def queryTerms (text : Text) : List Text :=
  distinct (((words u text).filter fun t ↦ t.any u.isAlphanumeric).filter
    fun t ↦ !stopwords.contains (String.ofList t))

end Code

section Terms

variable {u : Unicode} {b b' : Bool} {c d n : Char} {t rest v text : Text} {ts : List Text}

/-! ## Possessives -/

theorem isAlphanumeric_quote (hc : c = '\'' ∨ c = rightQuote) : u.isAlphanumeric c = false := by
  rcases hc with rfl | rfl
  · rw [u.isAlphanumeric_ascii '\'' (by decide)]
    rfl
  · exact u.isAlphanumeric_rightQuote

theorem isAlphanumeric_s (hn : n = 's' ∨ n = 'S') : u.isAlphanumeric n = true := by
  rcases hn with rfl | rfl
  · rw [u.isAlphanumeric_ascii 's' (by decide)]
    rfl
  · rw [u.isAlphanumeric_ascii 'S' (by decide)]
    rfl

/-- A quote behind a letter or a digit, an `s`, and then none. -/
structure Possessive (u : Unicode) (b : Bool) (c n : Char) (rest : Text) : Prop where
  quote : c = '\'' ∨ c = rightQuote
  after : b = true
  s : n = 's' ∨ n = 'S'
  ends : rest.head?.all (fun n ↦ !u.isAlphanumeric n) = true

theorem isPossessive_iff : isPossessive u b (c :: n :: rest) = true ↔ Possessive u b c n rest := by
  simp only [isPossessive, Bool.and_eq_true, Bool.or_eq_true, decide_eq_true_eq]
  constructor
  · rintro ⟨⟨⟨hquote, hafter⟩, hs⟩, hends⟩
    exact ⟨hquote, hafter, hs, hends⟩
  · rintro ⟨hquote, hafter, hs, hends⟩
    exact ⟨⟨⟨hquote, hafter⟩, hs⟩, hends⟩

theorem exists_of_isPossessive (h : isPossessive u b t = true) :
    ∃ c n rest, t = c :: n :: rest ∧ Possessive u b c n rest := by
  match t with
  | [] => cases h
  | [c] => cases h
  | c :: n :: rest => exact ⟨c, n, rest, rfl, isPossessive_iff.mp h⟩

theorem isPossessive_of_not_quote (hc : ¬(c = '\'' ∨ c = rightQuote)) :
    isPossessive u b (c :: t) = false := by
  rw [Bool.eq_false_iff]
  intro h
  obtain ⟨c', n, rest, heq, hposs⟩ := exists_of_isPossessive h
  cases heq
  exact hc hposs.quote

theorem isPossessive_false : isPossessive u false t = false := by
  rw [Bool.eq_false_iff]
  intro h
  obtain ⟨c, n, rest, -, hposs⟩ := exists_of_isPossessive h
  cases hposs.after

theorem stripFrom_cons (h : isPossessive u b (c :: t) = false) :
    stripFrom u b (c :: t) = c :: stripFrom u (u.isAlphanumeric c) t := by
  cases t with
  | nil => rfl
  | cons n rest => rw [stripFrom, if_neg (Bool.eq_false_iff.mp h)]

/-- A text without possessives; `b` tells of the character in front. -/
def Clean (u : Unicode) (b : Bool) : Text → Prop
  | [] => True
  | c :: t => isPossessive u b (c :: t) = false ∧ Clean u (u.isAlphanumeric c) t

theorem stripFrom_of_clean (h : Clean u b t) : stripFrom u b t = t := by
  induction t generalizing b with
  | nil => rfl
  | cons c t ih => rw [stripFrom_cons h.1, ih h.2]

/-- Stripping leaves a letter or a digit where it stands. -/
theorem head?_stripFrom (h : (stripFrom u b t).head?.all (fun n ↦ !u.isAlphanumeric n) = true) :
    t.head?.all (fun n ↦ !u.isAlphanumeric n) = true := by
  cases t with
  | nil => rfl
  | cons m t =>
      rw [List.head?_cons, Option.all_some, Bool.not_eq_true']
      by_cases hquote : m = '\'' ∨ m = rightQuote
      · exact isAlphanumeric_quote hquote
      · rw [stripFrom_cons (isPossessive_of_not_quote hquote), List.head?_cons, Option.all_some,
          Bool.not_eq_true'] at h
        exact h

/-- What is stripped once has no possessive left: where one goes, a letter or a digit stays in
front, and none comes to stand behind an `s`. -/
theorem clean_stripFrom (b : Bool) (t : Text) : Clean u b (stripFrom u b t) := by
  induction b, t using stripFrom.induct u with
  | case1 b => trivial
  | case2 b c => exact ⟨rfl, trivial⟩
  | case3 b c n rest h ih =>
      have hposs := isPossessive_iff.mp h
      rw [stripFrom, if_pos h, hposs.after]
      rwa [isAlphanumeric_s hposs.s] at ih ⊢
  | case4 b c n rest h ih =>
      rw [stripFrom, if_neg h]
      refine ⟨?_, ih⟩
      rw [Bool.eq_false_iff]
      intro hnew
      have hquote : c = '\'' ∨ c = rightQuote := by
        by_contra hquote
        rw [isPossessive_of_not_quote hquote] at hnew
        cases hnew
      rw [isAlphanumeric_quote hquote, stripFrom_cons isPossessive_false, isPossessive_iff] at hnew
      exact h (isPossessive_iff.mpr ⟨hquote, hnew.after, hnew.s, head?_stripFrom hnew.ends⟩)

/-! ## Pieces -/

/-- Whether a possessive starts does not depend on what a separator is followed by. -/
theorem isPossessive_append (hd : u.isAlphanumeric d = false) :
    isPossessive u b (c :: t ++ d :: v) = isPossessive u b (c :: t) := by
  match t with
  | [] =>
      change isPossessive u b (c :: d :: v) = false
      rw [Bool.eq_false_iff]
      intro h
      obtain ⟨c', n, rest, heq, hposs⟩ := exists_of_isPossessive h
      cases heq
      rw [isAlphanumeric_s hposs.s] at hd
      cases hd
  | [n] =>
      simp only [isPossessive, List.cons_append, List.nil_append, List.head?_cons, List.head?_nil,
        Option.all_some, Option.all_none, hd, Bool.not_false]
  | n :: m :: rest => rfl

theorem Clean.of_append (hd : u.isAlphanumeric d = false) (h : Clean u b (t ++ d :: v)) :
    Clean u b t ∧ Clean u false v := by
  induction t generalizing b with
  | nil =>
      refine ⟨trivial, ?_⟩
      have htail := h.2
      rwa [hd] at htail
  | cons c t ih =>
      obtain ⟨ht, hv⟩ := ih h.2
      refine ⟨⟨?_, ht⟩, hv⟩
      rw [← isPossessive_append hd]
      exact h.1

theorem Clean.append_blank (h : Clean u b t) (hv : Clean u false v) :
    Clean u b (t ++ ' ' :: v) := by
  have hblank : u.isAlphanumeric ' ' = false := u.isAlphanumeric_whiteSpace ' ' (by decide)
  induction t generalizing b with
  | nil =>
      refine ⟨isPossessive_of_not_quote (by decide), ?_⟩
      rwa [hblank]
  | cons c t ih => exact ⟨(isPossessive_append hblank).trans h.1, ih h.2⟩

theorem isAlphanumeric_separator (hc : isSeparator c = true) : u.isAlphanumeric c = false := by
  rw [isSeparator, Bool.or_eq_true] at hc
  rcases hc with hc | hc
  · exact u.isAlphanumeric_whiteSpace c hc
  · have hascii : redisearchSeparators.toList.all fun c ↦
        decide (c.toNat < 128) && !c.isAlphanum := by decide
    have hkind := List.all_eq_true.mp hascii c (List.contains_iff_mem.mp hc)
    rw [Bool.and_eq_true, decide_eq_true_eq, Bool.not_eq_true'] at hkind
    rw [u.isAlphanumeric_ascii c hkind.1, hkind.2]

/-! ## Lowercase -/

/-- The lowercase of a text starts with a letter or a digit if the text does. -/
theorem head?_lowerFrom (before t : Text) :
    (u.lowerFrom before t).head?.all (fun n ↦ !u.isAlphanumeric n) =
      t.head?.all (fun n ↦ !u.isAlphanumeric n) := by
  cases t with
  | nil => rfl
  | cons c t =>
      rcases u.lowerAt_cases before c t with ⟨d, hd, halnum, -, -⟩ | ⟨rfl, hd⟩
      · rw [Unicode.lowerFrom, hd, List.cons_append, List.head?_cons, List.head?_cons,
          Option.all_some, Option.all_some, halnum]
      · rw [Unicode.lowerFrom, hd, List.cons_append, List.head?_cons, List.head?_cons,
          Option.all_some, Option.all_some, u.isAlphanumeric_dottedI,
          u.isAlphanumeric_ascii 'i' (by decide)]
        rfl

/-- Lowercase makes no possessive: its quotes, its `s` and its letters and digits come from
such. -/
theorem clean_lowerFrom {before : Text} (h : Clean u b t) (hb : b' = true → b = true) :
    Clean u b' (u.lowerFrom before t) := by
  induction t generalizing b b' before with
  | nil => trivial
  | cons c t ih =>
      rw [Unicode.lowerFrom]
      rcases u.lowerAt_cases before c t with ⟨d, hd, halnum, hother, -⟩ | ⟨rfl, hd⟩
      · rw [hd, List.singleton_append]
        refine ⟨?_, ih h.2 fun hafter ↦ halnum ▸ hafter⟩
        rw [Bool.eq_false_iff]
        intro hnew
        obtain ⟨d', n, rest, heq, hposs⟩ := exists_of_isPossessive hnew
        obtain ⟨rfl, htail⟩ := List.cons.inj heq
        have hdc : d = c := hother (halnum ▸ isAlphanumeric_quote hposs.quote)
        cases t with
        | nil => cases htail
        | cons m t =>
            rcases u.lowerAt_cases (c :: before) m t with ⟨x, hx, -, -, hs⟩ | ⟨-, hx⟩
            · rw [Unicode.lowerFrom, hx] at htail
              obtain ⟨rfl, rfl⟩ := List.cons.inj htail
              have hold : Possessive u b c m t :=
                ⟨hdc ▸ hposs.quote, hb hposs.after, hs hposs.s,
                  (head?_lowerFrom _ _).symm.trans hposs.ends⟩
              exact Bool.eq_false_iff.mp h.1 (isPossessive_iff.mpr hold)
            · rw [Unicode.lowerFrom, hx] at htail
              obtain ⟨rfl, -⟩ := List.cons.inj htail
              exact absurd hposs.s (by decide)
      · rw [hd]
        refine ⟨isPossessive_of_not_quote (by decide),
          isPossessive_of_not_quote (by decide), ih h.2 ?_⟩
        intro hafter
        rw [u.isAlphanumeric_dotAbove] at hafter
        cases hafter

/-! ## Terms -/

/-- A term as `query_terms` gives it. -/
structure IsTerm (u : Unicode) (t : Text) : Prop where
  alnum : ∃ c ∈ t, u.isAlphanumeric c = true
  solid : ∀ c ∈ t, isSeparator c = false
  notStop : String.ofList t ∉ stopwords
  clean : Clean u false t
  lowered : u.toLowercase t = t

theorem IsTerm.ne_nil (h : IsTerm u t) : t ≠ [] := by
  rintro rfl
  obtain ⟨c, hc, -⟩ := h.alnum
  cases hc

/-- Words have neither separators nor possessives, and are lowercase. -/
theorem word_facts (h : t ∈ words u text) :
    (∀ c ∈ t, isSeparator c = false) ∧ Clean u false t ∧ u.toLowercase t = t := by
  obtain ⟨w, hw, rfl⟩ := List.mem_map.mp h
  have hpiece := forall_mem_splitOnP (Q := Clean u false)
    (fun _ _ _ hsep hclean ↦ hclean.of_append (isAlphanumeric_separator hsep))
    (clean_stripFrom false text) w hw
  refine ⟨?_, clean_lowerFrom hpiece.1 id, u.toLowercase_toLowercase w⟩
  intro c hc
  rw [Bool.eq_false_iff]
  intro hsep
  have hdot : c ≠ dotAbove := by
    rintro rfl
    exact absurd hsep (by decide)
  have hmem := Unicode.mem_of_mem_toLowercase hc (isAlphanumeric_separator hsep) hdot
  rw [hpiece.2 c hmem] at hsep
  cases hsep

theorem mem_queryTerms : t ∈ queryTerms u text ↔
    t ∈ words u text ∧ (∃ c ∈ t, u.isAlphanumeric c = true) ∧ String.ofList t ∉ stopwords := by
  rw [queryTerms, mem_distinct, List.mem_filter, List.mem_filter, List.any_eq_true, and_assoc,
    Bool.not_eq_true', Bool.eq_false_iff, ne_eq, List.contains_iff_mem]

theorem isTerm_of_mem (h : t ∈ queryTerms u text) : IsTerm u t := by
  obtain ⟨hword, halnum, hstop⟩ := mem_queryTerms.mp h
  obtain ⟨hsolid, hclean, hlowered⟩ := word_facts hword
  exact ⟨halnum, hsolid, hstop, hclean, hlowered⟩

theorem nodup_queryTerms (text : Text) : (queryTerms u text).Nodup := nodup_distinct _

/-- The terms are in the order in which the text has them first. -/
theorem pairwise_queryTerms (text : Text) :
    (queryTerms u text).Pairwise fun s t ↦ (words u text).idxOf s < (words u text).idxOf t := by
  rw [queryTerms, distinct_filter, distinct_filter]
  exact ((pairwise_idxOf_distinct (words u text)).filter _).filter _

theorem clean_intercalate (h : ∀ t ∈ ts, Clean u false t) :
    Clean u false ([' '].intercalate ts) := by
  induction ts with
  | nil => trivial
  | cons t ts ih =>
      have ht := h t List.mem_cons_self
      have hts := ih fun t' ht' ↦ h t' (List.mem_cons_of_mem t ht')
      cases ts with
      | nil =>
          rw [List.intercalate_singleton]
          exact ht
      | cons t' ts =>
          rw [List.intercalate_cons_cons, List.append_assoc, List.singleton_append]
          exact ht.append_blank hts

/-- The words of distinct terms joined by blanks are the terms. -/
theorem words_intercalate (h : ∀ t ∈ ts, IsTerm u t) (hne : ts ≠ []) :
    words u ([' '].intercalate ts) = ts := by
  have hclean := clean_intercalate fun t ht ↦ (h t ht).clean
  rw [words, stripPossessives, stripFrom_of_clean hclean,
    splitOnP_intercalate (by decide) hne fun t ht ↦ (h t ht).solid]
  exact (List.map_congr_left fun t ht ↦ (h t ht).lowered).trans (List.map_id ts)

theorem queryTerms_intercalate (h : ∀ t ∈ ts, IsTerm u t) (hd : ts.Nodup) :
    queryTerms u ([' '].intercalate ts) = ts := by
  by_cases hne : ts = []
  · subst hne
    rfl
  · rw [queryTerms, words_intercalate h hne, List.filter_eq_self.mpr, List.filter_eq_self.mpr,
      distinct_of_nodup hd]
    · intro t ht
      exact List.any_eq_true.mpr (h t ht).alnum
    · intro t ht
      rw [List.filter_eq_self.mpr fun t ht ↦ List.any_eq_true.mpr (h t ht).alnum] at ht
      rw [Bool.not_eq_true', Bool.eq_false_iff, ne_eq, List.contains_iff_mem]
      exact (h t ht).notStop

end Terms

end VectorDbBenchmark.Fulltext
