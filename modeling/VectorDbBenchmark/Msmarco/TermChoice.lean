import Mathlib.Data.Char
import Mathlib.Data.List.Lex
import Mathlib.Data.Nat.Dist
import Mathlib.Data.Prod.Lex
import VectorDbBenchmark.Kit.Fallible
import VectorDbBenchmark.Kit.Ordered
import VectorDbBenchmark.Kit.Tally
import VectorDbBenchmark.Msmarco.TextMatch

/-!
# Choosing a text term by its document frequency

`TermCounter` and `choose_term` of `src/msmarco/text_match.rs`.  The counter sees only
the runs of the texts as they stand; the scan that confirms a candidate classifies every
text.  A hash map is the list of its entries.
-/

namespace VectorDbBenchmark.Msmarco

open Kit

/-! ## The counter -/

/-- The term a run spells, if it has letters only and the length of a term. -/
def runTerm (chars : Text) (run : ℕ × ℕ) : Option Text :=
  if ¬(minTermLen ≤ run.2 - run.1 ∧ run.2 - run.1 ≤ maxTermLen) ∨
      ¬(slice chars run).all Char.isAlpha then none
  else some ((slice chars run).map Char.toLower)

/-- The terms of one text, each with what it is classified as. -/
def seenTerms (chars : Text) : List (Text × TextMatch) :=
  (asciiRuns chars).foldl (fun seen run ↦
    match runTerm chars run with
    | none => seen
    | some term =>
      if seen.any (·.1 = term) then seen else seen ++ [(term, classifyRuns chars term)]) []

/-- What one text adds to the counts of its term. -/
def TextMatch.weight : TextMatch → ℕ × ℕ
  | .yes => (1, 0)
  | .ambiguous => (0, 1)
  | .no => (0, 0)

structure TermCounter where
  /-- For each term the texts where it is `yes` and those where it is `ambiguous`. -/
  counts : List (Text × (ℕ × ℕ))
  docs : ℕ

namespace TermCounter

def new : TermCounter := ⟨[], 0⟩

def addDoc (counter : TermCounter) (chars : Text) : TermCounter :=
  ⟨(seenTerms chars).foldl (fun counts e ↦ addTo e.1 e.2.weight counts) counter.counts,
    counter.docs + 1⟩

/-- The counter after a corpus. -/
def ofTexts (texts : List Text) : TermCounter := texts.foldl addDoc new

/-- What the counter holds for a term. -/
def get (counter : TermCounter) (term : Text) : ℕ × ℕ := (counter.counts.lookup term).getD 0

/-- Valid terms without ambiguity in the counter. -/
def candidates (counter : TermCounter) : List (ℕ × Text) :=
  (counter.counts.filter fun (t, (yes, amb)) ↦
    decide (0 < yes) && decide (amb = 0) && (validateTerm t).isOk).map fun (t, (yes, _)) ↦ (yes, t)

end TermCounter

/-! ## The choice -/

/-- Candidates are confirmed in this order. -/
def candidateKey (target : ℕ) (c : ℕ × Text) : ℕ ×ₗ Text := toLex (c.1.dist target, c.2)

def noTerm (target docs : ℕ) : String :=
  s!"no text term with zero ambiguous documents near {target} documents exists in this " ++
    s!"corpus ({docs} raw candidates)"

/-- The loop over the candidates. -/
def confirm (scan : Text → Except String (ℕ × ℕ)) (none : String) :
    List (ℕ × Text) → Except String (Text × ℕ)
  | [] => .error none
  | (rawYes, term) :: cands => do
    let (yes, amb) ← scan term
    if yes ≠ rawYes then
      .error (s!"text term {(String.ofList term).quote}: the full classifier counts {yes} " ++
        s!"matching documents but the raw count was {rawYes}; the two passes saw different " ++
        "corpora")
    else if amb = 0 then .ok (term, yes)
    else confirm scan none cands

def chooseTerm (counter : TermCounter) (target : ℕ) (excluded : List Text)
    (scan : Text → Except String (ℕ × ℕ)) : Except String (Text × ℕ) :=
  confirm scan (noTerm target counter.docs)
    (sortByKey (candidateKey target) (counter.candidates.filter fun c ↦ !excluded.contains c.2))

/-! ## What the choice is for -/

/-- The texts classified as `m`. -/
def docCount (m : TextMatch) (texts : List Text) (term : Text) : ℕ :=
  texts.countP fun chars ↦ classify chars term = m

/-- A scan that returns counts the whole corpus. -/
def Scans (texts : List Text) (scan : Text → Except String (ℕ × ℕ)) : Prop :=
  ∀ term counts, scan term = .ok counts →
    counts = (docCount .yes texts term, docCount .ambiguous texts term)

/-- The terms that may be chosen. -/
structure Eligible (texts excluded : List Text) (term : Text) : Prop where
  valid : validateTerm term = .ok ()
  allowed : term ∉ excluded
  found : 0 < docCount .yes texts term
  certain : docCount .ambiguous texts term = 0

/-- Nearer to the target, then smaller. -/
def termKey (target : ℕ) (texts : List Text) (term : Text) : ℕ ×ₗ Text :=
  toLex ((docCount .yes texts term).dist target, term)

/-! ## The terms of one text -/

section

variable {chars term : Text}

/-- The terms that the runs of a text spell, each once. -/
def spelled (chars : Text) : List Text := distinct ((asciiRuns chars).filterMap (runTerm chars))

theorem foldl_seen (runs : List (ℕ × ℕ)) (seen : List Text) :
    runs.foldl (fun seen run ↦
      match runTerm chars run with
      | none => seen
      | some term =>
        if seen.any (·.1 = term) then seen else seen ++ [(term, classifyRuns chars term)])
      (seen.map fun t ↦ (t, classifyRuns chars t)) =
    (seen ++ distinctFrom seen (runs.filterMap (runTerm chars))).map
      fun t ↦ (t, classifyRuns chars t) := by
  induction runs generalizing seen with
  | nil =>
      rw [List.filterMap_nil, distinctFrom, List.append_nil]
      rfl
  | cons run runs ih =>
      rw [List.foldl_cons]
      cases hrun : runTerm chars run with
      | none =>
          rw [List.filterMap_cons_none hrun]
          exact ih seen
      | some term =>
          rw [List.filterMap_cons_some hrun, distinctFrom]
          have hany : (seen.map fun t ↦ (t, classifyRuns chars t)).any (·.1 = term) = true ↔
              term ∈ seen := by
            simp
          by_cases hmem : term ∈ seen
          · simp only [if_pos hmem, if_pos (hany.mpr hmem)]
            exact ih seen
          · simp only [if_neg hmem, if_neg (mt hany.mp hmem)]
            have hseen : distinctFrom (term :: seen) (runs.filterMap (runTerm chars)) =
                distinctFrom (seen ++ [term]) (runs.filterMap (runTerm chars)) := by
              apply distinctFrom_congr
              intro x
              rw [List.mem_cons, List.mem_append, List.mem_singleton, or_comm]
            rw [hseen, List.append_cons seen, ← ih (seen ++ [term]), List.map_append]
            rfl

theorem seenTerms_eq (chars : Text) :
    seenTerms chars = (spelled chars).map fun t ↦ (t, classifyRuns chars t) :=
  foldl_seen (asciiRuns chars) []

theorem map_eq_of_zip {f : Char → Char} {xs ys : Text} (hlen : xs.length = ys.length)
    (h : (xs.zip ys).all (fun (a, b) ↦ f a = b) = true) : xs.map f = ys := by
  induction xs generalizing ys with
  | nil => exact (List.length_eq_zero_iff.mp hlen.symm).symm
  | cons x xs ih =>
      cases ys with
      | nil => exact absurd hlen (Nat.succ_ne_zero _)
      | cons y ys =>
          rw [List.zip_cons_cons, List.all_cons, Bool.and_eq_true] at h
          rw [List.map_cons, of_decide_eq_true h.1, ih (Nat.succ.inj hlen) h.2]

/-- A run short enough for a token that says anything about a valid term spells it. -/
theorem runTerm_of_classifyRun (hvalid : validateTerm term = .ok ()) {run : ℕ × ℕ}
    (hrun : run ∈ asciiRuns chars) (hlen : run.2 - run.1 ≤ luceneMaxTokenLen)
    (h : classifyRun chars term run ≠ .no) : runTerm chars run = some term := by
  obtain ⟨hmin, hmax, hlower⟩ := validateTerm_eq_ok hvalid
  rw [classifyRun, if_neg hlen.not_gt] at h
  split_ifs at h with hne
  · exact absurd rfl h
  · obtain ⟨hsize, hall⟩ := not_or.mp hne
    rw [not_not, byteLen_of_lower hlower] at hsize
    rw [not_not] at hall
    have hspell : (slice chars run).map Char.toLower = term :=
      map_eq_of_zip ((length_slice hrun).trans hsize) hall
    have hletters : (slice chars run).all Char.isAlpha = true := by
      rw [← hspell, List.all_map] at hlower
      exact List.all_eq_true.mpr fun c hc ↦ isAlpha_of_toLower (List.all_eq_true.mp hlower c hc)
    rw [runTerm, hsize, hletters, hspell]
    exact if_neg (not_or.mpr ⟨not_not.mpr ⟨hmin, hmax⟩, not_not.mpr rfl⟩)

theorem mem_spelled {run : ℕ × ℕ} (hrun : run ∈ asciiRuns chars)
    (h : runTerm chars run = some term) : term ∈ spelled chars :=
  mem_distinct.mpr (List.mem_filterMap.mpr ⟨run, hrun, h⟩)

/-- Runs that make a token in both engines. -/
def ShortRuns (chars : Text) : Prop := ∀ run ∈ asciiRuns chars, run.2 - run.1 ≤ luceneMaxTokenLen

/-- A text that the counter sees as the classifier does: nothing folds, no run is cut. -/
structure Plain (chars : Text) : Prop where
  noFold : ∀ c ∈ chars, asciiFold c = none
  short : ShortRuns chars

theorem mem_spelled_of_yes (hvalid : validateTerm term = .ok ())
    (h : classifyRuns chars term = .yes) : term ∈ spelled chars := by
  obtain ⟨run, hrun, hyes⟩ := classifyRuns_eq_yes.mp h
  have hlen : run.2 - run.1 ≤ luceneMaxTokenLen := by
    apply not_lt.mp
    intro hlong
    rw [classifyRun, if_pos hlong] at hyes
    split_ifs at hyes
  refine mem_spelled hrun (runTerm_of_classifyRun hvalid hrun hlen ?_)
  rw [hyes]
  exact TextMatch.noConfusion

theorem mem_spelled_of_short (hvalid : validateTerm term = .ok ()) (hshort : ShortRuns chars)
    (h : classifyRuns chars term ≠ .no) : term ∈ spelled chars := by
  obtain ⟨run, hrun, hne⟩ : ∃ run ∈ asciiRuns chars, classifyRun chars term run ≠ .no := by
    by_contra hnone
    push Not at hnone
    exact h (classifyRuns_eq_no.mpr hnone)
  exact mem_spelled hrun (runTerm_of_classifyRun hvalid hrun (hshort run hrun) hne)

/-! ## What the counter adds for a text -/

def seenAs (chars term : Text) : ℕ × ℕ :=
  if term ∈ spelled chars then (classifyRuns chars term).weight else 0

/-- Folding turns any verdict but `yes` into `ambiguous`. -/
theorem classify_of_valid (hvalid : validateTerm term = .ok ()) :
    classify chars term =
      if classifyRuns chars term ≠ .yes ∧ foldedCouldSpell chars term then .ambiguous
      else classifyRuns chars term := by
  rw [classify, hvalid]
  cases classifyRuns chars term <;> simp

theorem classify_eq_yes (hvalid : validateTerm term = .ok ()) :
    classify chars term = .yes ↔ classifyRuns chars term = .yes := by
  rw [classify_of_valid hvalid]
  split_ifs with h
  · simp [h.1]
  · exact Iff.rfl

theorem classify_of_ambiguous (hvalid : validateTerm term = .ok ())
    (h : classifyRuns chars term = .ambiguous) : classify chars term = .ambiguous := by
  rw [classify_of_valid hvalid, h]
  exact ite_self _

theorem classify_of_noFold (hvalid : validateTerm term = .ok ())
    (h : ∀ c ∈ chars, asciiFold c = none) : classify chars term = classifyRuns chars term := by
  have hfold : foldedCouldSpell chars term = false := by
    rw [foldedCouldSpell, Bool.and_eq_false_iff]
    left
    apply List.any_eq_false.mpr
    intro c hc
    rw [h c hc]
    exact Bool.false_ne_true
  rw [classify_of_valid hvalid, hfold]
  exact if_neg fun hand ↦ Bool.false_ne_true hand.2

theorem seenAs_yes (hvalid : validateTerm term = .ok ()) :
    (seenAs chars term).1 = if classify chars term = .yes then 1 else 0 := by
  rw [seenAs, if_congr (classify_eq_yes hvalid) rfl rfl]
  by_cases hyes : classifyRuns chars term = .yes
  · rw [if_pos (mem_spelled_of_yes hvalid hyes), hyes]
    rfl
  · rw [if_neg hyes]
    split_ifs
    · cases hraw : classifyRuns chars term with
      | yes => exact absurd hraw hyes
      | no => rfl
      | ambiguous => rfl
    · rfl

theorem seenAs_ambiguous_le (hvalid : validateTerm term = .ok ()) :
    (seenAs chars term).2 ≤ if classify chars term = .ambiguous then 1 else 0 := by
  rw [seenAs]
  split_ifs with hmem hclass
  · cases classifyRuns chars term <;> decide
  · cases hraw : classifyRuns chars term with
    | yes => exact le_rfl
    | no => exact le_rfl
    | ambiguous => exact absurd (classify_of_ambiguous hvalid hraw) hclass
  · exact Nat.zero_le _
  · exact le_rfl

theorem seenAs_ambiguous (hvalid : validateTerm term = .ok ()) (hplain : Plain chars) :
    (seenAs chars term).2 = if classify chars term = .ambiguous then 1 else 0 := by
  rw [seenAs, classify_of_noFold hvalid hplain.noFold]
  cases hraw : classifyRuns chars term with
  | yes =>
      rw [if_neg (c := TextMatch.yes = .ambiguous) TextMatch.noConfusion]
      split_ifs <;> rfl
  | no =>
      rw [if_neg (c := TextMatch.no = .ambiguous) TextMatch.noConfusion]
      split_ifs <;> rfl
  | ambiguous =>
      have hmem : term ∈ spelled chars := by
        apply mem_spelled_of_short hvalid hplain.short
        rw [hraw]
        exact TextMatch.noConfusion
      rw [if_pos hmem]
      rfl

/-- A text adds one entry for each term it spells. -/
theorem counts_addDoc (counter : TermCounter) (chars : Text) :
    (counter.addDoc chars).counts =
      ((spelled chars).map fun t ↦ (t, (classifyRuns chars t).weight)).foldl
        (fun counts e ↦ addTo e.1 e.2 counts) counter.counts := by
  rw [TermCounter.addDoc, seenTerms_eq, List.foldl_map, List.foldl_map]

theorem total_addDoc (counter : TermCounter) :
    total term (counter.addDoc chars).counts = total term counter.counts + seenAs chars term := by
  have hnodup : (spelled chars).Nodup := nodup_distinct _
  rw [counts_addDoc, total_foldl_addTo,
    total_map hnodup (f := fun t ↦ (classifyRuns chars t).weight), seenAs]
  congr

end

/-! ## The counter after a corpus -/

section

variable {texts : List Text} {term : Text}

theorem ofTexts_append (texts : List Text) (chars : Text) :
    TermCounter.ofTexts (texts ++ [chars]) = (TermCounter.ofTexts texts).addDoc chars := by
  rw [TermCounter.ofTexts, List.foldl_append]
  rfl

theorem nodup_keys_ofTexts (texts : List Text) :
    ((TermCounter.ofTexts texts).counts.map Prod.fst).Nodup := by
  induction texts using List.reverseRecOn with
  | nil => exact List.nodup_nil
  | append_singleton texts chars ih =>
      rw [ofTexts_append, counts_addDoc]
      exact nodup_keys_foldl_addTo ih

theorem get_ofTexts (texts : List Text) (term : Text) :
    (TermCounter.ofTexts texts).get term = total term (TermCounter.ofTexts texts).counts :=
  lookup_getD (nodup_keys_ofTexts texts) term

theorem docCount_append (m : TextMatch) (texts : List Text) (chars term : Text) :
    docCount m (texts ++ [chars]) term =
      docCount m texts term + if classify chars term = m then 1 else 0 := by
  rw [docCount, List.countP_append, List.countP_singleton]
  simp only [decide_eq_true_eq]
  rfl

theorem total_yes (hvalid : validateTerm term = .ok ()) (texts : List Text) :
    (total term (TermCounter.ofTexts texts).counts).1 = docCount .yes texts term := by
  induction texts using List.reverseRecOn with
  | nil => rfl
  | append_singleton texts chars ih =>
      rw [ofTexts_append, total_addDoc, docCount_append, Prod.fst_add, ih, seenAs_yes hvalid]

theorem total_ambiguous_le (hvalid : validateTerm term = .ok ()) (texts : List Text) :
    (total term (TermCounter.ofTexts texts).counts).2 ≤ docCount .ambiguous texts term := by
  induction texts using List.reverseRecOn with
  | nil => exact le_rfl
  | append_singleton texts chars ih =>
      rw [ofTexts_append, total_addDoc, docCount_append, Prod.snd_add]
      exact Nat.add_le_add ih (seenAs_ambiguous_le hvalid)

theorem total_ambiguous (hvalid : validateTerm term = .ok ())
    (hplain : ∀ chars ∈ texts, Plain chars) :
    (total term (TermCounter.ofTexts texts).counts).2 = docCount .ambiguous texts term := by
  induction texts using List.reverseRecOn with
  | nil => rfl
  | append_singleton texts chars ih =>
      have hchars : Plain chars := hplain chars (List.mem_append_right _ List.mem_cons_self)
      rw [ofTexts_append, total_addDoc, docCount_append, Prod.snd_add,
        ih fun t ht ↦ hplain t (List.mem_append_left _ ht), seenAs_ambiguous hvalid hchars]

end

/-! ## The candidates -/

section

variable {texts excluded : List Text} {target : ℕ} {scan : Text → Except String (ℕ × ℕ)}

/-- The candidates that are not excluded, nearest first. -/
def ranked (texts : List Text) (target : ℕ) (excluded : List Text) : List (ℕ × Text) :=
  sortByKey (candidateKey target)
    ((TermCounter.ofTexts texts).candidates.filter fun c ↦ !excluded.contains c.2)

theorem chooseTerm_ofTexts (texts : List Text) (target : ℕ) (excluded : List Text)
    (scan : Text → Except String (ℕ × ℕ)) :
    chooseTerm (TermCounter.ofTexts texts) target excluded scan =
      confirm scan (noTerm target (TermCounter.ofTexts texts).docs)
        (ranked texts target excluded) := rfl

theorem validateTerm_isOk {term : Text} :
    (validateTerm term).isOk = true ↔ validateTerm term = .ok () := by
  cases h : validateTerm term with
  | error e => simp [Except.isOk, Except.toBool]
  | ok u => simp [Except.isOk, Except.toBool]

theorem mem_candidates {c : ℕ × Text} :
    c ∈ (TermCounter.ofTexts texts).candidates ↔
      validateTerm c.2 = .ok () ∧ 0 < c.1 ∧
        (c.1, 0) = total c.2 (TermCounter.ofTexts texts).counts := by
  obtain ⟨yes, term⟩ := c
  rw [TermCounter.candidates, List.mem_map]
  constructor
  · rintro ⟨⟨t, y, amb⟩, hmem, heq⟩
    obtain ⟨hentry, hcond⟩ := List.mem_filter.mp hmem
    rw [Bool.and_eq_true, Bool.and_eq_true, decide_eq_true_eq, decide_eq_true_eq,
      validateTerm_isOk] at hcond
    obtain ⟨⟨hpos, rfl⟩, hvalid⟩ := hcond
    cases heq
    exact ⟨hvalid, hpos, ((mem_iff_total (nodup_keys_ofTexts texts)).mp hentry).2⟩
  · rintro ⟨hvalid, hpos, htotal⟩
    have hkey : term ∈ (TermCounter.ofTexts texts).counts.map Prod.fst := by
      by_contra hnot
      rw [total_eq_zero hnot] at htotal
      exact hpos.ne' (Prod.mk.inj htotal).1
    refine ⟨(term, yes, 0), List.mem_filter.mpr ⟨?_, ?_⟩, rfl⟩
    · exact (mem_iff_total (nodup_keys_ofTexts texts)).mpr ⟨hkey, htotal⟩
    · rw [Bool.and_eq_true, Bool.and_eq_true, decide_eq_true_eq, decide_eq_true_eq,
        validateTerm_isOk]
      exact ⟨⟨hpos, rfl⟩, hvalid⟩

/-- A ranked candidate carries the number of texts that match it. -/
theorem of_mem_ranked {c : ℕ × Text} (h : c ∈ ranked texts target excluded) :
    validateTerm c.2 = .ok () ∧ c.2 ∉ excluded ∧ 0 < c.1 ∧ c.1 = docCount .yes texts c.2 := by
  obtain ⟨hmem, hexcluded⟩ := List.mem_filter.mp (mem_sortByKey.mp h)
  obtain ⟨hvalid, hpos, htotal⟩ := mem_candidates.mp hmem
  refine ⟨hvalid, ?_, hpos, ?_⟩
  · simpa using hexcluded
  · rw [← total_yes hvalid, ← htotal]

theorem mem_ranked_of_eligible {term : Text} (h : Eligible texts excluded term) :
    (docCount .yes texts term, term) ∈ ranked texts target excluded := by
  refine mem_sortByKey.mpr (List.mem_filter.mpr ⟨mem_candidates.mpr ⟨h.valid, h.found, ?_⟩, ?_⟩)
  · have hle := total_ambiguous_le h.valid texts
    rw [h.certain] at hle
    exact Prod.ext (total_yes h.valid texts).symm (Nat.le_zero.mp hle).symm
  · simpa using h.allowed

/-! ## Confirming -/

/-- The loop on one candidate: the scan of the corpus agrees with the counter. -/
theorem confirm_cons {none : String} {c : ℕ × Text} {cands : List (ℕ × Text)}
    (hscan : Scans texts scan) (hc : c.1 = docCount .yes texts c.2) {counts : ℕ × ℕ}
    (h : scan c.2 = .ok counts) :
    confirm scan none (c :: cands) =
      if docCount .ambiguous texts c.2 = 0 then .ok (c.2, c.1) else confirm scan none cands := by
  obtain ⟨yes, term⟩ := c
  have hcounts := hscan term counts h
  rw [confirm, h, hcounts]
  dsimp only at hc ⊢
  rw [ok_bind, hc]
  exact if_neg (not_not.mpr rfl)

theorem confirm_cons_error {none e : String} {c : ℕ × Text} {cands : List (ℕ × Text)}
    (h : scan c.2 = .error e) : confirm scan none (c :: cands) = .error e := by
  rw [confirm, h]
  rfl

theorem confirm_eq_ok {none : String} {cands : List (ℕ × Text)} {term : Text} {yes : ℕ}
    (hscan : Scans texts scan) (hyes : ∀ c ∈ cands, c.1 = docCount .yes texts c.2)
    (hsorted : cands.Pairwise fun c d ↦ candidateKey target c ≤ candidateKey target d)
    (h : confirm scan none cands = .ok (term, yes)) :
    (yes, term) ∈ cands ∧ docCount .ambiguous texts term = 0 ∧
      ∀ c ∈ cands, docCount .ambiguous texts c.2 = 0 →
        candidateKey target (yes, term) ≤ candidateKey target c := by
  induction cands with
  | nil => cases h
  | cons c cands ih =>
      rw [List.pairwise_cons] at hsorted
      cases hc : scan c.2 with
      | error e =>
          rw [confirm_cons_error hc] at h
          cases h
      | ok counts =>
          rw [confirm_cons hscan (hyes c List.mem_cons_self) hc] at h
          split_ifs at h with hamb
          · cases h
            refine ⟨List.mem_cons_self, hamb, fun d hd _ ↦ ?_⟩
            rcases List.mem_cons.mp hd with rfl | hd
            · exact le_rfl
            · exact hsorted.1 d hd
          · obtain ⟨hmem, hcertain, hmin⟩ :=
              ih (fun d hd ↦ hyes d (List.mem_cons_of_mem c hd)) hsorted.2 h
            refine ⟨List.mem_cons_of_mem c hmem, hcertain, fun d hd hzero ↦ ?_⟩
            rcases List.mem_cons.mp hd with rfl | hd
            · exact absurd hzero hamb
            · exact hmin d hd hzero

theorem confirm_eq_error {none e : String} {cands : List (ℕ × Text)} (hscan : Scans texts scan)
    (hyes : ∀ c ∈ cands, c.1 = docCount .yes texts c.2)
    (h : confirm scan none cands = .error e) :
    (∃ term, scan term = .error e) ∨
      e = none ∧ ∀ c ∈ cands, docCount .ambiguous texts c.2 ≠ 0 := by
  induction cands with
  | nil =>
      cases h
      exact .inr ⟨rfl, fun c hc ↦ (List.not_mem_nil hc).elim⟩
  | cons c cands ih =>
      cases hc : scan c.2 with
      | error e' =>
          rw [confirm_cons_error hc] at h
          cases h
          exact .inl ⟨c.2, hc⟩
      | ok counts =>
          rw [confirm_cons hscan (hyes c List.mem_cons_self) hc] at h
          split_ifs at h with hamb
          rcases ih (fun d hd ↦ hyes d (List.mem_cons_of_mem c hd)) h with hscanned | ⟨rfl, hnone⟩
          · exact .inl hscanned
          · refine .inr ⟨rfl, fun d hd ↦ ?_⟩
            rcases List.mem_cons.mp hd with rfl | hd
            · exact hamb
            · exact hnone d hd

end

/-! ## The choice over a corpus -/

/-- What a choice over a corpus returns.  An error is the scan's own, or says that there is
no term; it is never a mismatch. -/
def Chooses (texts : List Text) (target : ℕ) (excluded : List Text)
    (scan : Text → Except String (ℕ × ℕ)) : Except String (Text × ℕ) → Prop
  | .ok (term, yes) =>
    Eligible texts excluded term ∧ yes = docCount .yes texts term ∧
      ∀ t, Eligible texts excluded t → termKey target texts term ≤ termKey target texts t
  | .error e =>
    (∃ term, scan term = .error e) ∨
      e = noTerm target texts.length ∧ ∀ term, ¬Eligible texts excluded term

theorem docs_ofTexts (texts : List Text) : (TermCounter.ofTexts texts).docs = texts.length := by
  induction texts using List.reverseRecOn with
  | nil => rfl
  | append_singleton texts chars ih =>
      rw [ofTexts_append, TermCounter.addDoc, ih, List.length_append, List.length_singleton]

theorem chooseTerm_chooses {texts : List Text} {scan : Text → Except String (ℕ × ℕ)}
    (hscan : Scans texts scan) (target : ℕ) (excluded : List Text) :
    Chooses texts target excluded scan
      (chooseTerm (TermCounter.ofTexts texts) target excluded scan) := by
  have hyes : ∀ c ∈ ranked texts target excluded, c.1 = docCount .yes texts c.2 :=
    fun c hc ↦ (of_mem_ranked hc).2.2.2
  rw [chooseTerm_ofTexts, docs_ofTexts]
  cases h : confirm scan (noTerm target texts.length) (ranked texts target excluded) with
  | ok chosen =>
      obtain ⟨term, yes⟩ := chosen
      obtain ⟨hmem, hcertain, hmin⟩ := confirm_eq_ok hscan hyes (pairwise_sortByKey _ _) h
      obtain ⟨hvalid, hallowed, hpos, hcount⟩ := of_mem_ranked hmem
      change yes = docCount .yes texts term at hcount
      subst hcount
      refine ⟨⟨hvalid, hallowed, hpos, hcertain⟩, rfl, fun t ht ↦ ?_⟩
      exact hmin (docCount .yes texts t, t) (mem_ranked_of_eligible ht) ht.certain
  | error e =>
      rcases confirm_eq_error hscan hyes h with hscanned | ⟨rfl, hnone⟩
      · exact .inl hscanned
      · refine .inr ⟨rfl, fun t ht ↦ ?_⟩
        exact hnone (docCount .yes texts t, t) (mem_ranked_of_eligible ht) ht.certain

/-- Whatever order a hash map lists its entries in, the choice is the same. -/
theorem chooseTerm_of_perm {texts : List Text} {entries : List (Text × (ℕ × ℕ))}
    (h : entries.Perm (TermCounter.ofTexts texts).counts) (target : ℕ) (excluded : List Text)
    (scan : Text → Except String (ℕ × ℕ)) :
    chooseTerm ⟨entries, texts.length⟩ target excluded scan =
      chooseTerm (TermCounter.ofTexts texts) target excluded scan := by
  have hcandidates : (TermCounter.mk entries texts.length).candidates.Perm
      (TermCounter.ofTexts texts).candidates := (h.filter _).map _
  have hsorted : sortByKey (candidateKey target)
    ((TermCounter.mk entries texts.length).candidates.filter
      fun c ↦ !excluded.contains c.2) = ranked texts target excluded := by
    refine sortByKey_eq_of_perm (hcandidates.filter _) fun c hc d hd hkey ↦ ?_
    have hterm : c.2 = d.2 := (Prod.mk.inj (toLex.injective hkey)).2
    have hcount : ∀ e ∈ (TermCounter.mk entries texts.length).candidates,
        (e.1, 0) = total e.2 (TermCounter.ofTexts texts).counts := fun e he ↦
      (mem_candidates.mp (hcandidates.mem_iff.mp he)).2.2
    have heq := (hcount c (List.mem_filter.mp hc).1).trans
      ((congrArg (total · _) hterm).trans (hcount d (List.mem_filter.mp hd).1).symm)
    exact Prod.ext (Prod.mk.inj heq).1 hterm
  rw [chooseTerm, hsorted, chooseTerm_ofTexts, docs_ofTexts]

/-- **Term choice**: the counter agrees with the classifier on the texts that match a valid
term, and the choice returns the best eligible term. -/
theorem chooseTerm_correct (texts : List Text) :
    (∀ term, validateTerm term = .ok () →
      ((TermCounter.ofTexts texts).get term).1 = docCount .yes texts term ∧
      ((TermCounter.ofTexts texts).get term).2 ≤ docCount .ambiguous texts term ∧
      ((∀ chars ∈ texts, Plain chars) →
        ((TermCounter.ofTexts texts).get term).2 = docCount .ambiguous texts term)) ∧
    ∀ target excluded scan, Scans texts scan →
      Chooses texts target excluded scan
        (chooseTerm (TermCounter.ofTexts texts) target excluded scan) ∧
      ∀ entries, entries.Perm (TermCounter.ofTexts texts).counts →
        chooseTerm ⟨entries, texts.length⟩ target excluded scan =
          chooseTerm (TermCounter.ofTexts texts) target excluded scan := by
  refine ⟨fun term hvalid ↦ ?_, fun target excluded scan hscan ↦ ?_⟩
  · rw [get_ofTexts]
    exact ⟨total_yes hvalid texts, total_ambiguous_le hvalid texts, total_ambiguous hvalid⟩
  · exact ⟨chooseTerm_chooses hscan target excluded,
      fun entries h ↦ chooseTerm_of_perm h target excluded scan⟩

/-- A text whose folded form spells the term is ambiguous for the classifier, and the
counter does not see it. -/
theorem counter_misses_folded :
    validateTerm "cafe".toList = .ok () ∧
    (TermCounter.ofTexts ["café".toList]).get "cafe".toList = (0, 0) ∧
    docCount .ambiguous ["café".toList] "cafe".toList = 1 ∧
    ¬∀ texts term, (TermCounter.ofTexts texts).get term =
      (docCount .yes texts term, docCount .ambiguous texts term) := by
  have hget : (TermCounter.ofTexts ["café".toList]).get "cafe".toList = (0, 0) := by
    decide
  have hcount : docCount .ambiguous ["café".toList] "cafe".toList = 1 := by decide
  refine ⟨by decide, hget, hcount, fun hall ↦ ?_⟩
  have heq := hall ["café".toList] "cafe".toList
  rw [hget, hcount] at heq
  exact absurd (Prod.mk.inj heq).2 Nat.zero_ne_one

end VectorDbBenchmark.Msmarco
