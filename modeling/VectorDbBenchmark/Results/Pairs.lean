import VectorDbBenchmark.Results.CompareResults

/-!
# The report of one pair

The queries a dump attempted and the queries it answered, as sets, and what the
first-answer map and the classification loop hold in terms of them.

When two dumps can be compared, what the report of the pair is, how it counts
the queries, and when it holds nothing against the pair.
-/

namespace VectorDbBenchmark.Results

open Kit

/-! ## The queries of a dump -/

/-- The queries a dump holds a record of. -/
def Dump.attempted (d : Dump) : Finset ℕ := (d.records.map QueryRecord.queryId).toFinset

/-- The queries a dump holds an answer to. -/
def Dump.answeredQueries (d : Dump) : Finset ℕ :=
  ((d.records.filter QueryRecord.answered).map QueryRecord.queryId).toFinset

/-- No attempt of the dump failed. -/
def Dump.Clean (d : Dump) : Prop := ∀ r ∈ d.records, r.answered = true

namespace Dump

variable {d : Dump} {q : ℕ}

theorem mem_attempted : q ∈ d.attempted ↔ ∃ r ∈ d.records, r.queryId = q := by
  rw [attempted, List.mem_toFinset, List.mem_map]

theorem mem_answeredQueries :
    q ∈ d.answeredQueries ↔ ∃ r ∈ d.records, r.answered = true ∧ r.queryId = q := by
  simp only [answeredQueries, List.mem_toFinset, List.mem_map, List.mem_filter, and_assoc]

theorem answeredQueries_subset (d : Dump) : d.answeredQueries ⊆ d.attempted := by
  intro q hq
  obtain ⟨r, hr, -, hq⟩ := mem_answeredQueries.mp hq
  exact mem_attempted.mpr ⟨r, hr, hq⟩

/-- A dump without failures answered what it attempted. -/
theorem Clean.answeredQueries_eq (h : d.Clean) : d.answeredQueries = d.attempted := by
  refine Finset.Subset.antisymm d.answeredQueries_subset fun q hq ↦ ?_
  obtain ⟨r, hr, hq⟩ := mem_attempted.mp hq
  exact mem_answeredQueries.mpr ⟨r, hr, h r hr, hq⟩

theorem clean_iff_countP : d.records.countP (fun r ↦ !r.answered) = 0 ↔ d.Clean := by
  simp [Clean, List.countP_eq_zero]

end Dump

/-! ## The first-answer map -/

/-- A round of the pass keeps the answers found before it. -/
theorem getAnswer_insertFirst (answered : List (ℕ × QueryRecord)) (r : QueryRecord) (q : ℕ) :
    getAnswer (insertFirst answered r) q =
      (getAnswer answered q).or (if r.answered && r.queryId = q then some r else none) := by
  rw [insertFirst]
  split_ifs with hins hq hq
  · have hnone : ∀ hq' : r.queryId = q, getAnswer answered q = none := by
      rintro rfl
      simp only [Bool.and_eq_true, Bool.not_eq_true', List.any_eq_false, decide_eq_true_eq] at hins
      simp only [getAnswer, Option.map_eq_none_iff, List.find?_eq_none, decide_eq_true_eq]
      exact hins.2
    simp only [Bool.and_eq_true, decide_eq_true_eq] at hq
    rw [hnone hq.2, Option.none_or, getAnswer, List.find?_append, ← hq.2]
    have hfind : answered.find? (·.1 = r.queryId) = none := by
      have := hnone hq.2
      rw [← hq.2, getAnswer, Option.map_eq_none_iff] at this
      exact this
    simp [hfind]
  · have hne : r.queryId ≠ q := by
      rintro rfl
      simp only [Bool.and_eq_true] at hins
      exact hq (by simp [hins.1])
    simp [getAnswer, List.find?_append, hne]
  · simp only [Bool.and_eq_true, decide_eq_true_eq] at hq
    obtain ⟨hans, rfl⟩ := hq
    have hany : answered.any (·.1 = r.queryId) = true := by
      simpa [hans] using hins
    obtain ⟨e, he⟩ : ∃ e, answered.find? (·.1 = r.queryId) = some e := by
      rw [← Option.isSome_iff_exists, List.find?_isSome]
      simpa using hany
    simp [getAnswer, he]
  · rw [Option.or_none]

theorem getAnswer_foldl (answered : List (ℕ × QueryRecord)) (rs : List QueryRecord) (q : ℕ) :
    getAnswer (rs.foldl insertFirst answered) q =
      (getAnswer answered q).or (rs.find? fun r ↦ r.answered && r.queryId = q) := by
  induction rs generalizing answered with
  | nil => rw [List.foldl_nil, List.find?_nil, Option.or_none]
  | cons r rs ih =>
      rw [List.foldl_cons, ih, getAnswer_insertFirst, Option.or_assoc, List.find?_cons]
      congr 1
      cases r.answered && decide (r.queryId = q) <;> simp

/-- The map holds, for every query, its first answered record in `seq` order. -/
theorem getAnswer_firstAnswers (rs : List QueryRecord) (q : ℕ) :
    getAnswer (firstAnswers rs).1 q =
      (sortByKey QueryRecord.seq rs).find? fun r ↦ r.answered && r.queryId = q := by
  rw [firstAnswers, getAnswer_foldl]
  exact Option.none_or

/-- The first answer of a query of the dump. -/
def Dump.answer (d : Dump) (q : ℕ) : Option QueryRecord := getAnswer (firstAnswers d.records).1 q

theorem Dump.answer_isSome {d : Dump} {q : ℕ} :
    (d.answer q).isSome ↔ q ∈ d.answeredQueries := by
  rw [answer, getAnswer_firstAnswers, List.find?_isSome, mem_answeredQueries]
  simp only [mem_sortByKey, Bool.and_eq_true, decide_eq_true_eq]

theorem Dump.answer_eq_none {d : Dump} {q : ℕ} : d.answer q = none ↔ q ∉ d.answeredQueries := by
  rw [← answer_isSome, Option.not_isSome_iff_eq_none]

theorem Dump.exists_answer {d : Dump} {q : ℕ} :
    (∃ r, d.answer q = some r) ↔ q ∈ d.answeredQueries := by
  rw [← answer_isSome, Option.isSome_iff_exists]

/-! ## The classification loop -/

section Classify

variable {rAns cAns : List (ℕ × QueryRecord)} {qs : List ℕ}

theorem classify_nil : classify rAns cAns [] = ⟨[], [], []⟩ := rfl

theorem classify_cons (q : ℕ) (qs : List ℕ) :
    classify rAns cAns (q :: qs) =
      match getAnswer rAns q, getAnswer cAns q with
      | some r, some c =>
        { classify rAns cAns qs with both := (q, r, c) :: (classify rAns cAns qs).both }
      | some _, none =>
        { classify rAns cAns qs with
          oneSided := ⟨q, "reference"⟩ :: (classify rAns cAns qs).oneSided }
      | none, some _ =>
        { classify rAns cAns qs with
          oneSided := ⟨q, "candidate"⟩ :: (classify rAns cAns qs).oneSided }
      | none, none =>
        { classify rAns cAns qs with neither := q :: (classify rAns cAns qs).neither } := rfl

theorem mem_classify_both {q : ℕ} {a b : QueryRecord} :
    (q, a, b) ∈ (classify rAns cAns qs).both ↔
      q ∈ qs ∧ getAnswer rAns q = some a ∧ getAnswer cAns q = some b := by
  induction qs with
  | nil => simp [classify_nil]
  | cons x xs ih =>
      rw [classify_cons]
      cases hr : getAnswer rAns x <;> cases hc : getAnswer cAns x <;>
        simp only [List.mem_cons, ih, Prod.mk.injEq] <;> grind

theorem mem_classify_oneSided {q : ℕ} {side : String} :
    ⟨q, side⟩ ∈ (classify rAns cAns qs).oneSided ↔
      q ∈ qs ∧ ((side = "reference" ∧ (getAnswer rAns q).isSome ∧ getAnswer cAns q = none) ∨
        (side = "candidate" ∧ getAnswer rAns q = none ∧ (getAnswer cAns q).isSome)) := by
  induction qs with
  | nil => simp [classify_nil]
  | cons x xs ih =>
      rw [classify_cons]
      cases hr : getAnswer rAns x <;> cases hc : getAnswer cAns x <;>
        simp only [List.mem_cons, ih, OneSided.mk.injEq] <;> grind

theorem mem_classify_neither {q : ℕ} :
    q ∈ (classify rAns cAns qs).neither ↔
      q ∈ qs ∧ getAnswer rAns q = none ∧ getAnswer cAns q = none := by
  induction qs with
  | nil => simp [classify_nil]
  | cons x xs ih =>
      rw [classify_cons]
      cases hr : getAnswer rAns x <;> cases hc : getAnswer cAns x <;>
        simp only [List.mem_cons, ih] <;> grind

variable (rAns cAns qs)

/-- Every query of the loop lands in one list. -/
theorem length_classify :
    (classify rAns cAns qs).both.length + (classify rAns cAns qs).oneSided.length +
      (classify rAns cAns qs).neither.length = qs.length := by
  induction qs with
  | nil => rfl
  | cons x xs ih =>
      rw [classify_cons]
      cases getAnswer rAns x <;> cases getAnswer cAns x <;>
        simp only [List.length_cons] <;> omega

/-- The lists keep the order of the loop. -/
theorem classify_sublist :
    ((classify rAns cAns qs).both.map Prod.fst).Sublist qs ∧
      ((classify rAns cAns qs).oneSided.map OneSided.queryId).Sublist qs ∧
      (classify rAns cAns qs).neither.Sublist qs := by
  induction qs with
  | nil => exact ⟨.slnil, .slnil, .slnil⟩
  | cons x xs ih =>
      obtain ⟨hb, ho, hn⟩ := ih
      rw [classify_cons]
      cases getAnswer rAns x <;> cases getAnswer cAns x
      · exact ⟨hb.cons x, ho.cons x, hn.cons_cons x⟩
      · exact ⟨hb.cons x, ho.cons_cons x, hn.cons x⟩
      · exact ⟨hb.cons x, ho.cons_cons x, hn.cons x⟩
      · exact ⟨hb.cons_cons x, ho.cons x, hn.cons x⟩

end Classify

/-- The two dumps ran the same pass over the same corpus: the headers agree, and
so does the ground truth of every query that both answered. -/
structure Comparable (r c : Dump) : Prop where
  compoundIdentity : r.header.compoundIdentity = c.header.compoundIdentity
  dataset : r.header.dataset = c.header.dataset
  workload : r.header.workload = c.header.workload
  idSpace : r.header.idSpace = c.header.idSpace
  top : r.header.top = c.header.top
  expected : ∀ q a b, r.answer q = some a → c.answer q = some b → a.expected = b.expected

theorem Comparable.symm {r c : Dump} (h : Comparable r c) : Comparable c r :=
  ⟨h.1.symm, h.2.symm, h.3.symm, h.4.symm, h.5.symm,
    fun q a b ha hb ↦ (h.expected q b a hb ha).symm⟩

/-- The queries either side attempted. -/
def allQueries (r c : Dump) : List ℕ :=
  sortedSet ((r.records ++ c.records).map QueryRecord.queryId)

theorem mem_allQueries {r c : Dump} {q : ℕ} :
    q ∈ allQueries r c ↔ q ∈ r.attempted ∪ c.attempted := by
  rw [allQueries, mem_sortedSet, List.map_append, List.mem_append, Finset.mem_union,
    Dump.attempted, Dump.attempted, List.mem_toFinset, List.mem_toFinset]

theorem length_allQueries (r c : Dump) :
    (allQueries r c).length = (r.attempted ∪ c.attempted).card := by
  rw [allQueries, length_sortedSet, List.map_append, List.toFinset_append]
  rfl

/-- The queries of the pair by who answered them. -/
def classified (r c : Dump) : Classified :=
  classify (firstAnswers r.records).1 (firstAnswers c.records).1 (allQueries r c)

/-- The first answers of the queries that both sides answered, by shape. -/
def shapeGroups (r c : Dump) : List (String × List AnswerPair) :=
  groupBy (shapeOf r.header.workload) ((classified r c).both.map Prod.snd)

/-- The report of a pair that can be compared. -/
def pairReport (r c : NamedDump) : PairReport :=
  { dataset := r.2.header.dataset
    workload := r.2.header.workload
    k := r.2.header.top
    reference := sideInfo r.1 r.2
    candidate := sideInfo c.1 c.2
    shapes := (shapeGroups r.2 c.2).map fun g ↦
      shapeReport g.1 r.2.header.workload r.2.header.top g.2
    oneSided := (classified r.2 c.2).oneSided
    unansweredByBoth := (classified r.2 c.2).neither
    warnings := layoutWarnings r.1 c.1 r.2.header c.2.header }

theorem checkHeaders_eq_ok {rf cf : String} {rh ch : DumpHeader} :
    checkHeaders rf cf rh ch = .ok () ↔
      rh.compoundIdentity = ch.compoundIdentity ∧ rh.dataset = ch.dataset ∧
        rh.workload = ch.workload ∧ rh.idSpace = ch.idSpace ∧ rh.top = ch.top := by
  rw [checkHeaders]
  split_ifs <;> simp_all

theorem checkExpected_eq_ok {rf cf : String} {p : ℕ × AnswerPair} {u : Unit} :
    checkExpected rf cf p = .ok u ↔ p.2.1.expected = p.2.2.expected := by
  rw [checkExpected]
  cases p.2.1.expected <;> cases p.2.2.expected <;> simp

theorem mapM_checkExpected {rf cf : String} {r c : Dump} :
    (∃ us, (classified r c).both.mapM (checkExpected rf cf) = .ok us) ↔
      ∀ q a b, r.answer q = some a → c.answer q = some b → a.expected = b.expected := by
  have hmem : ∀ q a b, (q, a, b) ∈ (classified r c).both ↔
      r.answer q = some a ∧ c.answer q = some b := by
    intro q a b
    refine mem_classify_both.trans (and_iff_right_of_imp fun h ↦ ?_)
    refine mem_allQueries.mpr (Finset.mem_union_left _ (r.answeredQueries_subset ?_))
    exact Dump.exists_answer.mp ⟨a, h.1⟩
  constructor
  · rintro ⟨us, h⟩ q a b ha hb
    obtain ⟨g, hg, -⟩ := exists_map_of_mapM_eq_ok h
    exact checkExpected_eq_ok.mp (hg _ ((hmem q a b).mpr ⟨ha, hb⟩))
  · intro h
    refine ⟨(classified r c).both.map fun _ ↦ (), ?_⟩
    rw [mapM_eq_ok, List.forall₂_map_right_iff, List.forall₂_same]
    rintro ⟨q, a, b⟩ hp
    obtain ⟨ha, hb⟩ := (hmem q a b).mp hp
    exact checkExpected_eq_ok.mpr (h q a b ha hb)

/-- A pair is reported on exactly when its dumps can be compared. -/
theorem comparePair_eq_ok {r c : NamedDump} {p : PairReport} :
    comparePair r c = .ok p ↔ Comparable r.2 c.2 ∧ p = pairReport r c := by
  constructor
  · intro h
    obtain ⟨⟨⟩, hheaders, h⟩ := bind_eq_ok.mp h
    obtain ⟨us, hus, h⟩ := bind_eq_ok.mp h
    obtain ⟨hid, hds, hw, hsp, htop⟩ := checkHeaders_eq_ok.mp hheaders
    exact ⟨⟨hid, hds, hw, hsp, htop, mapM_checkExpected.mp ⟨us, hus⟩⟩, (Except.ok.inj h).symm⟩
  · rintro ⟨h, rfl⟩
    obtain ⟨us, hus⟩ : ∃ us, (classified r.2 c.2).both.mapM (checkExpected r.1 c.1) = .ok us :=
      mapM_checkExpected.mpr h.expected
    refine bind_eq_ok.mpr ⟨(), checkHeaders_eq_ok.mpr ?_, bind_eq_ok.mpr ⟨us, hus, rfl⟩⟩
    exact ⟨h.compoundIdentity, h.dataset, h.workload, h.idSpace, h.top⟩

/-! ## Every query is counted once -/

/-- The report counts every query either side attempted exactly once: as compared
in a shape, as answered by one side, or as answered by neither. -/
structure CountsOnce (r c : Dump) (p : PairReport) : Prop where
  both : (p.shapes.map ShapeReport.queries).sum = (r.answeredQueries ∩ c.answeredQueries).card
  byReference : ∀ q, ⟨q, "reference"⟩ ∈ p.oneSided ↔ q ∈ r.answeredQueries \ c.answeredQueries
  byCandidate : ∀ q, ⟨q, "candidate"⟩ ∈ p.oneSided ↔ q ∈ c.answeredQueries \ r.answeredQueries
  neither : ∀ q, q ∈ p.unansweredByBoth ↔
    q ∈ (r.attempted ∪ c.attempted) \ (r.answeredQueries ∪ c.answeredQueries)
  nodup : (p.oneSided.map OneSided.queryId).Nodup ∧ p.unansweredByBoth.Nodup
  total : (p.shapes.map ShapeReport.queries).sum + p.oneSided.length + p.unansweredByBoth.length =
    (r.attempted ∪ c.attempted).card

theorem sum_queries_pairReport (r c : NamedDump) :
    ((pairReport r c).shapes.map ShapeReport.queries).sum =
      (classified r.2 c.2).both.length := by
  rw [pairReport, List.map_map]
  change ((shapeGroups r.2 c.2).map fun g ↦ g.2.length).sum = _
  rw [shapeGroups, sum_length_groupBy, List.length_map]

theorem length_both_classified (r c : Dump) :
    (classified r c).both.length = (r.answeredQueries ∩ c.answeredQueries).card := by
  have hnodup : ((classified r c).both.map Prod.fst).Nodup :=
    (nodup_sortedSet _).sublist (classify_sublist _ _ _).1
  rw [← List.length_map Prod.fst, ← List.toFinset_card_of_nodup hnodup]
  congr 1
  ext q
  simp only [List.mem_toFinset, List.mem_map, Prod.exists, exists_and_right, exists_eq_right,
    Finset.mem_inter]
  constructor
  · rintro ⟨a, b, h⟩
    obtain ⟨-, ha, hb⟩ := mem_classify_both.mp h
    exact ⟨Dump.exists_answer.mp ⟨a, ha⟩, Dump.exists_answer.mp ⟨b, hb⟩⟩
  · rintro ⟨hr, hc⟩
    obtain ⟨a, ha⟩ := Dump.exists_answer.mpr hr
    obtain ⟨b, hb⟩ := Dump.exists_answer.mpr hc
    exact ⟨a, b, mem_classify_both.mpr ⟨mem_allQueries.mpr
      (Finset.mem_union_left _ (r.answeredQueries_subset hr)), ha, hb⟩⟩

theorem countsOnce_pairReport (r c : NamedDump) : CountsOnce r.2 c.2 (pairReport r c) where
  both := (sum_queries_pairReport r c).trans (length_both_classified r.2 c.2)
  byReference q := by
    refine mem_classify_oneSided.trans ?_
    simp only [String.reduceEq, true_and, false_and, or_false, Finset.mem_sdiff]
    rw [show getAnswer (firstAnswers r.2.records).1 q = r.2.answer q from rfl,
      show getAnswer (firstAnswers c.2.records).1 q = c.2.answer q from rfl,
      Dump.answer_isSome, Dump.answer_eq_none, and_iff_right_of_imp]
    exact fun h ↦ mem_allQueries.mpr (Finset.mem_union_left _ (r.2.answeredQueries_subset h.1))
  byCandidate q := by
    refine mem_classify_oneSided.trans ?_
    simp only [String.reduceEq, true_and, false_and, false_or, Finset.mem_sdiff]
    rw [show getAnswer (firstAnswers r.2.records).1 q = r.2.answer q from rfl,
      show getAnswer (firstAnswers c.2.records).1 q = c.2.answer q from rfl,
      Dump.answer_isSome, Dump.answer_eq_none, and_iff_right_of_imp, and_comm]
    exact fun h ↦ mem_allQueries.mpr (Finset.mem_union_right _ (c.2.answeredQueries_subset h.2))
  neither q := by
    refine mem_classify_neither.trans ?_
    rw [show getAnswer (firstAnswers r.2.records).1 q = r.2.answer q from rfl,
      show getAnswer (firstAnswers c.2.records).1 q = c.2.answer q from rfl,
      Dump.answer_eq_none, Dump.answer_eq_none, mem_allQueries, Finset.mem_sdiff,
      Finset.mem_union, Finset.mem_union, not_or]
  nodup := ⟨(nodup_sortedSet _).sublist (classify_sublist _ _ _).2.1,
    (nodup_sortedSet _).sublist (classify_sublist _ _ _).2.2⟩
  total := by
    rw [sum_queries_pairReport, ← length_allQueries]
    exact length_classify _ _ _

/-! ## The verdict on a pair -/

/-- Nobody answered alone exactly when both sides answered the same queries. -/
theorem CountsOnce.oneSided_eq_nil {r c : Dump} {p : PairReport} (h : CountsOnce r c p)
    (hside : ∀ o ∈ p.oneSided, o.answeredBy = "reference" ∨ o.answeredBy = "candidate") :
    p.oneSided.length = 0 ↔ r.answeredQueries = c.answeredQueries := by
  rw [List.length_eq_zero_iff, List.eq_nil_iff_forall_not_mem]
  constructor
  · intro hnone
    ext q
    constructor
    · intro hq
      by_contra hc
      exact hnone _ ((h.byReference q).mpr (Finset.mem_sdiff.mpr ⟨hq, hc⟩))
    · intro hq
      by_contra hr
      exact hnone _ ((h.byCandidate q).mpr (Finset.mem_sdiff.mpr ⟨hq, hr⟩))
  · rintro heq ⟨q, side⟩ ho
    rcases hside _ ho with rfl | rfl
    · exact absurd ((h.byReference q).mp ho) (by simp [heq])
    · exact absurd ((h.byCandidate q).mp ho) (by simp [heq])

theorem answeredBy_pairReport (r c : NamedDump) :
    ∀ o ∈ (pairReport r c).oneSided, o.answeredBy = "reference" ∨ o.answeredBy = "candidate" := by
  rintro ⟨q, side⟩ ho
  rcases (mem_classify_oneSided.mp ho).2 with ⟨h, -⟩ | ⟨h, -⟩
  · exact Or.inl h
  · exact Or.inr h

/-- Nothing is held against a pair exactly when no attempt failed and both sides
attempted the same queries. -/
theorem pairReport_passes (r c : NamedDump) :
    ((pairReport r c).oneSided.length = 0 ∧
      (pairReport r c).reference.failedAttempts + (pairReport r c).candidate.failedAttempts = 0) ↔
      (r.2.Clean ∧ c.2.Clean) ∧ r.2.attempted = c.2.attempted := by
  have hfailed : (pairReport r c).reference.failedAttempts +
      (pairReport r c).candidate.failedAttempts = 0 ↔ r.2.Clean ∧ c.2.Clean := by
    rw [Nat.add_eq_zero_iff]
    exact and_congr Dump.clean_iff_countP Dump.clean_iff_countP
  rw [(countsOnce_pairReport r c).oneSided_eq_nil (answeredBy_pairReport r c), hfailed, and_comm]
  refine and_congr_right fun ⟨hr, hc⟩ ↦ ?_
  rw [hr.answeredQueries_eq, hc.answeredQueries_eq]

end VectorDbBenchmark.Results
