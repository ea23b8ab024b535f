import VectorDbBenchmark.Results.Directories
import VectorDbBenchmark.Results.SymmetricMetrics

/-!
# Exchanging the two sides

When both sides name the reference engine the first is the reference, so giving
the sides the other way round exchanges the roles.  `ReportExchanged` says how
the two reports then correspond.
-/

namespace VectorDbBenchmark.Results

open Kit

/-! ## One pair -/

def OneSided.exchange (o : OneSided) : OneSided :=
  { o with answeredBy := if o.answeredBy = "reference" then "candidate" else "reference" }

/-- No query that both sides answered is labelled with two different shapes. -/
def LabelsAgree (r c : Dump) : Prop :=
  ∀ q a b, r.answer q = some a → c.answer q = some b →
    a.shape = none ∨ b.shape = none ∨ a.shape = b.shape

/-- On every query that both answered the sides return equally many of the first
`k` distinct ids. -/
def EvenPages (r c : Dump) (k : ℕ) : Prop :=
  ∀ q a b, r.answer q = some a → c.answer q = some b →
    (topK a.ids k).length = (topK b.ids k).length

/-- The reports `p` and `p'` on one pair of dumps in the two orders. -/
structure PairExchanged (r c : NamedDump) (p p' : PairReport) : Prop where
  dataset : p'.dataset = p.dataset
  workload : p'.workload = p.workload
  k : p'.k = p.k
  reference : p'.reference = p.candidate
  candidate : p'.candidate = p.reference
  oneSided : p'.oneSided = p.oneSided.map OneSided.exchange
  unansweredByBoth : p'.unansweredByBoth = p.unansweredByBoth
  warnings : p'.warnings.length = p.warnings.length
  shapes : LabelsAgree r.2 c.2 → List.Forall₂ ShapeExchanged p.shapes p'.shapes
  overlap : LabelsAgree r.2 c.2 → EvenPages r.2 c.2 p.k →
    p'.shapes.map ShapeReport.overlapAtK = p.shapes.map ShapeReport.overlapAtK

theorem allQueries_comm (r c : Dump) : allQueries c r = allQueries r c :=
  sortedSet_congr fun q ↦ by
    rw [List.map_append, List.map_append, List.mem_append, List.mem_append, or_comm]

/-- The loop files every query under the other side. -/
theorem classify_swap (rAns cAns : List (ℕ × QueryRecord)) (qs : List ℕ) :
    classify cAns rAns qs =
      { both := (classify rAns cAns qs).both.map fun p ↦ (p.1, p.2.swap)
        oneSided := (classify rAns cAns qs).oneSided.map OneSided.exchange
        neither := (classify rAns cAns qs).neither } := by
  induction qs with
  | nil => rfl
  | cons q qs ih =>
      rw [classify, classify, ih]
      cases getAnswer rAns q <;> cases getAnswer cAns q <;> rfl

theorem classified_swap (r c : Dump) :
    classified c r =
      { both := (classified r c).both.map fun p ↦ (p.1, p.2.swap)
        oneSided := (classified r c).oneSided.map OneSided.exchange
        neither := (classified r c).neither } := by
  rw [classified, allQueries_comm, classify_swap]
  rfl

theorem mem_classified_both {r c : Dump} {p : AnswerPair}
    (h : p ∈ (classified r c).both.map Prod.snd) :
    ∃ q, r.answer q = some p.1 ∧ c.answer q = some p.2 := by
  obtain ⟨⟨q, a, b⟩, hp, rfl⟩ := List.mem_map.mp h
  exact ⟨q, (mem_classify_both.mp hp).2⟩

theorem shapeOf_swap {workload : Workload} {p : AnswerPair}
    (h : p.1.shape = none ∨ p.2.shape = none ∨ p.1.shape = p.2.shape) :
    shapeOf workload p.swap = shapeOf workload p := by
  obtain ⟨a, b⟩ := p
  simp only [shapeOf, Prod.swap] at h ⊢
  rcases h with h | h | h
  · rw [h, Option.or_none, Option.none_or]
  · rw [h, Option.or_none, Option.none_or]
  · rw [h]

theorem shapeGroups_swap {r c : Dump} (hw : r.header.workload = c.header.workload)
    (hlabels : LabelsAgree r c) :
    shapeGroups c r = (shapeGroups r c).map fun g ↦ (g.1, g.2.map Prod.swap) := by
  have hboth : (classified c r).both.map Prod.snd =
      ((classified r c).both.map Prod.snd).map Prod.swap := by
    rw [classified_swap, List.map_map, List.map_map]
    rfl
  rw [shapeGroups, shapeGroups, hboth, ← hw]
  refine groupBy_map fun p hp ↦ shapeOf_swap ?_
  obtain ⟨q, ha, hb⟩ := mem_classified_both hp
  exact hlabels q p.1 p.2 ha hb

theorem mem_shapeGroups {r c : Dump} {g : String × List AnswerPair} (hg : g ∈ shapeGroups r c)
    {p : AnswerPair} (hp : p ∈ g.2) : ∃ q, r.answer q = some p.1 ∧ c.answer q = some p.2 := by
  obtain ⟨k, -, rfl⟩ := List.mem_map.mp hg
  exact mem_classified_both (List.mem_filter.mp hp).1

theorem length_layoutWarnings_comm (rf cf : String) {rh ch : DumpHeader}
    (hid : rh.compoundIdentity = ch.compoundIdentity) :
    (layoutWarnings cf rf ch rh).length = (layoutWarnings rf cf rh ch).length := by
  have hlayout : ((dumpLayout ch).1 != (dumpLayout rh).1) =
      ((dumpLayout rh).1 != (dumpLayout ch).1) := bne_comm
  have hvector : (((dumpLayout ch).1 == "vector") != ((dumpLayout rh).1 == "vector")) =
      (((dumpLayout rh).1 == "vector") != ((dumpLayout ch).1 == "vector")) := bne_comm
  simp only [layoutWarnings, List.length_append, apply_ite List.length, List.length_singleton,
    List.length_nil, hid, hlayout, hvector]

/-- The report of a pair in the other order. -/
theorem pairReport_swap {r c : NamedDump} (h : Comparable r.2 c.2) :
    PairExchanged r c (pairReport r c) (pairReport c r) where
  dataset := h.dataset.symm
  workload := h.workload.symm
  k := h.top.symm
  reference := rfl
  candidate := rfl
  oneSided := congrArg Classified.oneSided (classified_swap r.2 c.2)
  unansweredByBoth := by simp only [pairReport, classified_swap r.2 c.2]
  warnings := length_layoutWarnings_comm r.1 c.1 h.compoundIdentity
  shapes hlabels := by
    simp only [pairReport, shapeGroups_swap h.workload hlabels, List.map_map, ← h.workload, ← h.top]
    rw [List.forall₂_map_left_iff, List.forall₂_map_right_iff, List.forall₂_same]
    exact fun g _ ↦ shapeReport_swap g.1 _ _ g.2
  overlap hlabels heven := by
    simp only [pairReport, shapeGroups_swap h.workload hlabels, List.map_map, ← h.workload, ← h.top]
    refine List.map_congr_left fun g hg ↦ overlapAtK_shapeReport_swap g.1 _ _ g.2 fun p hp ↦ ?_
    obtain ⟨q, ha, hb⟩ := mem_shapeGroups hg hp
    exact heven q p.1 p.2 ha hb

/-! ## Two sides -/

theorem pairwise_byKey {side : List NamedDump} (h : (side.map fun e ↦ key e.2).Nodup) :
    (byKey side).Pairwise fun a b ↦ a.1 < b.1 := by
  have hne : (byKey side).Pairwise fun a b ↦ a.1 ≠ b.1 :=
    List.pairwise_map.mp (nodup_map_fst_byKey.mpr h)
  exact List.Pairwise.imp₂ (fun a b hle hne ↦ lt_of_le_of_ne hle hne)
    (pairwise_sortByKey Prod.fst (keyed side)) hne

theorem pairwise_matched {r c : List NamedDump} (hr : (r.map fun e ↦ key e.2).Nodup) :
    (matched (byKey r) (byKey c)).Pairwise fun p p' ↦ key p.1.2 < key p'.1.2 := by
  rw [matched, List.pairwise_filterMap]
  refine (pairwise_byKey hr).imp_of_mem ?_
  rintro a a' ha ha' hlt p hp p' hp'
  obtain ⟨b, -, rfl⟩ := Option.map_eq_some_iff.mp hp
  obtain ⟨b', -, rfl⟩ := Option.map_eq_some_iff.mp hp'
  rwa [(mem_byKey.mp ha).2, (mem_byKey.mp ha').2]

/-- The loops in the other order meet the same dumps, in the same order. -/
theorem pairing_swap {r c : List NamedDump} (h : KeysDistinct r c) :
    pairing c r = (pairing r c).map Prod.swap := by
  by_cases hs : SingleFiles r c
  · rw [pairing, if_pos hs.symm, pairing, if_pos hs, List.zip_swap]
  · obtain ⟨hr, hc⟩ := h.resolve_left hs
    have hmem : ∀ d e, (d, e) ∈ matched (byKey r) (byKey c) → key d.2 = key e.2 := by
      intro d e hde
      obtain ⟨k, hd, he⟩ := (mem_matched (nodup_map_fst_byKey.mpr hc)).mp hde
      rw [(mem_byKey.mp hd).2, (mem_byKey.mp he).2]
    rw [pairing, if_neg fun hs' ↦ hs hs'.symm, pairing, if_neg hs]
    have hswapped : ((matched (byKey r) (byKey c)).map Prod.swap).Pairwise
        fun p p' ↦ key p.1.2 < key p'.1.2 := by
      rw [List.pairwise_map]
      refine List.Pairwise.imp_of_mem ?_ (pairwise_matched hr)
      rintro ⟨d, e⟩ ⟨d', e'⟩ hde hde' hlt
      rwa [Prod.swap, Prod.swap, ← hmem d e hde, ← hmem d' e' hde']
    have : Std.Irrefl fun p p' : NamedDump × NamedDump ↦ key p.1.2 < key p'.1.2 :=
      ⟨fun p ↦ lt_irrefl _⟩
    refine (pairwise_matched hc).eq_of_mem_iff hswapped ?_
    rintro ⟨e, d⟩
    rw [mem_matched (nodup_map_fst_byKey.mpr hr), List.mem_map]
    constructor
    · rintro ⟨k, he, hd⟩
      exact ⟨(d, e), (mem_matched (nodup_map_fst_byKey.mpr hc)).mpr ⟨k, hd, he⟩, rfl⟩
    · rintro ⟨⟨d', e'⟩, hde, hswap⟩
      obtain ⟨rfl, rfl⟩ := Prod.mk.inj hswap
      obtain ⟨k, hd, he⟩ := (mem_matched (nodup_map_fst_byKey.mpr hc)).mp hde
      exact ⟨k, he, hd⟩

/-- The reports on two sides in the two orders. -/
structure ReportExchanged (first second : List NamedDump) (report report' : Report) : Prop where
  referenceEngine : report'.referenceEngine = report.referenceEngine
  pairs : List.Forall₂ (fun p p' ↦ ∃ d e, Paired first second d e ∧ PairExchanged d e p p')
    report.pairs report'.pairs
  unpaired : ∃ ofFirst ofSecond, report.unpaired = ofFirst ++ ofSecond ∧
    report'.unpaired = ofSecond ++ ofFirst
  oneSidedTotal : report'.oneSidedTotal = report.oneSidedTotal
  failedAttemptsTotal : report'.failedAttemptsTotal = report.failedAttemptsTotal

/-- Exchanging the sides exchanges the roles in the report. -/
theorem reportOf_swap {r c : List NamedDump} (engine : String) (h : SidesComparable r c) :
    ReportExchanged r c (reportOf r c engine) (reportOf c r engine) := by
  have hpairs : (pairing c r).map (fun p ↦ pairReport p.1 p.2) =
      (pairing r c).map fun p ↦ pairReport p.2 p.1 := by
    rw [pairing_swap h.keysDistinct, List.map_map]
    rfl
  have hexchanged : ∀ p ∈ pairing r c,
      PairExchanged p.1 p.2 (pairReport p.1 p.2) (pairReport p.2 p.1) := fun p hp ↦
    pairReport_swap (h.comparable p.1 p.2 ((mem_pairing h.keysDistinct).mp hp))
  constructor
  · rfl
  · simp only [reportOf, hpairs]
    rw [List.forall₂_map_left_iff, List.forall₂_map_right_iff, List.forall₂_same]
    exact fun p hp ↦ ⟨p.1, p.2, (mem_pairing h.keysDistinct).mp hp, hexchanged p hp⟩
  · by_cases hs : SingleFiles r c
    · exact ⟨[], [], by simp [reportOf, leftover, hs], by simp [reportOf, leftover, hs.symm]⟩
    · have hs' : ¬SingleFiles c r := fun h' ↦ hs h'.symm
      refine ⟨(without (byKey r) (byKey c)).map (·.2.1), (without (byKey c) (byKey r)).map (·.2.1),
        ?_, ?_⟩
      · rw [← List.map_append, reportOf, leftover, if_neg hs]
      · rw [← List.map_append, reportOf, leftover, if_neg hs']
  · simp only [reportOf, hpairs, List.map_map]
    refine congrArg List.sum (List.map_congr_left fun p hp ↦ ?_)
    rw [Function.comp_apply, (hexchanged p hp).oneSided, List.length_map]
    rfl
  · simp only [reportOf, hpairs, List.map_map]
    exact congrArg List.sum (List.map_congr_left fun p _ ↦ Nat.add_comm _ _)

end VectorDbBenchmark.Results
