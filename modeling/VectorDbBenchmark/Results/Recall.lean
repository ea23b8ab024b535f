import VectorDbBenchmark.QueryMetrics
import VectorDbBenchmark.Results.CompareResults

/-!
# Recall from a dump is the run's recall

The run scores row ids against the dataset's neighbours; the comparison scores
external ids against the ground truth its records carry.  Naming rows without
collisions changes neither the hits nor the number of the ids to find.
-/

namespace VectorDbBenchmark.Results

open Kit Quality

/-- The renaming is injective on the answer and the ground truth. -/
def SeparatesIds (g : ℤ → String) (xs ts : List ℤ) : Prop :=
  ∀ a ∈ xs ++ ts, ∀ b ∈ xs ++ ts, g a = g b → a = b

variable {g : ℤ → String} {xs ts : List ℤ}

theorem topK_map (hg : SeparatesIds g xs ts) (k : ℕ) :
    topK (xs.map g) k = (resultsTopk xs k).map g := by
  rw [topK, resultsTopk, distinct_map, List.map_take]
  exact fun a ha b hb ↦ hg a (List.mem_append_left _ ha) b (List.mem_append_left _ hb)

/-- A renamed id is a hit exactly when the id is. -/
theorem countP_topK_map (hg : SeparatesIds g xs ts) (k : ℕ) :
    (topK (xs.map g) k).countP (· ∈ (ts.map g).toFinset) =
      (resultsTopk xs k).countP (· ∈ ts.toFinset) := by
  rw [topK_map hg, List.countP_map]
  refine List.countP_congr fun a ha ↦ ?_
  have hax : a ∈ xs := mem_distinct.mp (List.mem_of_mem_take ha)
  simp only [Function.comp_apply, decide_eq_true_eq, List.mem_toFinset, List.mem_map]
  constructor
  · rintro ⟨b, hb, hba⟩
    rw [← hg b (List.mem_append_right _ hb) a (List.mem_append_left _ hax) hba]
    exact hb
  · exact fun ha ↦ ⟨a, ha, rfl⟩

theorem card_toFinset_renamed (hg : SeparatesIds g xs ts) :
    (ts.map g).toFinset.card = ts.toFinset.card :=
  card_toFinset_map fun a ha b hb ↦
    hg a (List.mem_append_right _ ha) b (List.mem_append_right _ hb)

/-- Recall over external ids is recall over rows. -/
theorem recallAtK_map (discount : ℕ → ℚ) {hits truth : List ℤ} {k : ℕ} (hk : k ≠ 0)
    (hg : SeparatesIds g hits ((truth.filter (0 ≤ ·)).take k)) :
    recallAtK (hits.map g) (((truth.filter (0 ≤ ·)).take k).map g) k =
      if ∃ id ∈ truth, 0 ≤ id then some (computeMetrics discount hits truth k).recallAtK
      else none := by
  have hcard : (((truth.filter (0 ≤ ·)).take k).map g).toFinset.card =
    (truthSet truth k).length := by
    rw [card_toFinset_renamed hg]
    exact card_toFinset_eq_length_distinct _
  have hhits : (resultsTopk hits k).countP (· ∈ ((truth.filter (0 ≤ ·)).take k).toFinset) =
      Quality.hits (truthSet truth k) (resultsTopk hits k) := by
    simp only [Quality.hits, truthSet, mem_distinct, List.mem_toFinset]
  have hempty : (truthSet truth k).length = 0 ↔ ¬∃ id ∈ truth, 0 ≤ id := by
    rw [List.length_eq_zero_iff, truthSet_eq_nil hk]
    simp only [not_exists, not_and, not_le]
  rw [recallAtK, countP_topK_map hg, hcard, hhits]
  by_cases h : ∃ id ∈ truth, 0 ≤ id
  · have hne : (truthSet truth k).length ≠ 0 := fun h0 ↦ hempty.mp h0 h
    rw [if_pos h, recallAtK_computeMetrics hk hne]
    exact if_neg hne
  · rw [if_neg h]
    exact if_pos (hempty.mpr h)

/-- What a record holds for the hits and the ground truth of its query. -/
theorem resolveRecord_eq_ok {ids : ExternalIds} {gt : List (List ℤ)} {k : ℕ}
    {shape : ℕ → Option String} {r : RawQueryResult} {q : QueryRecord}
    (h : resolveRecord ids (some gt) k shape r = .ok q) :
    q.queryId = r.queryId ∧ q.seq = r.seq ∧
      r.hits.mapM (fun hit ↦ ids.resolve hit.row) = .ok q.ids ∧
      ∃ truth expected, gt[r.queryId]? = some truth ∧ q.expected = some expected ∧
        ((truth.filter (0 ≤ ·)).take k).mapM ids.resolve = .ok expected := by
  obtain ⟨resolved, hresolved, h⟩ := bind_eq_ok.mp h
  obtain ⟨expected, hexpected, h⟩ := bind_eq_ok.mp h
  cases Except.ok.inj h
  refine ⟨rfl, rfl, mapError_eq_ok.mp hresolved, ?_⟩
  rw [expectedOf] at hexpected
  cases htruth : gt[r.queryId]? with
  | none => simp [htruth] at hexpected
  | some truth =>
      simp only [htruth, map_eq_ok, mapError_eq_ok] at hexpected
      obtain ⟨ys, hys, hsome⟩ := hexpected
      exact ⟨truth, ys, rfl, hsome.symm, hys⟩

/-- The ids a loop of `resolve` returned are a renaming of the rows, which an
injective map of external ids keeps apart. -/
theorem exists_renaming {ids : ExternalIds} (hinj : ids.Injective) {xs ts : List ℤ}
    {ys us : List String} (hx : xs.mapM ids.resolve = .ok ys)
    (ht : ts.mapM ids.resolve = .ok us) :
    ∃ g, SeparatesIds g xs ts ∧ ys = xs.map g ∧ us = ts.map g := by
  have hboth : (xs ++ ts).mapM ids.resolve = .ok (ys ++ us) := by
    rw [mapM_eq_ok]
    exact List.rel_append (mapM_eq_ok.mp hx) (mapM_eq_ok.mp ht)
  obtain ⟨g, hround, hmap⟩ := exists_map_of_mapM_eq_ok hboth
  have hlen : ys.length = (xs.map g).length := by
    rw [List.length_map, (mapM_eq_ok.mp hx).length_eq]
  rw [List.map_append] at hmap
  refine ⟨g, ?_, List.append_inj_left hmap hlen, List.append_inj_right hmap hlen⟩
  intro a ha b hb hab
  exact hinj (hround a ha) (hab ▸ hround b hb)

/-- The record of a query scores as the query did in the run: it carries ground
truth, and its recall is the run's, absent when the ground truth is all padding. -/
def RecallAgrees (discount : ℕ → ℚ) (gt : List (List ℤ)) (k : ℕ) (r : RawQueryResult)
    (q : QueryRecord) : Prop :=
  ∃ truth expected, gt[r.queryId]? = some truth ∧ q.expected = some expected ∧
    recallAtK q.ids expected k = if ∃ id ∈ truth, 0 ≤ id then
      some (computeMetrics discount (r.hits.map RawHit.row) truth k).recallAtK else none

theorem recallAgrees_resolveRecord (discount : ℕ → ℚ) {ids : ExternalIds}
    (hinj : ids.Injective) {gt : List (List ℤ)} {k : ℕ} (hk : k ≠ 0)
    {shape : ℕ → Option String} {r : RawQueryResult} {q : QueryRecord}
    (h : resolveRecord ids (some gt) k shape r = .ok q) : RecallAgrees discount gt k r q := by
  obtain ⟨-, -, hhits, truth, expected, hgt, hexp, htruth⟩ := resolveRecord_eq_ok h
  have hrows : (r.hits.map RawHit.row).mapM ids.resolve = .ok q.ids := by
    rw [List.mapM_map]
    exact hhits
  obtain ⟨g, hg, hids, hexpected⟩ := exists_renaming hinj hrows htruth
  refine ⟨truth, expected, hgt, hexp, ?_⟩
  rw [hids, hexpected]
  exact recallAtK_map discount hk hg

/-- Recall recomputed from a dump equals the recall the run reported, query by
query, and is absent exactly where the ground truth is all padding. -/
theorem recallAtK_resolveRecords (discount : ℕ → ℚ) {raw : List RawQueryResult}
    {ids : ExternalIds} {gt : List (List ℤ)} {k : ℕ} {shape : ℕ → Option String}
    {records : List QueryRecord} (hk : 1 ≤ k) (hinj : ids.Injective)
    (h : resolveRecords raw ids (some gt) k shape = .ok records) :
    List.Forall₂ (fun r q ↦ q.queryId = r.queryId ∧ q.seq = r.seq ∧ RecallAgrees discount gt k r q)
      (sortByKey RawQueryResult.seq raw) records := by
  obtain ⟨out, hout, hrecords⟩ := bind_eq_ok.mp h
  have : Nonempty QueryRecord := ⟨⟨0, 0, none, [], none, none, .nan, none, none⟩⟩
  obtain ⟨f, hf, rfl⟩ := exists_map_of_mapM_eq_ok hout
  have hseq : ∀ r ∈ raw, (f r).seq = r.seq := fun r hr ↦ (resolveRecord_eq_ok (hf r hr)).2.1
  rw [← Except.ok.inj hrecords, sortByKey_map hseq, List.forall₂_map_right_iff, List.forall₂_same]
  intro r hr
  have hrec := hf r (mem_sortByKey.mp hr)
  obtain ⟨hid, hseq', -⟩ := resolveRecord_eq_ok hrec
  exact ⟨hid, hseq', recallAgrees_resolveRecord discount hinj (Nat.one_le_iff_ne_zero.mp hk) hrec⟩

/-- Two queries over three documents, answered out of order: a repeated hit, a
padded ground truth, and a query with padding only. -/
def docidRun : List RawQueryResult :=
  [.ok 1 1 [⟨2, none⟩] none (.fin 1),
   .ok 0 0 [⟨0, none⟩, ⟨0, none⟩, ⟨1, none⟩] none (.fin 1)]

def docids : ExternalIds := .field "docid" ["a", "b", "c"]

def docidTruth : List (List ℤ) := [[1, -1, 2, 0], [-1]]

theorem recallAtK_resolveRecords_docids :
    ∃ records, resolveRecords docidRun docids (some docidTruth) 2 (fun _ ↦ none) = .ok records ∧
      List.Forall₂ (fun r q ↦ q.queryId = r.queryId ∧ q.seq = r.seq ∧
          RecallAgrees (fun _ ↦ 1) docidTruth 2 r q)
        (sortByKey RawQueryResult.seq docidRun) records := by
  have hinj : docids.Injective := ExternalIds.injective_field.mpr (by decide)
  have hok : resolveRecords docidRun docids (some docidTruth) 2 (fun _ ↦ none) = .ok _ := rfl
  exact ⟨_, hok, recallAtK_resolveRecords (fun _ ↦ 1) (by decide) hinj hok⟩

end VectorDbBenchmark.Results
