import Mathlib.Data.PNat.Basic
import Mathlib.Data.Prod.Lex
import VectorDbBenchmark.Kit.Bytes
import VectorDbBenchmark.Kit.RunningTop

/-!
# The brute-force oracle

`TopK` of `src/msmarco.rs`: per query the best candidates so far, as blocks of the corpus
arrive.  Scores are of any linear order, and the scoring of a passage is a parameter.
`add_block_where` checks the first id of a block and then its length, and moves the lowest id
it accepts next between the two checks.
-/

namespace VectorDbBenchmark.Msmarco

open Kit

variable {F σ : Type} [LinearOrder σ]

/-- Running top `k` for each query; `k` is positive, as `best[k - 1]` is indexed. -/
structure TopK (F σ : Type) where
  k : ℕ+
  dim : ℕ
  /-- The queries, one after another. -/
  queries : List F
  best : List (List (σ × ℤ))
  nextExpectedId : ℤ

namespace TopK

def new (queries : List F) (dim : ℕ) (k : ℕ+) : Except String (TopK F σ) :=
  if dim = 0 ∨ ¬dim ∣ queries.length then
    .error s!"query matrix of {queries.length} values is not a multiple of dim {dim}"
  else .ok ⟨k, dim, queries, List.replicate (queries.length / dim) [], -2 ^ 63⟩

/-- Where a candidate is inserted. -/
def position (score : σ) (id : ℤ) (best : List (σ × ℤ)) : ℕ :=
  match binarySearchBy (fun probe ↦ (compare score probe.1).then (compare probe.2 id)) best with
  | .ok pos => pos
  | .error pos => pos

/-- One candidate: skipped when it does not beat the worst of a full list. -/
def offer (k : ℕ+) (score : σ) (id : ℤ) (best : List (σ × ℤ)) : List (σ × ℤ) :=
  if best.length = k ∧ (best[k.natPred]?).any (fun worst ↦ score ≤ worst.1) then best
  else (best.insertIdx (position score id best) (score, id)).take k

/-- Rows with ids that count up from `firstId`. -/
def numberFrom (firstId : ℤ) (rows : List (List F)) : List (ℤ × List F) :=
  rows.zipIdx.map fun (doc, row) ↦ (firstId + row, doc)

/-- The query with index `qi`. -/
def query (t : TopK F σ) (qi : ℕ) : List F := (t.queries.drop (qi * t.dim)).take t.dim

variable (dot : List F → List F → σ)

/-- One row for one query. -/
def offerRow (k : ℕ+) (q : List F) (keep : ℤ → Bool) (best : List (σ × ℤ)) (row : ℤ × List F) :
    List (σ × ℤ) :=
  if keep row.1 then offer k (dot q row.2) row.1 best else best

/-- The result of the call, and the state after it. -/
def addBlockWhere (t : TopK F σ) (block : List F) (firstId : ℤ) (keep : ℕ → ℤ → Bool) :
    Except String Unit × TopK F σ :=
  if firstId < t.nextExpectedId then
    (.error (s!"blocks must arrive in ascending id order: got a block starting at {firstId} " ++
      s!"after one ending at {t.nextExpectedId}. The id tie-break depends on this, so accepting " ++
      "it would change the published ranking without changing any recall number."), t)
  else
    let t := { t with nextExpectedId := firstId + (block.length / max t.dim 1 : ℕ) }
    if ¬t.dim ∣ block.length then
      (.error s!"passage block of {block.length} values is not a multiple of dim {t.dim}", t)
    else
      (.ok (), { t with
        best := t.best.mapIdx fun qi best ↦
          (numberFrom firstId (asChunks t.dim block)).foldl
            (offerRow dot t.k (t.query qi) (keep qi)) best })

def addBlock (t : TopK F σ) (block : List F) (firstId : ℤ) : Except String Unit × TopK F σ :=
  t.addBlockWhere dot block firstId fun _ _ ↦ true

def finish (t : TopK F σ) : List (List (σ × ℤ)) := t.best

/-- Block after block, up to the first error. -/
def feed (keep : ℕ → ℤ → Bool) : TopK F σ → List (ℤ × List F) → Except String (TopK F σ)
  | t, [] => .ok t
  | t, (firstId, block) :: blocks =>
    match t.addBlockWhere dot block firstId keep with
    | (.ok (), t) => feed keep t blocks
    | (.error e, _) => .error e

/-! ## What it is for -/

/-- Higher scores first, and smaller ids first where scores tie. -/
def rankKey (c : σ × ℤ) : σᵒᵈ ×ₗ ℤ := toLex (OrderDual.toDual c.1, c.2)

/-- The rows kept for a query, with their scores. -/
def candidates (keep : ℤ → Bool) (q : List F) (rows : List (ℤ × List F)) : List (σ × ℤ) :=
  (rows.filter fun row ↦ keep row.1).map fun row ↦ (dot q row.2, row.1)

/-- The first `k` of the kept rows, by score and then by id. -/
def ranking (k : ℕ+) (keep : ℤ → Bool) (q : List F) (rows : List (ℤ × List F)) : List (σ × ℤ) :=
  (sortByKey rankKey (candidates dot keep q rows)).take k

/-! ## One candidate -/

variable {k : ℕ+} {score : σ} {id : ℤ} {best cs : List (σ × ℤ)}

/-- Against candidates with smaller ids only the score decides. -/
theorem rankKey_lt_iff {c : σ × ℤ} (h : c.2 < id) :
    rankKey c < rankKey (score, id) ↔ score ≤ c.1 := by
  rw [rankKey, rankKey, Prod.Lex.toLex_lt_toLex]
  constructor
  · rintro (hlt | ⟨heq, -⟩)
    · exact (OrderDual.toDual_lt_toDual.mp hlt).le
    · exact (OrderDual.toDual_inj.mp heq).ge
  · intro hle
    rcases hle.lt_or_eq with hlt | heq
    · exact .inl (OrderDual.toDual_lt_toDual.mpr hlt)
    · exact .inr ⟨congrArg OrderDual.toDual heq.symm, h⟩

theorem probe_eq_lt {c : σ × ℤ} (hid : c.2 < id) (h : score ≤ c.1) :
    (compare score c.1).then (compare c.2 id) = .lt := by
  rcases h.lt_or_eq with hlt | rfl
  · rw [compare_lt_iff_lt.mpr hlt]
    rfl
  · rw [compare_eq_iff_eq.mpr rfl]
    exact compare_lt_iff_lt.mpr hid

theorem probe_eq_gt {c : σ × ℤ} (h : ¬score ≤ c.1) :
    (compare score c.1).then (compare c.2 id) = .gt := by
  rw [compare_gt_iff_gt.mpr (not_le.mp h)]
  rfl

/-- In a sorted list no element after the first that fails a bound satisfies it. -/
theorem not_lt_of_mem_dropWhile {κ α : Type} [LinearOrder κ] {key : α → κ} {b : κ} {xs : List α}
    (hsorted : xs.Pairwise fun x y ↦ key x ≤ key y) :
    ∀ x ∈ xs.dropWhile (fun y ↦ key y < b), ¬key x < b := by
  induction xs with
  | nil => exact fun x hx ↦ absurd hx List.not_mem_nil
  | cons y xs ih =>
      rw [List.pairwise_cons] at hsorted
      rw [List.dropWhile_cons]
      split_ifs with hy
      · exact ih hsorted.2
      · intro x hx
        rw [decide_eq_true_eq] at hy
        rcases List.mem_cons.mp hx with rfl | hx
        · exact hy
        · exact fun hlt ↦ hy ((hsorted.1 x hx).trans_lt hlt)

/-- The binary search finds the place of a candidate with a larger id than all others. -/
theorem insertIdx_position (hsorted : best.Pairwise fun a b ↦ rankKey a ≤ rankKey b)
    (hids : ∀ c ∈ best, c.2 < id) :
    best.insertIdx (position score id best) (score, id) = insertByKey rankKey (score, id) best := by
  have hsplit := List.takeWhile_append_dropWhile
    (p := fun c ↦ decide (rankKey c < rankKey (score, id))) (l := best)
  have hfront : ∀ c ∈ best.takeWhile (fun c ↦ rankKey c < rankKey (score, id)),
      (compare score c.1).then (compare c.2 id) = .lt := by
    intro c hc
    have hid := hids c (List.takeWhile_subset _ hc)
    have hlt := of_decide_eq_true
      (List.mem_takeWhile_imp (p := fun c ↦ decide (rankKey c < rankKey (score, id))) hc)
    exact probe_eq_lt hid ((rankKey_lt_iff hid).mp hlt)
  have hback : ∀ c ∈ best.dropWhile (fun c ↦ rankKey c < rankKey (score, id)),
      (compare score c.1).then (compare c.2 id) = .gt := by
    intro c hc
    have hid := hids c (List.dropWhile_suffix _ |>.subset hc)
    have hnot := not_lt_of_mem_dropWhile hsorted c hc
    exact probe_eq_gt fun hle ↦ hnot ((rankKey_lt_iff hid).mpr hle)
  have hsearch := binarySearchBy_append hfront hback
  have hinsert := insertIdx_length_append
    (best.takeWhile fun c ↦ rankKey c < rankKey (score, id))
    (best.dropWhile fun c ↦ rankKey c < rankKey (score, id)) (score, id)
  rw [hsplit] at hsearch hinsert
  rw [position, hsearch]
  exact hinsert

/-- A candidate that comes after all others is offered to the first `k` of them. -/
theorem offer_take (hids : ∀ c ∈ cs, c.2 < id) :
    offer k score id ((sortByKey rankKey cs).take k) =
      insertTop rankKey k ((sortByKey rankKey cs).take k) (score, id) := by
  have hsorted := (pairwise_sortByKey rankKey cs).sublist (List.take_sublist k _)
  have hmem : ∀ c ∈ (sortByKey rankKey cs).take k, c.2 < id :=
    fun c hc ↦ hids c (mem_sortByKey.mp (List.mem_of_mem_take hc))
  rw [offer]
  split_ifs with hfull
  · obtain ⟨hlen, hworst⟩ := hfull
    refine (insertTop_of_lt hlen fun c hc ↦ ?_).symm
    -- the worst of the full list is ahead of the candidate, and so are all others
    obtain ⟨worst, hlast, hle⟩ := (Option.any_eq_true _ _).mp hworst
    have hwmem := List.mem_of_getElem? hlast
    have hbehind := (rankKey_lt_iff (hmem worst hwmem)).mpr (of_decide_eq_true hle)
    refine lt_of_le_of_lt ?_ hbehind
    obtain ⟨i, hi, rfl⟩ := List.getElem_of_mem hc
    obtain ⟨hk', rfl⟩ := List.getElem?_eq_some_iff.mp hlast
    have hlast' : i ≤ k.natPred := Nat.le_sub_one_of_lt (hlen ▸ hi)
    rcases Nat.lt_or_eq_of_le hlast' with hlt | rfl
    · exact List.pairwise_iff_getElem.mp hsorted i k.natPred hi hk' hlt
    · exact le_rfl
  · rw [insertIdx_position hsorted hmem, insertTop]

/-! ## Rows and blocks -/

variable {dot} {keep : ℤ → Bool} {q : List F} {rows seen : List (ℤ × List F)}

omit [LinearOrder σ] in
theorem mem_candidates {c : σ × ℤ} (h : c ∈ candidates dot keep q rows) :
    ∃ row ∈ rows, row.1 = c.2 := by
  obtain ⟨row, hrow, rfl⟩ := List.mem_map.mp h
  exact ⟨row, (List.mem_filter.mp hrow).1, rfl⟩

omit [LinearOrder σ] in
theorem candidates_append (rows rows' : List (ℤ × List F)) :
    candidates dot keep q (rows ++ rows') =
      candidates dot keep q rows ++ candidates dot keep q rows' := by
  rw [candidates, List.filter_append, List.map_append]
  rfl

omit [LinearOrder σ] in
theorem nodup_rankKeys (h : rows.Pairwise fun r r' ↦ r.1 < r'.1) :
    ((candidates dot keep q rows).map rankKey).Nodup := by
  rw [candidates, List.map_map, List.Nodup, List.pairwise_map]
  refine (h.sublist List.filter_sublist).imp fun hlt heq ↦ ?_
  exact hlt.ne (congrArg (fun c ↦ (ofLex c).2) heq)

/-- One more row. -/
theorem offerRow_ranking {row : ℤ × List F}
    (hasc : (rows ++ [row]).Pairwise fun r r' ↦ r.1 < r'.1) :
    offerRow dot k q keep (ranking dot k keep q rows) row =
      ranking dot k keep q (rows ++ [row]) := by
  have hids : ∀ c ∈ candidates dot keep q rows, c.2 < row.1 := by
    intro c hc
    obtain ⟨r, hr, hid⟩ := mem_candidates hc
    exact hid ▸ (List.pairwise_append.mp hasc).2.2 r hr row (List.mem_singleton_self row)
  rw [offerRow, ranking, ranking]
  split_ifs with hkeep
  · have hone : candidates dot keep q [row] = [(dot q row.2, row.1)] := by
      rw [candidates, List.filter_singleton, hkeep]
      rfl
    have hnodup : ((candidates dot keep q (rows ++ [row])).map rankKey).Nodup :=
      nodup_rankKeys hasc
    rw [candidates_append, hone] at hnodup ⊢
    rw [offer_take hids, insertTop_take, sortByKey_concat hnodup]
  · have hnone : candidates dot keep q [row] = [] := by
      rw [candidates, List.filter_singleton, Bool.not_eq_true _ |>.mp hkeep]
      rfl
    rw [candidates_append, hnone, List.append_nil]

theorem foldl_offerRow (hasc : (seen ++ rows).Pairwise fun r r' ↦ r.1 < r'.1) :
    rows.foldl (offerRow dot k q keep) (ranking dot k keep q seen) =
      ranking dot k keep q (seen ++ rows) := by
  induction rows generalizing seen with
  | nil => rw [List.append_nil, List.foldl_nil]
  | cons row rows ih =>
      have hsplit : seen ++ row :: rows = (seen ++ [row]) ++ rows := by
        rw [List.append_assoc, List.singleton_append]
      rw [hsplit] at hasc ⊢
      rw [List.foldl_cons, offerRow_ranking (List.pairwise_append.mp hasc).1, ih hasc]

/-- Every block starts where the one before ended, or later. -/
def Ascending : ℤ → List (ℤ × List (List F)) → Prop
  | _, [] => True
  | next, (firstId, rows) :: blocks =>
    next ≤ firstId ∧ Ascending (firstId + (rows.length : ℕ)) blocks

/-- The rows of the blocks with their ids. -/
def corpusRows (blocks : List (ℤ × List (List F))) : List (ℤ × List F) :=
  blocks.flatMap fun b ↦ numberFrom b.1 b.2

theorem numberFrom_cons (firstId : ℤ) (row : List F) (rows : List (List F)) :
    numberFrom firstId (row :: rows) = (firstId, row) :: numberFrom (firstId + 1) rows := by
  rw [numberFrom, numberFrom, List.zipIdx_cons, List.map_cons, Nat.zero_add, List.zipIdx_succ,
    List.map_map]
  refine congrArg₂ List.cons (Prod.ext (add_zero firstId) rfl) ?_
  refine List.map_congr_left fun e _ ↦ Prod.ext ?_ rfl
  change firstId + ((e.2 + 1 : ℕ) : ℤ) = firstId + 1 + (e.2 : ℤ)
  push_cast
  ring

theorem mem_numberFrom {firstId : ℤ} {docs : List (List F)} {row : ℤ × List F}
    (h : row ∈ numberFrom firstId docs) :
    firstId ≤ row.1 ∧ row.1 < firstId + (docs.length : ℕ) := by
  obtain ⟨⟨doc, i⟩, hmem, rfl⟩ := List.mem_map.mp h
  have hi := (List.mem_zipIdx hmem).2.1
  rw [Nat.zero_add] at hi
  refine ⟨le_add_of_nonneg_right (Nat.cast_nonneg i), ?_⟩
  exact_mod_cast add_lt_add_right (Nat.cast_lt.mpr hi) firstId

theorem pairwise_numberFrom (firstId : ℤ) (docs : List (List F)) :
    (numberFrom firstId docs).Pairwise fun r r' ↦ r.1 < r'.1 := by
  induction docs generalizing firstId with
  | nil => exact .nil
  | cons doc docs ih =>
      rw [numberFrom_cons, List.pairwise_cons]
      exact ⟨fun row hrow ↦ Int.lt_of_add_one_le (mem_numberFrom hrow).1, ih (firstId + 1)⟩

omit [LinearOrder σ] in
/-- A query is read back from the flat matrix. -/
theorem query_flatten {t : TopK F σ} {queries : List (List F)} (ht : t.queries = queries.flatten)
    (hdim : ∀ q ∈ queries, q.length = t.dim) {qi : ℕ} (hqi : qi < queries.length) :
    t.query qi = queries[qi] := by
  have hrows := getElem?_takeChunks (k := t.dim) hqi queries.flatten
  rw [takeChunks_flatten hdim, List.getElem?_eq_getElem hqi, Option.some_inj] at hrows
  rw [query, ht]
  exact hrows.symm

section Feed

variable (dot) in
/-- What holds of the state when the rows `seen` have been fed. -/
structure Holds (queries : List (List F)) (keep : ℕ → ℤ → Bool) (seen : List (ℤ × List F))
    (t : TopK F σ) : Prop where
  pos : 0 < t.dim
  queries_eq : t.queries = queries.flatten
  width : ∀ q ∈ queries, q.length = t.dim
  ascending : seen.Pairwise fun r r' ↦ r.1 < r'.1
  below : ∀ row ∈ seen, row.1 < t.nextExpectedId
  best_eq : t.best = queries.mapIdx fun qi q ↦ ranking dot t.k (keep qi) q seen

variable {queries : List (List F)} {keep : ℕ → ℤ → Bool} {t : TopK F σ}

/-- One block, which does not start too early. -/
theorem Holds.addBlockWhere (h : Holds dot queries keep seen t) {firstId : ℤ}
    {docs : List (List F)} (hdocs : ∀ doc ∈ docs, doc.length = t.dim)
    (hfirst : t.nextExpectedId ≤ firstId) :
    ∃ t', t.addBlockWhere dot docs.flatten firstId keep = (.ok (), t') ∧
      Holds dot queries keep (seen ++ numberFrom firstId docs) t' ∧ t'.dim = t.dim ∧ t'.k = t.k ∧
      t'.nextExpectedId = firstId + (docs.length : ℕ) := by
  have hlen : docs.flatten.length = docs.length * t.dim := length_flatten_of_uniform hdocs
  have hdvd : ¬¬t.dim ∣ docs.flatten.length := by
    rw [hlen, not_not]
    exact Dvd.intro_left _ rfl
  have hcount : docs.flatten.length / max t.dim 1 = docs.length := by
    rw [max_eq_left h.pos, hlen, Nat.mul_div_cancel _ h.pos]
  have hchunks : asChunks t.dim docs.flatten = docs := by
    rw [asChunks_of_length h.pos hlen, takeChunks_flatten hdocs]
  have hasc : (seen ++ numberFrom firstId docs).Pairwise fun r r' ↦ r.1 < r'.1 := by
    rw [List.pairwise_append]
    refine ⟨h.ascending, pairwise_numberFrom firstId docs, fun r hr r' hr' ↦ ?_⟩
    exact (h.below r hr).trans_le (hfirst.trans (mem_numberFrom hr').1)
  rw [TopK.addBlockWhere, if_neg (not_lt.mpr hfirst)]
  dsimp only
  rw [if_neg hdvd, hcount, hchunks]
  refine ⟨_, rfl, ⟨h.pos, h.queries_eq, h.width, hasc, ?_, ?_⟩, rfl, rfl, rfl⟩
  · intro row hrow
    rcases List.mem_append.mp hrow with hrow | hrow
    · exact (h.below row hrow).trans_le
        (hfirst.trans (le_add_of_nonneg_right (Nat.cast_nonneg _)))
    · exact (mem_numberFrom hrow).2
  · dsimp only
    rw [h.best_eq, List.mapIdx_mapIdx]
    apply List.ext_getElem?
    intro qi
    rw [List.getElem?_mapIdx, List.getElem?_mapIdx]
    by_cases hqi : qi < queries.length
    · have hquery : ∀ best next,
          query (⟨t.k, t.dim, t.queries, best, next⟩ : TopK F σ) qi = queries[qi] :=
        fun best next ↦ query_flatten h.queries_eq h.width hqi
      rw [List.getElem?_eq_getElem hqi, Option.map_some, Option.map_some,
        Function.comp_apply, hquery,
        foldl_offerRow hasc]
    · rw [List.getElem?_eq_none (not_lt.mp hqi)]
      rfl

/-- Any number of blocks. -/
theorem Holds.feed (h : Holds dot queries keep seen t) {blocks : List (ℤ × List (List F))}
    (hdocs : ∀ b ∈ blocks, ∀ doc ∈ b.2, doc.length = t.dim)
    (hasc : Ascending t.nextExpectedId blocks) :
    ∃ t', t.feed dot keep (blocks.map fun b ↦ (b.1, b.2.flatten)) = .ok t' ∧ t'.k = t.k ∧
      Holds dot queries keep (seen ++ corpusRows blocks) t' := by
  induction blocks generalizing seen t with
  | nil =>
      refine ⟨t, rfl, rfl, ?_⟩
      rwa [corpusRows, List.flatMap_nil, List.append_nil]
  | cons b blocks ih =>
      obtain ⟨firstId, docs⟩ := b
      obtain ⟨hfirst, hasc⟩ := hasc
      obtain ⟨t', hadd, hholds, hdim, hk, hnext⟩ :=
        h.addBlockWhere (hdocs _ List.mem_cons_self) hfirst
      have hdocs' : ∀ b ∈ blocks, ∀ doc ∈ b.2, doc.length = t'.dim := by
        rw [hdim]
        exact fun b hb ↦ hdocs b (List.mem_cons_of_mem _ hb)
      obtain ⟨t'', hfeed, hk', hholds'⟩ := ih hholds hdocs' (hnext ▸ hasc)
      refine ⟨t'', ?_, hk'.trans hk, ?_⟩
      · rw [List.map_cons, TopK.feed, hadd]
        exact hfeed
      · rw [corpusRows, List.flatMap_cons, ← List.append_assoc]
        exact hholds'

end Feed

theorem new_eq_ok (dot : List F → List F → σ) (keep : ℕ → ℤ → Bool) {queries : List (List F)}
    {dim : ℕ} (hdim : 0 < dim) (hqueries : ∀ q ∈ queries, q.length = dim) (k : ℕ+) :
    ∃ t : TopK F σ, new queries.flatten dim k = .ok t ∧ t.dim = dim ∧ t.k = k ∧
      t.nextExpectedId = -2 ^ 63 ∧ Holds dot queries keep [] t := by
  have hlen : queries.flatten.length = queries.length * dim := length_flatten_of_uniform hqueries
  have hcond : ¬(dim = 0 ∨ ¬dim ∣ queries.flatten.length) := by
    rw [hlen, not_or, not_not]
    exact ⟨hdim.ne', Dvd.intro_left _ rfl⟩
  rw [new, if_neg hcond, hlen, Nat.mul_div_cancel _ hdim]
  refine ⟨_, rfl, rfl, rfl, rfl, hdim, rfl, hqueries, .nil, ?_, ?_⟩
  · exact fun row hrow ↦ absurd hrow List.not_mem_nil
  · have hnone : ∀ qi q, ranking dot k (keep qi) q [] = [] := fun qi q ↦ List.take_nil
    simp only [hnone]
    refine (List.eq_replicate_iff.mpr ⟨List.length_mapIdx, ?_⟩).symm
    intro b hb
    obtain ⟨i, hi, rfl⟩ := List.mem_mapIdx.mp hb
    rfl

/-- Whatever the blocks are in which the rows arrive, the result is the ranking of them all. -/
theorem new_feed_eq (dot : List F → List F → σ) (keep : ℕ → ℤ → Bool) (k : ℕ+) {dim : ℕ}
    (hdim : 0 < dim) {queries : List (List F)} (hqueries : ∀ q ∈ queries, q.length = dim)
    (corpus : List (ℤ × List F)) :
    ∃ t : TopK F σ, new queries.flatten dim k = .ok t ∧
      ∀ blocks : List (ℤ × List (List F)), corpusRows blocks = corpus →
        (∀ row ∈ corpus, row.2.length = dim) → Ascending (-2 ^ 63) blocks →
        ∃ t', t.feed dot keep (blocks.map fun b ↦ (b.1, b.2.flatten)) = .ok t' ∧
          t'.finish = queries.mapIdx fun qi q ↦ ranking dot k (keep qi) q corpus := by
  obtain ⟨t, hnew, hdim', hk, hnext, hholds⟩ := new_eq_ok dot keep hdim hqueries k
  refine ⟨t, hnew, fun blocks hcorpus hwidth hasc ↦ ?_⟩
  have hdocs : ∀ b ∈ blocks, ∀ doc ∈ b.2, doc.length = t.dim := by
    intro b hb doc hdoc
    obtain ⟨i, hi, rfl⟩ := List.getElem_of_mem hdoc
    have hrow : (b.1 + (i : ℤ), b.2[i]) ∈ numberFrom b.1 b.2 := by
      refine List.mem_map.mpr ⟨(b.2[i], i), ?_, rfl⟩
      exact List.mem_zipIdx_iff_getElem?.mpr (List.getElem?_eq_getElem hi)
    rw [hdim']
    refine hwidth (b.1 + (i : ℤ), b.2[i]) ?_
    rw [← hcorpus]
    exact List.mem_flatMap.mpr ⟨b, hb, hrow⟩
  obtain ⟨t', hfeed, hk', hholds'⟩ := hholds.feed hdocs (hnext ▸ hasc)
  refine ⟨t', hfeed, ?_⟩
  rw [finish, hholds'.best_eq, List.nil_append, hcorpus, hk', hk]

/-- For every query the result is the first `k` of the kept rows, by score and then by id,
whatever the blocks are in which the rows arrive; without a filter `add_block` does the
same. -/
theorem topK_exact (dot : List F → List F → σ) (keep : ℕ → ℤ → Bool) (k : ℕ+) {dim : ℕ}
    (hdim : 0 < dim) {queries : List (List F)} (hqueries : ∀ q ∈ queries, q.length = dim)
    (corpus : List (ℤ × List F)) :
    (∃ t : TopK F σ, new queries.flatten dim k = .ok t ∧
      ∀ blocks : List (ℤ × List (List F)), corpusRows blocks = corpus →
        (∀ row ∈ corpus, row.2.length = dim) → Ascending (-2 ^ 63) blocks →
        ∃ t', t.feed dot keep (blocks.map fun b ↦ (b.1, b.2.flatten)) = .ok t' ∧
          t'.finish = queries.mapIdx fun qi q ↦ ranking dot k (keep qi) q corpus) ∧
    ∀ (t : TopK F σ) block firstId, (∀ qi id, keep qi id = true) →
      t.addBlockWhere dot block firstId keep = t.addBlock dot block firstId := by
  constructor
  · exact new_feed_eq dot keep k hdim hqueries corpus
  · intro t block firstId hkeep
    have htrue : keep = fun _ _ ↦ true := by
      funext qi id
      exact hkeep qi id
    rw [addBlock, htrue]

def product (q doc : List ℤ) : ℤ := (List.zipWith (· * ·) q doc).sum

/-- Two rows with one score, in different blocks. -/
theorem topK_exact_tie : ∃ t t' : TopK ℤ ℤ, new [1, -1] 1 2 = .ok t ∧
    t.feed product (fun _ _ ↦ true) [(0, [5, 7]), (2, [5])] = .ok t' ∧
    t'.finish = [[(7, 1), (5, 0)], [(-5, 0), (-5, 2)]] := by
  have hqueries : ∀ q ∈ [[1], [(-1 : ℤ)]], q.length = 1 := by decide
  obtain ⟨⟨t, hnew, hfeed⟩, -⟩ := topK_exact product (fun _ _ ↦ true) 2 Nat.one_pos hqueries
    [(0, [5]), (1, [7]), (2, [5])]
  obtain ⟨t', ht', hfinish⟩ := hfeed [(0, [[5], [7]]), (2, [[5]])] rfl (by decide)
    ⟨by decide, by decide, trivial⟩
  exact ⟨t, t', hnew, ht', hfinish.trans (by decide)⟩

/-! ## Blocks that are rejected -/

/-- The number of whole rows in a block. -/
def wholeRows (t : TopK F σ) (block : List F) : ℕ := block.length / max t.dim 1

/-- What a call leaves behind that returns an error. -/
theorem addBlockWhere_of_error {dot : List F → List F → σ} {t : TopK F σ} {block : List F}
    {firstId : ℤ} {keep : ℕ → ℤ → Bool} {e : String}
    (h : (t.addBlockWhere dot block firstId keep).1 = .error e) :
    (firstId < t.nextExpectedId ∧ (t.addBlockWhere dot block firstId keep).2 = t) ∨
      t.nextExpectedId ≤ firstId ∧ ¬t.dim ∣ block.length ∧
        (t.addBlockWhere dot block firstId keep).2 =
          { t with nextExpectedId := firstId + t.wholeRows block } := by
  rw [addBlockWhere] at h ⊢
  by_cases hearly : firstId < t.nextExpectedId
  · rw [if_pos hearly]
    exact .inl ⟨hearly, rfl⟩
  · rw [if_neg hearly] at h ⊢
    dsimp only at h ⊢
    by_cases hwidth : t.dim ∣ block.length
    · rw [if_neg (not_not.mpr hwidth)] at h
      cases h
    · rw [if_pos hwidth]
      exact .inr ⟨not_lt.mp hearly, hwidth, rfl⟩

/-- A block is rejected for its length. -/
theorem addBlockWhere_eq_error (dot : List F → List F → σ) {t : TopK F σ} {block : List F}
    {firstId : ℤ} (keep : ℕ → ℤ → Bool) (hfirst : t.nextExpectedId ≤ firstId)
    (hwidth : ¬t.dim ∣ block.length) :
    ∃ e, (t.addBlockWhere dot block firstId keep).1 = .error e := by
  rw [addBlockWhere, if_neg (not_lt.mpr hfirst)]
  dsimp only
  rw [if_pos hwidth]
  exact ⟨_, rfl⟩

omit [LinearOrder σ] in
/-- The guard does not move exactly when the block starts at it and has no whole row. -/
theorem add_wholeRows_eq_iff {t : TopK F σ} {block : List F} {firstId : ℤ}
    (hfirst : t.nextExpectedId ≤ firstId) :
    firstId + t.wholeRows block = t.nextExpectedId ↔
      firstId = t.nextExpectedId ∧ block.length < max t.dim 1 := by
  have hrows : t.wholeRows block = 0 ↔ block.length < max t.dim 1 :=
    Nat.div_eq_zero_iff_lt (lt_max_of_lt_right Nat.one_pos)
  rw [← hrows]
  omega

/-- A call that returns an error leaves the state as it was, so that any block at the same
id is then treated as if there had been no such call, exactly when it is refused for its
first id, or its length fits, or it starts at the lowest id that is accepted and has no
whole row. -/
theorem addBlockWhere_unaffected_iff (dot : List F → List F → σ) (t : TopK F σ) (block : List F)
    (firstId : ℤ) (keep : ℕ → ℤ → Bool) :
    (∀ e t', t.addBlockWhere dot block firstId keep = (.error e, t') →
      t' = t ∧ ∀ block' keep', t'.addBlockWhere dot block' firstId keep' =
        t.addBlockWhere dot block' firstId keep') ↔
    firstId < t.nextExpectedId ∨ t.dim ∣ block.length ∨
      firstId = t.nextExpectedId ∧ block.length < max t.dim 1 := by
  constructor
  · intro h
    by_contra hnot
    obtain ⟨hfirst, hnot⟩ := not_or.mp hnot
    obtain ⟨hwidth, hrows⟩ := not_or.mp hnot
    rw [not_lt] at hfirst
    rw [← add_wholeRows_eq_iff hfirst] at hrows
    obtain ⟨e, he⟩ := addBlockWhere_eq_error dot keep hfirst hwidth
    rcases addBlockWhere_of_error he with ⟨hearly, -⟩ | ⟨-, -, hstate⟩
    · exact absurd hearly (not_lt.mpr hfirst)
    · have hsame := (h e _ (Prod.ext he hstate)).1
      exact hrows (congrArg nextExpectedId hsame)
  · intro h e t' hcall
    have hsame : t' = t := by
      rcases addBlockWhere_of_error (congrArg Prod.fst hcall) with
        ⟨-, hstate⟩ | ⟨hfirst, hwidth, hstate⟩
      · rw [hcall] at hstate
        exact hstate
      · rw [hcall] at hstate
        have hcond := or_iff_right (not_lt.mpr hfirst) |>.mp h
        have hrows := (add_wholeRows_eq_iff hfirst).mpr (or_iff_right hwidth |>.mp hcond)
        rw [hrows] at hstate
        exact hstate
    rw [hsame]
    exact ⟨rfl, fun _ _ ↦ rfl⟩

/-- A block with half a row too much moves the guard; the corrected block comes too late. -/
theorem addBlockWhere_oddBlock :
    ∃ t : TopK ℤ ℤ, new [1, 0] 2 1 = .ok t ∧
      (∃ e, (t.addBlockWhere product [3, 4, 5] 0 fun _ _ ↦ true).1 = .error e) ∧
      (t.addBlockWhere product [3, 4, 5] 0 fun _ _ ↦ true).2.nextExpectedId = 1 ∧
      (∃ e, ((t.addBlockWhere product [3, 4, 5] 0 fun _ _ ↦ true).2.addBlockWhere product
        [3, 4, 5, 6] 0 fun _ _ ↦ true).1 = .error e) ∧
      (t.addBlockWhere product [3, 4, 5, 6] 0 fun _ _ ↦ true).1 = .ok () := by
  refine ⟨⟨1, 2, [1, 0], [[]], -2 ^ 63⟩, rfl, ⟨_, rfl⟩, rfl, ⟨_, rfl⟩, rfl⟩

end TopK

end VectorDbBenchmark.Msmarco
