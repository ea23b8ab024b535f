import Mathlib.Data.Prod.Lex
import Mathlib.Data.Rat.Defs
import VectorDbBenchmark.Kit.Ordered
import VectorDbBenchmark.Kit.Tally

/-!
# Reciprocal rank fusion

`rrf_fuse` of `src/hybrid_rrf.rs` and the client-side reference built from it.  The score
map is its entries in some order; the scores are exact rationals here.
-/

namespace VectorDbBenchmark.HybridRrf

open Kit

/-- One list: an id that was seen is skipped, any other takes the next rank. -/
def addRanks (k : ℕ) : List Int64 → ℕ → List Int64 → List (Int64 × ℚ) → List (Int64 × ℚ)
  | _, _, [], scores => scores
  | seen, rank, id :: ids, scores =>
    if id ∈ seen then addRanks k seen rank ids scores
    else
      addRanks k (id :: seen) (rank + 1) ids
        (addTo id (1 / ((k : ℚ) + ((rank + 1 : ℕ) : ℚ))) scores)

/-- The score map after every list. -/
def rrfScores (lists : List (List Int64)) (rankConstant : ℕ) : List (Int64 × ℚ) :=
  lists.foldl (fun scores list ↦ addRanks rankConstant [] 0 list scores) []

/-- What the entries are sorted by: score descending, then id ascending. -/
def fusedKey (e : Int64 × ℚ) : ℚᵒᵈ ×ₗ ℤ := toLex (OrderDual.toDual e.2, e.1.toInt)

def rrfFuse (lists : List (List Int64)) (rankConstant : ℕ) : List (Int64 × ℚ) :=
  sortByKey fusedKey (rrfScores lists rankConstant)

/-! ## The client-side reference -/

structure RrfSpec where
  window : ℕ
  rankConstant : ℕ

structure Reference where
  /-- Every candidate of either list, fused and ranked. -/
  fused : List (Int64 × ℚ)
  bm25Candidates : ℕ
  /-- Ids in both candidate lists. -/
  inBoth : ℕ

/-- The reference of one query, from the engine's exact BM25 ids and the dataset's exact
neighbours. -/
def reference (bm25 knn : List Int64) (spec : RrfSpec) : Except String Reference :=
  if spec.window < bm25.length then
    .error (s!"hybrid-rrf reference: {bm25.length} BM25 candidates for a window of " ++
      s!"{spec.window}")
  else if (distinct bm25).length ≠ bm25.length then
    .error "hybrid-rrf reference: duplicate id in the BM25 candidates"
  else
    let knn := knn.take spec.window
    .ok ⟨rrfFuse [bm25, knn] spec.rankConstant, bm25.length, knn.countP (· ∈ bm25)⟩

/-! ## What fusion is for

Each list gives each of its ids one share, by the rank of its first occurrence among the
distinct ids of the list. -/

/-- What a list gives an id. -/
def share (k : ℕ) (list : List Int64) (id : Int64) : ℚ :=
  if id ∈ list then 1 / ((k : ℚ) + (((distinct list).idxOf id + 1 : ℕ) : ℚ)) else 0

/-- Every id of the union once, with its shares, sorted. -/
def naiveFuse (lists : List (List Int64)) (k : ℕ) : List (Int64 × ℚ) :=
  sortByKey fusedKey ((distinct lists.flatten).map fun id ↦
    (id, (lists.map fun list ↦ share k list id).sum))

/-! ## One list -/

section

variable (k : ℕ) {seen ids : List Int64} {rank : ℕ} {scores : List (Int64 × ℚ)}

theorem mem_keys_addRanks (id : Int64) :
    id ∈ (addRanks k seen rank ids scores).map Prod.fst ↔
      id ∈ distinctFrom seen ids ∨ id ∈ scores.map Prod.fst := by
  induction ids generalizing seen rank scores with
  | nil => simp [addRanks, distinctFrom]
  | cons x ids ih =>
      rw [addRanks, distinctFrom]
      split_ifs with hx
      · exact ih
      · rw [ih, mem_keys_addTo, List.mem_cons]
        exact or_left_comm.trans or_assoc.symm

theorem nodup_keys_addRanks (h : (scores.map Prod.fst).Nodup) :
    ((addRanks k seen rank ids scores).map Prod.fst).Nodup := by
  induction ids generalizing seen rank scores with
  | nil => exact h
  | cons x ids ih =>
      rw [addRanks]
      split_ifs with hx
      · exact ih h
      · exact ih (nodup_keys_addTo h)

/-- The loop adds one share to each id that was not seen. -/
theorem total_addRanks (id : Int64) :
    total id (addRanks k seen rank ids scores) = total id scores +
      if id ∈ distinctFrom seen ids then
        1 / ((k : ℚ) + ((rank + (distinctFrom seen ids).idxOf id + 1 : ℕ) : ℚ))
      else 0 := by
  induction ids generalizing seen rank scores with
  | nil => simp [addRanks, distinctFrom]
  | cons x ids ih =>
      rw [addRanks, distinctFrom]
      by_cases hx : x ∈ seen
      · rw [if_pos hx, if_pos hx, ih]
      · rw [if_neg hx, if_neg hx, ih, total_addTo]
        by_cases hid : id = x
        · subst hid
          have hmem : id ∉ distinctFrom (id :: seen) ids := fun h ↦
            (mem_distinctFrom.mp h).2 List.mem_cons_self
          rw [if_pos rfl, if_neg hmem, add_zero, if_pos List.mem_cons_self, List.idxOf_cons_self,
            Nat.add_zero]
        · have hmem : id ∈ x :: distinctFrom (x :: seen) ids ↔
              id ∈ distinctFrom (x :: seen) ids := by
            rw [List.mem_cons]
            exact or_iff_right hid
          rw [if_neg hid, add_zero, List.idxOf_cons_ne _ (Ne.symm hid)]
          simp only [hmem, Nat.succ_eq_add_one, Nat.add_assoc, Nat.add_comm 1]

end

/-! ## All lists -/

theorem rrfScores_append (lists : List (List Int64)) (list : List Int64) (k : ℕ) :
    rrfScores (lists ++ [list]) k = addRanks k [] 0 list (rrfScores lists k) := by
  rw [rrfScores, List.foldl_append]
  rfl

theorem nodup_keys_rrfScores (lists : List (List Int64)) (k : ℕ) :
    ((rrfScores lists k).map Prod.fst).Nodup := by
  induction lists using List.reverseRecOn with
  | nil => exact List.nodup_nil
  | append_singleton lists list ih =>
      rw [rrfScores_append]
      exact nodup_keys_addRanks k ih

theorem mem_keys_rrfScores {lists : List (List Int64)} {k : ℕ} {id : Int64} :
    id ∈ (rrfScores lists k).map Prod.fst ↔ ∃ list ∈ lists, id ∈ list := by
  induction lists using List.reverseRecOn with
  | nil => simp [rrfScores]
  | append_singleton lists list ih =>
      rw [rrfScores_append, mem_keys_addRanks, ih]
      simp only [mem_distinctFrom, List.not_mem_nil, not_false_eq_true, and_true,
        List.mem_append, List.mem_singleton, or_and_right, exists_or, exists_eq_left]
      exact or_comm

theorem total_rrfScores (lists : List (List Int64)) (k : ℕ) (id : Int64) :
    total id (rrfScores lists k) = (lists.map fun list ↦ share k list id).sum := by
  induction lists using List.reverseRecOn with
  | nil => rfl
  | append_singleton lists list ih =>
      rw [rrfScores_append, total_addRanks, ih, List.map_append, List.sum_append,
        List.map_singleton,
        List.sum_singleton, share, distinct, Nat.zero_add]
      simp only [mem_distinctFrom, List.not_mem_nil, not_false_eq_true, and_true]

theorem fusedKey_injective {e f : Int64 × ℚ} (h : fusedKey e = fusedKey f) : e = f := by
  obtain ⟨hscore, hid⟩ := Prod.mk.inj (toLex.injective h)
  exact Prod.ext (Int64.toInt_inj.mp hid) hscore

/-- Whatever order a hash map lists its entries in, the sorted list is the same. -/
theorem rrfFuse_of_perm {lists : List (List Int64)} {k : ℕ} {entries : List (Int64 × ℚ)}
    (h : entries.Perm (rrfScores lists k)) : sortByKey fusedKey entries = rrfFuse lists k :=
  sortByKey_eq_of_perm h fun _ _ _ _ hkey ↦ fusedKey_injective hkey

/-- The loop computes the naive fusion. -/
theorem rrfFuse_eq_naiveFuse (lists : List (List Int64)) (k : ℕ) :
    rrfFuse lists k = naiveFuse lists k := by
  have hkeys : ((distinct lists.flatten).map fun id ↦
      (id, (lists.map fun list ↦ share k list id).sum)).map Prod.fst = distinct lists.flatten := by
    rw [List.map_map]
    exact List.map_id _
  refine (rrfFuse_of_perm ?_).symm
  apply perm_of_totals
  · rw [hkeys]
    exact nodup_distinct _
  · exact nodup_keys_rrfScores lists k
  · intro id
    rw [hkeys, mem_distinct, List.mem_flatten, mem_keys_rrfScores]
  · intro id
    rw [total_rrfScores, total_map (nodup_distinct _)]
    split_ifs with hid
    · rfl
    · refine (List.sum_eq_zero fun x hx ↦ ?_).symm
      obtain ⟨list, hlist, rfl⟩ := List.mem_map.mp hx
      refine if_neg fun hmem ↦ hid ?_
      exact mem_distinct.mpr (List.mem_flatten.mpr ⟨list, hlist, hmem⟩)

/-! ## Two lists -/

/-- The order of a ranking: score descending, then id ascending. -/
def Before (e f : Int64 × ℚ) : Prop := f.2 < e.2 ∨ f.2 = e.2 ∧ e.1 < f.1

/-- What fusing two lists returns. -/
structure Fuses (k : ℕ) (xs ys : List Int64) (fused : List (Int64 × ℚ)) : Prop where
  /-- Every id of the union, exactly once. -/
  nodup : (fused.map Prod.fst).Nodup
  ids : ∀ id, id ∈ fused.map Prod.fst ↔ id ∈ xs ∨ id ∈ ys
  scores : ∀ e ∈ fused, e.2 = share k xs e.1 + share k ys e.1
  sorted : fused.Pairwise Before

theorem fusedKey_lt_iff {e f : Int64 × ℚ} : fusedKey e < fusedKey f ↔ Before e f := by
  rw [fusedKey, fusedKey, Prod.Lex.toLex_lt_toLex, OrderDual.toDual_lt_toDual,
    OrderDual.toDual_inj, Before, Int64.lt_iff_toInt_lt, eq_comm]

theorem perm_rrfFuse (lists : List (List Int64)) (k : ℕ) :
    (rrfFuse lists k).Perm (rrfScores lists k) := perm_sortByKey _ _

theorem nodup_keys_rrfFuse (lists : List (List Int64)) (k : ℕ) :
    ((rrfFuse lists k).map Prod.fst).Nodup :=
  ((perm_rrfFuse lists k).map Prod.fst).nodup_iff.mpr (nodup_keys_rrfScores lists k)

theorem rrfFuse_fuses (xs ys : List Int64) (k : ℕ) : Fuses k xs ys (rrfFuse [xs, ys] k) := by
  refine ⟨nodup_keys_rrfFuse _ _, fun id ↦ ?_, fun e he ↦ ?_, ?_⟩
  · rw [((perm_rrfFuse [xs, ys] k).map Prod.fst).mem_iff, mem_keys_rrfScores]
    simp
  · have hmem := (perm_rrfFuse [xs, ys] k).mem_iff.mp he
    rw [((mem_iff_total (nodup_keys_rrfScores _ _)).mp hmem).2, total_rrfScores]
    simp
  · have hle : (rrfFuse [xs, ys] k).Pairwise fun e f ↦ fusedKey e ≤ fusedKey f :=
      pairwise_sortByKey _ _
    have hnodup : (rrfFuse [xs, ys] k).Nodup := (nodup_keys_rrfFuse _ _).of_map
    refine (hle.and hnodup).imp fun ⟨hef, hne⟩ ↦ ?_
    exact fusedKey_lt_iff.mp (lt_of_le_of_ne hef fun hkey ↦ hne (fusedKey_injective hkey))

/-- The order of the two lists does not matter. -/
theorem rrfFuse_comm (xs ys : List Int64) (k : ℕ) : rrfFuse [xs, ys] k = rrfFuse [ys, xs] k := by
  refine rrfFuse_of_perm
    (perm_of_totals (nodup_keys_rrfScores _ _) (nodup_keys_rrfScores _ _) ?_ ?_)
  · intro id
    rw [mem_keys_rrfScores, mem_keys_rrfScores]
    simp [or_comm]
  · intro id
    rw [total_rrfScores, total_rrfScores]
    simp [add_comm]

/-- A reference that was built fuses the two windows. -/
theorem fused_of_reference {bm25 knn : List Int64} {spec : RrfSpec} {r : Reference}
    (h : reference bm25 knn spec = .ok r) :
    r.fused = rrfFuse [bm25.take spec.window, knn.take spec.window] spec.rankConstant := by
  rw [reference] at h
  split_ifs at h with hwindow hdup
  cases h
  rw [List.take_of_length_le (not_lt.mp hwindow)]

/-- **Reciprocal rank fusion** of two ranked lists, cut to any window. -/
theorem rrfFuse_correct (xs ys : List Int64) (k window : ℕ) :
    Fuses k (xs.take window) (ys.take window) (rrfFuse [xs.take window, ys.take window] k) ∧
    rrfFuse [xs.take window, ys.take window] k = rrfFuse [ys.take window, xs.take window] k ∧
    rrfFuse [xs.take window, ys.take window] k = naiveFuse [xs.take window, ys.take window] k ∧
    (∀ entries, entries.Perm (rrfScores [xs.take window, ys.take window] k) →
      sortByKey fusedKey entries = rrfFuse [xs.take window, ys.take window] k) ∧
    ∀ r, reference xs ys ⟨window, k⟩ = .ok r →
      r.fused = rrfFuse [xs.take window, ys.take window] k :=
  ⟨rrfFuse_fuses _ _ k, rrfFuse_comm _ _ k, rrfFuse_eq_naiveFuse _ k,
    fun _ h ↦ rrfFuse_of_perm h, fun _ h ↦ fused_of_reference h⟩

/-- An id in both lists, one list with a repeated id, and a tie broken by id. -/
example : rrfFuse [[7, 3, 3, 5], [3, 9]] 60 = [(3, 1 / 62 + 1 / 61), (7, 1 / 61), (9, 1 / 62),
    (5, 1 / 63)] := by
  with_unfolding_all decide

end VectorDbBenchmark.HybridRrf
