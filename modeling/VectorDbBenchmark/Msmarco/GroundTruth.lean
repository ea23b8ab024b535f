import VectorDbBenchmark.Msmarco.RowMask
import VectorDbBenchmark.Msmarco.SampleCorpus
import VectorDbBenchmark.Msmarco.TopK

/-!
# The filtered ground truth

`filtered_ground_truth` of `src/msmarco/hybrid.rs`: the best rows of a vector file for each
query, of the rows its predicate admits, and `cross_check`, which compares them with the best
rows of all.  Scores are of any linear order.
-/

namespace VectorDbBenchmark.Msmarco

open Kit Readers

variable {σ : Type} [LinearOrder σ]

/-- `BLOCK_ROWS`. -/
def blockRows : ℕ := 8192

/-- What comes from outside the repository. -/
structure GroundTruthEnv (σ : Type) where
  sample : SampleEnv
  f32 : F32Ops
  dot : List F32 → List F32 → σ
  /-- `vectors.display()`. -/
  shown : String

section Code

variable (env : GroundTruthEnv σ)

/-- The loop over the blocks of a file: what is left of it, and the rankings. -/
def groundTruthBlocks (dim rows : ℕ) (keep : ℕ → ℤ → Bool) (done : ℕ) (data : Bytes)
    (acc : TopK F32 σ) : Except String (Bytes × TopK F32 σ) :=
  if done < rows then
    let n := min (rows - done) blockRows
    match readExact (n * dim * 4) data with
    | .error e => .error s!"read {env.shown} at row {done}: {e}"
    | .ok (raw, data) =>
      let block := f32Row raw
      match ensureFinite env.sample block done dim with
      | .error e => .error e
      | .ok () =>
        let block := ((asChunks dim block).map (normalizeRow env.f32)).flatten
        match acc.addBlockWhere env.dot block done keep with
        | (.error e, _) => .error e
        | (.ok (), acc) => groundTruthBlocks dim rows keep (done + n) data acc
  else .ok (data, acc)
termination_by rows - done
decreasing_by
  have : 0 < blockRows := Nat.zero_lt_succ _
  omega

/-- Whether the predicate of a query admits a row. -/
def admits (assign : List ℕ) (masks : List RowMask) (qi : ℕ) (id : ℤ) : Bool :=
  ((assign[qi]?).bind (masks[·]?)).any fun mask ↦ mask.get id.toNat

def filteredGroundTruth (vectors : Bytes) (queries : List (List F32)) (assign : List ℕ)
    (masks : List RowMask) (depth : ℕ+) : Except String (List (List (σ × ℤ))) := do
  let (data, rows, dim) ← openF32Npy env.shown vectors
  if assign.length ≠ queries.length then
    .error "one predicate assignment per query is required"
  else
    match masks.find? fun m ↦ m.len ≠ rows with
    | some m =>
      .error s!"a predicate mask covers {m.len} rows but {env.shown} holds {rows}"
    | none =>
      match queries.find? fun q ↦ q.length ≠ dim with
      | some q =>
        .error s!"query of dimension {q.length} against {dim}-dimensional vectors"
      | none => do
        let acc ← TopK.new queries.flatten dim depth
        let (rest, acc) ← groundTruthBlocks env dim rows (admits assign masks) 0 data acc
        if rest ≠ [] then
          .error s!"{env.shown} holds more data than its header's {rows} rows"
        else .ok acc.finish

end Code

/-- The first rank at which the lists differ. -/
def compareRanks : ℕ → List ℤ → List (σ × ℤ) → Except String Unit
  | i, want :: head, (_, got) :: filtered =>
    if want ≠ got then
      .error (s!"filtered ground truth disagrees with the unfiltered oracle at rank {i}: " ++
        s!"expected row {want}, got row {got}")
    else compareRanks (i + 1) head filtered
  | _, _, _ => .ok ()

def crossCheck (filtered : List (σ × ℤ)) (unfiltered : List ℤ) (mask : RowMask) :
    Except String ℕ :=
  let head := unfiltered.filter fun id ↦ 0 ≤ id && mask.get id.toNat
  if filtered.length < head.length then
    .error (s!"{head.length} matching rows in the unfiltered top-k but only {filtered.length} in " ++
      "the filtered list")
  else do
    compareRanks 0 head filtered
    .ok head.length

/-! ## One ranking and its filtered part -/

omit [LinearOrder σ] in
theorem compareRanks_of_prefix {filtered : List (σ × ℤ)} {head : List ℤ}
    (h : head <+: filtered.map Prod.snd) (i : ℕ) : compareRanks i head filtered = .ok () := by
  induction filtered generalizing head i with
  | nil =>
      rw [List.map_nil, List.prefix_nil] at h
      rw [h]
      rfl
  | cons c filtered ih =>
      cases head with
      | nil => rfl
      | cons want head =>
          rw [List.map_cons, List.cons_prefix_cons] at h
          rw [compareRanks, if_neg (not_not.mpr h.1)]
          exact ih h.2 (i + 1)

omit [LinearOrder σ] in
/-- A list that starts with the matching rows is accepted. -/
theorem crossCheck_of_prefix {filtered : List (σ × ℤ)} {unfiltered : List ℤ} {mask : RowMask}
    (h : (unfiltered.filter fun id ↦ 0 ≤ id && mask.get id.toNat) <+: filtered.map Prod.snd) :
    crossCheck filtered unfiltered mask =
      .ok (unfiltered.countP fun id ↦ 0 ≤ id && mask.get id.toNat) := by
  have hlen := h.length_le
  rw [List.length_map] at hlen
  rw [crossCheck, if_neg (not_lt.mpr hlen), compareRanks_of_prefix h, List.countP_eq_length_filter]
  rfl

namespace TopK

variable {F : Type} {dot : List F → List F → σ} {q : List F} {rows : List (ℤ × List F)}

omit [LinearOrder σ] in
theorem candidates_eq_filter (keep : ℤ → Bool) :
    candidates dot keep q rows = (candidates dot (fun _ ↦ true) q rows).filter fun c ↦
      keep c.2 := by
  rw [candidates, candidates, List.filter_map, List.filter_true]
  rfl

omit [LinearOrder σ] in
theorem eq_of_rankKey_eq {a b : σ × ℤ} (h : rankKey a = rankKey b) : a = b := by
  have hpair := toLex_inj.mp h
  rw [Prod.mk.injEq] at hpair
  exact Prod.ext (OrderDual.toDual_inj.mp hpair.1) hpair.2

/-- The best of all rows that are kept are the first of the best of the kept rows. -/
theorem ranking_front {k depth : ℕ+} (hk : k ≤ depth) (keep : ℤ → Bool) :
    ((ranking dot k (fun _ ↦ true) q rows).map Prod.snd).filter keep <+:
      (ranking dot depth keep q rows).map Prod.snd := by
  have hsort : sortByKey rankKey (candidates dot keep q rows) =
      (sortByKey rankKey (candidates dot (fun _ ↦ true) q rows)).filter fun c ↦ keep c.2 := by
    rw [candidates_eq_filter keep]
    exact sortByKey_filter _ fun _ _ _ _ ↦ eq_of_rankKey_eq
  rw [List.filter_map, ranking, ranking, hsort]
  apply List.IsPrefix.map
  rw [List.prefix_take_iff]
  constructor
  · exact (List.take_prefix _ _).filter _
  · calc
      (List.filter _ (List.take k _)).length ≤ (List.take k _).length := List.length_filter_le _ _
      _ ≤ k := List.length_take_le _ _
      _ ≤ depth := hk

end TopK

/-! ## The blocks of a file -/

section Blocks

open TopK DeferredNpyF32Writer

variable {env : GroundTruthEnv σ} {raw : List (List F32)}

theorem rowBytes_append (xs ys : List (List F32)) :
    rowBytes (xs ++ ys) = rowBytes xs ++ rowBytes ys :=
  List.flatMap_append

theorem f32Row_rowBytes (rows : List (List F32)) : f32Row (rowBytes rows) = rows.flatten := by
  have hflat : rowBytes rows = rows.flatten.flatMap f32ToLeBytes := by
    rw [rowBytes, ← List.flatMap_id, List.flatMap_assoc]
    rfl
  rw [hflat, f32Row_flatMap]

theorem ensureFinite_eq_ok {sample : SampleEnv} {block : List F32} {firstId : ℤ} {dim : ℕ}
    (h : ∀ v ∈ block, F32.isFinite v = true) : ensureFinite sample block firstId dim = .ok () := by
  have hnone : block.findIdx? (fun v ↦ !F32.isFinite v) = none := by
    rw [List.findIdx?_eq_none_iff]
    intro v hv
    rw [h v hv]
    rfl
  rw [ensureFinite, hnone]

theorem length_normalizeRow (ops : F32Ops) (v : List F32) :
    (normalizeRow ops v).length = v.length := by
  rw [normalizeRow]
  split_ifs
  · exact List.length_map _
  · rfl

omit [LinearOrder σ] in
theorem numberFrom_append {F : Type} (firstId : ℤ) (xs ys : List (List F)) :
    numberFrom firstId (xs ++ ys) =
      numberFrom firstId xs ++ numberFrom (firstId + (xs.length : ℕ)) ys := by
  induction xs generalizing firstId with
  | nil =>
      rw [List.nil_append, List.length_nil, Nat.cast_zero, add_zero]
      rfl
  | cons x xs ih =>
      have hnext : firstId + 1 + (xs.length : ℕ) = firstId + ((x :: xs).length : ℕ) := by
        rw [List.length_cons]
        push_cast
        ring
      rw [List.cons_append, numberFrom_cons, numberFrom_cons, ih, hnext, List.cons_append]

variable {dim : ℕ} {queries : List (List F32)} {keep : ℕ → ℤ → Bool}

/-- What the loop makes of the rows that are left. -/
theorem groundTruthBlocks_eq (rest : Bytes) (hwidth : ∀ row ∈ raw, row.length = dim)
    (hfinite : ∀ row ∈ raw, ∀ v ∈ row, F32.isFinite v = true) {seen : List (ℤ × List F32)}
    {acc : TopK F32 σ} {done : ℕ} (hholds : Holds env.dot queries keep seen acc)
    (hdim : acc.dim = dim) (hnext : acc.nextExpectedId ≤ done) :
    ∃ acc', groundTruthBlocks env dim (done + raw.length) keep done (rowBytes raw ++ rest) acc =
        .ok (rest, acc') ∧ acc'.k = acc.k ∧
      Holds env.dot queries keep
        (seen ++ numberFrom done (raw.map (normalizeRow env.f32))) acc' := by
  induction hn : raw.length using Nat.strong_induction_on generalizing raw seen acc done with
  | _ n ih =>
      rw [groundTruthBlocks]
      rcases Nat.eq_zero_or_pos n with rfl | hpos
      · rw [List.length_eq_zero_iff] at hn
        subst hn
        rw [Nat.add_zero, if_neg (lt_irrefl _)]
        exact ⟨acc, rfl, rfl, by rwa [List.map_nil, numberFrom, List.zipIdx_nil, List.map_nil,
          List.append_nil]⟩
      · rw [if_pos (Nat.lt_add_of_pos_right hpos), Nat.add_sub_cancel_left]
        obtain ⟨xs, ys, rfl, hxs⟩ : ∃ xs ys, raw = xs ++ ys ∧ xs.length = min n blockRows :=
          ⟨raw.take (min n blockRows), raw.drop (min n blockRows), (List.take_append_drop _ _).symm,
            List.length_take_of_le (hn ▸ min_le_left _ _)⟩
        rw [List.forall_mem_append] at hwidth hfinite
        have hposx : 0 < xs.length := by
          rw [hxs]
          exact lt_min hpos (Nat.zero_lt_succ _)
        have hread : readExact (xs.length * dim * 4) (rowBytes (xs ++ ys) ++ rest) =
            .ok (rowBytes xs, rowBytes ys ++ rest) := by
          rw [rowBytes_append, List.append_assoc, Nat.mul_assoc]
          exact readExact_append (length_rowBytes hwidth.1) _
        have hwhole : ∀ v ∈ xs.flatten, F32.isFinite v = true := by
          intro v hv
          obtain ⟨row, hrow, hv⟩ := List.mem_flatten.mp hv
          exact hfinite.1 row hrow v hv
        have hdocs : ∀ doc ∈ xs.map (normalizeRow env.f32), doc.length = acc.dim := by
          rw [List.forall_mem_map]
          intro row hrow
          rw [length_normalizeRow, hwidth.1 row hrow, hdim]
        have hchunks : asChunks dim xs.flatten = xs := by
          rw [asChunks_of_length (hdim ▸ hholds.pos) (length_flatten_of_uniform hwidth.1),
            takeChunks_flatten hwidth.1]
        obtain ⟨acc₁, hadd, hholds₁, hdim₁, hk₁, hnext₁⟩ := hholds.addBlockWhere hdocs hnext
        rw [List.length_map] at hnext₁
        have hlen : ys.length < n := by
          rw [← hn, List.length_append]
          exact Nat.lt_add_of_pos_left hposx
        have hbelow : acc₁.nextExpectedId ≤ (done + xs.length : ℕ) := by
          rw [hnext₁]
          push_cast
          exact le_rfl
        obtain ⟨acc', hloop, hk, hholds'⟩ :=
          ih ys.length hlen hwidth.2 hfinite.2 hholds₁ (hdim₁.trans hdim) hbelow rfl
        refine ⟨acc', ?_, hk.trans hk₁, ?_⟩
        · rw [← hxs]
          dsimp only
          rw [hread]
          dsimp only
          rw [f32Row_rowBytes, ensureFinite_eq_ok hwhole, hchunks]
          dsimp only
          rw [hadd]
          dsimp only
          rw [← hn, List.length_append, ← Nat.add_assoc]
          exact hloop
        · rw [List.map_append, numberFrom_append, ← List.append_assoc, List.length_map]
          rw [Nat.cast_add] at hholds'
          exact hholds'

variable {assign : List ℕ} {masks : List RowMask} {file : Bytes}

/-- What a vector file, queries and masks have to fit. -/
structure Fits (env : GroundTruthEnv σ) (file : Bytes) (raw : List (List F32)) (dim : ℕ)
    (queries : List (List F32)) (assign : List ℕ) (masks : List RowMask) : Prop where
  opens : openF32Npy env.shown file = .ok (rowBytes raw, raw.length, dim)
  pos : 0 < dim
  rows : ∀ row ∈ raw, row.length = dim ∧ ∀ v ∈ row, F32.isFinite v = true
  widths : ∀ q ∈ queries, q.length = dim
  assigned : assign.length = queries.length
  indexes : ∀ p ∈ assign, p < masks.length
  covers : ∀ mask ∈ masks, mask.len = raw.length

omit [LinearOrder σ] in
theorem Fits.mask_of_lt (h : Fits env file raw dim queries assign masks) {qi : ℕ}
    (hqi : qi < queries.length) : ∃ mask, (assign[qi]?).bind (masks[·]?) = some mask := by
  rw [← h.assigned] at hqi
  rw [List.getElem?_eq_getElem hqi, Option.bind_some]
  exact ⟨_, List.getElem?_eq_getElem (h.indexes _ (List.getElem_mem hqi))⟩

/-- The rows of the file as they are ranked. -/
def normalizedRows (env : GroundTruthEnv σ) (raw : List (List F32)) : List (ℤ × List F32) :=
  numberFrom 0 (raw.map (normalizeRow env.f32))

/-- The filtered ground truth is the ranking of the rows that are admitted. -/
theorem filteredGroundTruth_eq_ok (h : Fits env file raw dim queries assign masks) (depth : ℕ+) :
    filteredGroundTruth env file queries assign masks depth =
      .ok (queries.mapIdx fun qi q ↦
        ranking env.dot depth (admits assign masks qi) q (normalizedRows env raw)) := by
  obtain ⟨acc, hnew, hdim, hk, hnext, hholds⟩ :=
    new_eq_ok env.dot (admits assign masks) h.pos h.widths depth
  have hfirst : acc.nextExpectedId ≤ ((0 : ℕ) : ℤ) := by
    rw [hnext]
    decide
  obtain ⟨acc', hloop, hk', hholds'⟩ := groundTruthBlocks_eq []
    (fun row hrow ↦ (h.rows row hrow).1) (fun row hrow ↦ (h.rows row hrow).2) hholds hdim hfirst
  have hmasks : masks.find? (fun m ↦ m.len ≠ raw.length) = none := by
    rw [List.find?_eq_none]
    intro mask hmask
    simpa using h.covers mask hmask
  have hqueries : queries.find? (fun q ↦ q.length ≠ dim) = none := by
    rw [List.find?_eq_none]
    intro q hq
    simpa using h.widths q hq
  rw [Nat.zero_add, List.append_nil] at hloop
  rw [filteredGroundTruth, h.opens, ok_bind]
  dsimp only
  rw [if_neg (not_not.mpr h.assigned), hmasks, hqueries]
  dsimp only
  rw [hnew, ok_bind, hloop, ok_bind]
  dsimp only
  rw [if_neg (not_not.mpr rfl), TopK.finish, hholds'.best_eq, hk', hk]
  rfl

/-- The ground truth of a query, of the rows its mask admits, starts with the admitted ones of
the best rows of all, in whatever blocks those were found; the check accepts it and counts
them. -/
theorem crossCheck_filteredGroundTruth (h : Fits env file raw dim queries assign masks)
    {k depth : ℕ+} (hk : k ≤ depth) :
    ∃ filtered t, filteredGroundTruth env file queries assign masks depth = .ok filtered ∧
      filtered.length = queries.length ∧
      (TopK.new queries.flatten dim k : Except String (TopK F32 σ)) = .ok t ∧
      ∀ blocks, TopK.corpusRows blocks = normalizedRows env raw → Ascending (-2 ^ 63) blocks →
        ∃ t', t.feed env.dot (fun _ _ ↦ true) (blocks.map fun b ↦ (b.1, b.2.flatten)) = .ok t' ∧
          t'.finish.length = queries.length ∧
          ∀ qi < queries.length, ∃ ranked unfiltered mask, filtered[qi]? = some ranked ∧
            t'.finish[qi]? = some unfiltered ∧ (assign[qi]?).bind (masks[·]?) = some mask ∧
            (unfiltered.map Prod.snd).filter (fun id ↦ 0 ≤ id && mask.get id.toNat) <+:
              ranked.map Prod.snd ∧
            crossCheck ranked (unfiltered.map Prod.snd) mask =
              .ok ((unfiltered.map Prod.snd).countP fun id ↦ 0 ≤ id && mask.get id.toNat) := by
  obtain ⟨t, hnew, hfeed⟩ := new_feed_eq env.dot (fun _ _ ↦ true) k h.pos h.widths
    (normalizedRows env raw)
  have hwidth : ∀ row ∈ normalizedRows env raw, row.2.length = dim := by
    intro row hrow
    obtain ⟨⟨doc, i⟩, hdoc, rfl⟩ := List.mem_map.mp hrow
    obtain ⟨v, hv, rfl⟩ := List.mem_map.mp (List.fst_mem_of_mem_zipIdx hdoc)
    rw [length_normalizeRow]
    exact (h.rows v hv).1
  refine ⟨_, t, filteredGroundTruth_eq_ok h depth, List.length_mapIdx, hnew,
    fun blocks hblocks hasc ↦ ?_⟩
  obtain ⟨t', hfed, hfinish⟩ := hfeed blocks hblocks hwidth hasc
  refine ⟨t', hfed, ?_, ?_⟩
  · rw [hfinish, List.length_mapIdx]
  · intro qi hqi
    obtain ⟨mask, hmask⟩ := h.mask_of_lt hqi
    have hq := List.getElem?_eq_getElem hqi
    have hranked : ∀ rank : ℕ → List F32 → List (σ × ℤ),
        (queries.mapIdx rank)[qi]? = some (rank qi queries[qi]) := by
      intro rank
      rw [List.getElem?_mapIdx, hq, Option.map_some]
    refine ⟨_, _, mask, hranked _, hfinish ▸ hranked _, hmask, ?_⟩
    have hfront := @ranking_front σ _ F32 env.dot queries[qi] (normalizedRows env raw) k depth hk
      (admits assign masks qi)
    have hadmits : ∀ id ∈ (ranking env.dot k (fun _ ↦ true) queries[qi]
        (normalizedRows env raw)).map Prod.snd,
        admits assign masks qi id = (0 ≤ id && mask.get id.toNat) := by
      intro id hid
      obtain ⟨c, hc, rfl⟩ := List.mem_map.mp hid
      obtain ⟨row, hrow, hid⟩ :=
        TopK.mem_candidates (mem_sortByKey.mp (List.mem_of_mem_take hc))
      have hnonneg := (mem_numberFrom hrow).1
      rw [admits, hmask, Option.any_some, ← hid, decide_eq_true hnonneg, Bool.true_and]
    rw [List.filter_congr hadmits] at hfront
    exact ⟨hfront, crossCheck_of_prefix hfront⟩

/-- The arithmetic of `1.0` and `-1.0`. -/
def signEnv : GroundTruthEnv ℤ where
  sample := ⟨fun _ ↦ .error "", fun _ ↦ .error "", fun _ ↦ 0, fun _ ↦ ""⟩
  f32 :=
    { add := fun _ y ↦ y
      mul := fun x y ↦ if x = y then ⟨0x3F800000⟩ else ⟨0xBF800000⟩
      div := fun x _ ↦ x
      sqrt := fun x ↦ x
      sumStart := ⟨0x80000000⟩
      isPositive := fun x ↦ x = ⟨0x3F800000⟩ }
  dot := fun q doc ↦ if q = doc then 1 else -1
  shown := "vectors.npy"

/-- The rows `1.0`, `-1.0`, `1.0`. -/
def signRows : List (List F32) := [[⟨0x3F800000⟩], [⟨0xBF800000⟩], [⟨0x3F800000⟩]]

/-- The last two of three rows. -/
def lastTwo : RowMask := ((RowMask.new 3).setBit 1 (Nat.le_succ 2)).setBit 2 (Nat.le_refl 3)

/-- Rows 0 and 2 tie; the mask has rows 1 and 2. -/
theorem crossCheck_filteredGroundTruth_signs :
    ∃ filtered ranked,
      filteredGroundTruth signEnv (npyF32Header 3 1 ++ rowBytes signRows) [[⟨0x3F800000⟩]] [0]
        [lastTwo] 3 = .ok filtered ∧
      filtered[0]? = some ranked ∧ crossCheck ranked [0, 2] lastTwo = .ok 1 := by
  have hfits : Fits signEnv (npyF32Header 3 1 ++ rowBytes signRows) signRows 1 [[⟨0x3F800000⟩]] [0]
      [lastTwo] :=
    { opens := @openF32Npy_written 1 signRows "vectors.npy" (by decide) (by decide)
      pos := Nat.one_pos
      rows := by decide
      widths := by decide
      assigned := rfl
      indexes := by decide
      covers := by decide }
  have hle : (2 : ℕ+) ≤ 3 := by decide
  obtain ⟨filtered, t, hfiltered, -, hnew, hcheck⟩ := crossCheck_filteredGroundTruth hfits hle
  obtain ⟨t', hfeed, -, hrank⟩ := hcheck [(0, signRows)] rfl
    ⟨by decide, trivial⟩
  obtain ⟨ranked, unfiltered, mask, hranked, hunfiltered, hmask, -, hok⟩ := hrank 0 Nat.one_pos
  obtain ⟨u, hnew', hfeed'⟩ := new_feed_eq signEnv.dot (fun _ _ ↦ true) 2 Nat.one_pos hfits.widths
    (normalizedRows signEnv signRows)
  cases hnew.symm.trans hnew'
  obtain ⟨u', hfed, hfinish⟩ := hfeed' [(0, signRows)] rfl (by decide) ⟨by decide, trivial⟩
  cases hfeed.symm.trans hfed
  have hids : unfiltered.map Prod.snd = [0, 2] := by
    rw [hfinish] at hunfiltered
    cases hunfiltered
    decide
  cases hmask
  rw [hids] at hok
  exact ⟨filtered, ranked, hfiltered, hranked, hok.trans (congrArg Except.ok (by decide))⟩

end Blocks

end VectorDbBenchmark.Msmarco
