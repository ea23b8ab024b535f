import VectorDbBenchmark.Kit.Fallible
import VectorDbBenchmark.Msmarco.HybridCorpus

/-!
# The streamed corpus is the corpus in memory

A pass over the chunks of a file is one loop over its lines, whatever the size of a chunk, and
the predicate bits that are scattered row by row are the masks that are computed predicate by
predicate.
-/

namespace VectorDbBenchmark.Msmarco

open Kit

/-! ## Chunks -/

/-- A chunk is the first of the lines. -/
theorem textLines_fillChunk (n : ℕ) (file : Text) :
    textLines file = (fillChunk n file).1 ++ textLines (fillChunk n file).2 := by
  induction n generalizing file with
  | zero => rfl
  | succ n ih =>
      rw [fillChunk]
      split_ifs with h
      · rfl
      · rw [textLines_eq_readLine fun hnil ↦ h (readLine_eq_nil.mpr hnil), List.cons_append, ← ih]

/-- A chunk that is not full ends the file. -/
theorem fillChunk_of_short {n : ℕ} {file : Text} (h : (fillChunk n file).1.length < n) :
    (fillChunk n file).2 = [] := by
  induction n generalizing file with
  | zero => exact absurd h (Nat.not_lt_zero _)
  | succ n ih =>
      rw [fillChunk] at h ⊢
      split_ifs at h ⊢ with hnil
      · exact readLine_eq_nil.mp hnil
      · exact ih (Nat.lt_of_succ_lt_succ h)

/-- A pass whose chunks are loops over their lines is a loop over the lines of the file. -/
theorem forEachChunk_toOption {σ : Type} {chunkRows : ℕ} (hchunk : chunkRows ≠ 0)
    {onChunk : ℕ → List Text → σ → Except String σ} {step : σ → Text × ℕ → Option σ}
    (hstep : ∀ first lines st,
      (onChunk first lines st).toOption = (lines.zipIdx first).foldlM step st)
    (file : Text) (rows : ℕ) (st : σ) :
    (forEachChunk chunkRows onChunk file rows st).toOption =
      ((textLines file).zipIdx rows).foldlM step st >>= fun st ↦
        some (rows + (textLines file).length, st) := by
  induction file, rows, st using forEachChunk.induct chunkRows onChunk with
  | case1 file rows st h =>
      have hnil : file = [] := by
        have hshort : (fillChunk chunkRows file).1.length < chunkRows := by
          rw [h]
          exact Nat.pos_of_ne_zero hchunk
        have hlines := textLines_fillChunk chunkRows file
        rw [h, fillChunk_of_short hshort] at hlines
        by_contra hne
        rw [textLines_eq_readLine hne] at hlines
        cases hlines
      rw [forEachChunk, dif_pos h, hnil]
      rfl
  | case2 file rows st h _ e herror =>
      have hlines := hstep rows (fillChunk chunkRows file).1 st
      rw [herror] at hlines
      rw [forEachChunk, dif_neg h, herror, textLines_fillChunk chunkRows file, List.zipIdx_append,
        List.foldlM_append, ← hlines]
      rfl
  | case3 file rows st h _ st' hok hshort =>
      have hlines := hstep rows (fillChunk chunkRows file).1 st
      rw [hok] at hlines
      rw [forEachChunk, dif_neg h, hok]
      dsimp only
      rw [if_pos hshort, textLines_fillChunk chunkRows file, fillChunk_of_short hshort,
        textLines_nil, List.append_nil, ← hlines]
      rfl
  | case4 file rows st h _ st' hok hfull ih =>
      have hlines := hstep rows (fillChunk chunkRows file).1 st
      rw [hok] at hlines
      rw [forEachChunk, dif_neg h, hok]
      dsimp only
      rw [if_neg hfull, ih]
      conv_rhs => rw [textLines_fillChunk chunkRows file]
      rw [List.zipIdx_append, List.foldlM_append, ← hlines, List.length_append, Nat.add_assoc]
      rfl

/-- A pass that reads every line on its own and then folds what it read. -/
theorem forEachChunk_collect {σ β : Type} {chunkRows : ℕ} (hchunk : chunkRows ≠ 0)
    {onChunk : ℕ → List Text → σ → Except String σ} (read : Text × ℕ → Except String β)
    (add : σ → β → σ)
    (honChunk : ∀ first lines st, (onChunk first lines st).toOption =
      ((lines.zipIdx first).mapM fun line ↦ (read line).toOption) >>= fun ys ↦
        some (ys.foldl add st))
    (file : Text) (rows : ℕ) (st : σ) :
    (forEachChunk chunkRows onChunk file rows st).toOption =
      (((textLines file).zipIdx rows).mapM fun line ↦ (read line).toOption) >>= fun ys ↦
        some (rows + (textLines file).length, ys.foldl add st) := by
  have hfold : ∀ (lines : List (Text × ℕ)) (st : σ),
      ((lines.mapM fun line ↦ (read line).toOption) >>= fun ys ↦ some (ys.foldl add st)) =
        lines.foldlM (fun st line ↦ (read line).toOption >>= fun y ↦ some (add st y)) st := by
    intro lines st
    rw [← mapM_bind_foldlM]
    refine bind_congr fun ys ↦ ?_
    exact (List.foldlM_pure (m := Option) (f := add) (l := ys)).symm
  rw [forEachChunk_toOption hchunk fun first lines st ↦ (honChunk first lines st).trans (hfold _ _),
    ← hfold, bind_assoc]
  rfl

/-! ## The rows of a file -/

section Corpus

variable {env : HybridEnv} {file : Text} {rows : List TitledRow}

/-- The rows of the lines of a file. -/
def HoldsRows (env : HybridEnv) (file : Text) (rows : List TitledRow) : Prop :=
  ((textLines file).zipIdx.mapM fun line ↦ (lineRow env line).toOption) = some rows

/-- A line break around a document is not part of it. -/
def BreaksIgnored (env : HybridEnv) (file : Text) : Prop :=
  ∀ line ∈ textLines file, (env.parse (lineText line)).toOption = (env.parse line).toOption

theorem length_of_holdsRows (h : HoldsRows env file rows) :
    rows.length = (textLines file).length := by
  rw [length_of_mapM_eq_some h, List.length_zipIdx]

theorem lineRow_toOption (line : Text × ℕ) :
    (lineRow env line).toOption =
      ((env.parse line.1).toOption.map toValue) >>= fun v ↦ (titledRow env v).toOption := by
  rw [lineRow, toOption_bind, toOption_mapError, fromStr, toOption_map]
  refine bind_congr fun v ↦ ?_
  rw [toOption_mapError]

/-- The corpus in memory has the rows of its file. -/
theorem fromPayloads_eq_ok_iff (hbreaks : BreaksIgnored env file) :
    HybridCorpus.fromPayloads env file = .ok ⟨rows⟩ ↔ HoldsRows env file rows := by
  have hread : ((bufLines file).zipIdx.mapM (lineRow env)).toOption =
      (textLines file).zipIdx.mapM fun line ↦ (lineRow env line).toOption := by
    rw [toOption_mapM, bufLines, List.zipIdx_map, List.mapM_map]
    refine mapM_congr_of_mem fun line hline ↦ ?_
    rw [Function.comp_apply, lineRow_toOption, lineRow_toOption]
    dsimp only [Prod.map]
    rw [hbreaks line.1 (List.fst_mem_of_mem_zipIdx hline)]
  rw [HoldsRows, ← hread, toOption_eq_some, HybridCorpus.fromPayloads, map_eq_ok]
  constructor
  · rintro ⟨rows', hrows, heq⟩
    cases heq
    exact hrows
  · intro h
    exact ⟨rows, h, rfl⟩

namespace StreamedCorpus

theorem scanChunk_toOption (first : ℕ) (lines : List Text) (counter : TermCounter) :
    (do
      let titled ← (lines.zipIdx first).mapM (lineRow env)
      pure (titled.foldl (fun counter row ↦ counter.addDoc row.text) counter) :
        Except String TermCounter).toOption =
      ((lines.zipIdx first).mapM fun line ↦ (lineRow env line).toOption) >>= fun ys ↦
        some (ys.foldl (fun counter row ↦ counter.addDoc row.text) counter) := by
  rw [toOption_bind, toOption_mapM]
  rfl

/-- The validating pass sees the rows, whatever the size of a chunk. -/
theorem scanWithChunk_of_holdsRows (h : HoldsRows env file rows) {chunkRows : ℕ}
    (hchunk : chunkRows ≠ 0) :
    scanWithChunk env file chunkRows = .ok (⟨rows.length, chunkRows⟩,
      rows.foldl (fun counter row ↦ counter.addDoc row.text) .new) := by
  have hpass := forEachChunk_collect hchunk (lineRow env)
    (fun (counter : TermCounter) row ↦ counter.addDoc row.text)
    (fun first lines counter ↦ scanChunk_toOption first lines counter) file 0 .new
  rw [h, Nat.zero_add, ← length_of_holdsRows h] at hpass
  rw [scanWithChunk, if_neg hchunk, toOption_eq_some.mp hpass]
  rfl

end StreamedCorpus

/-! ## Titles -/

theorem getEntry_lastEntries (key : String) (es : List (String × Json)) :
    Json.getEntry key (lastEntries es) =
      (es.filter fun e ↦ e.1 = key).getLast?.map Prod.snd := by
  induction es with
  | nil => rfl
  | cons e es ih =>
      by_cases hkey : e.1 = key
      · simp only [List.filter_cons, decide_eq_true hkey, if_true]
        rw [lastEntries]
        split_ifs with hlater
        · obtain ⟨f, hf, hfe⟩ := List.any_eq_true.mp hlater
          have hmem : f ∈ es.filter fun e ↦ e.1 = key := by
            rw [List.mem_filter, decide_eq_true_eq]
            exact ⟨hf, (of_decide_eq_true hfe).trans hkey⟩
          rw [ih, List.getLast?_cons_of_ne_nil (List.ne_nil_of_mem hmem)]
        · have hnone : es.filter (fun e ↦ e.1 = key) = [] := by
            rw [List.filter_eq_nil_iff]
            intro f hf hfkey
            refine hlater (List.any_eq_true.mpr ⟨f, hf, decide_eq_true ?_⟩)
            exact (of_decide_eq_true hfkey).trans hkey.symm
          rw [Json.getEntry, if_pos hkey, hnone]
          rfl
      · simp only [List.filter_cons, decide_eq_false hkey, if_neg Bool.false_ne_true]
        rw [lastEntries]
        split_ifs
        · exact ih
        · rw [Json.getEntry, if_neg hkey, ih]

theorem toValueIn_eq (es : List (String × Json)) :
    toValueIn es = es.map fun e ↦ (e.1, toValue e.2) := by
  induction es with
  | nil => rw [toValueIn, List.map_nil]
  | cons e es ih => rw [toValueIn, ih, List.map_cons]

/-- A payload line names its title at most once. -/
def TitleOnce (env : HybridEnv) (line : Text) : Prop :=
  ∀ es, env.parse line = .ok (.object es) → (es.filter fun e ↦ e.1 = "title").length ≤ 1

/-- Then the title alone is the title of the row. -/
theorem titleText_of_titledRow {v : Json} {row : TitledRow}
    (h : titledRow env (toValue v) = .ok row)
    (honce : ∀ es, v = .object es → (es.filter fun e ↦ e.1 = "title").length ≤ 1) :
    ∃ t, titleOnly v = .ok t ∧ StreamedCorpus.titleText t = row.text := by
  rw [titledRow] at h
  obtain ⟨d, hpayload, h⟩ := bind_eq_ok.mp h
  cases v with
  | object es =>
      have hget : (toValue (.object es)).get textField =
          (es.filter fun e ↦ e.1 = "title").getLast?.map fun e ↦ toValue e.2 := by
        rw [toValue, Json.get, getEntry_lastEntries, toValueIn_eq, List.filter_map,
          List.getLast?_map, Option.map_map]
        rfl
      have hlen := honce es rfl
      rw [hget] at h
      rw [titleOnly]
      rcases hes : es.filter (fun e ↦ e.1 = "title") with _ | ⟨⟨key, v⟩, _ | ⟨e', rest⟩⟩
      · rw [hes] at h ⊢
        cases h
        exact ⟨none, rfl, rfl⟩
      · rw [hes] at h ⊢
        cases v with
        | null =>
            cases h
            exact ⟨none, rfl, rfl⟩
        | string s =>
            cases h
            exact ⟨some (.string s), rfl, rfl⟩
        | _ => cases h
      · rw [hes] at hlen
        exact absurd hlen (by simp)
  | _ =>
      rw [toValue] at hpayload
      all_goals cases hpayload

namespace StreamedCorpus

theorem lineWeight_toOption {line : Text × ℕ} {row : TitledRow}
    (honce : TitleOnce env line.1) (h : (lineRow env line).toOption = some row) (term : Text) :
    (lineWeight env term line).toOption = some (classify row.text term).weight := by
  rw [lineRow_toOption] at h
  obtain ⟨v', hv', hrow⟩ := Option.bind_eq_some_iff.mp h
  obtain ⟨v, hv, rfl⟩ := Option.map_eq_some_iff.mp hv'
  have hparse := toOption_eq_some.mp hv
  obtain ⟨t, ht, htext⟩ := titleText_of_titledRow (toOption_eq_some.mp hrow) fun es hes ↦
    honce es (hes ▸ hparse)
  rw [lineWeight, titleFromStr, hparse, ok_bind, ht]
  rw [← htext]
  rfl

theorem add_foldl_add (total : ℕ × ℕ) (weights : List (ℕ × ℕ)) :
    total + weights.foldl (· + ·) (0, 0) = weights.foldl (· + ·) total := by
  have hsum : ∀ start : ℕ × ℕ, weights.foldl (· + ·) start = start + weights.sum := by
    intro start
    induction weights generalizing start with
    | nil => exact (add_zero start).symm
    | cons w weights ih => rw [List.foldl_cons, ih, List.sum_cons, add_assoc]
  rw [hsum, hsum, ← Prod.zero_eq_mk, zero_add]

theorem scanTermChunk_toOption (term : Text) (first : ℕ) (lines : List Text) (total : ℕ × ℕ) :
    (do
      let weights ← (lines.zipIdx first).mapM (lineWeight env term)
      pure (total + weights.foldl (· + ·) (0, 0)) : Except String (ℕ × ℕ)).toOption =
      ((lines.zipIdx first).mapM fun line ↦ (lineWeight env term line).toOption) >>= fun ys ↦
        some (ys.foldl (· + ·) total) := by
  rw [toOption_bind, toOption_mapM]
  refine bind_congr fun ys ↦ ?_
  rw [add_foldl_add]
  rfl

/-- The streamed scan of a term counts what the scan in memory counts. -/
theorem scanTerm_of_holdsRows (h : HoldsRows env file rows)
    (honce : ∀ line ∈ textLines file, TitleOnce env line) {chunkRows : ℕ} (hchunk : chunkRows ≠ 0)
    (term : Text) :
    scanTerm env ⟨rows.length, chunkRows⟩ file term = .ok (HybridCorpus.scanTerm ⟨rows⟩ term) := by
  have hweights : ((textLines file).zipIdx.mapM fun line ↦
      (lineWeight env term line).toOption) =
        some (rows.map fun row ↦ (classify row.text term).weight) := by
    refine mapM_eq_some_map h ?_
    intro line hline row hrow
    exact lineWeight_toOption (honce line.1 (List.fst_mem_of_mem_zipIdx hline)) hrow term
  have hpass := forEachChunk_collect hchunk (lineWeight env term) (· + ·)
    (fun first lines total ↦ scanTermChunk_toOption term first lines total) file 0 (0, 0)
  rw [hweights, Nat.zero_add, ← length_of_holdsRows h] at hpass
  rw [scanTerm, toOption_eq_some.mp hpass, ok_bind]
  dsimp only
  rw [checkRows, if_neg (not_not.mpr rfl), ok_bind]
  rfl

end StreamedCorpus

/-! ## Masks -/

section Masks

variable {compiled : List (HybridTemplate × Predicate)}

/-- One row in the mask of one predicate. -/
def stepMask (env : HybridEnv) (p : HybridTemplate × Predicate) (mask : RowMask)
    (row : TitledRow × ℕ) : Option RowMask :=
  (rowMatches env row.1 p).toOption >>= fun hit ↦
    (if hit then mask.set row.2 else .ok mask).toOption

/-- The masks that are computed predicate by predicate. -/
theorem fromBools_rowMatches (p : HybridTemplate × Predicate) :
    (do
      let mask ← rows.mapM fun row ↦ rowMatches env row p
      RowMask.fromBools mask : Except String RowMask).toOption =
      rows.zipIdx.foldlM (stepMask env p) (.new rows.length) := by
  have hlen : ((rows.mapM fun row ↦ (rowMatches env row p).toOption) >>= fun bits ↦
      (RowMask.fromBools bits).toOption) =
      ((rows.mapM fun row ↦ (rowMatches env row p).toOption) >>= fun bits ↦
        bits.zipIdx.foldlM (fun m b ↦ (if b.1 then m.set b.2 else .ok m).toOption)
          (RowMask.new rows.length)) := by
    cases hbits : rows.mapM fun row ↦ (rowMatches env row p).toOption with
    | none => rfl
    | some bits =>
        rw [some_bind, some_bind, RowMask.fromBools, toOption_foldlM, length_of_mapM_eq_some hbits]
  rw [toOption_bind, toOption_mapM, hlen, mapM_bind_foldlM_fst]
  rfl

namespace StreamedCorpus

/-- The bits of a row are its hits. -/
theorem packRow_toOption (row : TitledRow) :
    (packRow env compiled row).toOption =
      (compiled.mapM fun p ↦ (rowMatches env row p).toOption) >>= fun hits ↦
        some (hits.zipIdx.foldl (fun b hit ↦ if hit.1 then setWordBit b hit.2 else b) 0) := by
  have hfold : ∀ hits : List Bool,
      some (hits.zipIdx.foldl (fun b hit ↦ if hit.1 then setWordBit b hit.2 else b) (0 : UInt64)) =
        hits.zipIdx.foldlM (fun b hit ↦ some (if hit.1 then setWordBit b hit.2 else b)) 0 :=
    fun hits ↦ (List.foldlM_pure (m := Option) (l := hits.zipIdx)).symm
  simp only [hfold]
  rw [mapM_bind_foldlM_fst, packRow, toOption_foldlM]
  congr 1
  funext b p
  rw [toOption_bind]
  refine bind_congr fun hit ↦ ?_
  cases hit <;> rfl

theorem markRow_toOption {hits : List Bool} {masks : List RowMask} {b : UInt64} (row : ℕ)
    (hlen : hits.length = masks.length) (h64 : hits.length ≤ 64)
    (hb : ∀ j < 64, wordBit b j = hits[j]?.getD false) :
    (markRow b row masks).toOption =
      (hits.zip masks).mapM fun q ↦ (if q.1 then q.2.set row else .ok q.2).toOption := by
  have hzip : masks.zipIdx.map (fun mask ↦ (wordBit b mask.2, mask.1)) = hits.zip masks := by
    refine List.ext_getElem ?_ ?_
    · rw [List.length_map, List.length_zipIdx, List.length_zip, hlen, Nat.min_self]
    · intro j hj hj'
      rw [List.length_map, List.length_zipIdx] at hj
      rw [List.getElem_map, List.getElem_zip, List.getElem_zipIdx, Nat.zero_add,
        hb j (by omega), List.getElem?_eq_getElem (hlen ▸ hj), Option.getD_some]
  rw [← hzip, List.mapM_map, markRow, toOption_mapM]
  refine mapM_congr_of_mem fun mask _ ↦ ?_
  rw [Function.comp_apply]
  rfl

/-- One row moves every mask by its own step. -/
theorem markBits_toOption {masks : List RowMask} {n : ℕ} (hlen : masks.length = compiled.length)
    (h64 : compiled.length ≤ 64) {row : TitledRow × ℕ} (hrow : row.2 < n) :
    ((packRow env compiled row.1).toOption >>= fun b ↦
        (markBits env n masks (b, row.2)).toOption) =
      (compiled.zip masks).mapM fun q ↦ stepMask env q.1 q.2 row := by
  have hpairs := mapM_zip_bind (fun p ↦ (rowMatches env row.1 p).toOption)
    (fun hit (mask : RowMask) ↦ (if hit then mask.set row.2 else .ok mask).toOption) hlen.symm
  rw [packRow_toOption, bind_assoc]
  refine Eq.trans ?_ hpairs
  cases hhits : compiled.mapM fun p ↦ (rowMatches env row.1 p).toOption with
  | none => rfl
  | some hits =>
      have hcount := length_of_mapM_eq_some hhits
      rw [some_bind, some_bind, some_bind, markBits, if_neg (not_le.mpr hrow)]
      refine markRow_toOption row.2 (hcount.trans hlen.symm) (hcount.trans_le h64) ?_
      intro j hj
      rw [wordBit_foldl_set (by omega) hj, wordBit_zero hj, Bool.false_or, flagAt_zero]

theorem evaluateChunk_toOption (n first : ℕ) (lines : List Text) (masks : List RowMask) :
    (evaluateChunk env compiled n first lines masks).toOption =
      (lines.zipIdx first).foldlM (fun masks line ↦
        (lineRow env line).toOption >>= fun row ↦
          (packRow env compiled row).toOption >>= fun b ↦
            (markBits env n masks (b, line.2)).toOption) masks := by
  have hbits : ∀ line : Text × ℕ,
      (do packRow env compiled (← lineRow env line) : Except String UInt64).toOption =
        (lineRow env line).toOption >>= fun row ↦ (packRow env compiled row).toOption :=
    fun line ↦ toOption_bind _ _
  rw [evaluateChunk, toOption_bind, toOption_mapM]
  simp only [toOption_foldlM, hbits]
  rw [mapM_bind_foldlM_zipIdx]
  simp only [bind_assoc]

/-- All passes over the rows: the masks predicate by predicate. -/
theorem forEachChunk_evaluate (compiled : List (HybridTemplate × Predicate))
    (h : HoldsRows env file rows) (h64 : compiled.length ≤ 64) {chunkRows : ℕ}
    (hchunk : chunkRows ≠ 0) :
    (forEachChunk chunkRows (evaluateChunk env compiled rows.length) file 0
        (compiled.map fun _ ↦ RowMask.new rows.length)).toOption =
      (compiled.mapM fun p ↦ do
        let mask ← rows.mapM fun row ↦ rowMatches env row p
        RowMask.fromBools mask).toOption >>= fun masks ↦ some (rows.length, masks) := by
  have hrows : ((textLines file).zipIdx.foldlM (fun masks line ↦
      (lineRow env line).toOption >>= fun row ↦
        (packRow env compiled row).toOption >>= fun b ↦
          (markBits env rows.length masks (b, line.2)).toOption)
      (compiled.map fun _ ↦ RowMask.new rows.length)) =
      rows.zipIdx.foldlM (fun masks row ↦ (packRow env compiled row.1).toOption >>= fun b ↦
        (markBits env rows.length masks (b, row.2)).toOption)
        (compiled.map fun _ ↦ RowMask.new rows.length) := by
    have hread := mapM_bind_foldlM_zipIdx (fun line ↦ (lineRow env line).toOption)
      (fun (masks : List RowMask) (row : TitledRow × ℕ) ↦
        (packRow env compiled row.1).toOption >>= fun b ↦
          (markBits env rows.length masks (b, row.2)).toOption) (textLines file) 0
      (compiled.map fun _ ↦ RowMask.new rows.length)
    rw [h, some_bind] at hread
    exact hread.symm
  have hcolumns : rows.zipIdx.foldlM (fun masks row ↦
      (packRow env compiled row.1).toOption >>= fun b ↦
        (markBits env rows.length masks (b, row.2)).toOption)
      (compiled.map fun _ ↦ RowMask.new rows.length) =
      rows.zipIdx.foldlM (fun masks row ↦ (compiled.zip masks).mapM fun q ↦
        stepMask env q.1 q.2 row) (compiled.map fun _ ↦ RowMask.new rows.length) := by
    refine foldlM_congr_of_inv (fun masks ↦ masks.length = compiled.length) ?_
      (List.length_map _)
    intro row hrow masks hlen
    refine ⟨markBits_toOption hlen h64 (List.snd_lt_of_mem_zipIdx hrow), ?_⟩
    intro masks' hmasks'
    rw [length_of_mapM_eq_some hmasks', List.length_zip, hlen, Nat.min_self]
  have hpairs : compiled.zip (compiled.map fun _ ↦ RowMask.new rows.length) =
      compiled.map fun p ↦ (p, RowMask.new rows.length) := by
    have hzip : (compiled.map id).zip (compiled.map fun _ ↦ RowMask.new rows.length) =
        compiled.map fun p ↦ (p, RowMask.new rows.length) := List.zip_map'
    rwa [List.map_id] at hzip
  have hmasks : (compiled.mapM fun p ↦ do
      let mask ← rows.mapM fun row ↦ rowMatches env row p
      RowMask.fromBools mask).toOption =
      compiled.mapM fun p ↦ rows.zipIdx.foldlM (stepMask env p) (RowMask.new rows.length) := by
    rw [toOption_mapM]
    exact mapM_congr_of_mem fun p _ ↦ fromBools_rowMatches p
  rw [forEachChunk_toOption hchunk fun first lines masks ↦
    evaluateChunk_toOption rows.length first lines masks, hrows, hcolumns,
    foldlM_mapM_comm (stepMask env) compiled rows.zipIdx (List.length_map _).symm, hpairs,
    List.mapM_map, hmasks, Nat.zero_add, ← length_of_holdsRows h]
  rfl

/-- The streamed evaluation is the evaluation in memory. -/
theorem evaluate_of_holdsRows (h : HoldsRows env file rows) {chunkRows : ℕ}
    (hchunk : chunkRows ≠ 0) {templates : List HybridTemplate} (h64 : templates.length ≤ 64) :
    (evaluate env ⟨rows.length, chunkRows⟩ file templates).toOption =
      (Msmarco.evaluate env ⟨rows⟩ templates).toOption := by
  rw [evaluate, Msmarco.evaluate]
  cases hcompiled : compileTemplates env templates with
  | error e => rfl
  | ok compiled =>
      have hcount : compiled.length = templates.length :=
        (mapM_eq_ok.mp hcompiled).length_eq.symm
      have hmasks := forEachChunk_evaluate compiled h (hcount.trans_le h64) hchunk
      rw [ok_bind, ok_bind, if_neg (not_lt.mpr (hcount.trans_le h64)), toOption_bind, hmasks,
        toOption_bind, bind_assoc]
      refine bind_congr fun masks ↦ ?_
      rw [some_bind]
      dsimp only
      rw [checkRows, if_neg (not_not.mpr rfl), ok_bind]

end StreamedCorpus

end Masks

/-! ## Both corpora of one file -/

/-- Both choices of terms take the same steps. -/
theorem chooseTerms_of_holdsRows (h : HoldsRows env file rows)
    (honce : ∀ line ∈ textLines file, TitleOnce env line) {chunkRows : ℕ} (hchunk : chunkRows ≠ 0) :
    StreamedCorpus.chooseTerms env ⟨rows.length, chunkRows⟩ file
        (rows.foldl (fun counter row ↦ counter.addDoc row.text) .new) =
      HybridCorpus.chooseTerms ⟨rows⟩ := by
  rw [StreamedCorpus.chooseTerms, HybridCorpus.chooseTerms]
  congr 1
  funext term
  exact StreamedCorpus.scanTerm_of_holdsRows h honce hchunk term

end Corpus

/-- For a file that both corpora accept, whatever the size of a chunk, the streamed evaluation
gives the templates, counts and masks of the evaluation in memory; when no line names its title
twice the scans and the choice of terms agree as well; and a mask made of Booleans holds exactly
these. -/
theorem streamedCorpus_agrees (env : HybridEnv) (file : Text) (hbreaks : BreaksIgnored env file)
    (chunkRows : ℕ) (corpus : HybridCorpus)
    (hcorpus : HybridCorpus.fromPayloads env file = .ok corpus)
    (streamed : StreamedCorpus) (counter : TermCounter)
    (hscan : StreamedCorpus.scanWithChunk env file chunkRows = .ok (streamed, counter)) :
    (∀ templates, templates.length ≤ 64 →
      (streamed.evaluate env file templates).toOption =
        (evaluate env corpus templates).toOption) ∧
    ((∀ line ∈ textLines file, TitleOnce env line) →
      (∀ term, streamed.scanTerm env file term = .ok (corpus.scanTerm term)) ∧
      streamed.chooseTerms env file counter = corpus.chooseTerms) ∧
    ∀ bits, ∃ mask, RowMask.fromBools bits = .ok mask ∧ mask.len = bits.length ∧
      (∀ i, mask.get i = bits[i]?.getD false) ∧ mask.countOnes = bits.count true := by
  have hrows : HoldsRows env file corpus.rows := (fromPayloads_eq_ok_iff hbreaks).mp hcorpus
  have hchunk : chunkRows ≠ 0 := by
    intro hzero
    rw [StreamedCorpus.scanWithChunk, if_pos hzero] at hscan
    cases hscan
  rw [StreamedCorpus.scanWithChunk_of_holdsRows hrows hchunk] at hscan
  cases hscan
  refine ⟨?_, ?_, RowMask.fromBools_eq⟩
  · intro templates h64
    exact StreamedCorpus.evaluate_of_holdsRows hrows hchunk h64
  · intro honce
    exact ⟨StreamedCorpus.scanTerm_of_holdsRows hrows honce hchunk,
      chooseTerms_of_holdsRows hrows honce hchunk⟩

/-! ## A payload with one title and with two -/

def natJson (n : UInt64) : Json := .number (.posInt n.toNat n.toNat_lt)

/-- A payload of the docid `a`. -/
def payloadOfA (titles : List String) : Json :=
  .object ([("docid", .string "a"), ("category", .string "cat17"), ("doc_len", natJson 147),
    ("tier", natJson 0), ("rand_key", natJson 680234847840)] ++
    titles.map fun t ↦ ("title", .string t))

/-- The parser on such a payload, and the digest of the salt and the docid `a`. -/
def envOfA (titles : List String) : HybridEnv where
  parse := fun _ ↦ .ok (payloadOfA titles)
  sha256 := fun _ ↦ [229, 89, 126, 73, 233, 90, 194, 176, 195, 107, 33, 19, 34, 57, 242, 39, 32, 54,
    146, 86, 224, 201, 159, 148, 158, 97, 40, 14, 96, 48, 80, 57]
  display := fun _ ↦ ""
  debug := fun s ↦ s
  debugLeaf := fun _ ↦ ""
  path := "payloads.jsonl"

def lineOfA : String :=
  "\x7b\"docid\":\"a\",\"category\":\"cat17\",\"doc_len\":147,\"tier\":0," ++
    "\"rand_key\":680234847840,\"title\":\"x\"\x7d"

def lineOfATwice : String :=
  "\x7b\"docid\":\"a\",\"category\":\"cat17\",\"doc_len\":147,\"tier\":0," ++
    "\"rand_key\":680234847840,\"title\":\"x\",\"title\":\"y\"\x7d"

def rowOfA (title : String) : TitledRow := ⟨⟨17, 147, 0, 680234847840⟩, some title⟩

/-- A file of lines that are read holds their rows. -/
theorem holdsRows_writeLines {env : HybridEnv} {lines : List Text} {row : Text → TitledRow}
    (hlines : ∀ line ∈ lines, '\n' ∉ line)
    (h : ∀ line ∈ lines, ∃ v, env.parse (line ++ ['\n']) = .ok v ∧
      titledRow env (toValue v) = .ok (row line)) :
    HoldsRows env (writeLines lines) (lines.map row) := by
  rw [HoldsRows, textLines_writeLines hlines]
  have hread : ∀ n, ((lines.map (· ++ ['\n'])).zipIdx n).mapM
      (fun line ↦ (lineRow env line).toOption) = some (lines.map row) := by
    clear hlines
    induction lines with
    | nil => exact fun _ ↦ rfl
    | cons line lines ih =>
        intro n
        obtain ⟨⟨v, hparse, hrow⟩, hrest⟩ := List.forall_mem_cons.mp h
        rw [List.map_cons, List.zipIdx_cons, List.mapM_cons, ih hrest (n + 1), lineRow_toOption,
          hparse, toOption_ok, Option.map_some, some_bind, hrow, toOption_ok]
        rfl
  exact hread 0

def payloadOfB : Json :=
  .object [("docid", .string "b"), ("category", .string "cat00"), ("doc_len", natJson 247),
    ("tier", natJson 2), ("rand_key", natJson 352577381914), ("title", .string "river otter")]

def lineOfB : String :=
  "\x7b\"docid\":\"b\",\"category\":\"cat00\",\"doc_len\":247,\"tier\":2," ++
    "\"rand_key\":352577381914,\"title\":\"river otter\"\x7d"

def rowOfB : TitledRow := ⟨⟨0, 247, 2, 352577381914⟩, some "river otter"⟩

/-- The parser on the lines of both docids, and the digests of the salt and either of them. -/
def envOfBoth : HybridEnv :=
  { envOfA ["x"] with
    parse := fun line ↦
      .ok (if (line.drop 10).head? = some 'b' then payloadOfB else payloadOfA ["x"])
    sha256 := fun bytes ↦
      if bytes.getLast? = some 98 then
        [186, 184, 165, 215, 99, 13, 163, 28, 194, 226, 189, 247, 192, 185, 164, 199, 239, 138, 27,
          22, 43, 157, 66, 90, 82, 23, 63, 230, 26, 107, 40, 127]
      else (envOfA ["x"]).sha256 bytes }

/-- Ten passages of either docid. -/
def bothLines : List Text := List.replicate 10 lineOfA.toList ++ List.replicate 10 lineOfB.toList

def bothRows : List TitledRow := List.replicate 10 (rowOfA "x") ++ List.replicate 10 rowOfB

theorem mem_bothLines {line : Text} (h : line ∈ bothLines) :
    line = lineOfA.toList ∨ line = lineOfB.toList :=
  (List.mem_append.mp h).imp List.eq_of_mem_replicate List.eq_of_mem_replicate

theorem notMem_bothLines {line : Text} (h : line ∈ bothLines) : '\n' ∉ line := by
  rcases mem_bothLines h with rfl | rfl
  · decide
  · decide

theorem holdsRows_bothLines : HoldsRows envOfBoth (writeLines bothLines) bothRows := by
  have hA : titledRow envOfBoth (toValue (payloadOfA ["x"])) = .ok (rowOfA "x") := by
    decide +kernel
  have hB : titledRow envOfBoth (toValue payloadOfB) = .ok rowOfB := by decide +kernel
  have hrows : bothRows =
      bothLines.map fun line ↦ if (line.drop 10).head? = some 'b' then rowOfB else rowOfA "x" := by
    rw [bothRows, bothLines, List.map_append, List.map_replicate, List.map_replicate]
    rfl
  rw [hrows]
  refine holdsRows_writeLines (fun line hline ↦ notMem_bothLines hline) fun line hline ↦ ?_
  rcases mem_bothLines hline with rfl | rfl
  · exact ⟨_, rfl, hA⟩
  · exact ⟨_, rfl, hB⟩

def cat17Template : HybridTemplate where
  predicateId := "cat17"
  shape := "tag"
  design := .s50
  conditions := .object [("and", .array [.object [("category",
    .object [("match", .object [("value", .string "cat17")])])]])]

/-- Both evaluations of twenty rows, one in chunks of seven, have the mask of the first ten. -/
theorem streamedCorpus_agrees_bothLines :
    (StreamedCorpus.evaluate envOfBoth ⟨20, 7⟩ (writeLines bothLines)
        [cat17Template]).toOption.map (fun e ↦ (e.counts, e.masks.map RowMask.words)) =
      some ([10], [[1023]]) ∧
    StreamedCorpus.scanTerm envOfBoth ⟨20, 7⟩ (writeLines bothLines) "otter".toList =
      .ok (10, 0) ∧
    ∀ counter, StreamedCorpus.scanWithChunk envOfBoth (writeLines bothLines) 7 =
        .ok (⟨20, 7⟩, counter) →
      StreamedCorpus.chooseTerms envOfBoth ⟨20, 7⟩ (writeLines bothLines) counter =
        HybridCorpus.chooseTerms ⟨bothRows⟩ := by
  have hbreaks : BreaksIgnored envOfBoth (writeLines bothLines) := by
    rw [BreaksIgnored, textLines_writeLines fun _ ↦ notMem_bothLines]
    refine List.forall_mem_map.mpr fun line hline ↦ ?_
    rcases mem_bothLines hline with rfl | rfl
    · rfl
    · rfl
  have honce : ∀ line ∈ textLines (writeLines bothLines), TitleOnce envOfBoth line := by
    rw [textLines_writeLines fun _ ↦ notMem_bothLines]
    refine List.forall_mem_map.mpr fun line hline es hes ↦ ?_
    rcases mem_bothLines hline with rfl | rfl
    · cases hes
      decide
    · cases hes
      decide
  have hcorpus := (fromPayloads_eq_ok_iff hbreaks).mpr holdsRows_bothLines
  have hscan := StreamedCorpus.scanWithChunk_of_holdsRows holdsRows_bothLines
    (show (7 : ℕ) ≠ 0 by decide)
  have hlen : bothRows.length = 20 := rfl
  rw [hlen] at hscan
  obtain ⟨hevaluate, hterms, -⟩ :=
    streamedCorpus_agrees envOfBoth _ hbreaks 7 ⟨bothRows⟩ hcorpus _ _ hscan
  refine ⟨?_, ?_, ?_⟩
  · rw [hevaluate [cat17Template] (by decide)]
    decide +kernel
  · rw [(hterms honce).1]
    decide +kernel
  · intro counter hcounter
    cases hscan.symm.trans hcounter
    exact (hterms honce).2

theorem holdsRows_lineOfATwice :
    HoldsRows (envOfA ["x", "y"]) (lineOfATwice.toList ++ ['\n']) [rowOfA "y"] := by
  have hrow : titledRow (envOfA ["x", "y"]) (toValue (payloadOfA ["x", "y"])) =
      .ok (rowOfA "y") := by
    decide +kernel
  rw [← writeLines_singleton]
  show HoldsRows _ _ ([lineOfATwice.toList].map fun _ ↦ rowOfA "y")
  exact holdsRows_writeLines (List.forall_mem_singleton.mpr (by decide))
    (List.forall_mem_singleton.mpr ⟨_, rfl, hrow⟩)

/-- A second title is dropped by `Value` and refused by `TitleOnly`. -/
theorem scanTerm_twiceTitled :
    ∃ counter, HybridCorpus.fromPayloads (envOfA ["x", "y"]) (lineOfATwice.toList ++ ['\n']) =
        .ok ⟨[rowOfA "y"]⟩ ∧
      StreamedCorpus.scanWithChunk (envOfA ["x", "y"]) (lineOfATwice.toList ++ ['\n']) 65536 =
        .ok (⟨1, 65536⟩, counter) ∧
      ∀ term, StreamedCorpus.scanTerm (envOfA ["x", "y"]) ⟨1, 65536⟩
        (lineOfATwice.toList ++ ['\n']) term ≠ .ok (HybridCorpus.scanTerm ⟨[rowOfA "y"]⟩ term) := by
  have hbreaks : BreaksIgnored (envOfA ["x", "y"]) (lineOfATwice.toList ++ ['\n']) := fun _ _ ↦ rfl
  have hchunk : (65536 : ℕ) ≠ 0 := by decide
  refine ⟨_, (fromPayloads_eq_ok_iff hbreaks).mpr holdsRows_lineOfATwice,
    StreamedCorpus.scanWithChunk_of_holdsRows holdsRows_lineOfATwice hchunk, ?_⟩
  intro term h
  have hpass := forEachChunk_collect hchunk
    (StreamedCorpus.lineWeight (envOfA ["x", "y"]) term) (· + ·)
    (fun first lines total ↦ StreamedCorpus.scanTermChunk_toOption term first lines total)
    (lineOfATwice.toList ++ ['\n']) 0 (0, 0)
  have hline : '\n' ∉ lineOfATwice.toList := by decide
  rw [textLines_append hline] at hpass
  rw [StreamedCorpus.scanTerm] at h
  obtain ⟨r, hr, -⟩ := bind_eq_ok.mp h
  rw [hr] at hpass
  cases hpass

end VectorDbBenchmark.Msmarco
