import VectorDbBenchmark.Readers.SparseReader

/-!
# The multivector format

`readers/multivector_reader.rs` stores rows of token embeddings of one dimension as

```text
[ num_rows: u32 ][ dim: u32 ]
[ token_count: u32 × num_rows ]
[ values: f32 × (sum(token_count) × dim) ]
```

The writer narrows the row count, the token counts and the dimension to 32 bits.
-/

namespace VectorDbBenchmark.Readers

open Kit

/-- The token embeddings of one document. -/
structure MultiVector where
  vectors : List (List F32)
deriving DecidableEq, Repr

/-! ## Reading -/

def readU32 (r : Bytes) : Except String (UInt32 × Bytes) := do
  let (buf, r) ← readExact 4 r
  pure (u32FromLeBytes buf, r)

/-- `n` little-endian fields of four bytes; `block` names them in the errors. -/
def readBlock {α : Type} (block : String) (f : Bytes → α) (n maxBytes : Nat) (r : Bytes) :
    Except String (List α × Bytes) :=
  match checkedMul n 4 with
  | none => .error s!"multivector {block} size overflow"
  | some byteLen =>
    if maxBytes < byteLen then
      .error (s!"multivector file claims {byteLen} {block} bytes but file is only " ++
        s!"{maxBytes} bytes")
    else do
      let (buf, r) ← readExact byteLen r
      pure ((asChunks 4 buf).map f, r)

/-- The row loop: each row is cut off the values behind the previous one. -/
def cutRows (path : String) (dim : Nat) (values : List F32) :
    Nat → List UInt32 → Except String (List MultiVector)
  | _, [] => .ok []
  | offset, count :: counts =>
    match checkedMul count.toNat dim with
    | none => .error s!"multivector row size overflow in {path}"
    | some nFloats =>
      match checkedAdd offset nFloats with
      | none => .error s!"multivector row offset overflow in {path}"
      | some stop =>
        match getRange values offset stop with
        | none => .error s!"multivector row range {offset}..{stop} out of bounds"
        | some rowValues => do
          let vectors := if dim = 0 then [] else chunks dim rowValues
          let rows ← cutRows path dim values stop counts
          pure (⟨vectors⟩ :: rows)

/-- `read_multivector_matrix` of a file holding `file`. -/
def readMultivectorMatrix (path : String) (file : Bytes) : Except String (List MultiVector) :=
  let fileLen := file.length
  if fileLen < 8 then
    .error s!"{path}: not a readable multivector file ({fileLen} bytes, header needs 8)"
  else do
    let (numRows, r) ← readU32 file
    let (dim, r) ← readU32 r
    let (tokenCounts, r) ← readBlock "token-count" u32FromLeBytes numRows.toNat fileLen r
    let totalTokens := (tokenCounts.map UInt32.toNat).sum
    match checkedMul totalTokens dim.toNat with
    | none => .error s!"multivector total value count overflow in {path}"
    | some totalFloats =>
      if u64Size - 1 < totalFloats then
        .error s!"multivector total value count too large in {path}"
      else do
        let (values, _) ← readBlock "value" f32FromLeBytes totalFloats fileLen r
        cutRows path dim.toNat values 0 tokenCounts

/-! ## Writing -/

/-- The dimension of the first token of any row. -/
def firstDim (rows : List MultiVector) : Nat :=
  ((rows.flatMap (·.vectors)).head?.map List.length).getD 0

/-- `write_multivector_matrix`: the bytes written. -/
def writeMultivectorMatrix (rows : List MultiVector) : Except String Bytes :=
  let dim := firstDim rows
  match (rows.flatMap (·.vectors)).find? fun v ↦ v.length ≠ dim with
  | some bad =>
    .error s!"multivector token dim {bad.length} does not match the dataset's dim {dim}"
  | none =>
    let buf := u32ToLeBytes (UInt32.ofNat rows.length) ++ u32ToLeBytes (UInt32.ofNat dim)
      ++ (rows.map fun r ↦ UInt32.ofNat r.vectors.length).flatMap u32ToLeBytes
      ++ (rows.flatMap fun r ↦ r.vectors.flatten).flatMap f32ToLeBytes
    if buf.length ≤ maxVecBytes then .ok buf else .error "panic: capacity overflow"

/-! ## What can be read at all -/

/-- Rows whose counts fit their 32-bit fields and whose tokens have components. -/
structure Representable (rows : List MultiVector) : Prop where
  rows_lt : rows.length < 2 ^ 32
  tokens_lt : ∀ r ∈ rows, r.vectors.length < 2 ^ 32
  dim_lt : ∀ r ∈ rows, ∀ v ∈ r.vectors, 0 < v.length ∧ v.length < 2 ^ 32

theorem cutRows_eq_ok {path : String} {dim offset : Nat} {values : List F32}
    {counts : List UInt32} {rows : List MultiVector}
    (h : cutRows path dim values offset counts = .ok rows) :
    rows.length = counts.length ∧ ∀ r ∈ rows, r.vectors.length < 2 ^ 32 ∧
      ∀ v ∈ r.vectors, v.length = dim ∧ dim ≠ 0 := by
  induction counts generalizing offset rows with
  | nil =>
      cases h
      exact ⟨rfl, fun _ hr ↦ absurd hr List.not_mem_nil⟩
  | cons count counts ih =>
      rw [cutRows] at h
      split at h
      · cases h
      split at h
      · cases h
      split at h
      · cases h
      next nFloats hmul _ stop hadd _ rowValues hrange =>
      obtain ⟨rest, hrest, h⟩ := bind_eq_ok.mp h
      cases h
      obtain ⟨hlen, hrows⟩ := ih hrest
      rw [checkedMul] at hmul
      rw [checkedAdd] at hadd
      rw [getRange] at hrange
      split_ifs at hmul hadd hrange with hm ha hr
      cases hmul
      cases hadd
      cases hrange
      refine ⟨by rw [List.length_cons, List.length_cons, hlen], fun r hr ↦ ?_⟩
      rcases List.mem_cons.mp hr with rfl | hr
      · split_ifs with hdim
        · exact ⟨Nat.pow_pos (by decide), fun v hv ↦ absurd hv List.not_mem_nil⟩
        · have hvalues : ((values.drop offset).take (offset + count.toNat * dim - offset)).length =
              count.toNat * dim := by
            rw [Nat.add_sub_cancel_left, List.length_take_of_le]
            rw [List.length_drop]
            omega
          rw [chunks_of_length (Nat.pos_of_ne_zero hdim) hvalues]
          refine ⟨?_, fun v hv ↦ ⟨length_of_mem_takeChunks hvalues hv, hdim⟩⟩
          rw [length_takeChunks]
          exact count.toNat_lt
      · exact hrows r hr

/-- What a reader returns is representable. -/
theorem representable_of_read {path : String} {file : Bytes} {rows : List MultiVector}
    (h : readMultivectorMatrix path file = .ok rows) : Representable rows := by
  rw [readMultivectorMatrix] at h
  dsimp only at h
  split_ifs at h
  obtain ⟨⟨numRows, r⟩, -, h⟩ := bind_eq_ok.mp h
  obtain ⟨⟨dim, r⟩, -, h⟩ := bind_eq_ok.mp h
  obtain ⟨⟨counts, r⟩, hcounts, h⟩ := bind_eq_ok.mp h
  have hlen : counts.length = numRows.toNat := by
    rw [readBlock] at hcounts
    split at hcounts
    · cases hcounts
    · next byteLen hmul =>
        rw [checkedMul] at hmul
        split_ifs at hmul hcounts
        cases hmul
        obtain ⟨⟨buf, r'⟩, hread, hcounts⟩ := bind_eq_ok.mp hcounts
        cases hcounts
        obtain ⟨-, hbuf⟩ := readExact_eq_ok.mp hread
        rw [List.length_map, length_asChunks, hbuf, Nat.mul_div_cancel _ (by decide)]
  dsimp only at h
  split at h
  · cases h
  · split_ifs at h
    obtain ⟨⟨values, r⟩, -, h⟩ := bind_eq_ok.mp h
    obtain ⟨hrows, hvectors⟩ := cutRows_eq_ok h
    refine ⟨?_, fun r hr ↦ (hvectors r hr).1, fun r hr v hv ↦ ?_⟩
    · rw [hrows, hlen]
      exact numRows.toNat_lt
    · obtain ⟨hv, hdim⟩ := (hvectors r hr).2 v hv
      rw [hv]
      exact ⟨Nat.pos_of_ne_zero hdim, dim.toNat_lt⟩

/-! ## What a written file reads back as -/

/-- Every token of the rows has `dim` components. -/
def Uniform (dim : Nat) (rows : List MultiVector) : Prop :=
  ∀ r ∈ rows, ∀ v ∈ r.vectors, v.length = dim

/-- What an accepted write produced. -/
theorem writeMultivectorMatrix_eq_ok {rows : List MultiVector} {file : Bytes}
    (h : writeMultivectorMatrix rows = .ok file) :
    Uniform (firstDim rows) rows ∧ file.length ≤ maxVecBytes ∧
      file = u32ToLeBytes (UInt32.ofNat rows.length) ++ u32ToLeBytes (UInt32.ofNat (firstDim rows))
        ++ (rows.map fun r ↦ UInt32.ofNat r.vectors.length).flatMap u32ToLeBytes
        ++ (rows.flatMap fun r ↦ r.vectors.flatten).flatMap f32ToLeBytes := by
  rw [writeMultivectorMatrix] at h
  dsimp only at h
  split at h
  · cases h
  · next hfind =>
      split_ifs at h with hlen
      cases h
      refine ⟨fun r hr v hv ↦ ?_, hlen, rfl⟩
      have hall := List.find?_eq_none.mp hfind v (List.mem_flatMap.mpr ⟨r, hr, hv⟩)
      simpa using hall

theorem readU32_append (v : UInt32) (tail : Bytes) :
    readU32 (u32ToLeBytes v ++ tail) = .ok (v, tail) := by
  rw [readU32, readExact_append (length_u32ToLeBytes v), ok_bind]
  dsimp only
  rw [u32FromLeBytes_toLeBytes]
  rfl

/-- A block of fields is read back, whatever follows it. -/
theorem readBlock_flatMap {α : Type} {enc : α → Bytes} {dec : Bytes → α} (block : String)
    (henc : ∀ a, (enc a).length = 4) (hdec : ∀ a, dec (enc a) = a) {n maxBytes : Nat} {xs : List α}
    (hn : xs.length = n) (hle : n * 4 ≤ maxBytes) (hlt : maxBytes < u64Size) (tail : Bytes) :
    readBlock block dec n maxBytes (xs.flatMap enc ++ tail) = .ok (xs, tail) := by
  have hlen : (xs.flatMap enc).length = n * 4 := by rw [length_flatMap_const henc, hn]
  have hid : dec ∘ enc = id := funext hdec
  rw [readBlock, checkedMul_of_lt (lt_of_le_of_lt hle hlt)]
  dsimp only
  rw [if_neg (not_lt.mpr hle), readExact_append hlen, ok_bind]
  dsimp only
  rw [asChunks_flatMap (by decide) henc, List.map_map, hid, List.map_id]
  rfl

/-- The values of a row are cut into its tokens. -/
theorem chunks_flatten {dim : Nat} (hdim : 0 < dim) {vs : List (List F32)}
    (h : ∀ v ∈ vs, v.length = dim) : chunks dim vs.flatten = vs := by
  rw [chunks_of_length hdim (length_flatten_of_uniform h), takeChunks_flatten h]

/-- How many values the rows hold. -/
def numValues (rows : List MultiVector) : Nat := (rows.flatMap fun r ↦ r.vectors.flatten).length

/-- The row loop cuts the values of the rows into the rows. -/
theorem cutRows_values (path : String) {dim : Nat} {rows : List MultiVector}
    (huniform : Uniform dim rows) (hrep : Representable rows) (done : List F32)
    (hlt : done.length + numValues rows < u64Size) :
    cutRows path dim (done ++ rows.flatMap fun r ↦ r.vectors.flatten) done.length
      (rows.map fun r ↦ UInt32.ofNat r.vectors.length) = .ok rows := by
  induction rows generalizing done with
  | nil => rfl
  | cons r rows ih =>
      have hr : ∀ v ∈ r.vectors, v.length = dim := huniform r List.mem_cons_self
      have hcount : (UInt32.ofNat r.vectors.length).toNat = r.vectors.length :=
        UInt32.toNat_ofNat_of_lt' (hrep.tokens_lt r List.mem_cons_self)
      have hflat := length_flatten_of_uniform hr
      have hnum : numValues (r :: rows) = r.vectors.flatten.length + numValues rows := by
        rw [numValues, List.flatMap_cons, List.length_append]
        rfl
      have hmul : checkedMul (UInt32.ofNat r.vectors.length).toNat dim =
          some r.vectors.flatten.length := by
        rw [hcount, checkedMul, ← hflat, if_pos (by omega)]
      have hadd : checkedAdd done.length r.vectors.flatten.length =
          some (done ++ r.vectors.flatten).length := by
        rw [List.length_append]
        exact checkedAdd_of_lt (by omega)
      have hrange : getRange (done ++ (r.vectors.flatten ++ rows.flatMap fun r ↦ r.vectors.flatten))
          done.length (done ++ r.vectors.flatten).length = some r.vectors.flatten := by
        rw [getRange, if_pos]
        · rw [List.drop_left, List.length_append, Nat.add_sub_cancel_left, List.take_left]
        · simp only [List.length_append]
          omega
      have hvectors : (if dim = 0 then [] else chunks dim r.vectors.flatten) = r.vectors := by
        split_ifs with hdim
        · refine (List.eq_nil_iff_forall_not_mem.mpr fun v hv ↦ ?_).symm
          have hpos := (hrep.dim_lt r List.mem_cons_self v hv).1
          rw [hr v hv, hdim] at hpos
          exact absurd hpos (lt_irrefl 0)
        · exact chunks_flatten (Nat.pos_of_ne_zero hdim) hr
      have hrest : Representable rows :=
        ⟨(Nat.le_succ _).trans_lt hrep.rows_lt, fun r hr ↦ hrep.tokens_lt r (.tail _ hr),
          fun r hr ↦ hrep.dim_lt r (.tail _ hr)⟩
      rw [List.map_cons, List.flatMap_cons, cutRows, hmul]
      dsimp only
      rw [hadd]
      dsimp only
      rw [hrange]
      dsimp only
      rw [hvectors, ← List.append_assoc, ih (fun r hr ↦ huniform r (.tail _ hr)) hrest]
      · rfl
      · rw [List.length_append]
        omega

theorem sum_tokens {rows : List MultiVector} (hrep : Representable rows) {dim : Nat}
    (huniform : Uniform dim rows) :
    (((rows.map fun r ↦ UInt32.ofNat r.vectors.length).map UInt32.toNat).sum) * dim =
      numValues rows := by
  rw [numValues, List.length_flatMap, List.map_map]
  have hcount : rows.map (UInt32.toNat ∘ fun r ↦ UInt32.ofNat r.vectors.length) =
      rows.map fun r ↦ r.vectors.length :=
    List.map_congr_left fun r hr ↦ UInt32.toNat_ofNat_of_lt' (hrep.tokens_lt r hr)
  have hflat : rows.map (fun r ↦ r.vectors.flatten.length) =
      rows.map fun r ↦ r.vectors.length * dim :=
    List.map_congr_left fun r hr ↦ length_flatten_of_uniform (huniform r hr)
  rw [hcount, hflat, List.sum_map_mul_right]

/-- **The multivector format round-trips** exactly the representable rows. -/
theorem readMultivectorMatrix_writeMultivectorMatrix_iff (path : String) {rows : List MultiVector}
    {file : Bytes} (hw : writeMultivectorMatrix rows = .ok file) :
    readMultivectorMatrix path file = .ok rows ↔ Representable rows := by
  refine ⟨representable_of_read, fun hrep ↦ ?_⟩
  obtain ⟨huniform, hfit, hfile⟩ := writeMultivectorMatrix_eq_ok hw
  have hdim : firstDim rows < 2 ^ 32 := by
    rw [firstDim]
    cases hhead : (rows.flatMap (·.vectors)).head? with
    | none => exact Nat.pow_pos (by decide)
    | some v =>
        obtain ⟨r, hr, hv⟩ := List.mem_flatMap.mp (List.mem_of_mem_head? hhead)
        exact (hrep.dim_lt r hr v hv).2
  have hrows : (UInt32.ofNat rows.length).toNat = rows.length :=
    UInt32.toNat_ofNat_of_lt' hrep.rows_lt
  have hdims : (UInt32.ofNat (firstDim rows)).toNat = firstDim rows :=
    UInt32.toNat_ofNat_of_lt' hdim
  have hlen : file.length = 8 + rows.length * 4 + numValues rows * 4 := by
    rw [hfile]
    simp only [List.length_append, length_u32ToLeBytes, length_flatMap_const length_u32ToLeBytes,
      length_flatMap_const length_f32ToLeBytes, List.length_map]
    rfl
  have hmax : file.length < u64Size := hfit.trans_lt (by decide)
  have htokens := sum_tokens hrep huniform
  have hvalues : numValues rows < u64Size := by omega
  have hcountLen : (rows.map fun r ↦ UInt32.ofNat r.vectors.length).length = rows.length :=
    List.length_map _
  have hcountMax : rows.length * 4 ≤ file.length := by omega
  have hcounts := readBlock_flatMap "token-count" length_u32ToLeBytes u32FromLeBytes_toLeBytes
    hcountLen hcountMax hmax ((rows.flatMap fun r ↦ r.vectors.flatten).flatMap f32ToLeBytes)
  have hvaluesMax : numValues rows * 4 ≤ file.length := by omega
  have hvaluesLen : (rows.flatMap fun r ↦ r.vectors.flatten).length = numValues rows := rfl
  have hblock := readBlock_flatMap "value" length_f32ToLeBytes f32FromLeBytes_toLeBytes
    hvaluesLen hvaluesMax hmax []
  rw [List.append_nil] at hblock
  have hcut := cutRows_values path huniform hrep [] (by rwa [List.length_nil, Nat.zero_add])
  rw [readMultivectorMatrix]
  dsimp only
  rw [if_neg (by omega)]
  generalize file.length = fileLen at *
  rw [hfile, List.append_assoc, List.append_assoc, readU32_append, ok_bind]
  dsimp only
  rw [readU32_append, ok_bind]
  dsimp only
  rw [hrows, hdims, hcounts, ok_bind]
  dsimp only
  rw [checkedMul, htokens, if_pos hvalues]
  dsimp only
  rw [if_neg (by omega), hblock, ok_bind]
  exact hcut

/-- Three tokens, none and one. -/
theorem readMultivectorMatrix_three_rows : ∃ file,
    writeMultivectorMatrix [⟨[[⟨1⟩, ⟨2⟩], [⟨3⟩, ⟨4⟩], [⟨5⟩, ⟨6⟩]]⟩, ⟨[]⟩, ⟨[[⟨7⟩, ⟨8⟩]]⟩] =
      .ok file ∧
    readMultivectorMatrix "data.mvec" file =
      .ok [⟨[[⟨1⟩, ⟨2⟩], [⟨3⟩, ⟨4⟩], [⟨5⟩, ⟨6⟩]]⟩, ⟨[]⟩, ⟨[[⟨7⟩, ⟨8⟩]]⟩] :=
  ⟨_, rfl, (readMultivectorMatrix_writeMultivectorMatrix_iff "data.mvec" rfl).mpr
    ⟨by decide, by decide, by decide⟩⟩

/-- A token without components is written and reads back as no token. -/
theorem readMultivectorMatrix_empty_token : ∃ file, writeMultivectorMatrix [⟨[[]]⟩] = .ok file ∧
    readMultivectorMatrix "data.mvec" file = .ok [⟨[]⟩] ∧
    readMultivectorMatrix "data.mvec" file ≠ .ok [⟨[[]]⟩] :=
  ⟨_, rfl, by decide, by decide⟩

end VectorDbBenchmark.Readers
