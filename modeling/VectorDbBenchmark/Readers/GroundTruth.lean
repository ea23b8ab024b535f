import VectorDbBenchmark.Readers.CsrAcceptance

/-!
# The ground-truth format

`results.gt`, read and written by `readers/sparse_reader.rs`:

```text
[ n: u32 ][ d: u32 ]
[ ids:    i32 × (n × d) ]
[ scores: f32 × (n × d) ]
```

The file must be as long as the header demands; the scores are not read.  A file has
fewer than `2 ^ 64` bytes.
-/

namespace VectorDbBenchmark.Readers

open Kit

/-! ## Reading -/

/-- `read_gt_neighbours` of a file holding `file`. -/
def readGtNeighbours (path : String) (file : Bytes) : Except String (List (List Int64)) := do
  let fileLen := file.length
  let (header, r) ← (readExact 8 file).mapError fun e ↦ s!"read {path} header: {e}"
  let n := (u32FromLeBytes (header.take 4)).toNat
  let d := (u32FromLeBytes ((header.drop 4).take 4)).toNat
  if d = 0 ∧ 0 < n then
    .error s!"ground-truth {path} declares {n} queries but 0 neighbours each"
  else match checkedMul n d with
    | none => .error s!"ground-truth n*d overflow in {path}"
    | some count =>
      match (checkedMul count 8).bind (checkedAdd · 8) with
      | none => .error s!"ground-truth size overflow in {path}"
      | some expected =>
        if expected ≠ fileLen then
          .error (s!"ground-truth {path} declares {n} queries × {d} neighbours " ++
            s!"({expected} bytes) but the file is {fileLen} bytes")
        else do
          let (ids, _) ← readU32Array i32FromLeBytes count fileLen r
          pure ((chunks (max d 1) ids).map fun c ↦ c.map Int32.toInt64)

/-! ## Writing -/

/-- `i32::try_from(id).is_err()`. -/
def outsideI32 (id : Int64) : Bool := id.toInt < -2 ^ 31 || 2 ^ 31 ≤ id.toInt

/-- `write_gt_neighbours`: the bytes written. -/
def writeGtNeighbours (rows : List (List Int64)) : Except String Bytes :=
  let d := (rows.head?.map List.length).getD 0
  if rows.any fun r ↦ r.length ≠ d then
    .error "ground-truth rows must all have the same length"
  else if d = 0 ∧ rows ≠ [] then
    .error (s!"cannot write ground truth for {rows.length} queries with 0 neighbours each: the " ++
      "format cannot represent it (and read_gt_neighbours rejects it)")
  else match rows.flatten.find? outsideI32 with
    | some bad => .error s!"ground-truth id {bad} does not fit in the format's int32 id field"
    | none =>
      let buf := u32ToLeBytes (UInt32.ofNat rows.length) ++ u32ToLeBytes (UInt32.ofNat d)
        ++ rows.flatten.flatMap (fun id ↦ i32ToLeBytes id.toInt32)
        ++ rows.flatten.flatMap (fun _ ↦ f32ToLeBytes ⟨0⟩)
      if buf.length ≤ maxVecBytes then .ok buf else .error "panic: capacity overflow"

/-! ## What is accepted -/

/-- The row count a file declares. -/
def gtRows (file : Bytes) : Nat := (u32FromLeBytes (file.take 4)).toNat

/-- The neighbours for each row that a file declares. -/
def gtDepth (file : Bytes) : Nat := (u32FromLeBytes ((file.drop 4).take 4)).toNat

/-- The ids a file stores. -/
def gtIds (file : Bytes) : List Int64 :=
  (takeChunks 4 (gtRows file * gtDepth file) (file.drop 8)).map fun c ↦ (i32FromLeBytes c).toInt64

/-- A file as long as its header demands. -/
structure GtSized (file : Bytes) : Prop where
  header : 8 ≤ file.length
  length : file.length = 8 + gtRows file * gtDepth file * 4 + gtRows file * gtDepth file * 4
  depth : 0 < gtRows file → 0 < gtDepth file

theorem gtRows_lt (file : Bytes) : gtRows file < 2 ^ 32 := (u32FromLeBytes (file.take 4)).toNat_lt

theorem gtDepth_lt (file : Bytes) : gtDepth file < 2 ^ 32 :=
  (u32FromLeBytes ((file.drop 4).take 4)).toNat_lt

/-- Whole rows cut from the ids. -/
theorem chunks_max_one {α : Type} {n d : Nat} {xs : List α} (h : xs.length = n * d)
    (hd : 0 < n → 0 < d) : chunks (max d 1) xs = takeChunks d n xs := by
  rcases Nat.eq_zero_or_pos n with rfl | hn
  · rw [Nat.zero_mul, List.length_eq_zero_iff] at h
    subst h
    rw [chunks, List.length_nil, Nat.zero_add, Nat.div_eq_of_lt]
    · rfl
    · exact Nat.sub_lt (lt_max_of_lt_right one_pos) one_pos
  · have hd := hd hn
    rw [Nat.max_eq_left hd, chunks_of_length hd h]

/-- The rows of a file that is as long as its header demands. -/
def gtTable (file : Bytes) : List (List Int64) :=
  takeChunks (gtDepth file) (gtRows file) (gtIds file)

theorem length_gtIds (file : Bytes) : (gtIds file).length = gtRows file * gtDepth file := by
  rw [gtIds, List.length_map, length_takeChunks]

/-- A block that fits what is left of the file is read. -/
theorem readArray_of_le {α : Type} {width : Nat} (hw : 0 < width) (f : Bytes → α)
    (overflow : String)
    {n maxBytes : Nat} {r : Bytes} (hmax : n * width ≤ maxBytes) (hlt : maxBytes < u64Size)
    (hr : n * width ≤ r.length) :
    readArray width f overflow n maxBytes r =
      .ok ((takeChunks width n r).map f, r.drop (n * width)) := by
  rw [readArray, checkedMul_of_lt (hmax.trans_lt hlt)]
  dsimp only
  rw [if_neg (not_lt.mpr hmax), readExact, if_pos hr, ok_bind]
  dsimp only
  rw [asChunks_take hw hr]
  rfl

/-- The reader accepts exactly the files of the right length, and returns their table. -/
theorem readGtNeighbours_eq_ok (path : String) {file : Bytes} (hfile : file.length < u64Size)
    {rows : List (List Int64)} :
    readGtNeighbours path file = .ok rows ↔ GtSized file ∧ rows = gtTable file := by
  rw [readGtNeighbours]
  dsimp only
  by_cases hheader : 8 ≤ file.length
  case neg =>
    rw [readExact, if_neg hheader]
    refine ⟨?_, fun h ↦ absurd h.1.header hheader⟩
    rintro ⟨⟩
  have hrows : (u32FromLeBytes ((file.take 8).take 4)).toNat = gtRows file := by
    rw [List.take_take]
    rfl
  have hdepth : (u32FromLeBytes (((file.take 8).drop 4).take 4)).toNat = gtDepth file := by
    rw [List.drop_take, List.take_take]
    rfl
  have hcount : gtRows file * gtDepth file < u64Size :=
    (Nat.mul_lt_mul'' (gtRows_lt file) (gtDepth_lt file)).trans_le (by decide)
  rw [readExact, if_pos hheader, Except.mapError, ok_bind]
  dsimp only
  rw [hrows, hdepth, checkedMul_of_lt hcount]
  dsimp only
  by_cases hzero : gtDepth file = 0 ∧ 0 < gtRows file
  case pos =>
    rw [if_pos hzero]
    refine ⟨?_, fun h ↦ absurd (h.1.depth hzero.2) (by omega)⟩
    rintro ⟨⟩
  rw [if_neg hzero]
  by_cases hsize : gtRows file * gtDepth file * 8 + 8 = file.length
  case neg =>
    refine ⟨fun h ↦ ?_, fun h ↦ absurd h.1.length (by omega)⟩
    split at h
    · cases h
    · next expected hexpected =>
        obtain ⟨b, hb, hexpected⟩ := Option.bind_eq_some_iff.mp hexpected
        rw [checkedMul] at hb
        rw [checkedAdd] at hexpected
        split_ifs at hb hexpected
        cases hb
        cases hexpected
        rw [if_pos hsize] at h
        cases h
  have hids : gtRows file * gtDepth file * 4 ≤ (file.drop 8).length := by
    rw [List.length_drop]
    omega
  have htable : (chunks (max (gtDepth file) 1) ((takeChunks 4 (gtRows file * gtDepth file)
      (file.drop 8)).map i32FromLeBytes)).map (fun c ↦ c.map Int32.toInt64) = gtTable file := by
    rw [chunks_max_one (n := gtRows file)]
    · rw [gtTable, gtIds, map_takeChunks, List.map_map]
      rfl
    · rw [List.length_map, length_takeChunks]
    · exact fun h ↦ Nat.pos_of_ne_zero fun h0 ↦ hzero ⟨h0, h⟩
  rw [checkedMul_of_lt (by omega), Option.bind_some, checkedAdd_of_lt (by omega)]
  dsimp only
  rw [if_neg (not_not.mpr hsize), readU32Array,
    readArray_of_le (by decide) _ _ (by omega) hfile hids, ok_bind]
  dsimp only
  rw [htable]
  constructor
  · intro h
    cases h
    exact ⟨⟨hheader, by omega, fun h ↦ Nat.pos_of_ne_zero fun h0 ↦ hzero ⟨h0, h⟩⟩, rfl⟩
  · rintro ⟨-, rfl⟩
    rfl

/-! ## What a written table reads back as -/

/-- A table whose row count and row lengths fit the header's 32-bit fields. -/
structure FitsHeader (rows : List (List Int64)) : Prop where
  rows_lt : rows.length < 2 ^ 32
  row_lt : ∀ r ∈ rows, r.length < 2 ^ 32

/-- An id inside the 32-bit range survives being narrowed. -/
theorem toInt64_toInt32 {id : Int64} (h : outsideI32 id = false) : id.toInt32.toInt64 = id := by
  rw [outsideI32, Bool.or_eq_false_iff, decide_eq_false_iff_not, decide_eq_false_iff_not] at h
  apply Int64.toInt_inj.mp
  rw [Int32.toInt_toInt64, Int64.toInt_toInt32]
  exact Int.bmod_eq_of_le (by omega) (by omega)

/-- The file written for rows of `d` ids. -/
def gtBytes (d : Nat) (rows : List (List Int64)) : Bytes :=
  u32ToLeBytes (UInt32.ofNat rows.length) ++ u32ToLeBytes (UInt32.ofNat d)
    ++ rows.flatten.flatMap (fun id ↦ i32ToLeBytes id.toInt32)
    ++ rows.flatten.flatMap (fun _ ↦ f32ToLeBytes ⟨0⟩)

theorem length_gtBytes (d : Nat) (rows : List (List Int64)) :
    (gtBytes d rows).length = 8 + rows.flatten.length * 4 + rows.flatten.length * 4 := by
  simp only [gtBytes, List.length_append, length_u32ToLeBytes,
    length_flatMap_const fun id : Int64 ↦ length_i32ToLeBytes id.toInt32,
    length_flatMap_const fun _ : Int64 ↦ length_f32ToLeBytes ⟨0⟩]

/-- A table that the writer accepts, whose rows have `d` ids each. -/
structure Writable (d : Nat) (rows : List (List Int64)) : Prop where
  length : ∀ r ∈ rows, r.length = d
  depth : rows = [] ↔ d = 0
  ids : ∀ id ∈ rows.flatten, outsideI32 id = false
  fits : (gtBytes d rows).length ≤ maxVecBytes

theorem headLength_eq {d : Nat} {rows : List (List Int64)} (hlen : ∀ r ∈ rows, r.length = d)
    (hdepth : rows = [] ↔ d = 0) : (rows.head?.map List.length).getD 0 = d := by
  cases rows with
  | nil => exact (hdepth.mp rfl).symm
  | cons r rows => exact hlen r List.mem_cons_self

theorem writeGtNeighbours_eq_ok {rows : List (List Int64)} {file : Bytes} :
    writeGtNeighbours rows = .ok file ↔ ∃ d, Writable d rows ∧ file = gtBytes d rows := by
  rw [writeGtNeighbours]
  dsimp only
  constructor
  · intro h
    split_ifs at h with hlen hzero hfits
    case neg => split at h <;> cases h
    split at h
    case h_1 => cases h
    next hfind =>
    cases h
    rw [Bool.not_eq_true, List.any_eq_false] at hlen
    refine ⟨_, ⟨fun r hr ↦ ?_, ?_, fun id hid ↦ ?_, hfits⟩, rfl⟩
    · have huniform := hlen r hr
      rwa [decide_eq_true_eq, not_not] at huniform
    · constructor
      · rintro rfl
        rfl
      · exact fun h0 ↦ by_contra fun hne ↦ hzero ⟨h0, hne⟩
    · have hin := List.find?_eq_none.mp hfind id hid
      rwa [Bool.not_eq_true] at hin
  · rintro ⟨d, hw, rfl⟩
    rw [headLength_eq hw.length hw.depth, if_neg, if_neg, List.find?_eq_none.mpr]
    · exact if_pos hw.fits
    · intro id hid
      rw [hw.ids id hid]
      exact Bool.false_ne_true
    · exact fun h ↦ h.2 (hw.depth.mpr h.1)
    · rw [Bool.not_eq_true, List.any_eq_false]
      intro r hr
      rw [decide_eq_true_eq, not_not]
      exact hw.length r hr

theorem gtRows_gtBytes {d : Nat} {rows : List (List Int64)} (h : rows.length < 2 ^ 32) :
    gtRows (gtBytes d rows) = rows.length := by
  rw [gtRows, gtBytes, List.append_assoc, List.append_assoc,
    List.take_left' (length_u32ToLeBytes _), u32FromLeBytes_toLeBytes]
  exact UInt32.toNat_ofNat_of_lt' h

theorem gtDepth_gtBytes {d : Nat} {rows : List (List Int64)} (h : d < 2 ^ 32) :
    gtDepth (gtBytes d rows) = d := by
  rw [gtDepth, gtBytes, List.append_assoc, List.append_assoc,
    List.drop_left' (length_u32ToLeBytes _), List.take_left' (length_u32ToLeBytes _),
    u32FromLeBytes_toLeBytes]
  exact UInt32.toNat_ofNat_of_lt' h

theorem drop_gtBytes (d : Nat) (rows : List (List Int64)) :
    (gtBytes d rows).drop 8 = rows.flatten.flatMap (fun id ↦ i32ToLeBytes id.toInt32)
      ++ rows.flatten.flatMap (fun _ ↦ f32ToLeBytes ⟨0⟩) := by
  rw [gtBytes, List.append_assoc]
  refine List.drop_left' ?_
  rw [List.length_append, length_u32ToLeBytes, length_u32ToLeBytes]

theorem gtTable_gtBytes {d : Nat} {rows : List (List Int64)} (hw : Writable d rows)
    (hrows : rows.length < 2 ^ 32) (hd : d < 2 ^ 32) : gtTable (gtBytes d rows) = rows := by
  have hcount : rows.length * d = rows.flatten.length :=
    (length_flatten_of_uniform hw.length).symm
  have hids : gtIds (gtBytes d rows) = rows.flatten := by
    rw [gtIds, gtRows_gtBytes hrows, gtDepth_gtBytes hd, drop_gtBytes, hcount,
      takeChunks_flatMap fun id : Int64 ↦ length_i32ToLeBytes id.toInt32, List.map_map]
    conv_rhs => rw [← List.map_id rows.flatten]
    refine List.map_congr_left fun id hid ↦ ?_
    rw [Function.comp_apply, i32FromLeBytes_toLeBytes, toInt64_toInt32 (hw.ids id hid), id_eq]
  rw [gtTable, hids, gtRows_gtBytes hrows, gtDepth_gtBytes hd, takeChunks_flatten hw.length]

/-- A written table reads back exactly when its counts fit the header. -/
theorem readGtNeighbours_gtBytes_iff (path : String) {d : Nat} {rows : List (List Int64)}
    (hw : Writable d rows) :
    readGtNeighbours path (gtBytes d rows) = .ok rows ↔ FitsHeader rows := by
  rw [readGtNeighbours_eq_ok path (hw.fits.trans_lt (by decide))]
  constructor
  · rintro ⟨-, hrows⟩
    have hlen : rows.length = gtRows (gtBytes d rows) := by
      conv_lhs => rw [hrows]
      rw [gtTable, length_takeChunks]
    refine ⟨hlen ▸ gtRows_lt _, fun r hr ↦ ?_⟩
    rw [hrows] at hr
    rw [length_of_mem_takeChunks (length_gtIds _) hr]
    exact gtDepth_lt _
  · rintro ⟨hrows, hrow⟩
    have hd : d < 2 ^ 32 := by
      cases rows with
      | nil => exact hw.depth.mp rfl ▸ Nat.pow_pos two_pos
      | cons r rows => exact hw.length r List.mem_cons_self ▸ hrow r List.mem_cons_self
    have hcount : rows.length * d = rows.flatten.length :=
      (length_flatten_of_uniform hw.length).symm
    refine ⟨⟨?_, ?_, ?_⟩, (gtTable_gtBytes hw hrows hd).symm⟩
    · rw [length_gtBytes]
      omega
    · rw [gtRows_gtBytes hrows, gtDepth_gtBytes hd, hcount, length_gtBytes]
    · rw [gtRows_gtBytes hrows, gtDepth_gtBytes hd]
      intro hpos
      refine Nat.pos_of_ne_zero fun h0 ↦ ?_
      rw [hw.depth.mpr h0] at hpos
      exact absurd hpos (lt_irrefl 0)

/-- What is read has as many rows and ids as the header says, and the ids in order. -/
theorem readGtNeighbours_rows {path : String} {file : Bytes} (hfile : file.length < u64Size)
    {rows : List (List Int64)} (h : readGtNeighbours path file = .ok rows) :
    rows.length = gtRows file ∧ (∀ r ∈ rows, r.length = gtDepth file) ∧
      rows.flatten = gtIds file := by
  obtain ⟨-, rfl⟩ := (readGtNeighbours_eq_ok path hfile).mp h
  refine ⟨length_takeChunks _ _ _, fun r hr ↦ length_of_mem_takeChunks (length_gtIds file) hr, ?_⟩
  exact flatten_takeChunks (length_gtIds file)

/-- **The ground-truth codec**: what the writer accepts reads back exactly when its counts fit the
header, and a file is accepted exactly when it is as long as its header demands. -/
theorem readGtNeighbours_codec (path : String) :
    (∀ rows file, writeGtNeighbours rows = .ok file →
      (readGtNeighbours path file = .ok rows ↔ FitsHeader rows)) ∧
    ∀ file : Bytes, file.length < u64Size →
      ((∃ rows, readGtNeighbours path file = .ok rows) ↔ GtSized file) ∧
      ∀ rows, readGtNeighbours path file = .ok rows →
        rows.length = gtRows file ∧ (∀ r ∈ rows, r.length = gtDepth file) ∧
          rows.flatten = gtIds file := by
  constructor
  · intro rows file hw
    obtain ⟨d, hwritable, rfl⟩ := writeGtNeighbours_eq_ok.mp hw
    exact readGtNeighbours_gtBytes_iff path hwritable
  · refine fun file hfile ↦ ⟨?_, fun rows h ↦ readGtNeighbours_rows hfile h⟩
    constructor
    · rintro ⟨rows, h⟩
      exact ((readGtNeighbours_eq_ok path hfile).mp h).1
    · exact fun h ↦ ⟨gtTable file, (readGtNeighbours_eq_ok path hfile).mpr ⟨h, rfl⟩⟩

/-- Two queries with three neighbours each. -/
theorem readGtNeighbours_two_queries : ∃ file,
    writeGtNeighbours [[7, 0, -1], [2147483647, 3, 3]] = .ok file ∧
    readGtNeighbours "results.gt" file = .ok [[7, 0, -1], [2147483647, 3, 3]] :=
  ⟨_, rfl, ((readGtNeighbours_codec "results.gt").1 _ _ rfl).mpr ⟨by decide, by decide⟩⟩

/-- A query with `n` neighbours, `2 ^ 32` or more, is written and does not read back. -/
theorem writeGtNeighbours_deep (path : String) {n : Nat} (hn : 2 ^ 32 ≤ n)
    (hfits : 8 + n * 4 + n * 4 ≤ maxVecBytes) : ∃ file,
      writeGtNeighbours [List.replicate n 0] = .ok file ∧
      readGtNeighbours path file ≠ .ok [List.replicate n 0] := by
  have hw : Writable n [List.replicate n 0] := by
    refine ⟨fun r hr ↦ ?_, ?_, fun id hid ↦ ?_, ?_⟩
    · rw [List.mem_singleton.mp hr, List.length_replicate]
    · exact iff_of_false (List.cons_ne_nil _ _) (by omega)
    · rw [List.flatten_singleton] at hid
      rw [List.eq_of_mem_replicate hid]
      rfl
    · rw [length_gtBytes, List.flatten_singleton, List.length_replicate]
      exact hfits
  refine ⟨_, writeGtNeighbours_eq_ok.mpr ⟨_, hw, rfl⟩, fun h ↦ ?_⟩
  have hlt := ((readGtNeighbours_gtBytes_iff path hw).mp h).row_lt _ List.mem_cons_self
  rw [List.length_replicate] at hlt
  exact absurd hlt (not_lt.mpr hn)

/-- One query with `2 ^ 32` neighbours is written, with a neighbour count of zero in the header. -/
theorem readGtNeighbours_deep_query : ∃ file,
    writeGtNeighbours [List.replicate 4294967296 0] = .ok file ∧
    readGtNeighbours "results.gt" file ≠ .ok [List.replicate 4294967296 0] :=
  writeGtNeighbours_deep "results.gt" (n := 4294967296) (by decide) (by decide)

end VectorDbBenchmark.Readers
