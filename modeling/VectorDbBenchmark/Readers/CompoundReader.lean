import VectorDbBenchmark.Readers.NpyFile
import VectorDbBenchmark.Readers.StreamedRows

/-!
# The in-memory compound reader

`readers/compound_reader.rs`: the whole of `vectors.npy` and then the whole of
`payloads.jsonl`, whose rows are counted at the end.

For every `vectors.npy` whose header the streaming reader takes for that of a C-order
little-endian `float32` array with columns, cut short or overlong ones included, every
payload text and every block size, draining the stream gives what the in-memory reader
returns, and fails when it does.
-/

namespace VectorDbBenchmark.Readers

open Kit

/-- `visit_payloads_jsonl` from row `rows` on; the callback's captured state is passed
along. -/
def visitPayloadsJsonl {σ : Type} (env : ReaderEnv)
    (visit : σ → Option MetadataItem → Except String σ) (text : Text) (rows : ℕ) (st : σ) :
    Except String (ℕ × σ) :=
  if h : (readLine text).1 = [] then .ok (rows, st)
  else
    have : (readLine text).2.length < text.length :=
      length_readLine_lt fun ht ↦ h (readLine_eq_nil.mpr ht)
    match payloadRow env (rows + 1) (readLine text).1 with
    | .error e => .error e
    | .ok item =>
      match visit st item with
      | .error e => .error e
      | .ok st => visitPayloadsJsonl env visit (readLine text).2 (rows + 1) st
termination_by text.length

def readPayloadsJsonl (env : ReaderEnv) (text : Text) :
    Except String (List (Option MetadataItem)) :=
  (visitPayloadsJsonl env (fun metadata item ↦ .ok (metadata ++ [item])) text 0 []).map (·.2)

def readCompoundData (env : ReaderEnv) (dir : CompoundDir) (normalize : Bool) :
    Except String (List Int64 × List (List F32) × List (Option MetadataItem)) := do
  let (ids, vectors) ← readNpyVectors env dir.vectors normalize
  let allMetadata ← match dir.payloads with
    | some text => do
      let metadata ← readPayloadsJsonl env text
      if metadata.length ≠ vectors.length then
        .error (s!"Metadata count ({metadata.length}) doesn't match " ++
          s!"vector count ({vectors.length})")
      else .ok metadata
    | none => .ok (List.replicate vectors.length none)
  pure (ids, vectors, allMetadata)

/-! ## What it returns -/

theorem visitPayloadsJsonl_push_toOption (env : ReaderEnv) (text : Text) (rows : ℕ)
    (metadata : List (Option MetadataItem)) :
    ((visitPayloadsJsonl env (fun metadata item ↦ .ok (metadata ++ [item])) text rows
      metadata).map (·.2)).toOption =
      ((textLines text).mapM (rowItem env)).map (metadata ++ ·) := by
  induction text, rows, metadata using visitPayloadsJsonl.induct env
      (fun metadata item ↦ .ok (metadata ++ [item])) with
  | case1 text rows metadata h =>
      rw [visitPayloadsJsonl, dif_pos h, readLine_eq_nil.mp h]
      simp [Except.map, Except.toOption]
  | case2 text rows metadata h _ e hrow =>
      have ht : text ≠ [] := fun ht ↦ h (readLine_eq_nil.mpr ht)
      rw [visitPayloadsJsonl, dif_neg h, textLines_eq_readLine ht, List.mapM_cons,
        ← payloadRow_toOption env (rows + 1), hrow]
      rfl
  | case3 text rows metadata h _ item hrow e hvisit => cases hvisit
  | case4 text rows metadata h _ item hrow metadata' hvisit ih =>
      have ht : text ≠ [] := fun ht ↦ h (readLine_eq_nil.mpr ht)
      cases hvisit
      rw [visitPayloadsJsonl, dif_neg h, textLines_eq_readLine ht, List.mapM_cons,
        ← payloadRow_toOption env (rows + 1), hrow]
      refine ih.trans ?_
      cases (textLines (readLine text).2).mapM (rowItem env) with
      | none => rfl
      | some items => exact congrArg some (List.append_assoc metadata [item] items)

theorem readPayloadsJsonl_toOption (env : ReaderEnv) (text : Text) :
    (readPayloadsJsonl env text).toOption = (textLines text).mapM (rowItem env) := by
  rw [readPayloadsJsonl, visitPayloadsJsonl_push_toOption]
  cases (textLines text).mapM (rowItem env) <;> rfl

/-- Once the vectors are read, the payloads decide. -/
theorem readCompoundData_toOption {env : ReaderEnv} {dir : CompoundDir} {normalize : Bool}
    {ids : List Int64} {vectors : List (List F32)}
    (h : readNpyVectors env dir.vectors normalize = .ok (ids, vectors)) :
    (readCompoundData env dir normalize).toOption =
      (itemsLeft env (CompoundStream.linesLeft dir.payloads) vectors.length).map
        fun items ↦ (ids, vectors, items) := by
  rw [readCompoundData, h, ok_bind]
  cases dir.payloads with
  | none => rfl
  | some text =>
      have hread := readPayloadsJsonl_toOption env text
      simp only [CompoundStream.linesLeft, Option.map_some, itemsLeft]
      cases hmetadata : readPayloadsJsonl env text with
      | error e =>
          rw [hmetadata] at hread
          rw [← hread]
          split_ifs <;> rfl
      | ok metadata =>
          rw [hmetadata] at hread
          have hlen : metadata.length = (textLines text).length :=
            length_of_mapM_eq_some hread.symm
          rw [← hread, ← hlen, ok_bind]
          split_ifs <;> first | contradiction | rfl

/-! ## The two readers agree -/

/-- The three lists of a batch. -/
def Batch.parts (b : Batch) : List Int64 × List (List F32) × List (Option MetadataItem) :=
  (b.ids, b.vectors, b.metadata)

/-- What either reader makes of a directory whose vectors hold the declared data. -/
def rowsOf (env : ReaderEnv) (f : F32NpyFile) (payloads : Option Text) (normalize : Bool) :
    Option Batch :=
  (itemsLeft env (CompoundStream.linesLeft payloads) f.rows).map
    (batchOf env normalize f.cols 0 f.rows f.data)

section

variable (env : ReaderEnv) (f : F32NpyFile) (path : String) (payloads : Option Text)
  (normalize : Bool)

/-- The in-memory reader. -/
theorem readCompoundData_of_file (hread : f.ReadBy env.readNpy) :
    (readCompoundData env ⟨path, f.bytes, payloads⟩ normalize).toOption =
      if f.Sized then (rowsOf env f payloads normalize).map Batch.parts else none := by
  split_ifs with hsized
  · have hvectors := f.readNpyVectors_bytes hread hsized normalize
    have hmap : (if normalize then f.array.map (normalizeRow env.f32) else f.array) =
        (takeChunks (f.cols * 4) f.rows f.data).map (rowVector env normalize) := by
      cases normalize with
      | false => rfl
      | true =>
          rw [if_pos rfl, F32NpyFile.array, List.map_map]
          rfl
    rw [hmap] at hvectors
    rw [readCompoundData_toOption hvectors, List.length_map, length_takeChunks, rowsOf,
      Option.map_map]
    simp only [batchOf, Batch.parts, Function.comp_def, Nat.zero_add]
  · obtain ⟨e, he⟩ := f.readNpyVectors_bytes_error hread hsized normalize
    rw [readCompoundData, he]
    rfl

/-- The streaming reader. -/
theorem drain_of_file {block : ℕ} (hblock : 0 < block) :
    (drain env ⟨path, f.bytes, payloads⟩ normalize block).toOption =
      if f.Sized then rowsOf env f payloads normalize else none := by
  have hlayout := f.toOption_f32NpyLayout (CompoundDir.vectorsPath ⟨path, f.bytes, payloads⟩)
  rw [drain, CompoundStream.openDir]
  cases hopen : f32NpyLayout (CompoundDir.vectorsPath ⟨path, f.bytes, payloads⟩) f.bytes with
  | error e =>
      rw [hopen] at hlayout
      split_ifs at hlayout ⊢
      · cases hlayout
      · rfl
  | ok layout =>
      rw [hopen] at hlayout
      split_ifs at hlayout ⊢ with hsized
      · cases hlayout
        rw [ok_bind]
        have hrows := drainFrom_toOption env hblock (s := {
          vectors := f.data, vectorsPath := CompoundDir.vectorsPath ⟨path, f.bytes, payloads⟩,
          payloads, layout := f.layout, nextRow := 0, normalize, finished := false })
          ⟨rfl, f.cols_pos, f.fits, F32NpyFile.length_data hsized⟩ .empty
        refine hrows.trans ?_
        exact Option.map_id_apply
      · cases hlayout

end

/-- Two rows of one column: `1.0` and `2.0`. -/
def twoRows : NpyFile where
  major := 1
  minor := 0
  rows := 2
  cols := 1
  trailingComma := true
  pad := 3
  data := [0x00, 0x00, 0x80, 0x3F, 0x00, 0x00, 0x00, 0x40]
  cols_pos := by decide
  cols_lt := by decide
  header_lt := by decide
  size_lt := by decide

/-- An environment that knows one vector file and the payload line `{}`. -/
def envOf (file : Bytes) (array : List (List F32)) : ReaderEnv where
  f32 := ⟨fun x _ ↦ x, fun x _ ↦ x, fun x _ ↦ x, id, ⟨0⟩, fun _ ↦ false⟩
  fromStr line :=
    if trim line = ['\x7b', '\x7d'] then .ok (.object []) else .error "expected value"
  readNpy bytes := if bytes = file then .ok array else .error "not this file"

theorem envOf_readNpy (file : Bytes) (array : List (List F32)) :
    (envOf file array).readNpy file = .ok array := if_pos rfl

/-- A header with another order of the keys than the writers', and other quotes. -/
def reorderedDict : Text :=
  "\x7b'shape':(2,1), 'fortran_order': False, \"descr\": \"<f4\"\x7d".toList

def reorderedBytes : Bytes :=
  npyBytes 2 0 reorderedDict [0x00, 0x00, 0x80, 0x3F, 0x00, 0x00, 0x00, 0x40]

theorem readNpyHeader_reordered : readNpyHeader reorderedBytes =
    .ok (some ⟨reorderedDict, 12 + reorderedDict.length, reorderedBytes.length⟩) := by
  have hascii : reorderedDict.all (fun c ↦ decide (c.toNat < 128)) = true := rfl
  exact readNpyHeader_npyBytes 0 _ (by decide) (by decide)
    (fun c hc ↦ of_decide_eq_true (List.all_eq_true.mp hascii c hc)) (by decide)

/-- The same two rows under such a header. -/
def reorderedRows : F32NpyFile where
  bytes := reorderedBytes
  dict := reorderedDict
  dataStart := 12 + reorderedDict.length
  rows := 2
  cols := 1
  header := readNpyHeader_reordered
  descr := .inr (by decide)
  order := by decide
  dims := by decide
  items := by
    refine (smallItems_iff readNpyHeader_reordered).mpr fun count itemsize hfound ↦ ?_
    have hnone : parseNpyShapeItemsize reorderedDict = none := by decide
    cases hnone.symm.trans hfound
  cols_pos := by decide
  fits := by decide
  length_lt := by
    rw [reorderedBytes, length_npyBytes]
    decide

/-- The array `[[1.0, 3.0], [2.0, 4.0]]` in Fortran order. -/
def fortranFile : Bytes :=
  let dict := "\x7b'descr': '<f4', 'fortran_order': True, 'shape': (2, 2), \x7d\n".toList
  npyMagic ++ ([1, 0] ++ (toLe 2 dict.length ++ (asciiBytes dict ++
    [0x00, 0x00, 0x80, 0x3F, 0x00, 0x00, 0x00, 0x40,
      0x00, 0x00, 0x40, 0x40, 0x00, 0x00, 0x80, 0x40])))

def fortranArray : List (List F32) :=
  [[⟨0x3F800000⟩, ⟨0x40400000⟩], [⟨0x40000000⟩, ⟨0x40800000⟩]]

/-- The array `[[1.0]]` under a header without blanks. -/
def denseFile : Bytes :=
  npyBytes 1 0 "\x7b'descr':'<f4','fortran_order':False,'shape':(1,1)\x7d".toList
    [0x00, 0x00, 0x80, 0x3F]

/-- Two rows without columns. -/
def zeroColumnsFile : Bytes :=
  npyBytes 1 0 "\x7b'descr': '<f4', 'fortran_order': False, 'shape': (2, 0), \x7d\n".toList []

/-- Two rows of `2 ^ 61 + 1` columns are declared: the products wrap to the eight bytes that
are there. -/
def wrappedFile : Bytes :=
  npyBytes 1 0 ("\x7b'descr': '<f4', 'fortran_order': False, ".toList ++
      "'shape': (2, 2305843009213693953), \x7d\n".toList)
    [0x00, 0x00, 0x80, 0x3F, 0x00, 0x00, 0x00, 0x40]

/-- The array `[[1.0]]` under a header that gives two types, the last of which counts. -/
def twoTypesFile : Bytes :=
  npyBytes 1 0 ("\x7b'descr': '<f8', 'descr': '<f4', ".toList ++
      "'fortran_order': False, 'shape': (1, 1)\x7d".toList)
    [0x00, 0x00, 0x80, 0x3F]

/-- An environment whose array library fails. -/
def envFailing : ReaderEnv where
  f32 := ⟨fun x _ ↦ x, fun x _ ↦ x, fun x _ ↦ x, id, ⟨0⟩, fun _ ↦ false⟩
  fromStr _ := .error "expected value"
  readNpy _ := .error "missing bytes"

end VectorDbBenchmark.Readers
