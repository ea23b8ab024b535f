import VectorDbBenchmark.Readers.Metadata
import VectorDbBenchmark.Readers.Npy

/-!
# The streaming compound reader

`readers/stream_reader.rs`: a compound directory read a block of rows at a time.  The
stream is explicit state: what is left of the two files and how many rows were
handed out.  A read that fails returns the error and the stream it leaves; how much
of the vectors a failed read consumes is unspecified, and here it is all of them.
Products of machine integers wrap, as they do in a release build; memory is unbounded.
-/

namespace VectorDbBenchmark.Readers

open Kit

/-! ## The layout -/

/-- A C-order little-endian `float32` 2-D array; `dataStart` is the byte offset of
row 0. -/
structure F32NpyLayout where
  rows : ℕ
  cols : ℕ
  dataStart : ℕ
deriving DecidableEq, Repr

/-- Bytes of the data payload; the products wrap. -/
def F32NpyLayout.dataBytes (layout : F32NpyLayout) : ℕ :=
  layout.rows * layout.cols % u64Size * 4 % u64Size

def f32NpyLayout (shown : String) (file : Bytes) : Except String F32NpyLayout := do
  match ← readNpyHeader file with
  | none => .error s!"{shown}: not a readable NPY file"
  | some header =>
    let dict := header.dict
    let descrOk := containsSub "'descr': '<f4'".toList dict ||
      containsSub "\"descr\": \"<f4\"".toList dict
    let cOrder := containsSub "'fortran_order': False".toList dict
    if !descrOk || !cOrder then
      .error (s!"{shown}: the streaming reader needs a C-order little-endian float32 array " ++
        s!"('<f4', fortran_order False); header is {String.ofList (trim dict)}")
    else match parseNpyShapeDims dict with
      | none => .error s!"{shown}: could not parse NPY 'shape' from header"
      | some dims =>
        match dims with
        | [rows, cols] =>
          if cols = 0 then .error s!"{shown}: expected a 2-D array, shape is {dims}"
          else
            let layout : F32NpyLayout := ⟨rows, cols, header.dataStart⟩
            match checkedAdd layout.dataBytes layout.dataStart with
            | none => .error s!"{shown}: NPY size overflow"
            | some want =>
              if header.fileLen ≠ want then
                .error (s!"{shown}: header declares {rows} x {cols} float32 " ++
                  s!"({layout.dataBytes} data bytes from offset {layout.dataStart}) but the " ++
                  s!"file is {header.fileLen} bytes; it is truncated or carries trailing data")
              else .ok layout
        | _ => .error s!"{shown}: expected a 2-D array, shape is {dims}"

/-! ## Batches -/

/-- One block of rows as read, not yet converted. -/
structure RawBatch where
  /-- Row index of the first row. -/
  firstId : ℕ
  rows : ℕ
  cols : ℕ
  normalize : Bool
  vectorBytes : Bytes
  /-- One raw line per row, when the corpus has a payload file. -/
  lines : Option (List Text)
deriving DecidableEq, Repr

/-- A decoded block: three parallel lists for a contiguous range of ids. -/
structure Batch where
  ids : List Int64
  vectors : List (List F32)
  metadata : List (Option MetadataItem)

def Batch.empty : Batch := ⟨[], [], []⟩

/-- `all.ids.extend(b.ids)` and so on. -/
def Batch.extend (all b : Batch) : Batch :=
  ⟨all.ids ++ b.ids, all.vectors ++ b.vectors, all.metadata ++ b.metadata⟩

/-- The `f32` values of one row. -/
def f32Row (row : Bytes) : List F32 := (asChunks 4 row).map f32FromLeBytes

/-- One payload line: blank is missing metadata.  `row` is the number in the error. -/
def payloadRow (env : ReaderEnv) (row : ℕ) (line : Text) : Except String (Option MetadataItem) :=
  if (trim line).isEmpty then .ok none
  else
    match env.fromStr line with
    | .error e => .error s!"Failed to parse payload row {row}: {e}"
    | .ok value => .ok (parseMetadataFromJson value)

namespace RawBatch

/-- The payloads of the lines from row `firstId + i` on. -/
def decodeLines (env : ReaderEnv) (firstId : ℕ) :
    ℕ → List Text → Except String (List (Option MetadataItem))
  | _, [] => .ok []
  | i, line :: lines => do
    let item ← payloadRow env (firstId + i + 1) line
    let items ← decodeLines env firstId (i + 1) lines
    pure (item :: items)

/-- `self.cols * 4`, which wraps. -/
def rowWidth (raw : RawBatch) : ℕ := raw.cols * 4 % u64Size

def decode (env : ReaderEnv) (raw : RawBatch) : Except String Batch :=
  if raw.rowWidth = 0 then .error "panic: chunk size must be non-zero"
  else do
    let vectors := (asChunks raw.rowWidth raw.vectorBytes).map fun row ↦
      if raw.normalize then normalizeRow env.f32 (f32Row row) else f32Row row
    let metadata ← match raw.lines with
      | none => .ok (List.replicate raw.rows none)
      | some lines => decodeLines env raw.firstId 0 lines
    let ids := (List.range raw.rows).map fun i ↦ Int64.ofNat (raw.firstId + i)
    pure ⟨ids, vectors, metadata⟩

end RawBatch

/-! ## The stream -/

structure CompoundStream where
  vectors : Bytes
  vectorsPath : String
  payloads : Option Text
  layout : F32NpyLayout
  nextRow : ℕ
  normalize : Bool
  finished : Bool

/-- How many lines `read_line` still yields. -/
def countLines (t : Text) : ℕ :=
  if h : (readLine t).1 = [] then 0
  else
    have : (readLine t).2.length < t.length :=
      length_readLine_lt fun ht ↦ h (readLine_eq_nil.mpr ht)
    countLines (readLine t).2 + 1
termination_by t.length

namespace CompoundStream

/-- `CompoundStream::open`. -/
def openDir (dir : CompoundDir) (normalize : Bool) : Except String CompoundStream := do
  let layout ← f32NpyLayout dir.vectorsPath dir.vectors
  pure {
    vectors := dir.vectors.drop layout.dataStart
    vectorsPath := dir.vectorsPath
    payloads := dir.payloads
    layout
    nextRow := 0
    normalize
    finished := false }

def rows (s : CompoundStream) : ℕ := s.layout.rows

/-- Every row has been handed out: the payload file must be exhausted too. -/
def finish (s : CompoundStream) : Except String Unit × CompoundStream :=
  match s.payloads with
  | none => (.ok (), { s with finished := true })
  | some text =>
    let s := { s with finished := true, payloads := some [] }
    let extra := countLines text
    if 0 < extra then
      (.error (s!"Metadata count ({s.layout.rows + extra}) doesn't match " ++
        s!"vector count ({s.layout.rows})"), s)
    else (.ok (), s)

/-- The next `n` payload lines, the first of them row `nextRow + i`. -/
def readPayloadLines (s : CompoundStream) :
    ℕ → ℕ → Text → Except String (List Text) × Text
  | 0, _, text => (.ok [], text)
  | n + 1, i, text =>
    let (line, rest) := readLine text
    if line = [] then
      (.error (s!"Metadata count ({s.nextRow + i}) doesn't match " ++
        s!"vector count ({s.layout.rows})"), rest)
    else
      match s.readPayloadLines n (i + 1) rest with
      | (.ok lines, rest) => (.ok (line :: lines), rest)
      | (.error e, rest) => (.error e, rest)

/-- The payload lines of the next `n` rows, when there is a payload file. -/
def nextLines (s : CompoundStream) (n : ℕ) : Except String (Option (List Text)) × Option Text :=
  match s.payloads with
  | none => (.ok none, none)
  | some text =>
    match s.readPayloadLines n 0 text with
    | (.ok lines, rest) => (.ok (some lines), some rest)
    | (.error e, rest) => (.error e, some rest)

/-- The bytes of `n` rows; the products wrap. -/
def blockBytes (s : CompoundStream) (n : ℕ) : ℕ := n * s.layout.cols % u64Size * 4 % u64Size

/-- The next `n` rows. -/
def nextBlock (s : CompoundStream) (n : ℕ) : Except String RawBatch × CompoundStream :=
  match readExact (s.blockBytes n) s.vectors with
  | .error e =>
    (.error s!"{s.vectorsPath}: read rows {s.nextRow}..{s.nextRow + n}: {e}",
      { s with vectors := [] })
  | .ok (vectorBytes, vectors) =>
    match s.nextLines n with
    | (.error e, payloads) => (.error e, { s with vectors, payloads })
    | (.ok lines, payloads) =>
      (.ok ⟨s.nextRow, n, s.layout.cols, s.normalize, vectorBytes, lines⟩,
        { s with vectors, payloads, nextRow := s.nextRow + n })

/-- The next block of at most `maxRows` rows, or none once every row has been handed
out and the payload file is exhausted. -/
def nextRaw (s : CompoundStream) (maxRows : ℕ) :
    Except String (Option RawBatch) × CompoundStream :=
  if maxRows = 0 then (.error "a stream batch must hold at least one row", s)
  else if s.finished then (.ok none, s)
  else
    let remaining := s.layout.rows - s.nextRow
    if remaining = 0 then
      let (result, s) := s.finish
      (result.map fun _ ↦ none, s)
    else
      let (result, s) := s.nextBlock (min remaining maxRows)
      (result.map some, s)

end CompoundStream

end VectorDbBenchmark.Readers
