import VectorDbBenchmark.Json
import VectorDbBenchmark.Kit.Fallible
import VectorDbBenchmark.Kit.Utf8
import VectorDbBenchmark.Readers.SparseReader

/-!
# NPY vector files

`readers/npy_reader.rs`: the header of an NPY file as both compound readers scan it, the
size bound in front of the array library, and the in-memory vector reader.

The array itself is read by `ndarray-npy`, which is not part of the repository: it is
the field `readNpy` of the environment, and `f32` arithmetic is the field `f32`.  A
file is its bytes, which are fewer than `2 ^ 64`.
-/

namespace VectorDbBenchmark.Readers

open Kit

/-- The `f32` operations of the normalization. -/
structure F32Ops where
  add : F32 → F32 → F32
  mul : F32 → F32 → F32
  div : F32 → F32 → F32
  sqrt : F32 → F32
  /-- Where an iterator's `sum` starts. -/
  sumStart : F32
  /-- `x > 0.0`. -/
  isPositive : F32 → Bool

/-- What the readers use from outside the repository. -/
structure ReaderEnv where
  f32 : F32Ops
  /-- `serde_json::from_str`. -/
  fromStr : Text → Except String Json
  /-- `Array2::<f32>::read_npy`, as the rows of the array. -/
  readNpy : Bytes → Except String (List (List F32))

/-- A compound directory: `vectors.npy` and, when present, `payloads.jsonl`. -/
structure CompoundDir where
  path : String
  vectors : Bytes
  payloads : Option Text

def CompoundDir.vectorsPath (dir : CompoundDir) : String := dir.path ++ "/vectors.npy"

/-! ## The header -/

/-- `haystack[start..]`, `haystack[start..stop]`. -/
def slice (t : Text) (start stop : ℕ) : Text := (t.drop start).take (stop - start)

/-- The dimensions in the text between the parentheses of a shape. -/
def parseDims : List Text → Option (List ℕ)
  | [] => some []
  | part :: parts =>
    let t := trim part
    if t.isEmpty then parseDims parts
    else do
      let dim ← parseU64 t
      let dims ← parseDims parts
      pure (dim :: dims)

def parseNpyShapeDims (header : Text) : Option (List ℕ) := do
  let shapeIdx ← findSub "'shape'".toList header
  let rest := header.drop shapeIdx
  let openIdx ← findSub ['('] rest
  let close ← (findSub [')'] (rest.drop openIdx)).map (· + openIdx)
  parseDims (splitAtSep ',' (slice rest (openIdx + 1) close))

def isQuote (c : Char) : Bool := c = '\'' || c = '"'

/-- The product of the dimensions, while it fits a `u64`. -/
def checkedProduct : ℕ → List ℕ → Option ℕ
  | count, [] => some count
  | count, dim :: dims => (checkedMul count dim).bind fun count ↦ checkedProduct count dims

def parseNpyShapeItemsize (header : Text) : Option (ℕ × ℕ) := do
  let descrIdx ← findSub "'descr'".toList header
  let afterDescr := header.drop (descrIdx + "'descr'".length)
  let qStart ← afterDescr.findIdx? isQuote
  let afterQ := afterDescr.drop (qStart + 1)
  let qEnd ← afterQ.findIdx? isQuote
  let descr := afterQ.take qEnd
  let itemsize ← parseU64 (descr.filter Char.isDigit)
  let dims ← parseNpyShapeDims header
  let count ← checkedProduct 1 dims
  pure (count, itemsize)

structure NpyHeader where
  dict : Text
  dataStart : ℕ
  fileLen : ℕ
deriving DecidableEq, Repr

/-- One character of the bracket scan: the depth and the deepest so far. -/
def bracketStep (s : ℕ × ℕ) (c : Char) : ℕ × ℕ :=
  if c = '{' ∨ c = '[' ∨ c = '(' then (s.1 + 1, max s.2 (s.1 + 1))
  else if c = '}' ∨ c = ']' ∨ c = ')' then (s.1 - 1, s.2)
  else s

def maxBracketDepth (header : Text) : ℕ := (header.foldl bracketStep (0, 0)).2

/-- `\x93NUMPY`. -/
def npyMagic : Bytes := [0x93, 0x4E, 0x55, 0x4D, 0x50, 0x59]

/-- The length of the header text and where it starts: two length bytes in version 1,
four from version 2 on. -/
def headerSpan (file : Bytes) : Option (ℕ × ℕ) :=
  if file[6]?.getD 0 ≥ 2 then
    if file.length < 12 then none else some (ofLe ((file.drop 8).take 4), 12)
  else some (ofLe ((file.drop 8).take 2), 10)

/-- `read_npy_header`; no header when the file is too short or lacks the magic. -/
def readNpyHeader (file : Bytes) : Except String (Option NpyHeader) :=
  let fileLen := file.length
  if fileLen < 10 then .ok none
  else if file.take 6 ≠ npyMagic then .ok none
  else match headerSpan file with
    | none => .ok none
    | some (headerLen, headerStart) =>
      match checkedAdd headerStart headerLen with
      | none => .error "NPY header length overflow"
      | some headerEnd =>
        if fileLen < headerEnd then
          .error s!"NPY header length {headerLen} exceeds file size {fileLen}"
        else
          let header := fromUtf8Lossy ((file.drop headerStart).take headerLen)
          let maxDepth := maxBracketDepth header
          if 4 < maxDepth then
            .error s!"malformed NPY header: bracket nesting depth {maxDepth} exceeds limit (4)"
          else .ok (some ⟨header, headerEnd, fileLen⟩)

/-- `validate_npy_size_bound`: the declared data must fit in the file; a header that
cannot be read is left to the array library. -/
def validateNpySizeBound (file : Bytes) : Except String Unit := do
  match ← readNpyHeader file with
  | none => .ok ()
  | some header =>
    match parseNpyShapeItemsize header.dict with
    | none => .ok ()
    | some (count, itemsize) =>
      match checkedMul count itemsize with
      | none => .error "NPY shape * itemsize overflow"
      | some dataBytes =>
        match checkedAdd header.dataStart dataBytes with
        | none => .error "NPY total size overflow"
        | some total =>
          if header.fileLen < total then
            .error s!"NPY declares {dataBytes} data bytes but file has only {header.fileLen}"
          else .ok ()

/-! ## Vectors -/

/-- Divide a vector by its L2 norm when that is positive. -/
def normalizeRow (ops : F32Ops) (v : List F32) : List F32 :=
  let norm := ops.sqrt ((v.map fun x ↦ ops.mul x x).foldl ops.add ops.sumStart)
  if ops.isPositive norm then v.map fun x ↦ ops.div x norm else v

/-- `(0..rows as i64).collect()`. -/
def idsBelow (rows : ℕ) : List Int64 :=
  (List.range (Int64.ofNat rows).toInt.toNat).map Int64.ofNat

def readNpyVectors (env : ReaderEnv) (file : Bytes) (normalize : Bool) :
    Except String (List Int64 × List (List F32)) := do
  validateNpySizeBound file
  let vectors ← (env.readNpy file).mapError fun e ↦ s!"Failed to read NPY file: {e}"
  let vectors := if normalize then vectors.map (normalizeRow env.f32) else vectors
  pure (idsBelow vectors.length, vectors)

end VectorDbBenchmark.Readers
