import VectorDbBenchmark.Kit.Bytes
import VectorDbBenchmark.Kit.Fallible

/-!
# The CSR corpus format

`readers/sparse_reader.rs` stores a list of sparse vectors as

```text
[ n_row: i64 ][ n_col: i64 ][ n_non_zero: i64 ]
[ index_pointer: i64 × (n_row + 1) ]
[ columns: i32 × n_non_zero ]
[ values:  f32 × n_non_zero ]
```

A file is its bytes here; opening and creating it is left out.  An `f32` is its
bit pattern, so "the same value" below is "the same bits".  The machine is a
64-bit one: `usize` and `u64` are naturals below `2 ^ 64`, and casts to and
from `i64` keep the 64 bits.
-/

namespace VectorDbBenchmark.Readers

open Kit

/-- An IEEE binary32 value, by its bits. -/
structure F32 where
  bits : UInt32
deriving DecidableEq, Repr

/-- Parallel `indices` (dimension ids) and `values`. -/
structure SparseVector where
  indices : List UInt32
  values : List F32
deriving DecidableEq, Repr

/-! ## Fields -/

def i64ToLeBytes (v : Int64) : Bytes := toLe 8 v.toUInt64.toNat
def i64FromLeBytes (bs : Bytes) : Int64 := (UInt64.ofNat (ofLe bs)).toInt64
def i32ToLeBytes (v : Int32) : Bytes := toLe 4 v.toUInt32.toNat
def i32FromLeBytes (bs : Bytes) : Int32 := (UInt32.ofNat (ofLe bs)).toInt32
def f32ToLeBytes (v : F32) : Bytes := toLe 4 v.bits.toNat
def f32FromLeBytes (bs : Bytes) : F32 := ⟨UInt32.ofNat (ofLe bs)⟩

def u32ToLeBytes (v : UInt32) : Bytes := toLe 4 v.toNat
def u32FromLeBytes (bs : Bytes) : UInt32 := UInt32.ofNat (ofLe bs)

/-- `v as usize`. -/
def asUsize (v : Int64) : Nat := v.toUInt64.toNat

@[simp] theorem length_i64ToLeBytes (v : Int64) : (i64ToLeBytes v).length = 8 := length_toLe 8 _
@[simp] theorem length_i32ToLeBytes (v : Int32) : (i32ToLeBytes v).length = 4 := length_toLe 4 _
@[simp] theorem length_f32ToLeBytes (v : F32) : (f32ToLeBytes v).length = 4 := length_toLe 4 _

@[simp] theorem length_u32ToLeBytes (v : UInt32) : (u32ToLeBytes v).length = 4 := length_toLe 4 _

@[simp] theorem u32FromLeBytes_toLeBytes (v : UInt32) : u32FromLeBytes (u32ToLeBytes v) = v := by
  rw [u32FromLeBytes, u32ToLeBytes, ofLe_toLe_of_lt v.toNat_lt, UInt32.ofNat_toNat]

@[simp] theorem i64FromLeBytes_toLeBytes (v : Int64) : i64FromLeBytes (i64ToLeBytes v) = v := by
  rw [i64FromLeBytes, i64ToLeBytes, ofLe_toLe_of_lt v.toUInt64.toNat_lt, UInt64.ofNat_toNat]
  rfl

@[simp] theorem i32FromLeBytes_toLeBytes (v : Int32) : i32FromLeBytes (i32ToLeBytes v) = v := by
  rw [i32FromLeBytes, i32ToLeBytes, ofLe_toLe_of_lt v.toUInt32.toNat_lt, UInt32.ofNat_toNat]
  rfl

@[simp] theorem f32FromLeBytes_toLeBytes (v : F32) : f32FromLeBytes (f32ToLeBytes v) = v := by
  rw [f32FromLeBytes, f32ToLeBytes, ofLe_toLe_of_lt v.bits.toNat_lt, UInt32.ofNat_toNat]

/-- A count below `2 ^ 64` survives the casts to `i64` and back. -/
theorem asUsize_ofNat {n : Nat} (h : n < u64Size) : asUsize (Int64.ofNat n) = n := by
  simpa [asUsize, u64Size] using h

theorem ofNat_nonneg {n : Nat} (h : n < 2 ^ 63) : ¬ Int64.ofNat n < 0 := by
  rw [Int64.lt_iff_toInt_lt, Int64.toInt_ofNat_of_lt h, Int64.toInt_zero]
  omega

/-! ## Reading -/

/-- `n` little-endian fields of `width` bytes, each mapped by `f`.  The byte
count is checked for overflow and bounded by the file's size before the
buffer is allocated; `overflow` is the caller's message. -/
def readArray {α : Type} (width : Nat) (f : Bytes → α) (overflow : String) (n maxBytes : Nat)
    (r : Bytes) : Except String (List α × Bytes) :=
  match checkedMul n width with
  | none => .error overflow
  | some byteLen =>
    if maxBytes < byteLen then
      .error s!"CSR claims {byteLen} bytes but file is only {maxBytes} bytes"
    else do
      let (buf, r) ← readExact byteLen r
      pure ((asChunks width buf).map f, r)

def readI64Le (n maxBytes : Nat) (r : Bytes) : Except String (List Int64 × Bytes) :=
  readArray 8 i64FromLeBytes "CSR size overflow (i64 count too large)" n maxBytes r

def readU32Array {α : Type} (f : Bytes → α) (n maxBytes : Nat) (r : Bytes) :
    Except String (List α × Bytes) :=
  readArray 4 f "CSR nnz size overflow" n maxBytes r

/-- The checks of every window of two index pointers: non-negative, not
decreasing, the later one within `nNonZero`. -/
def checkIndexPointer (path : String) (nNonZero : Nat) : List Int64 → Except String Unit
  | prev :: next :: rest =>
    if prev < 0 ∨ next < 0 then
      .error s!"CSR index_pointer has negative offset in {path}"
    else if next < prev then
      .error s!"CSR index_pointer not monotonic in {path}"
    else if nNonZero < asUsize next then
      .error s!"CSR index_pointer offset {next} exceeds nnz {nNonZero} in {path}"
    else checkIndexPointer path nNonZero (next :: rest)
  | _ => .ok ()

/-- `xs.get(start..stop)`. -/
def getRange {α : Type} (xs : List α) (start stop : Nat) : Option (List α) :=
  if start ≤ stop ∧ stop ≤ xs.length then some ((xs.drop start).take (stop - start)) else none

/-- Round `i` of the row loop.  Indexing `index_pointer` past its end would
panic; the error of that branch stands for it. -/
def readRow (indexPointer : List Int64) (columns : List UInt32) (values : List F32) (i : Nat) :
    Except String SparseVector :=
  match indexPointer[i]?, indexPointer[i + 1]? with
  | some lo, some hi =>
    let start := asUsize lo
    let stop := asUsize hi
    match getRange columns start stop with
    | none => .error s!"CSR columns range {start}..{stop} out of bounds"
    | some indices =>
      match getRange values start stop with
      | none => .error s!"CSR values range {start}..{stop} out of bounds"
      | some vals => .ok ⟨indices, vals⟩
  | _, _ => .error "panic: index out of bounds"

/-- `read_sparse_matrix` of a file holding `file`. -/
def readSparseMatrix (path : String) (file : Bytes) : Except String (List SparseVector) := do
  let fileLen := file.length
  let (sizes, r) ← readI64Le 3 fileLen file
  match sizes with
  | [nRow, nCol, nNonZero] =>
    if nRow < 0 ∨ nCol < 0 ∨ nNonZero < 0 then .error s!"invalid CSR header in {path}"
    else
      let nRow := asUsize nRow
      let nNonZero := asUsize nNonZero
      match checkedAdd nRow 1 with
      | none => .error "CSR n_row overflow"
      | some ipCount => do
        let (indexPointer, r) ← readI64Le ipCount fileLen r
        if asUsize (indexPointer.getLast?.getD 0) ≠ nNonZero then
          .error s!"CSR index_pointer/nnz mismatch in {path}"
        else do
          checkIndexPointer path nNonZero indexPointer
          let (columns, r) ← readU32Array (fun c ↦ (i32FromLeBytes c).toUInt32) nNonZero fileLen r
          let (values, _) ← readU32Array f32FromLeBytes nNonZero fileLen r
          (List.range nRow).mapM (readRow indexPointer columns values)
  | _ => .error "panic: index out of bounds"

/-! ## Writing -/

/-- The largest buffer a `Vec<u8>` can hold, `isize::MAX`. -/
def maxVecBytes : Nat := 2 ^ 63 - 1

/-- `rows.iter().flat_map(..).map(|&i| i as i64 + 1).max().unwrap_or(0)`. -/
def numCols (rows : List SparseVector) : Int64 :=
  ((rows.flatMap (·.indices)).map fun i ↦ Int64.ofNat i.toNat + 1).foldl max 0

/-- The running total of the row lengths: `0`, then one entry for each row. -/
def indexPointers (ip : Int64) : List SparseVector → List Int64
  | [] => [ip]
  | r :: rows => ip :: indexPointers (ip + Int64.ofNat r.indices.length) rows

/-- `write_sparse_matrix`: the bytes written.  Growing the buffer past
`isize::MAX` bytes panics with "capacity overflow". -/
def writeSparseMatrix (rows : List SparseVector) : Except String Bytes :=
  let nRow := Int64.ofNat rows.length
  let nNonZero := (rows.map fun r ↦ Int64.ofNat r.indices.length).sum
  let buf := [nRow, numCols rows, nNonZero].flatMap i64ToLeBytes
    ++ (indexPointers 0 rows).flatMap i64ToLeBytes
    ++ (rows.flatMap (·.indices)).flatMap (fun c ↦ i32ToLeBytes c.toInt32)
    ++ (rows.flatMap (·.values)).flatMap f32ToLeBytes
  if buf.length ≤ maxVecBytes then .ok buf else .error "panic: capacity overflow"

/-! ## What a written file reads back as

The proof follows the file: each of its four blocks is read back by
`readArray_flatMap`, the pointers pass the monotonicity check because they are
running totals, and row `i` is the slice between two of them. -/

/-- An array of fields is read back, whatever follows it. -/
theorem readArray_flatMap {α : Type} {k : Nat} {enc : α → Bytes} {d : Bytes → α} (hk : 0 < k)
    (henc : ∀ a, (enc a).length = k) (hdec : ∀ a, d (enc a) = a) (ov : String) {n maxBytes : Nat}
    (xs : List α) (hn : xs.length = n) (hle : n * k ≤ maxBytes) (hlt : maxBytes < u64Size)
    (tail : Bytes) : readArray k d ov n maxBytes (xs.flatMap enc ++ tail) = .ok (xs, tail) := by
  have hlen : (xs.flatMap enc).length = n * k := by rw [length_flatMap_const henc, hn]
  rw [readArray, checkedMul_of_lt (lt_of_le_of_lt hle hlt)]
  simp only [not_lt.mpr hle, if_false, readExact_append hlen, ok_bind, asChunks_flatMap hk henc,
    List.map_map]
  have hid : d ∘ enc = id := funext hdec
  rw [hid, List.map_id]
  rfl

/-- Where row `i` starts in the column and value blocks. -/
def rowOffset (rows : List SparseVector) (i : Nat) : Nat :=
  ((rows.map (·.indices.length)).take i).sum

theorem rowOffset_le (rows : List SparseVector) (i : Nat) :
    rowOffset rows i ≤ (rows.map (·.indices.length)).sum :=
  List.Sublist.sum_le_sum (List.take_sublist _ _) (by simp)

theorem rowOffset_mono (rows : List SparseVector) {i j : Nat} (h : i ≤ j) :
    rowOffset rows i ≤ rowOffset rows j :=
  List.Sublist.sum_le_sum (List.take_sublist_take_left h) (by simp)

theorem rowOffset_length (rows : List SparseVector) :
    rowOffset rows rows.length = (rows.map (·.indices.length)).sum := by
  rw [rowOffset, List.take_of_length_le (by simp)]

/-- The pointers a file stores are the row offsets. -/
theorem indexPointers_eq (a : Nat) (rows : List SparseVector) :
    indexPointers (Int64.ofNat a) rows =
      (List.range (rows.length + 1)).map fun i ↦ Int64.ofNat (a + rowOffset rows i) := by
  induction rows generalizing a with
  | nil => simp [indexPointers, rowOffset]
  | cons r rows ih =>
      rw [indexPointers, ← Int64.ofNat_add, ih, List.length_cons,
        List.range_succ_eq_map (n := _ + 1),
        List.map_cons, List.map_map]
      refine congrArg₂ List.cons (by simp [rowOffset]) (List.map_congr_left fun i _ ↦ ?_)
      simp [rowOffset, Nat.add_assoc]

theorem indexPointers_zero (rows : List SparseVector) :
    indexPointers 0 rows =
      ((List.range (rows.length + 1)).map (rowOffset rows)).map Int64.ofNat := by
  rw [show (0 : Int64) = Int64.ofNat 0 from rfl, indexPointers_eq, List.map_map]
  exact List.map_congr_left fun i _ ↦ by rw [Function.comp_apply, Nat.zero_add]

@[simp] theorem length_indexPointers (rows : List SparseVector) :
    (indexPointers 0 rows).length = rows.length + 1 := by
  simp [indexPointers_zero]

theorem indexPointers_getElem? {rows : List SparseVector} {i : Nat} (hi : i ≤ rows.length) :
    (indexPointers 0 rows)[i]? = some (Int64.ofNat (rowOffset rows i)) := by
  rw [indexPointers_zero, List.map_map, List.getElem?_map, List.getElem?_range (by omega)]
  rfl

/-- Running totals that stay below `2 ^ 63` and end within `nNonZero` pass the
pointer checks. -/
theorem checkIndexPointer_offsets (path : String) {nNonZero : Nat} (hbound : nNonZero < 2 ^ 63) :
    ∀ offsets : List Nat, offsets.IsChain (· ≤ ·) → (∀ o ∈ offsets, o ≤ nNonZero) →
      checkIndexPointer path nNonZero (offsets.map Int64.ofNat) = .ok ()
  | [], _, _ => rfl
  | [_], _, _ => rfl
  | a :: b :: rest, hchain, hle => by
      obtain ⟨hab, hchain⟩ := List.isChain_cons_cons.mp hchain
      have ha : a ≤ nNonZero := hle a (by simp)
      have hb : b ≤ nNonZero := hle b (by simp)
      have hneg : ¬ (Int64.ofNat a < 0 ∨ Int64.ofNat b < 0) :=
        not_or.mpr ⟨ofNat_nonneg (by omega), ofNat_nonneg (by omega)⟩
      have hmono : ¬ Int64.ofNat b < Int64.ofNat a := by
        rw [Int64.lt_iff_toInt_lt, Int64.toInt_ofNat_of_lt (by omega),
          Int64.toInt_ofNat_of_lt (by omega)]
        omega
      have hfit : ¬ nNonZero < asUsize (Int64.ofNat b) := by
        rw [asUsize_ofNat (by simp only [u64Size]; omega)]
        omega
      rw [List.map_cons, List.map_cons, checkIndexPointer, if_neg hneg, if_neg hmono, if_neg hfit]
      exact checkIndexPointer_offsets path hbound (b :: rest) hchain
        fun o ho ↦ hle o (List.mem_cons_of_mem _ ho)

theorem checkIndexPointer_indexPointers (path : String) {rows : List SparseVector}
    (hbound : (rows.map (·.indices.length)).sum < 2 ^ 63) :
    checkIndexPointer path (rows.map (·.indices.length)).sum (indexPointers 0 rows) = .ok () := by
  rw [indexPointers_zero]
  refine checkIndexPointer_offsets path hbound _ ?_ ?_
  · rw [List.isChain_map]
    exact (List.isChain_range (fun a b ↦ rowOffset rows a ≤ rowOffset rows b) _).mpr
      fun m _ ↦ rowOffset_mono rows (Nat.le_succ m)
  · intro o ho
    obtain ⟨i, -, rfl⟩ := List.mem_map.mp ho
    exact rowOffset_le rows i

/-- The slice of a concatenation between two consecutive running totals is one
of the concatenated lists. -/
theorem getRange_flatMap {α : Type} (rows : List SparseVector) (f : SparseVector → List α)
    (hf : ∀ r ∈ rows, (f r).length = r.indices.length) {i : Nat} (hi : i < rows.length) :
    getRange (rows.flatMap f) (rowOffset rows i) (rowOffset rows (i + 1)) = some (f rows[i]) := by
  have hlens : (rows.map f).map List.length = rows.map (·.indices.length) := by
    rw [List.map_map]
    exact List.map_congr_left hf
  have htotal : (rows.flatMap f).length = (rows.map (·.indices.length)).sum := by
    rw [List.flatMap, List.length_flatten, hlens]
  have hslice := List.drop_take_succ_flatten_eq_getElem (rows.map f) i (by simpa using hi)
  rw [hlens, List.drop_take] at hslice
  rw [getRange, if_pos ⟨rowOffset_mono rows (Nat.le_succ i), htotal ▸ rowOffset_le rows (i + 1)⟩]
  simpa [rowOffset, List.flatMap] using hslice

/-- Round `i` of the row loop rebuilds row `i`. -/
theorem readRow_indexPointers {rows : List SparseVector}
    (haligned : ∀ r ∈ rows, r.indices.length = r.values.length)
    (hnnz : (rows.map (·.indices.length)).sum < u64Size) {i : Nat} (hi : i < rows.length) :
    readRow (indexPointers 0 rows) (rows.flatMap (·.indices)) (rows.flatMap (·.values)) i =
      .ok rows[i] := by
  have husize : ∀ j, asUsize (Int64.ofNat (rowOffset rows j)) = rowOffset rows j := fun j ↦
    asUsize_ofNat (lt_of_le_of_lt (rowOffset_le rows j) hnnz)
  have hindices := getRange_flatMap rows (·.indices) (fun _ _ ↦ rfl) hi
  have hvalues := getRange_flatMap rows (·.values) (fun r hr ↦ (haligned r hr).symm) hi
  rw [readRow, indexPointers_getElem? hi.le, indexPointers_getElem? hi]
  simp only [husize, hindices, hvalues]

theorem sum_ofNat_lengths (rows : List SparseVector) :
    (rows.map fun r ↦ Int64.ofNat r.indices.length).sum =
      Int64.ofNat (rows.map (·.indices.length)).sum := by
  induction rows with
  | nil => rfl
  | cons r rows ih =>
      rw [List.map_cons, List.sum_cons, ih, List.map_cons, List.sum_cons, Int64.ofNat_add]

/-- What an accepted write produced, and that it fits a buffer. -/
theorem writeSparseMatrix_eq_ok {rows : List SparseVector} {file : Bytes}
    (h : writeSparseMatrix rows = .ok file) :
    file = [Int64.ofNat rows.length, numCols rows,
          Int64.ofNat (rows.map (·.indices.length)).sum].flatMap i64ToLeBytes
        ++ (indexPointers 0 rows).flatMap i64ToLeBytes
        ++ (rows.flatMap (·.indices)).flatMap (fun c ↦ i32ToLeBytes c.toInt32)
        ++ (rows.flatMap (·.values)).flatMap f32ToLeBytes ∧ file.length ≤ maxVecBytes := by
  rw [writeSparseMatrix, sum_ofNat_lengths] at h
  split at h
  · cases h
    exact ⟨rfl, by assumption⟩
  · cases h

theorem numCols_nonneg (rows : List SparseVector) : ¬ numCols rows < 0 := by
  have hmax : ∀ (l : List Int64) (init : Int64), ¬ init < 0 → ¬ l.foldl max init < 0 := by
    intro l
    induction l with
    | nil => exact fun _ h ↦ h
    | cons a l ih =>
        refine fun init h ↦ ih _ ?_
        rw [show max init a = if init ≤ a then a else init from rfl]
        split
        · rename_i hle
          rw [Int64.lt_iff_toInt_lt] at h ⊢
          rw [Int64.le_iff_toInt_le] at hle
          omega
        · exact h
  exact hmax _ 0 (by decide)

/-- **A CSR file reads back as the rows that were written**, bit for bit. -/
theorem readSparseMatrix_writeSparseMatrix (path : String) {rows : List SparseVector} {file : Bytes}
    (haligned : ∀ r ∈ rows, r.indices.length = r.values.length)
    (hw : writeSparseMatrix rows = .ok file) : readSparseMatrix path file = .ok rows := by
  obtain ⟨hfile, hfit⟩ := writeSparseMatrix_eq_ok hw
  set nnz := (rows.map (·.indices.length)).sum with hnnz
  have hcols : (rows.flatMap (·.indices)).length = nnz := by rw [List.length_flatMap]
  have hvals : (rows.flatMap (·.values)).length = nnz := by
    rw [List.length_flatMap, hnnz, List.map_congr_left haligned]
  have hlen : file.length = 24 + (rows.length + 1) * 8 + nnz * 4 + nnz * 4 := by
    rw [hfile]
    simp only [List.length_append, length_flatMap_const length_i64ToLeBytes,
      length_flatMap_const length_f32ToLeBytes, length_indexPointers, hvals,
      length_flatMap_const fun c : UInt32 ↦ length_i32ToLeBytes c.toInt32, hcols]
    simp
  simp only [maxVecBytes] at hfit
  have hu64 : file.length < u64Size := by simp only [u64Size]; omega
  have hheader : ¬ (Int64.ofNat rows.length < 0 ∨ numCols rows < 0 ∨ Int64.ofNat nnz < 0) := by
    rintro (h | h | h)
    · exact ofNat_nonneg (by omega) h
    · exact numCols_nonneg rows h
    · exact ofNat_nonneg (by omega) h
  have hrows : asUsize (Int64.ofNat rows.length) = rows.length := asUsize_ofNat (by omega)
  have hnz : asUsize (Int64.ofNat nnz) = nnz := asUsize_ofNat (by omega)
  have hlast : asUsize ((indexPointers 0 rows).getLast?.getD 0) = nnz := by
    rw [List.getLast?_eq_getElem?, length_indexPointers, Nat.add_sub_cancel,
      indexPointers_getElem? le_rfl, Option.getD_some, rowOffset_length, hnz]
  -- The four blocks, each read off the front of what the previous one left.
  have hsizes := fun tail ↦ readArray_flatMap (by norm_num) length_i64ToLeBytes
    i64FromLeBytes_toLeBytes "CSR size overflow (i64 count too large)" (n := 3)
    [Int64.ofNat rows.length, numCols rows, Int64.ofNat nnz] rfl (by omega) hu64 tail
  have hptr := fun tail ↦ readArray_flatMap (by norm_num) length_i64ToLeBytes
    i64FromLeBytes_toLeBytes "CSR size overflow (i64 count too large)" (indexPointers 0 rows)
    (length_indexPointers rows) (by omega) hu64 tail
  have hcol := fun tail ↦ readArray_flatMap (by norm_num)
    (fun c : UInt32 ↦ length_i32ToLeBytes c.toInt32) (d := fun c ↦ (i32FromLeBytes c).toUInt32)
    (fun c ↦ by simp) "CSR nnz size overflow" (rows.flatMap (·.indices)) hcols (by omega) hu64 tail
  have hval := readArray_flatMap (by norm_num) length_f32ToLeBytes f32FromLeBytes_toLeBytes
    "CSR nnz size overflow" (rows.flatMap (·.values)) hvals (by omega) hu64 []
  rw [List.append_nil] at hval
  simp only [List.append_assoc] at hfile
  have hstart := hsizes ((indexPointers 0 rows).flatMap i64ToLeBytes
    ++ ((rows.flatMap (·.indices)).flatMap (fun c ↦ i32ToLeBytes c.toInt32)
    ++ (rows.flatMap (·.values)).flatMap f32ToLeBytes))
  rw [← hfile] at hstart
  have hcheck : checkIndexPointer path nnz (indexPointers 0 rows) = .ok () :=
    checkIndexPointer_indexPointers path (by omega)
  have hadd : checkedAdd rows.length 1 = some (rows.length + 1) :=
    checkedAdd_of_lt (by simp only [u64Size]; omega)
  simp only [readSparseMatrix, readI64Le, readU32Array, hstart, hptr, hcol, hval, ok_bind,
    if_neg hheader, hrows, hnz, hlast, hadd, ne_eq, not_true_eq_false, if_false,
    hcheck]
  exact mapM_range_eq_ok fun i hi ↦
    readRow_indexPointers haligned (by simp only [u64Size]; omega) hi

/-- An empty row between two others, the largest index and a NaN. -/
theorem readSparseMatrix_writeSparseMatrix_three_rows : ∃ file,
    writeSparseMatrix [⟨[0, 5], [⟨0x3F800000⟩, ⟨0x80000000⟩]⟩, ⟨[], []⟩,
      ⟨[4294967295], [⟨0x7FC00001⟩]⟩]
      = .ok file ∧
    readSparseMatrix "data.csr" file
      = .ok [⟨[0, 5], [⟨0x3F800000⟩, ⟨0x80000000⟩]⟩, ⟨[], []⟩, ⟨[4294967295], [⟨0x7FC00001⟩]⟩] :=
  ⟨_, rfl, readSparseMatrix_writeSparseMatrix "data.csr" (by decide) rfl⟩

end VectorDbBenchmark.Readers
