import VectorDbBenchmark.Readers.NpyFile

/-!
# NPY rows written as they come

`src/msmarco.rs`, `src/msmarco/hybrid.rs`: the writer that streams rows behind a reserved
header and puts the header in last, and the reader that opens such a file at row 0.  The
file operations themselves succeed; a file is its bytes.
-/

namespace VectorDbBenchmark.Msmarco

open Kit Readers

/-! ## The writer -/

/-- `npy_f32_header`: version 1.0, padded to a multiple of 64 bytes. -/
def npyF32Header (rows cols : ℕ) : Bytes :=
  let dict := s!"\x7b'descr': '<f4', 'fortran_order': False, 'shape': ({rows}, {cols}), \x7d".toList
  let unpadded := 10 + dict.length + 1
  let padding := (64 - unpadded % 64) % 64
  let dictLen := dict.length + padding + 1
  npyMagic ++ [1, 0] ++ toLe 2 dictLen ++ asciiBytes dict ++ List.replicate padding 0x20 ++ [0x0A]

structure DeferredNpyF32Writer where
  file : Bytes
  cols : UInt64
  rowsWritten : UInt64
  headerLen : ℕ

namespace DeferredNpyF32Writer

/-- Room for the header a one-row file would have. -/
def create (cols : UInt64) : DeferredNpyF32Writer :=
  let headerLen := (npyF32Header 1 cols.toNat).length
  ⟨List.replicate headerLen 0, cols, 0, headerLen⟩

def writeRow (w : DeferredNpyF32Writer) (row : List F32) : Except String DeferredNpyF32Writer :=
  if row.length ≠ w.cols.toNat then
    .error s!"NPY row has {row.length} values, expected {w.cols}"
  else .ok { w with file := w.file ++ row.flatMap f32ToLeBytes, rowsWritten := w.rowsWritten + 1 }

/-- The row count, and the file with its header in place. -/
def finish (w : DeferredNpyF32Writer) : Except String (UInt64 × Bytes) :=
  let header := npyF32Header w.rowsWritten.toNat w.cols.toNat
  if header.length ≠ w.headerLen then
    .error (s!"NPY header for {w.rowsWritten} rows renders to {header.length} bytes but " ++
      s!"{w.headerLen} were reserved — the payload would start at the wrong offset")
  else .ok (w.rowsWritten, header ++ w.file.drop header.length)

end DeferredNpyF32Writer

/-! ## The reader -/

/-- The length of the header text, by the version in `pre`. -/
def npyHeaderLen (shown : String) (version : UInt8) (rest : Bytes) : Except String (ℕ × Bytes) :=
  if version = 1 then do
    let (b, rest) ← readExact 2 rest
    pure (ofLe b, rest)
  else if version = 2 ∨ version = 3 then do
    let (b, rest) ← readExact 4 rest
    pure (ofLe b, rest)
  else .error s!"{shown}: unsupported NPY version {version}"

/-- `open_f32_npy`: what follows the header, and the two dimensions. -/
def openF32Npy (shown : String) (file : Bytes) : Except String (Bytes × ℕ × ℕ) := do
  let (pre, rest) ← (readExact 8 file).mapError fun e ↦ s!"read {shown}: {e}"
  if pre.take 6 ≠ npyMagic then .error s!"{shown} is not an NPY file"
  else
    let (hlen, rest) ← npyHeaderLen shown (pre[6]?.getD 0) rest
    if 2 ^ 16 < hlen then .error s!"{shown}: NPY header of {hlen} bytes"
    else
      let (h, rest) ← (readExact hlen rest).mapError fun e ↦ s!"read {shown} header: {e}"
      let h := fromUtf8Lossy h
      if !containsSub "'descr': '<f4'".toList h ||
        !containsSub "'fortran_order': False".toList h then
        .error s!"{shown}: expected a C-order '<f4' array, header is {String.ofList h}"
      else
        match (splitSub "'shape': (".toList h)[1]?.bind fun s ↦ (splitAtSep ')' s).head? with
        | none => .error s!"{shown}: no shape in header {String.ofList h}"
        | some shape =>
          match parseDims (splitAtSep ',' shape) with
          | none => .error s!"{shown}: shape \"{String.ofList shape}\": invalid dimension"
          | some [rows, cols] =>
            if 0 < cols then .ok (rest, rows, cols)
            else .error s!"{shown}: expected a 2-D array, shape is ({String.ofList shape})"
          | some _ => .error s!"{shown}: expected a 2-D array, shape is ({String.ofList shape})"

/-! ## The header's size -/

/-- The padding of `npyF32Header`. -/
def headerPad (rows cols : ℕ) : ℕ :=
  (64 - (68 + rows.repr.toList.length + cols.repr.toList.length) % 64) % 64

/-- The dictionary as the format string prints it. -/
def headerDict (rows cols : ℕ) : Text :=
  dictOpening ++ (shapeText rows cols ++ ')' :: ", \x7d".toList)

theorem headerDict_eq (rows cols : ℕ) :
    s!"\x7b'descr': '<f4', 'fortran_order': False, 'shape': ({rows}, {cols}), \x7d".toList =
      headerDict rows cols := by
  have hopen : dictOpening =
      "\x7b'descr': '<f4', 'fortran_order': False, 'shape': (".toList := rfl
  simp only [headerDict, shapeText, hopen, String.toList_append, List.append_assoc,
    List.cons_append]
  rfl

theorem length_headerDict (rows cols : ℕ) : (headerDict rows cols).length =
    57 + rows.repr.toList.length + cols.repr.toList.length := by
  have hopen : dictOpening.length = 51 := by decide
  have hclose : ", \x7d".toList.length = 3 := by decide
  rw [headerDict, shapeText, List.length_append, List.length_append, List.length_append,
    List.length_cons, List.length_cons, List.length_cons, hopen, hclose]
  omega

theorem npyDict_eq (rows cols pad : ℕ) :
    npyDict rows cols true pad = headerDict rows cols ++ (List.replicate pad ' ' ++ ['\n']) := by
  rw [npyDict, headerDict, dictClosing, if_pos rfl]
  simp only [List.append_assoc, List.cons_append]

theorem length_npyDict (rows cols pad : ℕ) : (npyDict rows cols true pad).length =
    (headerDict rows cols).length + pad + 1 := by
  rw [npyDict_eq, List.length_append, List.length_append, List.length_replicate]
  rfl

theorem npyF32Header_eq (rows cols : ℕ) :
    npyF32Header rows cols = npyMagic ++ ([1, 0] ++
      (toLe 2 (npyDict rows cols true (headerPad rows cols)).length ++
        asciiBytes (npyDict rows cols true (headerPad rows cols)))) := by
  have hpad : (64 - (10 + (headerDict rows cols).length + 1) % 64) % 64 = headerPad rows cols := by
    rw [length_headerDict, headerPad]
    congr 3
    omega
  have hascii : asciiBytes (npyDict rows cols true (headerPad rows cols)) =
      asciiBytes (headerDict rows cols) ++
        (List.replicate (headerPad rows cols) 0x20 ++ [0x0A]) := by
    rw [npyDict_eq, asciiBytes, List.map_append, List.map_append, List.map_replicate]
    rfl
  rw [npyF32Header, headerDict_eq, hascii, length_npyDict]
  simp only [hpad, List.append_assoc]

theorem length_npyF32Header (rows cols : ℕ) : (npyF32Header rows cols).length =
    68 + rows.repr.toList.length + cols.repr.toList.length + headerPad rows cols := by
  rw [npyF32Header_eq, List.length_append, List.length_append, List.length_append, length_toLe,
    length_asciiBytes, length_npyDict, length_headerDict]
  have hmagic : npyMagic.length = 6 := rfl
  have hversion : ([1, 0] : Bytes).length = 2 := rfl
  omega

/-- A decimal numeral of a `u64` has between one and twenty digits. -/
theorem length_repr_u64 (n : UInt64) :
    0 < n.toNat.repr.toList.length ∧ n.toNat.repr.toList.length ≤ 20 := by
  rw [String.length_toList]
  refine ⟨Nat.length_repr_pos, (Nat.length_repr_le_iff (by decide)).mpr ?_⟩
  exact n.toNat_lt.trans (by decide)

/-- Every row count of a machine word renders to the same 128 bytes. -/
theorem length_npyF32Header_u64 (rows cols : UInt64) :
    (npyF32Header rows.toNat cols.toNat).length = 128 := by
  have hrows := length_repr_u64 rows
  have hcols := length_repr_u64 cols
  rw [length_npyF32Header, headerPad]
  omega

/-! ## What the writer leaves -/

namespace DeferredNpyF32Writer

/-- `write_row` for one row after another. -/
def writeRows : List (List F32) → DeferredNpyF32Writer → Except String DeferredNpyF32Writer
  | [], w => .ok w
  | row :: rows, w => do writeRows rows (← w.writeRow row)

/-- The data bytes of rows. -/
def rowBytes (rows : List (List F32)) : Bytes := rows.flatMap fun row ↦ row.flatMap f32ToLeBytes

theorem writeRow_of_length {w : DeferredNpyF32Writer} {row : List F32}
    (h : row.length = w.cols.toNat) :
    w.writeRow row = .ok ⟨w.file ++ row.flatMap f32ToLeBytes, w.cols, w.rowsWritten + 1,
      w.headerLen⟩ := by
  rw [writeRow, if_neg (not_not.mpr h)]

theorem writeRows_of_lengths {rows : List (List F32)} {w : DeferredNpyF32Writer}
    (h : ∀ row ∈ rows, row.length = w.cols.toNat) :
    writeRows rows w = .ok ⟨w.file ++ rowBytes rows, w.cols,
      w.rowsWritten + UInt64.ofNat rows.length, w.headerLen⟩ := by
  induction rows generalizing w with
  | nil => simp [writeRows, rowBytes]
  | cons row rows ih =>
      have hrest : ∀ r ∈ rows, r.length = w.cols.toNat := fun r hr ↦
        h r (List.mem_cons_of_mem row hr)
      have hrun := ih (w := ⟨w.file ++ row.flatMap f32ToLeBytes, w.cols, w.rowsWritten + 1,
        w.headerLen⟩) hrest
      rw [writeRows, writeRow_of_length (h row List.mem_cons_self), ok_bind, hrun]
      simp only [rowBytes, List.flatMap_cons, List.append_assoc, List.length_cons, Except.ok.injEq,
        mk.injEq, true_and, and_true]
      rw [Nat.add_comm, UInt64.ofNat_add, ← UInt64.add_assoc]
      rfl

/-- The header fits the room that was reserved, whatever the number of rows. -/
theorem finish_written {w : DeferredNpyF32Writer} (h : w.headerLen = 128) :
    w.finish = .ok (w.rowsWritten,
      npyF32Header w.rowsWritten.toNat w.cols.toNat ++ w.file.drop 128) := by
  have hlen := length_npyF32Header_u64 w.rowsWritten w.cols
  rw [finish, hlen, h, if_neg (not_not.mpr rfl)]

/-- A whole run: create, write every row, finish. -/
def write (cols : UInt64) (rows : List (List F32)) : Except String (UInt64 × Bytes) := do
  (← writeRows rows (create cols)).finish

theorem write_of_lengths {cols : UInt64} {rows : List (List F32)}
    (h : ∀ row ∈ rows, row.length = cols.toNat) :
    write cols rows = .ok (UInt64.ofNat rows.length,
      npyF32Header (UInt64.ofNat rows.length).toNat cols.toNat ++ rowBytes rows) := by
  have hlen : (npyF32Header 1 cols.toNat).length = 128 := length_npyF32Header_u64 1 cols
  have hzeros : (List.replicate 128 (0 : UInt8)).length = 128 := List.length_replicate
  rw [write, writeRows_of_lengths (w := create cols) h, ok_bind, finish_written hlen]
  simp only [create, hlen, List.drop_left' hzeros]
  rw [UInt64.zero_add]

end DeferredNpyF32Writer

/-! ## Both readers on the file -/

section Rows

open DeferredNpyF32Writer

variable {rows : List (List F32)} {cols : ℕ}

theorem length_flatMap_row (row : List F32) :
    (row.flatMap f32ToLeBytes).length = row.length * 4 :=
  length_flatMap_const length_f32ToLeBytes row

theorem rowBytes_eq_flatten (rows : List (List F32)) :
    rowBytes rows = (rows.map fun row ↦ row.flatMap f32ToLeBytes).flatten :=
  List.flatMap_def

theorem length_of_mem_rowBytes (h : ∀ row ∈ rows, row.length = cols) :
    ∀ r ∈ rows.map (fun row ↦ row.flatMap f32ToLeBytes), r.length = cols * 4 := by
  intro r hr
  obtain ⟨row, hrow, rfl⟩ := List.mem_map.mp hr
  rw [length_flatMap_row, h row hrow]

theorem length_rowBytes (h : ∀ row ∈ rows, row.length = cols) :
    (rowBytes rows).length = rows.length * (cols * 4) := by
  rw [rowBytes_eq_flatten, length_flatten_of_uniform (length_of_mem_rowBytes h), List.length_map]

theorem f32Row_flatMap (row : List F32) : f32Row (row.flatMap f32ToLeBytes) = row := by
  rw [f32Row, asChunks_flatMap (by decide) length_f32ToLeBytes, List.map_map]
  exact (List.map_congr_left fun v _ ↦ f32FromLeBytes_toLeBytes v).trans (List.map_id row)

/-- The rows come back bit for bit. -/
theorem map_f32Row_rowBytes (h : ∀ row ∈ rows, row.length = cols) :
    (takeChunks (cols * 4) rows.length (rowBytes rows)).map f32Row = rows := by
  have hchunks := takeChunks_flatten (length_of_mem_rowBytes h)
  rw [List.length_map] at hchunks
  rw [rowBytes_eq_flatten, hchunks, List.map_map]
  exact (List.map_congr_left fun row _ ↦ f32Row_flatMap row).trans (List.map_id rows)

end Rows

section Open

variable (f : NpyFile)

theorem splitSub_shape : (splitSub "'shape': (".toList f.dict)[1]? =
    some (shapeText f.rows f.cols ++ ')' :: dictClosing f.trailingComma f.pad) := by
  have hfind : findSub "'shape': (".toList f.dict = some 41 := findSub_append (by decide) _
  have hrest : f.dict.drop (41 + "'shape': (".toList.length) =
      shapeText f.rows f.cols ++ ')' :: dictClosing f.trailingComma f.pad := rfl
  have hquote : '\'' ∉ shapeText f.rows f.cols ++ ')' :: dictClosing f.trailingComma f.pad := by
    intro h
    rcases List.mem_append.mp h with h | h
    · rcases mem_shapeText h with h | h | h <;> exact absurd h (by decide)
    · rcases List.mem_cons.mp h with h | h
      · exact absurd h (by decide)
      · rcases mem_dictClosing h with h | h | h | h <;> exact absurd h (by decide)
  rw [splitSub_of_findSub (by decide) hfind, hrest, splitSub_of_not_mem (by decide) hquote]
  rfl

theorem head_splitAtSep_shape :
    (splitAtSep ')' (shapeText f.rows f.cols ++ ')' :: dictClosing f.trailingComma f.pad)).head? =
      some (shapeText f.rows f.cols) := by
  have hparen : ')' ∉ shapeText f.rows f.cols := by
    intro h
    rcases mem_shapeText h with h | h | h <;> exact absurd h (by decide)
  rw [splitAtSep_append hparen]
  rfl

theorem npyHeaderLen_bytes (shown : String) (hmajor : f.major = 1 ∨ f.major = 2 ∨ f.major = 3)
    (tail : Bytes) :
    npyHeaderLen shown f.major (toLe f.lenWidth f.dict.length ++ tail) =
      .ok (f.dict.length, tail) := by
  have hlen : ofLe (toLe f.lenWidth f.dict.length) = f.dict.length :=
    ofLe_toLe_of_lt f.dict_length_lt
  rcases hmajor with h | h
  · have hwidth : f.lenWidth = 2 := by
      rw [NpyFile.lenWidth, h]
      rfl
    rw [hwidth] at hlen ⊢
    rw [npyHeaderLen, if_pos h, readExact_append (length_toLe _ _), ok_bind]
    exact congrArg (fun n ↦ Except.ok (n, tail)) hlen
  · have hwidth : f.lenWidth = 4 := by
      rw [NpyFile.lenWidth]
      rcases h with h | h <;> rw [h] <;> rfl
    have hone : f.major ≠ 1 := by
      rcases h with h | h <;> rw [h] <;> decide
    rw [hwidth] at hlen ⊢
    rw [npyHeaderLen, if_neg hone, if_pos h, readExact_append (length_toLe _ _), ok_bind]
    exact congrArg (fun n ↦ Except.ok (n, tail)) hlen

/-- A well-formed header of a supported version opens at row 0, with its dimensions. -/
theorem openF32Npy_bytes (shown : String) (hmajor : f.major = 1 ∨ f.major = 2 ∨ f.major = 3)
    (hdict : f.dict.length ≤ 2 ^ 16) :
    openF32Npy shown f.bytes = .ok (f.data, f.rows, f.cols) := by
  have hpre : readExact 8 f.bytes = .ok (npyMagic ++ [f.major, f.minor],
      toLe f.lenWidth f.dict.length ++ (asciiBytes f.dict ++ f.data)) := by
    rw [NpyFile.bytes, npyBytes, ← List.append_assoc]
    exact readExact_append (show (npyMagic ++ [f.major, f.minor]).length = 8 from rfl) _
  have hmagic : (npyMagic ++ [f.major, f.minor]).take 6 = npyMagic := rfl
  have hversion : (npyMagic ++ [f.major, f.minor])[6]?.getD 0 = f.major := rfl
  have hascii : ∀ c ∈ f.dict, c.toNat < 128 := npyDict_ascii _ _ _ _
  have hdescr : containsSub "'descr': '<f4'".toList f.dict = true :=
    containsSub_npyDict _ _ _ _ (by decide)
  have horder : containsSub "'fortran_order': False".toList f.dict = true :=
    containsSub_npyDict _ _ _ _ (by decide)
  have hdims := parseDims_shapeText (f.rows_lt.trans (by decide)) f.cols_lt
  have hheader := npyHeaderLen_bytes f shown hmajor (asciiBytes f.dict ++ f.data)
  have htext : readExact f.dict.length (asciiBytes f.dict ++ f.data) =
      .ok (asciiBytes f.dict, f.data) := readExact_append (length_asciiBytes _) _
  rw [openF32Npy, hpre]
  simp only [Except.mapError, ok_bind]
  rw [hmagic, hversion, if_neg (not_not.mpr rfl), hheader]
  simp only [ok_bind]
  rw [if_neg (Nat.not_lt.mpr hdict), htext]
  simp only [ok_bind]
  rw [fromUtf8Lossy_asciiBytes hascii, hdescr, horder, splitSub_shape f, Option.bind_some,
    head_splitAtSep_shape f]
  rw [if_neg (show ¬(!true || !true) = true by decide)]
  dsimp only
  rw [hdims]
  exact if_pos f.cols_pos

end Open

theorem length_le_of_readExact {n : ℕ} {bs block rest : Bytes}
    (h : readExact n bs = .ok (block, rest)) : rest.length ≤ bs.length := by
  rw [(readExact_eq_ok.mp h).1, List.length_append]
  exact Nat.le_add_left _ _

theorem length_le_of_npyHeaderLen {shown : String} {version : UInt8} {rest : Bytes}
    {r : ℕ × Bytes} (h : npyHeaderLen shown version rest = .ok r) : r.2.length ≤ rest.length := by
  rw [npyHeaderLen] at h
  split_ifs at h
  · obtain ⟨⟨b, rest'⟩, hread, h⟩ := bind_eq_ok.mp h
    cases h
    exact length_le_of_readExact hread
  · obtain ⟨⟨b, rest'⟩, hread, h⟩ := bind_eq_ok.mp h
    cases h
    exact length_le_of_readExact hread

/-- What follows the header is no longer than the file. -/
theorem length_le_of_openF32Npy {shown : String} {file data : Bytes} {rows cols : ℕ}
    (h : openF32Npy shown file = .ok (data, rows, cols)) : data.length ≤ file.length := by
  rw [openF32Npy] at h
  obtain ⟨⟨pre, rest⟩, hpre, h⟩ := bind_eq_ok.mp h
  have hrest := length_le_of_readExact (mapError_eq_ok.mp hpre)
  dsimp only at h
  split_ifs at h
  obtain ⟨⟨hlen, rest'⟩, hheader, h⟩ := bind_eq_ok.mp h
  have hrest' := length_le_of_npyHeaderLen hheader
  dsimp only at h
  split_ifs at h
  obtain ⟨⟨text, rest''⟩, htext, h⟩ := bind_eq_ok.mp h
  have hrest'' := length_le_of_readExact (mapError_eq_ok.mp htext)
  dsimp only at h
  split_ifs at h
  obtain rfl : rest'' = data := by
    split at h
    · cases h
    · split at h
      · cases h
      · split_ifs at h
        cases h
        rfl
      · cases h
  exact hrest''.trans (hrest'.trans hrest)

/-! ## The round trip -/

section RoundTrip

open DeferredNpyF32Writer

variable {cols : UInt64} {rows : List (List F32)}

/-- A row takes at least four bytes, so the rows of a file can be counted. -/
theorem rows_lt_of_size (hcols : 0 < cols.toNat)
    (hsize : 128 + rows.length * (cols.toNat * 4) < u64Size) : rows.length < 2 ^ 64 := by
  have hmul : rows.length * 4 ≤ rows.length * (cols.toNat * 4) :=
    Nat.mul_le_mul_left _ (Nat.le_mul_of_pos_left 4 hcols)
  rw [u64Size] at hsize
  omega

theorem length_writtenDict (hrows : rows.length < 2 ^ 64) :
    (npyDict rows.length cols.toNat true (headerPad rows.length cols.toNat)).length = 118 := by
  have hlen := length_npyF32Header_u64 (UInt64.ofNat rows.length) cols
  rw [UInt64.toNat_ofNat_of_lt' hrows, npyF32Header_eq, List.length_append, List.length_append,
    List.length_append, length_toLe, length_asciiBytes] at hlen
  have hmagic : npyMagic.length = 6 := rfl
  have hversion : ([1, 0] : Bytes).length = 2 := rfl
  omega

/-- What a finished run leaves. -/
def writtenFile (cols : UInt64) (rows : List (List F32)) (hcols : 0 < cols.toNat)
    (hsize : 128 + rows.length * (cols.toNat * 4) < u64Size) : NpyFile where
  major := 1
  minor := 0
  rows := rows.length
  cols := cols.toNat
  trailingComma := true
  pad := headerPad rows.length cols.toNat
  data := rowBytes rows
  cols_pos := hcols
  cols_lt := cols.toNat_lt
  header_lt := by
    rw [length_writtenDict (rows_lt_of_size hcols hsize)]
    exact Nat.lt_of_sub_ne_zero (by rw [headerLenWidth, if_neg (by decide)]; decide)
  size_lt := by
    rw [length_writtenDict (rows_lt_of_size hcols hsize), headerLenWidth, if_neg (by decide)]
    exact hsize

theorem length_dict_writtenFile (hcols : 0 < cols.toNat)
    (hsize : 128 + rows.length * (cols.toNat * 4) < u64Size) :
    (writtenFile cols rows hcols hsize).dict.length = 118 :=
  length_writtenDict (rows_lt_of_size hcols hsize)

theorem bytes_writtenFile (hcols : 0 < cols.toNat)
    (hsize : 128 + rows.length * (cols.toNat * 4) < u64Size) :
    (writtenFile cols rows hcols hsize).bytes =
      npyF32Header rows.length cols.toNat ++ rowBytes rows := by
  rw [npyF32Header_eq, List.append_assoc, List.append_assoc, List.append_assoc]
  rfl

theorem dataStart_writtenFile (hcols : 0 < cols.toNat)
    (hsize : 128 + rows.length * (cols.toNat * 4) < u64Size) :
    (writtenFile cols rows hcols hsize).dataStart = 128 := by
  rw [NpyFile.dataStart, length_dict_writtenFile]
  rfl

/-- A written file opens at its rows. -/
theorem openF32Npy_written (shown : String) (hcols : 0 < cols.toNat)
    (hsize : 128 + rows.length * (cols.toNat * 4) < u64Size) :
    openF32Npy shown (npyF32Header rows.length cols.toNat ++ rowBytes rows) =
      .ok (rowBytes rows, rows.length, cols.toNat) := by
  have hopen := openF32Npy_bytes (writtenFile cols rows hcols hsize) shown (.inl rfl) ?_
  · rwa [bytes_writtenFile] at hopen
  · rw [length_dict_writtenFile]
    decide

/-- The other reader finds the same layout. -/
theorem f32NpyLayout_written (shown : String) (hcols : 0 < cols.toNat)
    (hsize : 128 + rows.length * (cols.toNat * 4) < u64Size)
    (hwidth : ∀ row ∈ rows, row.length = cols.toNat) :
    f32NpyLayout shown (npyF32Header rows.length cols.toNat ++ rowBytes rows) =
      .ok ⟨rows.length, cols.toNat, 128⟩ := by
  have hsized : (writtenFile cols rows hcols hsize).Sized := length_rowBytes hwidth
  have hlayout := NpyFile.f32NpyLayout_bytes hsized shown
  rwa [dataStart_writtenFile, bytes_writtenFile] at hlayout

/-- Whatever the rows, a run succeeds with a header of 128 bytes; and when the file's size is
a `u64`, both readers get back the counts and the offset of row 0, and with them the rows. -/
theorem deferredNpy_roundTrip (shown : String) (cols : UInt64) (rows : List (List F32))
    (hcols : 0 < cols.toNat) (hwidth : ∀ row ∈ rows, row.length = cols.toNat) :
    ∃ n file, write cols rows = .ok (n, file) ∧
      64 ∣ (create cols).headerLen ∧
      (npyF32Header n.toNat cols.toNat).length = (create cols).headerLen ∧
      (file.length < u64Size →
        n.toNat = rows.length ∧
        f32NpyLayout shown file = .ok ⟨rows.length, cols.toNat, (create cols).headerLen⟩ ∧
        openF32Npy shown file =
          .ok (file.drop (create cols).headerLen, rows.length, cols.toNat) ∧
        (takeChunks (cols.toNat * 4) rows.length
          (file.drop (create cols).headerLen)).map f32Row = rows) := by
  have hreserved : (create cols).headerLen = 128 := length_npyF32Header_u64 1 cols
  have hheader : ∀ n : UInt64, (npyF32Header n.toNat cols.toNat).length = 128 := fun n ↦
    length_npyF32Header_u64 n cols
  rw [hreserved]
  refine ⟨_, _, write_of_lengths hwidth, by decide, hheader _, ?_⟩
  intro hfile
  rw [List.length_append, hheader, length_rowBytes hwidth] at hfile
  have hcount : (UInt64.ofNat rows.length).toNat = rows.length :=
    UInt64.toNat_ofNat_of_lt' (rows_lt_of_size hcols hfile)
  have hdrop : (npyF32Header rows.length cols.toNat ++ rowBytes rows).drop 128 = rowBytes rows := by
    refine List.drop_left' ?_
    rw [← hcount]
    exact hheader _
  rw [hcount, hdrop]
  exact ⟨rfl, f32NpyLayout_written shown hcols hfile hwidth, openF32Npy_written shown hcols hfile,
    map_f32Row_rowBytes hwidth⟩

theorem deferredNpy_roundTrip_pair :
    ∃ n file, write 2 [[⟨0⟩, ⟨0x3F800000⟩]] = .ok (n, file) ∧
      64 ∣ (create 2).headerLen ∧
      (npyF32Header n.toNat 2).length = (create 2).headerLen ∧
      (file.length < u64Size →
        n.toNat = 1 ∧
        f32NpyLayout "vectors.npy" file = .ok ⟨1, 2, (create 2).headerLen⟩ ∧
        openF32Npy "vectors.npy" file = .ok (file.drop (create 2).headerLen, 1, 2) ∧
        (takeChunks 8 1 (file.drop (create 2).headerLen)).map f32Row =
          [[⟨0⟩, ⟨0x3F800000⟩]]) :=
  deferredNpy_roundTrip "vectors.npy" 2 [[⟨0⟩, ⟨0x3F800000⟩]] (by decide) (by decide)

end RoundTrip

end VectorDbBenchmark.Msmarco
