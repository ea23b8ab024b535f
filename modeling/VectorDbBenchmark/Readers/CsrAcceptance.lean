import VectorDbBenchmark.Readers.SparseReader

/-!
# What an accepted CSR file is read as

The blocks of a CSR file by their places in its bytes, and what `read_sparse_matrix` makes
of them when it accepts the file: the rows are the cells from the first index pointer on,
one after another, and a column is read as an unsigned number.
-/

namespace VectorDbBenchmark.Readers

open Kit

/-! ## The blocks of a file -/

/-- The `i`-th `i64` of the header. -/
def csrHeader (file : Bytes) (i : Nat) : Int64 := i64FromLeBytes ((file.drop (i * 8)).take 8)

def csrRows (file : Bytes) : Nat := asUsize (csrHeader file 0)

def csrNonZero (file : Bytes) : Nat := asUsize (csrHeader file 2)

/-- The index pointers, one more than there are rows. -/
def csrPointers (file : Bytes) : List Int64 :=
  (takeChunks 8 (csrRows file + 1) (file.drop 24)).map i64FromLeBytes

/-- Where the columns start. -/
def csrColumnStart (file : Bytes) : Nat := 24 + (csrRows file + 1) * 8

/-- The stored columns, which are signed. -/
def csrColumns (file : Bytes) : List Int32 :=
  (takeChunks 4 (csrNonZero file) (file.drop (csrColumnStart file))).map i32FromLeBytes

def csrValues (file : Bytes) : List F32 :=
  (takeChunks 4 (csrNonZero file) (file.drop (csrColumnStart file + csrNonZero file * 4))).map
    f32FromLeBytes

/-- The entries of a row with the column as a number. -/
def SparseVector.entries (r : SparseVector) : List (ℤ × F32) :=
  (r.indices.map fun i ↦ (i.toNat : ℤ)).zip r.values

/-- The rows hold the whole column block paired with the whole value block, in order, and
every column is the number that is stored. -/
def Lossless (file : Bytes) (rows : List SparseVector) : Prop :=
  rows.flatMap (·.entries) = ((csrColumns file).map Int32.toInt).zip (csrValues file)

instance (file : Bytes) (rows : List SparseVector) : Decidable (Lossless file rows) :=
  inferInstanceAs (Decidable (_ = _))

/-! ## Reading an array -/

theorem readArray_eq_ok {α : Type} {k : Nat} {f : Bytes → α} (hk : 0 < k) {overflow : String}
    {n maxBytes : Nat} {r rest : Bytes} {xs : List α}
    (h : readArray k f overflow n maxBytes r = .ok (xs, rest)) :
    xs = (takeChunks k n r).map f ∧ rest = r.drop (n * k) := by
  rw [readArray] at h
  split at h
  · cases h
  · next byteLen hmul =>
      rw [checkedMul] at hmul
      split_ifs at hmul
      cases hmul
      split_ifs at h
      obtain ⟨⟨buf, rest'⟩, hread, h⟩ := bind_eq_ok.mp h
      cases h
      rw [readExact] at hread
      split_ifs at hread with hlen
      cases hread
      exact ⟨by rw [asChunks_take hk hlen], rfl⟩

theorem readArray_not_panics {α : Type} (k : Nat) (f : Bytes → α) {overflow : String}
    (hoverflow : overflow.toList.head? ≠ some 'p') (n maxBytes : Nat) (r : Bytes) :
    ¬ Panics (readArray k f overflow n maxBytes r) := by
  rw [readArray]
  split
  · exact not_panics_error hoverflow
  · split_ifs
    · exact not_panics_error (by simp [String.toList_append, toString])
    · refine not_panics_bind ?_ fun a _ ↦ not_panics_ok _
      rw [readExact]
      split_ifs
      · exact not_panics_ok _
      · exact not_panics_error (by decide)

theorem checkIndexPointer_not_panics (path : String) (nNonZero : Nat) (pointers : List Int64) :
    ¬ Panics (checkIndexPointer path nNonZero pointers) := by
  induction pointers using checkIndexPointer.induct nNonZero with
  | case1 prev next rest h =>
      rw [checkIndexPointer, if_pos h]
      exact not_panics_error (by simp [String.toList_append, toString])
  | case2 prev next rest h h' =>
      rw [checkIndexPointer, if_neg h, if_pos h']
      exact not_panics_error (by simp [String.toList_append, toString])
  | case3 prev next rest h h' h'' =>
      rw [checkIndexPointer, if_neg h, if_neg h', if_pos h'']
      exact not_panics_error (by simp [String.toList_append, toString])
  | case4 prev next rest h h' h'' ih =>
      rw [checkIndexPointer, if_neg h, if_neg h', if_neg h'']
      exact ih
  | case5 pointers h =>
      rw [checkIndexPointer]
      · exact not_panics_ok _
      · exact h

/-! ## Consecutive slices -/

/-- The elements from `start` up to `stop`. -/
def cells {α : Type} (xs : List α) (start stop : Nat) : List α :=
  (xs.drop start).take (stop - start)

theorem getRange_eq_some {α : Type} {xs ys : List α} {start stop : Nat}
    (h : getRange xs start stop = some ys) :
    start ≤ stop ∧ stop ≤ xs.length ∧ ys = cells xs start stop := by
  rw [getRange] at h
  split_ifs at h with hle
  cases h
  exact ⟨hle.1, hle.2, rfl⟩

theorem cells_append {α : Type} (xs : List α) {a b c : Nat} (hab : a ≤ b) (hbc : b ≤ c) :
    cells xs a b ++ cells xs b c = cells xs a c := by
  have hdrop : xs.drop b = (xs.drop a).drop (b - a) := by
    rw [List.drop_drop, Nat.add_sub_cancel' hab]
  have hlen : c - a = (b - a) + (c - b) := by omega
  rw [cells, cells, cells, hdrop, hlen, ← List.take_add]

theorem cells_zip {α β : Type} (xs : List α) (ys : List β) (a b : Nat) :
    (cells xs a b).zip (cells ys a b) = cells (xs.zip ys) a b := by
  simp only [cells, List.zip_eq_zipWith, List.drop_zipWith, List.take_zipWith]

/-- Slices that follow each other make up the slice from the first start to the last stop. -/
theorem flatMap_cells {α β : Type} (xs : List α) {f : β → List α} {rs : List β} {o : Nat → Nat}
    (h : ∀ i (hi : i < rs.length), o i ≤ o (i + 1) ∧ f rs[i] = cells xs (o i) (o (i + 1))) :
    o 0 ≤ o rs.length ∧ rs.flatMap f = cells xs (o 0) (o rs.length) := by
  induction rs generalizing o with
  | nil =>
      refine ⟨le_rfl, ?_⟩
      rw [cells, List.length_nil, Nat.sub_self, List.take_zero, List.flatMap_nil]
  | cons r rs ih =>
      obtain ⟨hle, hfirst⟩ := h 0 (Nat.succ_pos _)
      obtain ⟨hrest, hcells⟩ := ih (o := fun i ↦ o (i + 1)) fun i hi ↦
        h (i + 1) (Nat.succ_lt_succ hi)
      refine ⟨hle.trans hrest, ?_⟩
      rw [List.flatMap_cons, hcells, List.getElem_cons_zero] at *
      rw [hfirst]
      exact cells_append xs hle hrest

/-! ## The rows of an accepted file -/

/-- The place the `i`-th index pointer points to. -/
def pointer (pointers : List Int64) (i : Nat) : Nat := asUsize (pointers[i]?.getD 0)

theorem readRow_eq_ok {pointers : List Int64} {columns : List UInt32} {values : List F32} {i : Nat}
    {r : SparseVector} (h : readRow pointers columns values i = .ok r) :
    pointer pointers i ≤ pointer pointers (i + 1) ∧
      pointer pointers (i + 1) ≤ columns.length ∧
      r.entries = cells ((columns.map fun c ↦ (c.toNat : ℤ)).zip values) (pointer pointers i)
        (pointer pointers (i + 1)) := by
  rw [readRow] at h
  split at h
  · next lo hi hlo hhi =>
      have hstart : pointer pointers i = asUsize lo := by rw [pointer, hlo, Option.getD_some]
      have hstop : pointer pointers (i + 1) = asUsize hi := by rw [pointer, hhi, Option.getD_some]
      rw [hstart, hstop]
      dsimp only at h
      split at h
      · cases h
      · next indices hindices =>
          split at h
          · cases h
          · next vals hvals =>
              cases h
              obtain ⟨hle, hlen, rfl⟩ := getRange_eq_some hindices
              obtain ⟨-, -, rfl⟩ := getRange_eq_some hvals
              refine ⟨hle, hlen, ?_⟩
              rw [SparseVector.entries, ← cells_zip]
              congr 1
              rw [cells, cells, List.map_take, List.map_drop]
              rfl
  · cases h

theorem readRow_not_panics {pointers : List Int64} {columns : List UInt32} {values : List F32}
    {i : Nat} (h : i + 1 < pointers.length) : ¬ Panics (readRow pointers columns values i) := by
  rw [readRow, List.getElem?_eq_getElem (Nat.lt_of_succ_lt h), List.getElem?_eq_getElem h]
  dsimp only
  split
  · exact not_panics_error (by simp [String.toList_append, toString])
  · split
    · exact not_panics_error (by simp [String.toList_append, toString])
    · exact not_panics_ok _

/-- What acceptance says about the blocks and the rows. -/
theorem readSparseMatrix_eq_ok {path : String} {file : Bytes} {rows : List SparseVector}
    (h : readSparseMatrix path file = .ok rows) :
    asUsize ((csrPointers file).getLast?.getD 0) = csrNonZero file ∧
      (List.range (csrRows file)).mapM (readRow (csrPointers file)
        ((csrColumns file).map Int32.toUInt32) (csrValues file)) = .ok rows := by
  rw [readSparseMatrix] at h
  obtain ⟨⟨sizes, r⟩, hsizes, h⟩ := bind_eq_ok.mp h
  obtain ⟨rfl, rfl⟩ := readArray_eq_ok (by decide) hsizes
  dsimp only [takeChunks, List.map_cons, List.map_nil] at h
  rw [List.drop_drop] at h
  change (if csrHeader file 0 < 0 ∨ csrHeader file 1 < 0 ∨ csrHeader file 2 < 0 then _ else _) =
    _ at h
  split_ifs at h
  split at h
  · cases h
  · next ipCount hcount =>
      rw [checkedAdd] at hcount
      split_ifs at hcount
      cases hcount
      obtain ⟨⟨pointers, r⟩, hpointers, h⟩ := bind_eq_ok.mp h
      obtain ⟨rfl, rfl⟩ := readArray_eq_ok (by decide) hpointers
      dsimp only at h
      split_ifs at h with hlast
      obtain ⟨_, -, h⟩ := bind_eq_ok.mp h
      obtain ⟨⟨columns, r⟩, hcolumns, h⟩ := bind_eq_ok.mp h
      obtain ⟨rfl, rfl⟩ := readArray_eq_ok (by decide) hcolumns
      obtain ⟨⟨values, r⟩, hvalues, h⟩ := bind_eq_ok.mp h
      obtain ⟨rfl, rfl⟩ := readArray_eq_ok (by decide) hvalues
      refine ⟨not_not.mp hlast, ?_⟩
      rw [List.drop_drop, List.drop_drop] at h
      rw [csrColumns, List.map_map]
      exact h

theorem readSparseMatrix_not_panics (path : String) (file : Bytes) :
    ¬ Panics (readSparseMatrix path file) := by
  rw [readSparseMatrix]
  refine not_panics_bind (readArray_not_panics _ _ (by decide) _ _ _) ?_
  rintro ⟨sizes, r⟩ hsizes
  obtain ⟨rfl, rfl⟩ := readArray_eq_ok (by decide) hsizes
  simp only [takeChunks, List.map_cons, List.map_nil]
  split_ifs
  · exact not_panics_error (by simp [String.toList_append, toString])
  split
  · exact not_panics_error (by decide)
  · next ipCount hcount =>
      rw [checkedAdd] at hcount
      split_ifs at hcount
      cases hcount
      refine not_panics_bind (readArray_not_panics _ _ (by decide) _ _ _) ?_
      rintro ⟨pointers, r⟩ hpointers
      obtain ⟨rfl, rfl⟩ := readArray_eq_ok (by decide) hpointers
      dsimp only
      split_ifs
      · exact not_panics_error (by simp [String.toList_append, toString])
      refine not_panics_bind (checkIndexPointer_not_panics _ _ _) fun _ _ ↦ ?_
      refine not_panics_bind (readArray_not_panics _ _ (by decide) _ _ _) ?_
      rintro ⟨columns, r⟩ -
      refine not_panics_bind (readArray_not_panics _ _ (by decide) _ _ _) ?_
      rintro ⟨values, r⟩ -
      refine not_panics_mapM fun i hi ↦ readRow_not_panics ?_
      rw [List.length_map, length_takeChunks]
      exact Nat.succ_lt_succ (List.mem_range.mp hi)

/-! ## Nothing is lost -/

theorem length_csrColumns (file : Bytes) : (csrColumns file).length = csrNonZero file := by
  rw [csrColumns, List.length_map, length_takeChunks]

theorem length_csrValues (file : Bytes) : (csrValues file).length = csrNonZero file := by
  rw [csrValues, List.length_map, length_takeChunks]

theorem length_csrPointers (file : Bytes) : (csrPointers file).length = csrRows file + 1 := by
  rw [csrPointers, List.length_map, length_takeChunks]

/-- The cells as the reader reads them: columns unsigned. -/
def readCells (file : Bytes) : List (ℤ × F32) :=
  ((csrColumns file).map fun c ↦ (c.toUInt32.toNat : ℤ)).zip (csrValues file)

/-- The rows of an accepted file are its cells from the first index pointer on. -/
theorem entries_of_accepted {path : String} {file : Bytes} {rows : List SparseVector}
    (h : readSparseMatrix path file = .ok rows) :
    pointer (csrPointers file) 0 ≤ csrNonZero file ∧
      rows.flatMap (·.entries) = (readCells file).drop (pointer (csrPointers file) 0) := by
  obtain ⟨hlast, hrows⟩ := readSparseMatrix_eq_ok h
  have hrounds := mapM_eq_ok.mp hrows
  have hlen : rows.length = csrRows file := by
    rw [← hrounds.length_eq, List.length_range]
  have hend : pointer (csrPointers file) rows.length = csrNonZero file := by
    rw [← hlast, List.getLast?_eq_getElem?, length_csrPointers, Nat.add_sub_cancel, hlen]
    rfl
  have hslices : ∀ i (hi : i < rows.length),
      pointer (csrPointers file) i ≤ pointer (csrPointers file) (i + 1) ∧
        rows[i].entries = cells (readCells file) (pointer (csrPointers file) i)
          (pointer (csrPointers file) (i + 1)) := fun i hi ↦ by
      have hround := (List.forall₂_iff_get.mp hrounds).2 i (hrounds.length_eq ▸ hi) hi
      rw [List.get_eq_getElem, List.getElem_range] at hround
      obtain ⟨hmono, -, hentries⟩ := readRow_eq_ok hround
      rw [List.map_map] at hentries
      exact ⟨hmono, hentries⟩
  obtain ⟨hle, hcells⟩ := flatMap_cells (readCells file) hslices
  rw [hend] at hle hcells
  refine ⟨hle, hcells.trans ?_⟩
  rw [cells, List.take_of_length_le]
  rw [List.length_drop, readCells, List.length_zip, List.length_map, length_csrColumns,
    length_csrValues, Nat.min_self]

/-- A stored column is read as the number it is exactly when it is not negative. -/
theorem toNat_toUInt32_eq_toInt (c : Int32) : (c.toUInt32.toNat : ℤ) = c.toInt ↔ 0 ≤ c := by
  have hint : c.toInt = c.toBitVec.toInt := rfl
  have hnat : c.toUInt32.toNat = c.toBitVec.toNat := rfl
  rw [Int32.le_iff_toInt_le, Int32.toInt_zero, hint, hnat, BitVec.toInt_eq_toNat_cond]
  have := c.toBitVec.isLt
  split_ifs <;> omega

theorem map_toNat_eq_map_toInt (cs : List Int32) :
    cs.map (fun c ↦ (c.toUInt32.toNat : ℤ)) = cs.map Int32.toInt ↔ ∀ c ∈ cs, 0 ≤ c := by
  rw [List.map_inj_left]
  exact forall₂_congr fun c _ ↦ toNat_toUInt32_eq_toInt c

theorem asUsize_eq_zero {v : Int64} : asUsize v = 0 ↔ v = 0 := by
  constructor
  · intro h
    have hzero : v.toUInt64 = 0 := UInt64.toNat_inj.mp h
    rw [← Int64.toInt64_toUInt64 v, hzero]
    rfl
  · rintro rfl
    rfl

/-- The first pointer points to the start of the blocks exactly when it is zero. -/
theorem pointer_zero_iff (file : Bytes) :
    pointer (csrPointers file) 0 = 0 ↔ (csrPointers file).head? = some 0 := by
  rw [pointer, asUsize_eq_zero, List.head?_eq_getElem?]
  have hlen : 0 < (csrPointers file).length := by
    rw [length_csrPointers]
    exact Nat.succ_pos _
  rw [List.getElem?_eq_getElem hlen, Option.getD_some, Option.some_inj]

/-- **What `read_sparse_matrix` accepts**: it never panics, and the rows of an accepted file
are the whole of its two blocks exactly when the first index pointer is zero and no stored
column is negative. -/
theorem readSparseMatrix_lossless_iff (path : String) (file : Bytes) :
    ¬ Panics (readSparseMatrix path file) ∧
      ∀ rows, readSparseMatrix path file = .ok rows →
        (Lossless file rows ↔
          (csrPointers file).head? = some 0 ∧ ∀ c ∈ csrColumns file, 0 ≤ c) := by
  refine ⟨readSparseMatrix_not_panics path file, fun rows h ↦ ?_⟩
  obtain ⟨hle, hentries⟩ := entries_of_accepted h
  have hvalues : ∀ f : Int32 → ℤ, (csrValues file).length = ((csrColumns file).map f).length := by
    intro f
    rw [List.length_map, length_csrColumns, length_csrValues]
  have hzip : ∀ f : Int32 → ℤ,
      (((csrColumns file).map f).zip (csrValues file)).map Prod.fst = (csrColumns file).map f :=
    fun f ↦ List.map_fst_zip (hvalues f).ge
  rw [Lossless, hentries, ← pointer_zero_iff, ← map_toNat_eq_map_toInt]
  constructor
  · intro heq
    have hlen := congrArg List.length heq
    rw [List.length_drop, readCells, List.length_zip, List.length_zip, List.length_map,
      List.length_map, length_csrColumns, length_csrValues, Nat.min_self] at hlen
    have hzero : pointer (csrPointers file) 0 = 0 := by omega
    rw [hzero, List.drop_zero, readCells] at heq
    refine ⟨hzero, ?_⟩
    rw [← hzip, heq, hzip]
  · rintro ⟨hzero, hcolumns⟩
    rw [hzero, List.drop_zero, readCells, hcolumns]

/-- One row, one entry; the first index pointer and the stored column as given. -/
def oneEntryFile (first : Int64) (column : Int32) : Bytes :=
  [1, 8, 1, first, 1].flatMap i64ToLeBytes ++ i32ToLeBytes column ++ f32ToLeBytes ⟨0x3F800000⟩

/-- With a first pointer of zero and a column that is not negative nothing is lost. -/
theorem lossless_oneEntryFile :
    readSparseMatrix "data.csr" (oneEntryFile 0 3) = .ok [⟨[3], [⟨0x3F800000⟩]⟩] ∧
      Lossless (oneEntryFile 0 3) [⟨[3], [⟨0x3F800000⟩]⟩] := by
  have hread : readSparseMatrix "data.csr" (oneEntryFile 0 3) = .ok [⟨[3], [⟨0x3F800000⟩]⟩] := by
    decide
  have hcolumns : csrColumns (oneEntryFile 0 3) = [3] := by decide
  refine ⟨hread, ((readSparseMatrix_lossless_iff "data.csr" _).2 _ hread).mpr ⟨?_, ?_⟩⟩
  · decide
  · rw [hcolumns]
    exact List.forall_mem_singleton.mpr (by decide)

/-- A first pointer of one loses the only entry, and the column `-1` is read as
4294967295. -/
theorem not_lossless_oneEntryFile :
    (∃ rows, readSparseMatrix "data.csr" (oneEntryFile 1 3) = .ok rows ∧
      ¬ Lossless (oneEntryFile 1 3) rows) ∧
    ∃ rows, readSparseMatrix "data.csr" (oneEntryFile 0 (-1)) = .ok rows ∧
      ¬ Lossless (oneEntryFile 0 (-1)) rows :=
  ⟨⟨[⟨[], []⟩], by decide, by decide⟩,
    ⟨[⟨[4294967295], [⟨0x3F800000⟩]⟩], by decide, by decide⟩⟩

end VectorDbBenchmark.Readers
