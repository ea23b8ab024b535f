import VectorDbBenchmark.Readers.CompoundReader

/-!
# The streaming layout

What an accepted header says, and when it says the truth: the size check of
`f32_npy_layout` compares the file with products that wrap, so it is exact only for
headers whose declared data has fewer than `2 ^ 64` bytes.
-/

namespace VectorDbBenchmark.Readers

open Kit

/-! ## An accepted header -/

/-- The layout does not depend on the name that the errors show. -/
theorem f32NpyLayout_unique {shown shown' : String} {file : Bytes} {layout layout' : F32NpyLayout}
    (h : f32NpyLayout shown file = .ok layout) (h' : f32NpyLayout shown' file = .ok layout') :
    layout = layout' := by
  obtain ⟨header, hheader, hdims, -, hstart, -⟩ := f32NpyLayout_eq_ok h
  obtain ⟨header', hheader', hdims', -, hstart', -⟩ := f32NpyLayout_eq_ok h'
  rw [hheader] at hheader'
  cases hheader'
  rw [hdims] at hdims'
  rw [hstart] at hstart'
  cases layout
  cases layout'
  cases hdims'
  cases hstart'
  rfl

namespace CompoundStream

/-- A stream that was just opened. -/
theorem openDir_eq_ok {dir : CompoundDir} {normalize : Bool} {s : CompoundStream}
    (h : openDir dir normalize = .ok s) :
    f32NpyLayout dir.vectorsPath dir.vectors = .ok s.layout ∧ s.nextRow = 0 ∧
      s.finished = false ∧ s.payloads = dir.payloads ∧ s.normalize = normalize ∧
      s.vectors = dir.vectors.drop s.layout.dataStart := by
  obtain ⟨layout, hlayout, h⟩ := bind_eq_ok.mp h
  cases h
  exact ⟨hlayout, rfl, rfl, rfl, rfl, rfl⟩

/-- `s'` is the stream behind a block that `s` handed out. -/
def Hands (s s' : CompoundStream) : Prop :=
  ∃ block raw, s.nextRaw block = (.ok (some raw), s')

/-- Reading a block and decoding it neither panics nor returns a row of another length. -/
structure ReadsOn (env : ReaderEnv) (cols : ℕ) (s : CompoundStream) : Prop where
  next : ∀ block, ¬ Panics (s.nextRaw block).1
  decode : ∀ block raw s', s.nextRaw block = (.ok (some raw), s') → ¬ Panics (raw.decode env)
  rows : ∀ block raw s' b, s.nextRaw block = (.ok (some raw), s') → raw.decode env = .ok b →
    ∀ v ∈ b.vectors, v.length = cols

/-! ## Streams of a layout that does not wrap -/

variable {s s' : CompoundStream}

theorem readPayloadLines_not_panics (s : CompoundStream) (n i : ℕ) (text : Text) :
    ¬ Panics (s.readPayloadLines n i text).1 := by
  induction n generalizing i text with
  | zero => exact not_panics_ok _
  | succ n ih =>
      rw [readPayloadLines]
      dsimp only
      split_ifs
      · exact not_panics_error (by simp [String.toList_append, toString])
      · have hrest := ih (i + 1) (readLine text).2
        cases hread : s.readPayloadLines n (i + 1) (readLine text).2 with
        | mk result rest =>
            rw [hread] at hrest
            cases result with
            | error e => exact hrest
            | ok lines => exact not_panics_ok _

theorem nextLines_not_panics (s : CompoundStream) (n : ℕ) : ¬ Panics (s.nextLines n).1 := by
  rw [nextLines]
  cases s.payloads with
  | none => exact not_panics_ok _
  | some text =>
      have hlines := s.readPayloadLines_not_panics n 0 text
      dsimp only
      cases hread : s.readPayloadLines n 0 text with
      | mk result rest =>
          rw [hread] at hlines
          cases result with
          | error e => exact not_panics_of_error hlines
          | ok lines => exact not_panics_ok _

/-- Reading a block of an aligned stream does not panic: its rows are there, and the other
errors are returned. -/
theorem Aligned.nextRaw_not_panics (hs : s.Aligned) (block : ℕ) :
    ¬ Panics (s.nextRaw block).1 := by
  rw [nextRaw]
  dsimp only
  split_ifs
  · exact not_panics_error (by decide)
  · exact not_panics_ok _
  · apply not_panics_map
    rw [finish]
    cases s.payloads with
    | none => exact not_panics_ok _
    | some text =>
        dsimp only
        split_ifs
        · exact not_panics_error (by simp [String.toList_append, toString])
        · exact not_panics_ok _
  · apply not_panics_map
    obtain ⟨bytes, vectors, hread, -, -⟩ := readExact_of_aligned hs (Nat.min_le_left _ block)
    have hlines := s.nextLines_not_panics (min (s.layout.rows - s.nextRow) block)
    rw [nextBlock, hread]
    dsimp only
    cases hnext : s.nextLines (min (s.layout.rows - s.nextRow) block) with
    | mk result payloads =>
        rw [hnext] at hlines
        cases result with
        | error e => exact not_panics_of_error hlines
        | ok lines => exact not_panics_ok _

theorem decodeLines_not_panics (env : ReaderEnv) (firstId i : ℕ) (lines : List Text) :
    ¬ Panics (RawBatch.decodeLines env firstId i lines) := by
  induction lines generalizing i with
  | nil => exact not_panics_ok _
  | cons line lines ih =>
      rw [RawBatch.decodeLines]
      apply not_panics_bind
      · rw [payloadRow]
        split_ifs
        · exact not_panics_ok _
        · split
          · exact not_panics_error (by simp [String.toList_append, toString])
          · exact not_panics_ok _
      · intro item _
        exact not_panics_bind (ih (i + 1)) fun items _ ↦ not_panics_ok _

theorem decode_not_panics (env : ReaderEnv) {raw : RawBatch} (h : raw.rowWidth ≠ 0) :
    ¬ Panics (raw.decode env) := by
  rw [RawBatch.decode, if_neg h]
  dsimp only
  cases raw.lines with
  | none => exact not_panics_ok _
  | some lines =>
      exact not_panics_bind (decodeLines_not_panics env raw.firstId 0 lines)
        fun items _ ↦ not_panics_ok _

theorem length_rowVector (env : ReaderEnv) (normalize : Bool) {row : Bytes} {cols : ℕ}
    (h : row.length = cols * 4) : (rowVector env normalize row).length = cols := by
  have hrow : (f32Row row).length = cols := by
    rw [f32Row, List.length_map, length_asChunks, h, Nat.mul_div_cancel _ (by decide)]
  rw [rowVector, normalizeRow]
  split_ifs
  · rw [List.length_map, hrow]
  · exact hrow
  · exact hrow

/-- Every block of an aligned stream decodes into rows of the layout. -/
theorem Aligned.readsOn (hs : s.Aligned) (env : ReaderEnv) : s.ReadsOn env s.layout.cols := by
  have hblocks : ∀ block raw s', s.nextRaw block = (.ok (some raw), s') →
      raw.cols = s.layout.cols ∧ raw.rowWidth = raw.cols * 4 ∧
        raw.vectorBytes.length = raw.rows * (raw.cols * 4) ∧
        ∀ ls ∈ raw.lines, ls.length = raw.rows := by
    intro block raw s' h
    obtain ⟨-, hlt, hblock⟩ := s.nextRaw_eq_some h
    obtain ⟨bytes, lines, vectors, payloads, hread, hnext, rfl, -⟩ := s.nextBlock_eq_ok hblock
    have hle : min (s.layout.rows - s.nextRow) block ≤ s.layout.rows :=
      (Nat.min_le_left _ _).trans (Nat.sub_le _ _)
    obtain ⟨hcovers, hlines, -⟩ := s.nextLines_eq_ok hnext
    refine ⟨rfl, RawBatch.rowWidth_of_fits _ hs.fits rfl (Nat.zero_lt_of_lt hlt), ?_, ?_⟩
    · rw [(readExact_eq_ok.mp hread).2]
      exact s.blockBytes_of_fits hs.fits hle
    · intro ls hls
      change ls ∈ lines at hls
      rw [hlines] at hls
      obtain ⟨full, hfull, rfl⟩ := Option.map_eq_some_iff.mp hls
      exact List.length_take_of_le (hcovers full hfull)
  refine ⟨hs.nextRaw_not_panics, fun block raw s' h ↦ ?_, fun block raw s' b h hb v hv ↦ ?_⟩
  · obtain ⟨hcols, hwidth, -, -⟩ := hblocks block raw s' h
    apply decode_not_panics
    rw [hwidth, hcols]
    exact (Nat.mul_pos hs.cols_pos (by decide)).ne'
  · obtain ⟨hcols, hwidth, hbytes, hlines⟩ := hblocks block raw s' h
    obtain ⟨hpos, items, -, rfl⟩ := (decode_eq_ok env hlines).mp hb
    rw [hwidth] at hpos
    dsimp only at hv
    rw [hwidth, asChunks_of_length (Nat.pos_of_ne_zero hpos) hbytes] at hv
    obtain ⟨row, hrow, rfl⟩ := List.mem_map.mp hv
    rw [length_rowVector env raw.normalize (length_of_mem_takeChunks hbytes hrow), hcols]

/-- What an aligned stream leaves is aligned, whatever blocks it handed out. -/
theorem Aligned.hands (hs : s.Aligned) (env : ReaderEnv) (h : s.Hands s') :
    s'.Aligned ∧ s'.layout = s.layout := by
  obtain ⟨block, raw, h⟩ := h
  refine ⟨(s.rowsLeft_of_some env hs h).1, ?_⟩
  obtain ⟨-, -, hblock⟩ := s.nextRaw_eq_some h
  obtain ⟨_, _, _, _, -, -, -, rfl⟩ := s.nextBlock_eq_ok hblock
  rfl

theorem Aligned.readsOn_of_hands (hs : s.Aligned) (env : ReaderEnv)
    (h : Relation.ReflTransGen Hands s s') : s'.ReadsOn env s.layout.cols := by
  have hall : s'.Aligned ∧ s'.layout = s.layout := by
    induction h with
    | refl => exact ⟨hs, rfl⟩
    | tail _ hstep ih =>
        obtain ⟨haligned, hlayout⟩ := ih.1.hands env hstep
        exact ⟨haligned, hlayout.trans ih.2⟩
  rw [← hall.2]
  exact hall.1.readsOn env

end CompoundStream

/-! ## When the layout is exact -/

open CompoundStream in
/-- A layout that says what the file holds. -/
structure ExactLayout (file : Bytes) (layout : F32NpyLayout) : Prop where
  /-- The file has exactly the declared data, counted without wrapping. -/
  length : file.length = layout.dataStart + layout.rows * layout.cols * 4
  /-- Blocks of any sizes are read and decoded into rows of the layout. -/
  reads : ∀ (env : ReaderEnv) (dir : CompoundDir) (normalize : Bool) (start s : CompoundStream),
    dir.vectors = file → openDir dir normalize = .ok start →
      Relation.ReflTransGen Hands start s → s.ReadsOn env layout.cols
  /-- The in-memory reader's size check accepts the file. -/
  bound : validateNpySizeBound file = .ok ()

section

variable {shown : String} {file : Bytes} {layout : F32NpyLayout}

/-- **The streaming layout is exact** for the headers whose declared data has fewer than
`2 ^ 64` bytes and whose items the in-memory reader does not take for larger ones. -/
theorem f32NpyLayout_exact_iff (h : f32NpyLayout shown file = .ok layout) :
    ExactLayout file layout ↔ layout.Fits ∧ SmallItems file layout := by
  obtain ⟨header, hheader, hdims, hcols, hstart, hwrapped, hlt⟩ := f32NpyLayout_eq_ok h
  constructor
  · intro hexact
    refine ⟨?_, (validateNpySizeBound_iff h hexact.length).mp hexact.bound⟩
    have hlen := hexact.length
    rw [F32NpyLayout.Fits, ← Nat.mul_assoc]
    omega
  · rintro ⟨hfits, hsmall⟩
    have hlen : file.length = layout.dataStart + layout.rows * layout.cols * 4 := by
      rw [hwrapped, dataBytes_of_fits hfits, Nat.add_comm]
    refine ⟨hlen, ?_, (validateNpySizeBound_iff h hlen).mpr hsmall⟩
    intro env dir normalize start s hdir hopen hhands
    obtain ⟨hlayout, hrow, hrunning, -, -, hvectors⟩ := CompoundStream.openDir_eq_ok hopen
    rw [hdir] at hlayout hvectors
    have hsame : start.layout = layout := f32NpyLayout_unique hlayout h
    have haligned : start.Aligned := by
      refine ⟨hrunning, hsame ▸ hcols, hsame ▸ hfits, ?_⟩
      rw [hvectors, hsame, hrow, List.length_drop, hlen, Nat.add_sub_cancel_left, Nat.mul_assoc]
      rfl
    rw [← hsame]
    exact haligned.readsOn_of_hands env hhands

end

theorem exactLayout_twoRows : ExactLayout twoRows.bytes ⟨2, 1, twoRows.dataStart⟩ := by
  have hlayout : f32NpyLayout "vectors.npy" twoRows.bytes = .ok ⟨2, 1, twoRows.dataStart⟩ := by
    decide +kernel
  have hitem : parseNpyShapeItemsize twoRows.dict = some (2, 4) := by decide
  refine (f32NpyLayout_exact_iff hlayout).mpr ⟨by decide, ?_⟩
  apply (smallItems_iff twoRows.readNpyHeader_bytes).mpr
  intro count itemsize hfound
  rw [hitem] at hfound
  cases hfound
  exact .inl le_rfl

/-- A header that declares one row of `2 ^ 62` columns, and no data. -/
def wideFile : Bytes :=
  let dict := ("\x7b'descr': '<f4', 'fortran_order': False, " ++
    "'shape': (1, 4611686018427387904), \x7d\n").toList
  npyMagic ++ ([1, 0] ++ (toLe 2 dict.length ++ asciiBytes dict))

/-- A stream over `wideFile`. -/
def wideStream : CompoundStream where
  vectors := wideFile.drop 88
  vectorsPath := "corpus/vectors.npy"
  payloads := none
  layout := ⟨1, 4611686018427387904, 88⟩
  nextRow := 0
  normalize := false
  finished := false

/-- The file is accepted, its row is handed out, and decoding it panics. -/
theorem not_exactLayout_wideFile :
    f32NpyLayout "corpus/vectors.npy" wideFile = .ok ⟨1, 4611686018427387904, 88⟩ ∧
    ¬ ExactLayout wideFile ⟨1, 4611686018427387904, 88⟩ ∧
    ∃ raw s, CompoundStream.openDir ⟨"corpus", wideFile, none⟩ false = .ok wideStream ∧
      wideStream.nextRaw 1 = (.ok (some raw), s) ∧ ∀ env, Panics (raw.decode env) := by
  have hlayout : f32NpyLayout "corpus/vectors.npy" wideFile =
      .ok ⟨1, 4611686018427387904, 88⟩ := by
    decide +kernel
  have hopen : CompoundStream.openDir ⟨"corpus", wideFile, none⟩ false = .ok wideStream := by
    rw [CompoundStream.openDir]
    dsimp only
    rw [show CompoundDir.vectorsPath ⟨"corpus", wideFile, none⟩ = "corpus/vectors.npy" from rfl,
      hlayout]
    rfl
  refine ⟨hlayout, fun h ↦ absurd h.length (by decide), ?_⟩
  refine ⟨⟨0, 1, 4611686018427387904, false, [], none⟩, _, hopen, rfl, fun env ↦ ?_⟩
  exact ⟨"chunk size must be non-zero", rfl⟩

end VectorDbBenchmark.Readers
