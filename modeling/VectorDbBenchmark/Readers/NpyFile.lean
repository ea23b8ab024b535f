import VectorDbBenchmark.Readers.StreamedRows

/-!
# Files that hold a C-order `float32` array

What a header says that the streaming reader accepts, and what both readers make of a file
with such a header, however its text is spelled.

The files the format's writers produce are of this kind: the header text with its three
keys, padding and a line break, and then the data, which may be cut short or carry trailing
bytes.
-/

namespace VectorDbBenchmark.Readers

open Kit

/-! ## An accepted header -/

theorem fileLen_of_readNpyHeader {file : Bytes} {header : NpyHeader}
    (h : readNpyHeader file = .ok (some header)) : header.fileLen = file.length := by
  rw [readNpyHeader] at h
  dsimp only at h
  split_ifs at h
  · cases h
  · cases h
  · split at h
    · cases h
    · split at h
      · cases h
      · split_ifs at h
        cases h
        rfl

/-- The layout is read off the header, and the file has the wrapped size. -/
theorem f32NpyLayout_eq_ok {shown : String} {file : Bytes} {layout : F32NpyLayout}
    (h : f32NpyLayout shown file = .ok layout) :
    ∃ header, readNpyHeader file = .ok (some header) ∧
      parseNpyShapeDims header.dict = some [layout.rows, layout.cols] ∧ 0 < layout.cols ∧
      header.dataStart = layout.dataStart ∧
      file.length = layout.dataBytes + layout.dataStart ∧
      layout.dataBytes + layout.dataStart < u64Size := by
  obtain ⟨header, hheader, h⟩ := bind_eq_ok.mp h
  cases header with
  | none => cases h
  | some header =>
      refine ⟨header, hheader, ?_⟩
      have hlen := fileLen_of_readNpyHeader hheader
      dsimp only at h
      split_ifs at h
      split at h
      · cases h
      · next dims hdims =>
          split at h
          · next rows cols =>
              split_ifs at h with hcols
              split at h
              · cases h
              · next want hwant =>
                  split_ifs at h with hsize
                  cases h
                  rw [checkedAdd] at hwant
                  split_ifs at hwant with hlt
                  cases hwant
                  exact ⟨hdims, Nat.pos_of_ne_zero hcols, rfl,
                    hlen.symm.trans (not_not.mp hsize), hlt⟩
          · cases h

/-- The item size that the in-memory reader finds in the header, if any, is not larger than
that of a `float32`, unless there are no rows. -/
def SmallItems (file : Bytes) (layout : F32NpyLayout) : Prop :=
  ∀ header count itemsize, readNpyHeader file = .ok (some header) →
    parseNpyShapeItemsize header.dict = some (count, itemsize) → itemsize ≤ 4 ∨ layout.rows = 0

theorem dataBytes_of_fits {layout : F32NpyLayout} (h : layout.Fits) :
    layout.dataBytes = layout.rows * layout.cols * 4 := by
  rw [F32NpyLayout.Fits, ← Nat.mul_assoc] at h
  have hcount : layout.rows * layout.cols < u64Size := by omega
  rw [F32NpyLayout.dataBytes, Nat.mod_eq_of_lt hcount, Nat.mod_eq_of_lt h]

/-- The product that the in-memory reader counts is that of the same shape. -/
theorem count_of_parseNpyShapeItemsize {dict : Text} {rows cols count itemsize : ℕ}
    (hdims : parseNpyShapeDims dict = some [rows, cols])
    (h : parseNpyShapeItemsize dict = some (count, itemsize)) : count = rows * cols := by
  rw [parseNpyShapeItemsize] at h
  simp only [Option.bind_eq_bind, Option.bind_eq_some_iff] at h
  obtain ⟨_, -, _, -, _, -, size, -, dims, hd, n, hn, h⟩ := h
  rw [hdims] at hd
  cases hd
  cases h
  simp only [checkedProduct, checkedMul, Nat.one_mul, Option.bind_eq_some_iff] at hn
  obtain ⟨m, hm, k, hk, hn⟩ := hn
  split_ifs at hm hk
  cases hm
  cases hk
  cases hn
  rfl

section

variable {shown : String} {file : Bytes} {layout : F32NpyLayout}

/-- The header is the only one to look at. -/
theorem smallItems_iff {header : NpyHeader} (hheader : readNpyHeader file = .ok (some header)) :
    SmallItems file layout ↔ ∀ count itemsize,
      parseNpyShapeItemsize header.dict = some (count, itemsize) →
        itemsize ≤ 4 ∨ layout.rows = 0 := by
  constructor
  · intro h count itemsize hitem
    exact h header count itemsize hheader hitem
  · intro h header' count itemsize hheader' hitem
    rw [hheader] at hheader'
    cases hheader'
    exact h count itemsize hitem

/-- The size check of the in-memory reader, when the file has exactly the declared data. -/
theorem validateNpySizeBound_iff (h : f32NpyLayout shown file = .ok layout)
    (hlen : file.length = layout.dataStart + layout.rows * layout.cols * 4) :
    validateNpySizeBound file = .ok () ↔ SmallItems file layout := by
  obtain ⟨header, hheader, hdims, hcols, hstart, hwrapped, hlt⟩ := f32NpyLayout_eq_ok h
  have hfile := fileLen_of_readNpyHeader hheader
  rw [← hwrapped, hlen] at hlt
  rw [smallItems_iff hheader, validateNpySizeBound, hheader, ok_bind]
  dsimp only
  cases hitem : parseNpyShapeItemsize header.dict with
  | none =>
      refine ⟨?_, fun _ ↦ rfl⟩
      rintro - count itemsize ⟨⟩
  | some found =>
      obtain ⟨count, itemsize⟩ := found
      have hcount := count_of_parseNpyShapeItemsize hdims hitem
      have hsmall : (∀ count' itemsize', some (count, itemsize) = some (count', itemsize') →
          itemsize' ≤ 4 ∨ layout.rows = 0) ↔ count * itemsize ≤ layout.rows * layout.cols * 4 := by
        rw [hcount]
        constructor
        · intro hall
          rcases hall _ _ rfl with hle | hzero
          · exact Nat.mul_le_mul_left _ hle
          · rw [hzero, Nat.zero_mul, Nat.zero_mul, Nat.zero_mul]
        · intro hle count' itemsize' hsame
          cases hsame
          rcases Nat.eq_zero_or_pos layout.rows with hzero | hrows
          · exact .inr hzero
          · exact .inl (Nat.le_of_mul_le_mul_left hle (Nat.mul_pos hrows hcols))
      rw [hsmall]
      dsimp only
      constructor
      · intro hok
        split at hok
        · cases hok
        · next dataBytes hmul =>
            split at hok
            · cases hok
            · next total htotal =>
                split_ifs at hok with hshort
                rw [checkedMul] at hmul
                rw [checkedAdd] at htotal
                split_ifs at hmul htotal
                cases hmul
                cases htotal
                omega
      · intro hle
        rw [checkedMul_of_lt (by omega)]
        dsimp only
        rw [checkedAdd_of_lt (by omega)]
        dsimp only
        rw [if_neg (by omega)]

end

/-! ## The files both readers take -/

/-- A row takes at least four bytes. -/
theorem rows_lt_of_data {rows cols : ℕ} (hcols : 0 < cols) (h : rows * (cols * 4) < u64Size) :
    rows < 2 ^ 62 := by
  have hmul : rows * 4 ≤ rows * (cols * 4) :=
    Nat.mul_le_mul_left _ (Nat.le_mul_of_pos_left 4 hcols)
  rw [u64Size] at h
  omega

/-- A file whose header is read, says in the streaming reader's words that the array is a
C-order little-endian `float32` one, and gives two dimensions with at least one column.
The data may be cut short or carry trailing bytes. -/
structure F32NpyFile where
  bytes : Bytes
  dict : Text
  dataStart : ℕ
  rows : ℕ
  cols : ℕ
  header : readNpyHeader bytes = .ok (some ⟨dict, dataStart, bytes.length⟩)
  descr : containsSub "'descr': '<f4'".toList dict = true ∨
    containsSub "\"descr\": \"<f4\"".toList dict = true
  order : containsSub "'fortran_order': False".toList dict = true
  dims : parseNpyShapeDims dict = some [rows, cols]
  /-- No item size is found that is larger than that of a `float32`. -/
  items : SmallItems bytes ⟨rows, cols, dataStart⟩
  cols_pos : 0 < cols
  /-- The declared data has a size that fits a `u64`. -/
  fits : F32NpyLayout.Fits ⟨rows, cols, dataStart⟩
  /-- The length of a file is a `u64`. -/
  length_lt : bytes.length < u64Size

namespace F32NpyFile

variable (f : F32NpyFile)

def layout : F32NpyLayout := ⟨f.rows, f.cols, f.dataStart⟩

/-- What follows the header. -/
def data : Bytes := f.bytes.drop f.dataStart

/-- The file holds exactly the declared data. -/
def Sized : Prop := f.bytes.length = f.dataStart + f.rows * (f.cols * 4)

instance : Decidable f.Sized := inferInstanceAs (Decidable (_ = _))

/-- The rows of the array. -/
def array : List (List F32) := (takeChunks (f.cols * 4) f.rows f.data).map f32Row

@[simp] theorem length_array : f.array.length = f.rows := by
  rw [array, List.length_map, length_takeChunks]

theorem rows_lt : f.rows < 2 ^ 62 := rows_lt_of_data f.cols_pos f.fits

theorem length_data {f : F32NpyFile} (h : f.Sized) : f.data.length = f.rows * (f.cols * 4) := by
  rw [data, List.length_drop, h, Nat.add_sub_cancel_left]

theorem dataBytes_layout : f.layout.dataBytes = f.rows * (f.cols * 4) := by
  have hbytes : f.layout.dataBytes = f.rows * f.cols * 4 := dataBytes_of_fits f.fits
  rw [hbytes, Nat.mul_assoc]

/-- The streaming reader takes the file exactly when it holds the declared data. -/
theorem toOption_f32NpyLayout (shown : String) :
    (f32NpyLayout shown f.bytes).toOption = if f.Sized then some f.layout else none := by
  have hdescr : (containsSub "'descr': '<f4'".toList f.dict ||
      containsSub "\"descr\": \"<f4\"".toList f.dict) = true := Bool.or_eq_true_iff.mpr f.descr
  have hsize := f.dataBytes_layout
  rw [layout] at hsize
  rw [f32NpyLayout, f.header, ok_bind]
  dsimp only
  rw [hdescr, f.order, f.dims, if_neg (show ¬(!true || !true) = true by decide)]
  dsimp only
  rw [if_neg f.cols_pos.ne', hsize, checkedAdd]
  -- a sum that does not fit is not the length of a file
  split_ifs with hadd hsized hsized
  · dsimp only
    rw [if_neg (not_not.mpr (hsized.trans (Nat.add_comm _ _)))]
    rfl
  · dsimp only
    rw [if_pos fun h ↦ hsized (h.trans (Nat.add_comm _ _))]
    rfl
  · have hlt := f.length_lt
    rw [hsized, Nat.add_comm] at hlt
    exact absurd hlt hadd
  · rfl

theorem validateNpySizeBound_sized {f : F32NpyFile} (h : f.Sized) :
    validateNpySizeBound f.bytes = .ok () := by
  have hlayout := f.toOption_f32NpyLayout ""
  rw [if_pos h] at hlayout
  refine (validateNpySizeBound_iff (toOption_eq_some.mp hlayout) ?_).mpr f.items
  rw [h, layout, Nat.mul_assoc]

/-- What `ndarray-npy` does with these files: it reads the array out of one that holds
exactly the declared data, and reports missing or extra bytes otherwise. -/
structure ReadBy (readNpy : Bytes → Except String (List (List F32))) : Prop where
  sized : f.Sized → readNpy f.bytes = .ok f.array
  wrongSize : ¬ f.Sized → ∃ e, readNpy f.bytes = .error e

theorem idsBelow_rows : idsBelow f.rows = (List.range f.rows).map Int64.ofNat := by
  have hrows : f.rows < 2 ^ 63 := f.rows_lt.trans (by decide)
  rw [idsBelow, Int64.toInt_ofNat_of_lt hrows, Int.toNat_natCast]

/-- The in-memory reader returns the rows of a file that holds the declared data. -/
theorem readNpyVectors_bytes {env : ReaderEnv} (hread : f.ReadBy env.readNpy) (h : f.Sized)
    (normalize : Bool) :
    readNpyVectors env f.bytes normalize =
      .ok ((List.range f.rows).map Int64.ofNat,
        if normalize then f.array.map (normalizeRow env.f32) else f.array) := by
  have hlen : (if normalize then f.array.map (normalizeRow env.f32) else f.array).length =
      f.rows := by
    split_ifs
    · rw [List.length_map, length_array]
    · exact f.length_array
  rw [readNpyVectors, validateNpySizeBound_sized h, ok_bind, hread.sized h]
  refine (congrArg (fun n ↦ Except.ok (idsBelow n, _)) hlen).trans ?_
  rw [idsBelow_rows]

theorem readNpyVectors_bytes_error {env : ReaderEnv} (hread : f.ReadBy env.readNpy)
    (h : ¬ f.Sized) (normalize : Bool) : ∃ e, readNpyVectors env f.bytes normalize = .error e := by
  obtain ⟨e, he⟩ := hread.wrongSize h
  rw [readNpyVectors, he]
  cases validateNpySizeBound f.bytes with
  | error e' => exact ⟨e', rfl⟩
  | ok u => exact ⟨_, rfl⟩

end F32NpyFile

/-! ## Files with a given header text -/

/-- How many bytes hold the header's length: two in version 1, four from version 2 on. -/
def headerLenWidth (major : UInt8) : ℕ := if 2 ≤ major then 4 else 2

/-- A file of a version with a header text and what follows it. -/
def npyBytes (major minor : UInt8) (dict : Text) (data : Bytes) : Bytes :=
  npyMagic ++ ([major, minor] ++ (toLe (headerLenWidth major) dict.length ++
    (asciiBytes dict ++ data)))

section NpyBytes

variable {major : UInt8} (minor : UInt8) {dict : Text} (data : Bytes)

theorem headerLenWidth_eq (major : UInt8) :
    headerLenWidth major = 4 ∧ 2 ≤ major ∨ headerLenWidth major = 2 ∧ ¬ 2 ≤ major := by
  rw [headerLenWidth]
  split_ifs with h
  · exact .inl ⟨rfl, h⟩
  · exact .inr ⟨rfl, h⟩

theorem length_npyBytes : (npyBytes major minor dict data).length =
    8 + headerLenWidth major + dict.length + data.length := by
  simp only [npyBytes, npyMagic, List.length_append, length_toLe, length_asciiBytes,
    List.length_cons, List.length_nil]
  omega

theorem drop_npyBytes :
    (npyBytes major minor dict data).drop (8 + headerLenWidth major + dict.length) = data := by
  have hlen : (npyMagic ++ ([major, minor] ++ (toLe (headerLenWidth major) dict.length ++
      asciiBytes dict))).length = 8 + headerLenWidth major + dict.length := by
    simp only [npyMagic, List.length_append, length_toLe, length_asciiBytes, List.length_cons,
      List.length_nil]
    omega
  have hbytes : npyBytes major minor dict data = (npyMagic ++ ([major, minor] ++
      (toLe (headerLenWidth major) dict.length ++ asciiBytes dict))) ++ data := by
    simp only [npyBytes, List.append_assoc]
  rw [hbytes, ← hlen, List.drop_left]

/-- The header's length fits its field. -/
theorem headerSpan_npyBytes (h : dict.length < 256 ^ headerLenWidth major) :
    headerSpan (npyBytes major minor dict data) =
      some (dict.length, 8 + headerLenWidth major) := by
  have hmajor : (npyBytes major minor dict data)[6]?.getD 0 = major := rfl
  have hdrop : (npyBytes major minor dict data).drop 8 =
      toLe (headerLenWidth major) dict.length ++ (asciiBytes dict ++ data) := rfl
  have hlen : ofLe (((npyBytes major minor dict data).drop 8).take (headerLenWidth major)) =
      dict.length := by
    rw [hdrop, List.take_left' (length_toLe _ _), ofLe_toLe_of_lt h]
  rw [headerSpan, hmajor]
  rcases headerLenWidth_eq major with ⟨hwidth, hv⟩ | ⟨hwidth, hv⟩
  · have hshort : ¬ (npyBytes major minor dict data).length < 12 := by
      rw [length_npyBytes, hwidth]
      omega
    rw [hwidth] at hlen
    rw [if_pos hv, if_neg hshort, hlen, hwidth]
  · rw [hwidth] at hlen
    rw [if_neg hv, hlen, hwidth]

/-- The header scan gives the text back when it is ASCII and not nested too deep. -/
theorem readNpyHeader_npyBytes (h : dict.length < 256 ^ headerLenWidth major)
    (hend : 8 + headerLenWidth major + dict.length < u64Size)
    (hascii : ∀ c ∈ dict, c.toNat < 128) (hdepth : maxBracketDepth dict ≤ 4) :
    readNpyHeader (npyBytes major minor dict data) =
      .ok (some ⟨dict, 8 + headerLenWidth major + dict.length,
        (npyBytes major minor dict data).length⟩) := by
  have hmagic : (npyBytes major minor dict data).take 6 = npyMagic := rfl
  have hadd := checkedAdd_of_lt hend
  have htext : ((npyBytes major minor dict data).drop (8 + headerLenWidth major)).take
      dict.length = asciiBytes dict := by
    have hdrop : (npyBytes major minor dict data).drop (8 + headerLenWidth major) =
        asciiBytes dict ++ data := by
      rw [← List.drop_drop]
      exact List.drop_left' (length_toLe _ _)
    rw [hdrop, List.take_left' (length_asciiBytes _)]
  have hten : ¬ (npyBytes major minor dict data).length < 10 := by
    rw [length_npyBytes]
    rcases headerLenWidth_eq major with ⟨hwidth, -⟩ | ⟨hwidth, -⟩ <;> omega
  have hshort : ¬ (npyBytes major minor dict data).length <
      8 + headerLenWidth major + dict.length := by
    rw [length_npyBytes]
    omega
  rw [readNpyHeader]
  dsimp only
  rw [if_neg hten, if_neg (not_not.mpr hmagic), headerSpan_npyBytes minor data h]
  dsimp only
  rw [hadd]
  dsimp only
  rw [if_neg hshort, htext, fromUtf8Lossy_asciiBytes hascii, if_neg (Nat.not_lt.mpr hdepth)]

end NpyBytes

/-! ## The header text -/

/-- Up to the shape tuple's dimensions. -/
def dictOpening : Text := "\x7b'descr': '<f4', 'fortran_order': False, 'shape': (".toList

/-- After the shape tuple: some writers end the dictionary with a comma. -/
def dictClosing (trailingComma : Bool) (pad : ℕ) : Text :=
  (if trailingComma then ", \x7d".toList else "\x7d".toList) ++ List.replicate pad ' ' ++ ['\n']

/-- The dimensions as a tuple prints them. -/
def shapeText (rows cols : ℕ) : Text := rows.repr.toList ++ ',' :: ' ' :: cols.repr.toList

def npyDict (rows cols : ℕ) (trailingComma : Bool) (pad : ℕ) : Text :=
  dictOpening ++ (shapeText rows cols ++ ')' :: dictClosing trailingComma pad)

section Dict

variable (rows cols : ℕ) (trailingComma : Bool) (pad : ℕ)

theorem mem_shapeText {rows cols : ℕ} {c : Char} (h : c ∈ shapeText rows cols) :
    c.isDigit = true ∨ c = ',' ∨ c = ' ' := by
  rw [shapeText, List.mem_append, List.mem_cons, List.mem_cons] at h
  rcases h with h | h | h | h
  · exact .inl (isDigit_of_mem_natRepr h)
  · exact .inr (.inl h)
  · exact .inr (.inr h)
  · exact .inl (isDigit_of_mem_natRepr h)

theorem mem_dictClosing {trailingComma : Bool} {pad : ℕ} {c : Char}
    (h : c ∈ dictClosing trailingComma pad) : c = ',' ∨ c = ' ' ∨ c = '}' ∨ c = '\n' := by
  rw [dictClosing, List.mem_append, List.mem_append, List.mem_replicate] at h
  rcases h with (h | h) | h
  · cases trailingComma <;> simp at h <;> tauto
  · exact .inr (.inl h.2)
  · exact .inr (.inr (.inr (List.mem_singleton.mp h)))

theorem npyDict_ascii : ∀ c ∈ npyDict rows cols trailingComma pad, c.toNat < 128 := by
  intro c hc
  rw [npyDict, List.mem_append, List.mem_append, List.mem_cons] at hc
  rcases hc with hc | hc | rfl | hc
  · have hopening : dictOpening.all (fun c ↦ decide (c.toNat < 128)) = true := by decide
    exact of_decide_eq_true (List.all_eq_true.mp hopening c hc)
  · rcases mem_shapeText hc with hc | rfl | rfl
    · exact toNat_lt_of_isDigit hc
    · decide
    · decide
  · decide
  · rcases mem_dictClosing hc with rfl | rfl | rfl | rfl <;> decide

/-! ## What the scans find -/

theorem containsSub_npyDict {pat : Text} (h : containsSub pat dictOpening = true) :
    containsSub pat (npyDict rows cols trailingComma pad) = true :=
  containsSub_append h _

theorem bracketStep_of_plain {c : Char} (h : c ∉ ['{', '[', '(', '}', ']', ')']) (s : ℕ × ℕ) :
    bracketStep s c = s := by
  simp only [List.mem_cons, List.not_mem_nil, or_false, not_or] at h
  rw [bracketStep, if_neg (by tauto), if_neg (by tauto)]

theorem foldl_bracketStep_of_plain {t : Text}
    (h : ∀ c ∈ t, c ∉ ['{', '[', '(', '}', ']', ')']) (s : ℕ × ℕ) :
    t.foldl bracketStep s = s := by
  induction t generalizing s with
  | nil => rfl
  | cons c t ih =>
      rw [List.foldl_cons, bracketStep_of_plain (h c List.mem_cons_self)]
      exact ih (fun d hd ↦ h d (List.mem_cons_of_mem c hd)) s

theorem not_bracket_of_isDigit {c : Char} (h : c.isDigit = true) :
    c ∉ ['{', '[', '(', '}', ']', ')'] := by
  intro hc
  simp only [List.mem_cons, List.not_mem_nil, or_false] at hc
  rcases hc with rfl | rfl | rfl | rfl | rfl | rfl <;> exact absurd h (by decide)

/-- The dictionary and the shape tuple nest two deep. -/
theorem maxBracketDepth_npyDict : maxBracketDepth (npyDict rows cols trailingComma pad) = 2 := by
  have hshape : ∀ c ∈ shapeText rows cols, c ∉ ['{', '[', '(', '}', ']', ')'] := by
    intro c hc
    rcases mem_shapeText hc with hc | rfl | rfl
    · exact not_bracket_of_isDigit hc
    · decide
    · decide
  have hpad : ∀ c ∈ List.replicate pad ' ' ++ ['\n'], c ∉ ['{', '[', '(', '}', ']', ')'] := by
    intro c hc
    rw [List.mem_append, List.mem_replicate, List.mem_singleton] at hc
    rcases hc with ⟨-, rfl⟩ | rfl <;> decide
  have hopen : dictOpening.foldl bracketStep (0, 0) = (2, 2) := by decide
  have hclose : (if trailingComma then ", \x7d".toList else "\x7d".toList).foldl
    bracketStep (1, 2) =
      (0, 2) := by
    cases trailingComma <;> decide
  rw [maxBracketDepth, npyDict, List.foldl_append, hopen, List.foldl_append,
    foldl_bracketStep_of_plain hshape, List.foldl_cons, dictClosing, List.append_assoc,
    List.foldl_append]
  have hparen : bracketStep (2, 2) ')' = (1, 2) := by decide
  rw [hparen, hclose, foldl_bracketStep_of_plain hpad]

theorem parseDims_cons {part : Text} {n : ℕ} (h : parseU64 (trim part) = some n)
    (parts : List Text) : parseDims (part :: parts) = (parseDims parts).map (n :: ·) := by
  have hne : (trim part).isEmpty = false := by
    cases ht : trim part with
    | nil =>
        rw [ht] at h
        cases h
    | cons c cs => rfl
  rw [parseDims]
  simp only [hne, h]
  cases parseDims parts <;> rfl

/-- The shape tuple's text gives the two dimensions. -/
theorem parseDims_shapeText {rows cols : ℕ} (hrows : rows < 2 ^ 64) (hcols : cols < 2 ^ 64) :
    parseDims (splitAtSep ',' (shapeText rows cols)) = some [rows, cols] := by
  have hdigit : ∀ {n : ℕ}, ∀ c ∈ n.repr.toList, c.isDigit = true := fun c hc ↦
    isDigit_of_mem_natRepr hc
  have hcomma : ∀ n : ℕ, ',' ∉ n.repr.toList := fun n hn ↦
    absurd (hdigit ',' hn) (by decide)
  have hspace : ',' ∉ ' ' :: cols.repr.toList := by
    rw [List.mem_cons, not_or]
    exact ⟨by decide, hcomma cols⟩
  have htrim : trim (' ' :: cols.repr.toList) = cols.repr.toList := by
    have hstart : trimStart (' ' :: cols.repr.toList) = trimStart cols.repr.toList :=
      List.dropWhile_cons_of_pos (by decide)
    rw [trim, hstart]
    exact trim_of_digits hdigit
  rw [shapeText, splitAtSep_append (hcomma rows), splitAtSep_of_not_mem hspace,
    parseDims_cons (by rw [trim_of_digits hdigit, parseU64_repr hrows]),
    parseDims_cons (by rw [htrim, parseU64_repr hcols])]
  rfl

theorem parseNpyShapeDims_npyDict {rows cols : ℕ} (hrows : rows < 2 ^ 64)
    (hcols : cols < 2 ^ 64) :
    parseNpyShapeDims (npyDict rows cols trailingComma pad) = some [rows, cols] := by
  obtain ⟨tail, htail⟩ : ∃ tail, tail = ')' :: dictClosing trailingComma pad := ⟨_, rfl⟩
  have hshape : findSub "'shape'".toList (npyDict rows cols trailingComma pad) = some 41 :=
    findSub_append (by decide) _
  have hrest : (npyDict rows cols trailingComma pad).drop 41 =
      "'shape': (".toList ++ (shapeText rows cols ++ tail) := by
    rw [npyDict, htail, List.drop_append_of_le_length (by decide)]
    rfl
  have hopen : findSub ['('] ("'shape': (".toList ++ (shapeText rows cols ++ tail)) = some 9 :=
    findSub_append (by decide) _
  have hrest' : ("'shape': (".toList ++ (shapeText rows cols ++ tail)).drop 9 =
      ('(' :: shapeText rows cols) ++ tail := rfl
  have hparen : ')' ∉ '(' :: shapeText rows cols := by
    intro h
    rcases List.mem_cons.mp h with h | h
    · exact absurd h (by decide)
    · rcases mem_shapeText h with h | h | h <;> exact absurd h (by decide)
  have hclose : findSub [')'] (('(' :: shapeText rows cols) ++ tail) =
      some ((shapeText rows cols).length + 1) := by
    rw [htail, findSub_singleton hparen, List.length_cons]
  have hslice : slice ("'shape': (".toList ++ (shapeText rows cols ++ tail)) 10
      ((shapeText rows cols).length + 1 + 9) = shapeText rows cols := by
    have hdrop : ("'shape': (".toList ++ (shapeText rows cols ++ tail)).drop 10 =
        shapeText rows cols ++ tail := rfl
    have hlen : (shapeText rows cols).length + 1 + 9 - 10 = (shapeText rows cols).length := rfl
    rw [slice, hdrop, hlen, List.take_left]
  rw [parseNpyShapeDims, hshape]
  simp only [Option.bind_eq_bind, Option.bind_some, hrest, hopen, hrest', hclose, Option.map_some,
    hslice]
  exact parseDims_shapeText hrows hcols

theorem findIdx?_append_of_some {α : Type*} {p : α → Bool} {xs : List α} {i : ℕ}
    (h : xs.findIdx? p = some i) (ys : List α) : (xs ++ ys).findIdx? p = some i := by
  rw [List.findIdx?_append, h]
  rfl

/-- Four bytes an element. -/
theorem parseNpyShapeItemsize_npyDict {rows cols : ℕ} (hrows : rows < 2 ^ 64)
    (hcols : cols < 2 ^ 64) (hsize : rows * cols < u64Size) :
    parseNpyShapeItemsize (npyDict rows cols trailingComma pad) = some (rows * cols, 4) := by
  obtain ⟨tail, htail⟩ :
    ∃ tail, tail = shapeText rows cols ++ ')' :: dictClosing trailingComma pad := ⟨_, rfl⟩
  have hdescr : findSub "'descr'".toList (npyDict rows cols trailingComma pad) = some 1 :=
    findSub_append (by decide) _
  have hafter : (npyDict rows cols trailingComma pad).drop (1 + "'descr'".length) =
      dictOpening.drop 8 ++ tail := by
    rw [npyDict, htail, List.drop_append_of_le_length (by decide)]
    rfl
  have hstart : (dictOpening.drop 8 ++ tail).findIdx? isQuote = some 2 :=
    findIdx?_append_of_some (by decide) tail
  have hquoted : (dictOpening.drop 8 ++ tail).drop 3 = dictOpening.drop 11 ++ tail := by
    rw [List.drop_append_of_le_length (by decide), List.drop_drop]
  have hend : (dictOpening.drop 11 ++ tail).findIdx? isQuote = some 3 :=
    findIdx?_append_of_some (by decide) tail
  have hitem : parseU64 (((dictOpening.drop 11 ++ tail).take 3).filter Char.isDigit) = some 4 := by
    rw [List.take_append_of_le_length (by decide)]
    decide
  have hcount : checkedProduct 1 [rows, cols] = some (rows * cols) := by
    have hone : checkedMul 1 rows = some rows := by
      rw [checkedMul, Nat.one_mul]
      exact if_pos hrows
    simp only [checkedProduct, hone, checkedMul_of_lt hsize, Option.bind_some]
  rw [parseNpyShapeItemsize, hdescr]
  simp only [Option.bind_eq_bind, Option.bind_some, hafter, hstart, hquoted, hend, hitem,
    parseNpyShapeDims_npyDict trailingComma pad hrows hcols, hcount]
  rfl

end Dict

/-! ## The files -/

/-- A file with a well-formed header of a C-order little-endian `float32` array. -/
structure NpyFile where
  major : UInt8
  minor : UInt8
  rows : ℕ
  cols : ℕ
  trailingComma : Bool
  pad : ℕ
  /-- What follows the header. -/
  data : Bytes
  cols_pos : 0 < cols
  /-- A dimension is a `usize`. -/
  cols_lt : cols < 2 ^ 64
  /-- The header's length fits its field. -/
  header_lt : (npyDict rows cols trailingComma pad).length < 256 ^ headerLenWidth major
  /-- The declared file has a size that fits a `u64`. -/
  size_lt : 8 + headerLenWidth major + (npyDict rows cols trailingComma pad).length +
    rows * (cols * 4) < u64Size

namespace NpyFile

variable (f : NpyFile)

def dict : Text := npyDict f.rows f.cols f.trailingComma f.pad

def lenWidth : ℕ := headerLenWidth f.major

def bytes : Bytes := npyBytes f.major f.minor f.dict f.data

/-- Where row 0 starts. -/
def dataStart : ℕ := 8 + f.lenWidth + f.dict.length

/-- The file holds exactly the declared data. -/
def Sized : Prop := f.data.length = f.rows * (f.cols * 4)

instance : Decidable f.Sized := inferInstanceAs (Decidable (_ = _))

/-- The rows of the array. -/
def array : List (List F32) := (takeChunks (f.cols * 4) f.rows f.data).map f32Row

theorem length_bytes : f.bytes.length = f.dataStart + f.data.length := length_npyBytes _ _

theorem dict_length_lt : f.dict.length < 256 ^ f.lenWidth := f.header_lt

theorem declared_lt : f.dataStart + f.rows * (f.cols * 4) < u64Size := f.size_lt

theorem rows_lt : f.rows < 2 ^ 62 :=
  rows_lt_of_data f.cols_pos ((Nat.le_add_left _ _).trans_lt f.declared_lt)

theorem count_lt : f.rows * f.cols < u64Size := by
  have := f.declared_lt
  rw [← Nat.mul_assoc] at this
  omega

theorem drop_dataStart : f.bytes.drop f.dataStart = f.data := drop_npyBytes _ _

/-- The header scan gives the dictionary text. -/
theorem readNpyHeader_bytes :
    readNpyHeader f.bytes = .ok (some ⟨f.dict, f.dataStart, f.bytes.length⟩) := by
  have hdepth : maxBracketDepth f.dict = 2 := maxBracketDepth_npyDict _ _ _ _
  refine readNpyHeader_npyBytes f.minor f.data f.dict_length_lt ?_ (npyDict_ascii _ _ _ _) ?_
  · exact (Nat.le_add_right _ _).trans_lt f.declared_lt
  · rw [hdepth]
    decide

/-! ## The two readers on them -/

theorem sized_iff : f.Sized ↔ f.bytes.length = f.dataStart + f.rows * (f.cols * 4) := by
  rw [Sized, f.length_bytes]
  omega

theorem length_lt_of_sized {f : NpyFile} (h : f.Sized) : f.bytes.length < u64Size := by
  rw [f.sized_iff.mp h]
  exact f.declared_lt

/-- One of the files that both readers take. -/
def toF32NpyFile (h : f.bytes.length < u64Size) : F32NpyFile where
  bytes := f.bytes
  dict := f.dict
  dataStart := f.dataStart
  rows := f.rows
  cols := f.cols
  header := f.readNpyHeader_bytes
  descr := .inl (containsSub_npyDict _ _ _ _ (by decide))
  order := containsSub_npyDict _ _ _ _ (by decide)
  dims := parseNpyShapeDims_npyDict _ _ (f.rows_lt.trans (by decide)) f.cols_lt
  items := by
    have hitem : parseNpyShapeItemsize f.dict = some (f.rows * f.cols, 4) :=
      parseNpyShapeItemsize_npyDict _ _ (f.rows_lt.trans (by decide)) f.cols_lt f.count_lt
    refine (smallItems_iff f.readNpyHeader_bytes).mpr fun count itemsize hfound ↦ ?_
    cases hitem.symm.trans hfound
    exact .inl le_rfl
  cols_pos := f.cols_pos
  fits := (Nat.le_add_left _ _).trans_lt f.declared_lt
  length_lt := h

/-- A file that holds the declared data is taken by the streaming reader. -/
theorem f32NpyLayout_bytes {f : NpyFile} (h : f.Sized) (shown : String) :
    f32NpyLayout shown f.bytes = .ok ⟨f.rows, f.cols, f.dataStart⟩ := by
  have hsized : (f.toF32NpyFile (length_lt_of_sized h)).Sized := f.sized_iff.mp h
  have hlayout := (f.toF32NpyFile (length_lt_of_sized h)).toOption_f32NpyLayout shown
  rw [if_pos hsized] at hlayout
  exact toOption_eq_some.mp hlayout

end NpyFile

end VectorDbBenchmark.Readers
