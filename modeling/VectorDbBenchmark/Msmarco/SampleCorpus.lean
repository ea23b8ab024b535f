import VectorDbBenchmark.Json
import VectorDbBenchmark.Kit.Lines
import VectorDbBenchmark.Msmarco.NpyRows

/-!
# Nested samples

`sample_corpus` of `src/msmarco/preparation.rs`: vectors and payload lines of a prepared
corpus are read in lockstep, and the passages whose docid hashes below a threshold are
written.  The JSON parser, the hash and the printing of an `f32` are parameters; the file
operations themselves succeed.
-/

namespace VectorDbBenchmark.Msmarco

open Kit Readers DeferredNpyF32Writer

def dim : ℕ := 1024

def crc32Buckets : UInt32 := 1000000

/-- What comes from outside the repository. -/
structure SampleEnv where
  /-- `serde_json::from_str::<PassageId>`, the docid of a payload line. -/
  docid : Text → Except String String
  /-- `serde_json::from_str::<Value>`. -/
  fromStr : Text → Except String Json
  /-- `crc32fast` of the docid's bytes. -/
  crc32 : String → UInt32
  displayF32 : F32 → String

/-- A corpus directory: `vectors.npy`, whose size is a `u64`, and `payloads.jsonl`. -/
structure Corpus where
  vectors : Bytes
  payloads : Text
  vectors_lt : vectors.length < u64Size

/-- What a sample writes: `vectors.npy.part` and `payloads.jsonl.part`. -/
structure SampleFiles where
  vectors : Bytes
  payloads : Text

/-- Longest strings by field name. -/
abbrev MaxBytes := List (String × ℕ)

variable (env : SampleEnv)

def crc32Bucket (docid : String) : UInt32 := env.crc32 docid % crc32Buckets

def keeps (docid : String) (threshold : UInt32) : Bool := crc32Bucket env docid < threshold

/-- `v.is_finite()`: the exponent's bits are not all ones. -/
def F32.isFinite (v : F32) : Bool := v.bits.toNat / 2 ^ 23 % 2 ^ 8 ≠ 255

def ensureFinite (block : List F32) (firstId : ℤ) (dim : ℕ) : Except String Unit :=
  match block.findIdx? fun v ↦ !F32.isFinite v with
  | none => .ok ()
  | some pos =>
    let row := if dim = 0 then 0 else pos / dim
    let component := if dim = 0 then pos else pos % dim
    let value := (block[pos]?.map env.displayF32).getD ""
    .error (s!"passage {firstId + row} holds a non-finite embedding value ({value}) at " ++
      s!"component {component} — the upstream float16 data is corrupt or was decoded with the " ++
      "wrong byte order")

/-- `*max_bytes.entry(name).or_insert(0)` raised to a length. -/
def MaxBytes.raise (name : String) (len : ℕ) : MaxBytes → MaxBytes
  | [] => [(name, len)]
  | (k, m) :: entries =>
    if k = name then (k, max m len) :: entries else (k, m) :: raise name len entries

/-- The string fields of a payload. -/
def MaxBytes.record (row : List (String × Json)) (maxBytes : MaxBytes) : MaxBytes :=
  row.foldl (fun maxBytes e ↦
    match e.2.asStr with
    | some s => maxBytes.raise e.1 s.utf8ByteSize
    | none => maxBytes) maxBytes

/-- What has been selected so far. -/
structure Selected where
  writer : DeferredNpyF32Writer
  payloads : Text
  maxBytes : MaxBytes

/-- One passage: a row of the vectors with its payload line. -/
def selectRow (threshold : UInt32) (out : Selected) (passage : Bytes × Text) :
    Except String Selected := do
  let id ← env.docid passage.2
  if !keeps env id threshold then pure out
  else
    let row ← env.fromStr passage.2
    match row.asObject with
    | none => .error "non-object payload"
    | some entries =>
      let vector := f32Row passage.1
      ensureFinite env vector 0 dim
      let writer ← out.writer.writeRow vector
      pure ⟨writer, out.payloads ++ (passage.2 ++ ['\n']), out.maxBytes.record entries⟩

/-- The loop over the rows: what is left of the vectors and of the lines, and the selection. -/
def sampleRows (threshold : UInt32) :
    ℕ → Bytes → List Text → Selected → Except String (List Text × Selected)
  | 0, _, lines, out => .ok (lines, out)
  | rows + 1, vectors, lines, out => do
    let (raw, vectors) ← readExact (dim * 4) vectors
    match lines with
    | [] => .error "payloads ended before vectors"
    | line :: lines =>
      let out ← selectRow env threshold out (raw, line)
      sampleRows threshold rows vectors lines out

/-- The header of the selection, and the check of its size. -/
def finishSample (expectedRows : UInt64) (out : Selected) :
    Except String (SampleFiles × MaxBytes) := do
  let (rows, vectors) ← out.writer.finish
  if rows ≠ expectedRows then .error s!"nested sample selected {rows}, expected {expectedRows}"
  else pure (⟨vectors, out.payloads⟩, out.maxBytes)

/-- `sample_corpus`. -/
def sampleCorpus (source : Corpus) (threshold : UInt32) (expectedRows : UInt64) :
    Except String (SampleFiles × MaxBytes) := do
  let (sourceVectors, rows, cols) ← openF32Npy "vectors.npy" source.vectors
  if cols ≠ dim then .error "nested source has wrong dimensions"
  else
    let (lines, out) ← sampleRows env threshold rows sourceVectors (bufLines source.payloads)
      ⟨create 1024, [], []⟩
    if lines ≠ [] then .error "payloads outlast vectors"
    else finishSample expectedRows out

/-! ## The loop -/

/-- Whether a payload line is selected. -/
def kept (threshold : UInt32) (line : Text) : Bool :=
  match env.docid line with
  | .ok id => keeps env id threshold
  | .error _ => false

variable {env} {threshold : UInt32}

/-- With enough of both inputs the loop is a fold over the passages. -/
theorem sampleRows_of_le {n : ℕ} {vectors : Bytes} {lines : List Text} {out : Selected}
    (hvectors : n * (dim * 4) ≤ vectors.length) (hlines : n ≤ lines.length) :
    sampleRows env threshold n vectors lines out =
      (((takeChunks (dim * 4) n vectors).zip lines).foldlM (selectRow env threshold) out).map
        fun out ↦ (lines.drop n, out) := by
  induction n generalizing vectors lines out with
  | zero => rfl
  | succ n ih =>
      cases lines with
      | nil => cases hlines
      | cons line lines =>
          rw [Nat.succ_mul] at hvectors
          have hread : readExact (dim * 4) vectors =
              .ok (vectors.take (dim * 4), vectors.drop (dim * 4)) :=
            if_pos ((Nat.le_add_left _ _).trans hvectors)
          rw [sampleRows, hread, ok_bind, takeChunks, List.zip_cons_cons, List.foldlM_cons]
          dsimp only
          cases selectRow env threshold out (vectors.take (dim * 4), line) with
          | error e => rfl
          | ok out' =>
              rw [ok_bind, ok_bind, List.drop_succ_cons]
              refine ih ?_ (Nat.le_of_succ_le_succ hlines)
              rw [List.length_drop]
              omega

/-- A finished loop found enough of both. -/
theorem le_of_sampleRows {n : ℕ} {vectors : Bytes} {lines rest : List Text} {out out' : Selected}
    (h : sampleRows env threshold n vectors lines out = .ok (rest, out')) :
    n * (dim * 4) ≤ vectors.length ∧ n ≤ lines.length := by
  induction n generalizing vectors lines out with
  | zero => exact ⟨by rw [Nat.zero_mul]; exact Nat.zero_le _, Nat.zero_le _⟩
  | succ n ih =>
      rw [sampleRows] at h
      obtain ⟨⟨raw, vectors'⟩, hread, hrow⟩ := bind_eq_ok.mp h
      obtain ⟨hsplit, hlen⟩ := readExact_eq_ok.mp hread
      cases lines with
      | nil => cases hrow
      | cons line lines =>
          obtain ⟨out'', -, hrest⟩ := bind_eq_ok.mp hrow
          obtain ⟨hvectors, hlines⟩ := ih hrest
          refine ⟨?_, Nat.succ_le_succ hlines⟩
          rw [Nat.succ_mul, hsplit, List.length_append, hlen]
          omega

/-! ## The selection -/

/-- A passage that is rejected is skipped. -/
theorem selectRow_of_not_kept {out : Selected} {passage : Bytes × Text} {id : String}
    (hid : env.docid passage.2 = .ok id) (h : kept env threshold passage.2 = false) :
    selectRow env threshold out passage = .ok out := by
  rw [kept, hid] at h
  dsimp only at h
  rw [selectRow, hid, ok_bind, h]
  rfl

/-- What one passage adds. -/
theorem selectRow_eq_ok {out out' : Selected} {passage : Bytes × Text}
    (h : selectRow env threshold out passage = .ok out') :
    (∃ id, env.docid passage.2 = .ok id) ∧
      (kept env threshold passage.2 = false → out' = out) ∧
      (kept env threshold passage.2 = true →
        out.writer.writeRow (f32Row passage.1) = .ok out'.writer ∧
          out'.payloads = out.payloads ++ (passage.2 ++ ['\n'])) := by
  rw [selectRow] at h
  obtain ⟨id, hid, h⟩ := bind_eq_ok.mp h
  refine ⟨⟨id, hid⟩, ?_, ?_⟩
  · intro hkept
    rw [kept, hid] at hkept
    dsimp only at hkept
    rw [hkept] at h
    cases h
    rfl
  · intro hkept
    rw [kept, hid] at hkept
    dsimp only at hkept
    rw [hkept] at h
    obtain ⟨row, -, h⟩ := bind_eq_ok.mp h
    split at h
    · cases h
    · obtain ⟨⟨⟩, -, h⟩ := bind_eq_ok.mp h
      obtain ⟨writer, hwriter, h⟩ := bind_eq_ok.mp h
      cases h
      exact ⟨hwriter, rfl⟩

/-- The selected passages are written in order. -/
theorem foldlM_selectRow {passages : List (Bytes × Text)} {out out' : Selected}
    (h : passages.foldlM (selectRow env threshold) out = .ok out') :
    (∀ p ∈ passages, ∃ id, env.docid p.2 = .ok id) ∧
      writeRows ((passages.filter fun p ↦ kept env threshold p.2).map fun p ↦ f32Row p.1)
        out.writer = .ok out'.writer ∧
      out'.payloads = out.payloads ++
        writeLines ((passages.filter fun p ↦ kept env threshold p.2).map Prod.snd) := by
  induction passages generalizing out with
  | nil =>
      cases h
      exact ⟨fun p hp ↦ absurd hp List.not_mem_nil, rfl, (List.append_nil _).symm⟩
  | cons p passages ih =>
      rw [List.foldlM_cons] at h
      obtain ⟨mid, hp, h⟩ := bind_eq_ok.mp h
      obtain ⟨hids, hwriter, hpayloads⟩ := ih h
      obtain ⟨hid, hskip, htake⟩ := selectRow_eq_ok hp
      refine ⟨List.forall_mem_cons.mpr ⟨hid, hids⟩, ?_⟩
      cases hkept : kept env threshold p.2 with
      | false =>
          simp only [List.filter_cons, hkept, if_neg Bool.false_ne_true]
          rw [← hskip hkept]
          exact ⟨hwriter, hpayloads⟩
      | true =>
          obtain ⟨hwrite, hline⟩ := htake hkept
          simp only [List.filter_cons, hkept, if_true]
          rw [List.map_cons, List.map_cons, writeRows, hwrite, ok_bind]
          refine ⟨hwriter, ?_⟩
          rw [hpayloads, hline, writeLines, writeLines, List.flatMap_cons, List.append_assoc]

theorem kept_mono {t₁ t₂ : UInt32} (h : t₂ ≤ t₁) {line : Text} (hkept : kept env t₂ line = true) :
    kept env t₁ line = true := by
  rw [kept] at hkept ⊢
  split at hkept
  · next id hid =>
      rw [keeps, decide_eq_true_eq] at hkept ⊢
      exact UInt32.lt_of_lt_of_le hkept h
  · cases hkept

/-- A smaller threshold selects among what a larger one selects. -/
theorem foldlM_filter_kept {t₁ t₂ : UInt32} (h : t₂ ≤ t₁) {passages : List (Bytes × Text)}
    (hids : ∀ p ∈ passages, ∃ id, env.docid p.2 = .ok id) (out : Selected) :
    (passages.filter fun p ↦ kept env t₁ p.2).foldlM (selectRow env t₂) out =
      passages.foldlM (selectRow env t₂) out := by
  induction passages generalizing out with
  | nil => rfl
  | cons p passages ih =>
      obtain ⟨⟨id, hid⟩, hids'⟩ := List.forall_mem_cons.mp hids
      cases hkept : kept env t₁ p.2 with
      | true =>
          simp only [List.filter_cons, hkept, if_true]
          rw [List.foldlM_cons, List.foldlM_cons]
          exact bind_congr fun out ↦ ih hids' out
      | false =>
          have hsmall : kept env t₂ p.2 = false := by
            cases hk : kept env t₂ p.2 with
            | false => rfl
            | true => exact (kept_mono h hk).symm.trans hkept
          simp only [List.filter_cons, hkept, if_neg Bool.false_ne_true]
          rw [List.foldlM_cons, selectRow_of_not_kept hid hsmall, ok_bind]
          exact ih hids' out

/-! ## The corpus -/

/-- The passages of a corpus, as they are read. -/
def passages (data : Bytes) (lines : List Text) : List (Bytes × Text) :=
  (takeChunks (dim * 4) lines.length data).zip lines

/-- A corpus with as many lines as vectors. -/
def Aligned (source : Corpus) (data : Bytes) : Prop :=
  openF32Npy "vectors.npy" source.vectors = .ok (data, (bufLines source.payloads).length, dim) ∧
    (bufLines source.payloads).length * (dim * 4) ≤ data.length

theorem sampleCorpus_of_aligned {source : Corpus} {data : Bytes} (h : Aligned source data)
    (threshold : UInt32) (expectedRows : UInt64) :
    sampleCorpus env source threshold expectedRows =
      (passages data (bufLines source.payloads)).foldlM (selectRow env threshold)
        ⟨create 1024, [], []⟩ >>= finishSample expectedRows := by
  obtain ⟨hopen, hlen⟩ := h
  rw [sampleCorpus, hopen, ok_bind]
  dsimp only
  rw [if_neg (not_not.mpr rfl), sampleRows_of_le hlen le_rfl, passages]
  cases List.foldlM (selectRow env threshold) ⟨create 1024, [], []⟩
    ((takeChunks (dim * 4) (bufLines source.payloads).length data).zip
      (bufLines source.payloads)) with
  | error e => rfl
  | ok out =>
      simp only [Except.map, ok_bind]
      rw [List.drop_length, if_neg (not_not.mpr rfl)]

theorem aligned_of_sampleCorpus {source : Corpus} {expectedRows : UInt64}
    {r : SampleFiles × MaxBytes}
    (h : sampleCorpus env source threshold expectedRows = .ok r) : ∃ data, Aligned source data := by
  rw [sampleCorpus] at h
  obtain ⟨⟨data, rows, cols⟩, hopen, h⟩ := bind_eq_ok.mp h
  dsimp only at h
  split_ifs at h with hdim
  obtain ⟨⟨rest, out⟩, hloop, h⟩ := bind_eq_ok.mp h
  dsimp only at h
  split_ifs at h with hrest
  obtain ⟨hvectors, hlines⟩ := le_of_sampleRows hloop
  have hleft := hloop
  rw [sampleRows_of_le hvectors hlines] at hleft
  obtain ⟨out', -, hdrop⟩ := map_eq_ok.mp hleft
  have hlen : (bufLines source.payloads).length = rows := by
    refine le_antisymm ?_ hlines
    have hnil : (bufLines source.payloads).drop rows = [] :=
      (congrArg Prod.fst hdrop).trans (not_not.mp hrest)
    exact List.drop_eq_nil_iff.mp hnil
  refine ⟨data, ?_, hlen ▸ hvectors⟩
  rw [hopen, hlen, not_not.mp hdim]

/-- A corpus whose numbers of lines and of vectors differ is refused. -/
theorem sampleCorpus_error {source : Corpus} {data : Bytes} {rows cols : ℕ}
    (hopen : openF32Npy "vectors.npy" source.vectors = .ok (data, rows, cols))
    (hlen : (bufLines source.payloads).length ≠ rows) (threshold : UInt32)
    (expectedRows : UInt64) : ∃ e, sampleCorpus env source threshold expectedRows = .error e := by
  cases h : sampleCorpus env source threshold expectedRows with
  | error e => exact ⟨e, rfl⟩
  | ok r =>
      obtain ⟨data', hopen', -⟩ := aligned_of_sampleCorpus h
      rw [hopen] at hopen'
      cases hopen'
      exact absurd rfl hlen

section Files

open DeferredNpyF32Writer

variable {source : Corpus} {data : Bytes}

/-- Every passage of an aligned corpus has a whole vector. -/
theorem width_passages (h : Aligned source data) :
    ∀ p ∈ passages data (bufLines source.payloads), (f32Row p.1).length = dim := by
  intro p hp
  have hchunk : p.1 ∈ takeChunks (dim * 4) (bufLines source.payloads).length data :=
    (List.of_mem_zip hp).1
  have htake := List.length_take_of_le h.2
  rw [← List.take_append_drop ((bufLines source.payloads).length * (dim * 4)) data,
    takeChunks_append htake] at hchunk
  rw [f32Row, List.length_map, length_asChunks, length_of_mem_takeChunks htake hchunk]
  rfl

/-- The passages below a threshold. -/
def selection (env : SampleEnv) (threshold : UInt32) (source : Corpus) (data : Bytes) :
    List (Bytes × Text) :=
  (passages data (bufLines source.payloads)).filter fun p ↦ kept env threshold p.2

def selectedRows (env : SampleEnv) (threshold : UInt32) (source : Corpus) (data : Bytes) :
    List (List F32) :=
  (selection env threshold source data).map fun p ↦ f32Row p.1

theorem width_selectedRows (env : SampleEnv) (threshold : UInt32) (h : Aligned source data) :
    ∀ row ∈ selectedRows env threshold source data, row.length = dim := by
  intro row hrow
  obtain ⟨p, hp, rfl⟩ := List.mem_map.mp hrow
  exact width_passages h p (List.mem_filter.mp hp).1

theorem length_selectedRows_le (env : SampleEnv) (threshold : UInt32) (h : Aligned source data) :
    (selectedRows env threshold source data).length * (dim * 4) ≤ data.length := by
  refine le_trans (Nat.mul_le_mul_right _ ?_) h.2
  rw [selectedRows, List.length_map]
  refine (List.length_filter_le _ _).trans ?_
  rw [passages, List.length_zip]
  exact Nat.min_le_right _ _

/-- The sample's file is as small as the source's, up to the header. -/
theorem size_sample (env : SampleEnv) (threshold : UInt32) (h : Aligned source data) :
    128 + (selectedRows env threshold source data).length * ((1024 : UInt64).toNat * 4) <
      u64Size := by
  have hle := length_selectedRows_le env threshold h
  have hdata := length_le_of_openF32Npy h.1
  have hlt := source.vectors_lt
  rw [dim] at hle
  rw [u64Size] at hlt ⊢
  rw [show (1024 : UInt64).toNat = 1024 from rfl]
  omega

/-- A sample that is written holds the selected rows and their lines. -/
theorem files_of_sampleCorpus (h : Aligned source data) {expectedRows : UInt64}
    {files : SampleFiles} {maxBytes : MaxBytes}
    (hrun : sampleCorpus env source threshold expectedRows = .ok (files, maxBytes)) :
    (∀ line ∈ bufLines source.payloads, ∃ id, env.docid line = .ok id) ∧
      files.vectors = npyF32Header (selectedRows env threshold source data).length dim ++
        rowBytes (selectedRows env threshold source data) ∧
      files.payloads = writeLines ((selection env threshold source data).map Prod.snd) ∧
      expectedRows.toNat = (selection env threshold source data).length := by
  rw [sampleCorpus_of_aligned h] at hrun
  obtain ⟨out, hfold, hfinish⟩ := bind_eq_ok.mp hrun
  obtain ⟨hids, hwriter, hpayloads⟩ := foldlM_selectRow hfold
  have hwrite : write 1024 (selectedRows env threshold source data) = out.writer.finish := by
    rw [write]
    exact (congrArg (· >>= finish) hwriter).trans (ok_bind _ _)
  have hcount : (UInt64.ofNat (selectedRows env threshold source data).length).toNat =
      (selectedRows env threshold source data).length :=
    UInt64.toNat_ofNat_of_lt' (rows_lt_of_size (by decide) (size_sample env threshold h))
  rw [write_of_lengths (width_selectedRows env threshold h), hcount] at hwrite
  rw [finishSample, ← hwrite, ok_bind] at hfinish
  dsimp only at hfinish
  split_ifs at hfinish with hexpected
  cases hfinish
  refine ⟨?_, rfl, hpayloads, ?_⟩
  · intro line hline
    have hsnd : (passages data (bufLines source.payloads)).map Prod.snd =
        bufLines source.payloads := by
      refine List.map_snd_zip ?_
      rw [length_takeChunks]
    rw [← hsnd] at hline
    obtain ⟨p, hp, rfl⟩ := List.mem_map.mp hline
    exact hids p hp
  · rw [← not_not.mp hexpected, hcount, selectedRows, List.length_map]

/-- A payload line is a JSON text as `serde_json` prints it, which ends in no carriage return. -/
def Corpus.Prepared (source : Corpus) : Prop :=
  ∀ line ∈ bufLines source.payloads, line.getLast? ≠ some '\r'

/-- The selected passages are the passages of the sample, up to the bytes of a vector. -/
theorem passages_sample (env : SampleEnv) (threshold : UInt32) (h : Aligned source data)
    (hprepared : source.Prepared) :
    bufLines (writeLines ((selection env threshold source data).map Prod.snd)) =
      (selection env threshold source data).map Prod.snd ∧
    passages (rowBytes (selectedRows env threshold source data))
        ((selection env threshold source data).map Prod.snd) =
      (selection env threshold source data).map fun p ↦
        ((f32Row p.1).flatMap f32ToLeBytes, p.2) := by
  constructor
  · refine bufLines_writeLines ?_
    intro line hline
    obtain ⟨p, hp, rfl⟩ := List.mem_map.mp hline
    have hmem : p.2 ∈ bufLines source.payloads := (List.of_mem_zip (List.mem_filter.mp hp).1).2
    exact ⟨not_mem_of_mem_bufLines hmem, hprepared p.2 hmem⟩
  · have hlen : ((selection env threshold source data).map Prod.snd).length =
        (selectedRows env threshold source data).length := by
      rw [selectedRows, List.length_map, List.length_map]
    have hchunks := takeChunks_flatten
      (length_of_mem_rowBytes (width_selectedRows env threshold h))
    rw [List.length_map] at hchunks
    rw [passages, hlen, rowBytes_eq_flatten, hchunks, selectedRows, List.map_map, List.zip_map']
    rfl

theorem selectRow_congr {out : Selected} {raw raw' : Bytes} (h : f32Row raw = f32Row raw')
    (line : Text) :
    selectRow env threshold out (raw, line) = selectRow env threshold out (raw', line) := by
  rw [selectRow, selectRow, h]

/-- The sample as a corpus, and every smaller sample of it. -/
theorem sampleCorpus_sample (h : Aligned source data) (hprepared : source.Prepared)
    (hids : ∀ line ∈ bufLines source.payloads, ∃ id, env.docid line = .ok id) {files : SampleFiles}
    (hvectors : files.vectors = npyF32Header (selectedRows env threshold source data).length dim ++
      rowBytes (selectedRows env threshold source data))
    (hpayloads : files.payloads =
      writeLines ((selection env threshold source data).map Prod.snd)) :
    ∃ sample : Corpus, sample.vectors = files.vectors ∧ sample.payloads = files.payloads ∧
      ∀ t ≤ threshold, ∀ expectedRows,
        sampleCorpus env sample t expectedRows = sampleCorpus env source t expectedRows := by
  have hwidth := width_selectedRows env threshold h
  have hopen : openF32Npy "vectors.npy" files.vectors =
      .ok (rowBytes (selectedRows env threshold source data),
        (selectedRows env threshold source data).length, dim) := by
    rw [hvectors]
    exact @openF32Npy_written 1024 _ "vectors.npy" (by decide) (size_sample env threshold h)
  have hheader : (npyF32Header (selectedRows env threshold source data).length dim).length =
      128 := by
    have hcount : (UInt64.ofNat (selectedRows env threshold source data).length).toNat =
        (selectedRows env threshold source data).length :=
      UInt64.toNat_ofNat_of_lt' (rows_lt_of_size (by decide) (size_sample env threshold h))
    rw [← hcount]
    exact length_npyF32Header_u64 _ 1024
  have hlt : files.vectors.length < u64Size := by
    rw [hvectors, List.length_append, hheader, length_rowBytes hwidth]
    exact size_sample env threshold h
  obtain ⟨hlines, hpassages⟩ := passages_sample env threshold h hprepared
  refine ⟨⟨files.vectors, files.payloads, hlt⟩, rfl, rfl, ?_⟩
  intro t ht expectedRows
  have haligned : Aligned ⟨files.vectors, files.payloads, hlt⟩
      (rowBytes (selectedRows env threshold source data)) := by
    constructor
    · rw [hpayloads, hlines, hopen, List.length_map, selectedRows, List.length_map]
    · rw [hpayloads, hlines, List.length_map, length_rowBytes hwidth, selectedRows, List.length_map]
  rw [sampleCorpus_of_aligned haligned, sampleCorpus_of_aligned h]
  dsimp only
  rw [hpayloads, hlines, hpassages, List.foldlM_map]
  refine congrArg (· >>= finishSample expectedRows) ?_
  have hpassage : ∀ p ∈ passages data (bufLines source.payloads), ∃ id, env.docid p.2 = .ok id :=
    fun p hp ↦ hids p.2 (List.of_mem_zip hp).2
  rw [← foldlM_filter_kept ht hpassage, selection]
  refine congrArg (fun f ↦ List.foldlM f _ _) ?_
  funext out p
  exact selectRow_congr (f32Row_flatMap _) p.2

end Files

/-! ## Nested samples -/

/-- A file of vectors, by its rows. -/
def HoldsVectors (file : Bytes) (rows : List (List F32)) : Prop :=
  ∃ data, openF32Npy "vectors.npy" file = .ok (data, rows.length, dim) ∧
    rows.length * (dim * 4) ≤ data.length ∧
    (takeChunks (dim * 4) rows.length data).map f32Row = rows

/-- A corpus, by its rows: each payload line with the vector of its row. -/
def Corpus.Holds (source : Corpus) (rows : List (List F32 × Text)) : Prop :=
  HoldsVectors source.vectors (rows.map Prod.fst) ∧ bufLines source.payloads = rows.map Prod.snd

section Rows

open DeferredNpyF32Writer

variable {source : Corpus} {data : Bytes}

/-- The rows of an aligned corpus. -/
def corpusRows (source : Corpus) (data : Bytes) : List (List F32 × Text) :=
  (passages data (bufLines source.payloads)).map fun p ↦ (f32Row p.1, p.2)

theorem holds_corpusRows (h : Aligned source data) : source.Holds (corpusRows source data) := by
  have hlen : (takeChunks (dim * 4) (bufLines source.payloads).length data).length =
      (bufLines source.payloads).length := length_takeChunks _ _ _
  have hfst : (corpusRows source data).map Prod.fst =
      (takeChunks (dim * 4) (bufLines source.payloads).length data).map f32Row := by
    rw [corpusRows, List.map_map, passages]
    conv_rhs => rw [← List.map_fst_zip hlen.le, List.map_map]
    rfl
  have hsnd : (corpusRows source data).map Prod.snd = bufLines source.payloads := by
    rw [corpusRows, List.map_map, passages]
    exact List.map_snd_zip hlen.ge
  refine ⟨⟨data, ?_, ?_, ?_⟩, hsnd.symm⟩
  · rw [hfst, List.length_map, hlen]
    exact h.1
  · rw [hfst, List.length_map, hlen]
    exact h.2
  · rw [hfst, List.length_map, hlen]

theorem filter_corpusRows (env : SampleEnv) (threshold : UInt32) :
    (corpusRows source data).filter (fun row ↦ kept env threshold row.2) =
      (selection env threshold source data).map fun p ↦ (f32Row p.1, p.2) := by
  rw [corpusRows, selection, List.filter_map]
  rfl

theorem holdsVectors_sample (env : SampleEnv) (threshold : UInt32) (h : Aligned source data) :
    HoldsVectors (npyF32Header (selectedRows env threshold source data).length dim ++
      rowBytes (selectedRows env threshold source data))
      (selectedRows env threshold source data) := by
  have hwidth := width_selectedRows env threshold h
  refine ⟨_, ?_, (length_rowBytes hwidth).ge, map_f32Row_rowBytes hwidth⟩
  exact @openF32Npy_written 1024 _ "vectors.npy" (by decide) (size_sample env threshold h)

end Rows

/-- A sample that is written has the rows whose bucket is below the threshold, in the order of
the source and each with its own line; every smaller sample can be taken from it instead; and
a number of lines other than the number of vectors is an error. -/
theorem sampleCorpus_nested (env : SampleEnv) (source : Corpus) (threshold : UInt32)
    (expectedRows : UInt64) :
    (∀ files maxBytes, sampleCorpus env source threshold expectedRows = .ok (files, maxBytes) →
      ∃ rows selected, source.Holds rows ∧
        (∀ row ∈ rows, ∃ id, env.docid row.2 = .ok id) ∧
        selected = rows.filter (fun row ↦ kept env threshold row.2) ∧
        HoldsVectors files.vectors (selected.map Prod.fst) ∧
        files.payloads = writeLines (selected.map Prod.snd) ∧
        selected.length = expectedRows.toNat ∧
        (source.Prepared →
          ∃ sample : Corpus, sample.vectors = files.vectors ∧ sample.payloads = files.payloads ∧
            sample.Holds selected ∧
            ∀ t ≤ threshold, ∀ expectedRows,
              sampleCorpus env sample t expectedRows =
                sampleCorpus env source t expectedRows)) ∧
    ∀ data rows cols, openF32Npy "vectors.npy" source.vectors = .ok (data, rows, cols) →
      (bufLines source.payloads).length ≠ rows →
      ∃ e, sampleCorpus env source threshold expectedRows = .error e := by
  constructor
  · intro files maxBytes hrun
    obtain ⟨data, h⟩ := aligned_of_sampleCorpus hrun
    obtain ⟨hids, hvectors, hpayloads, hcount⟩ := files_of_sampleCorpus h hrun
    have hfst : ((corpusRows source data).filter fun row ↦ kept env threshold row.2).map Prod.fst =
        selectedRows env threshold source data := by
      rw [filter_corpusRows, List.map_map]
      rfl
    have hsnd : ((corpusRows source data).filter fun row ↦ kept env threshold row.2).map Prod.snd =
        (selection env threshold source data).map Prod.snd := by
      rw [filter_corpusRows, List.map_map]
      rfl
    have hvectorRows : HoldsVectors files.vectors (selectedRows env threshold source data) := by
      rw [hvectors]
      exact holdsVectors_sample env threshold h
    refine ⟨corpusRows source data, _, holds_corpusRows h, ?_, rfl, ?_, ?_, ?_, ?_⟩
    · intro row hrow
      obtain ⟨p, hp, rfl⟩ := List.mem_map.mp hrow
      exact hids p.2 (List.of_mem_zip hp).2
    · rwa [hfst]
    · rwa [hsnd]
    · rw [filter_corpusRows, List.length_map, hcount]
    · intro hprepared
      obtain ⟨sample, hsv, hsp, hsample⟩ :=
        sampleCorpus_sample h hprepared hids hvectors hpayloads
      refine ⟨sample, hsv, hsp, ⟨?_, ?_⟩, hsample⟩
      · rwa [hsv, hfst]
      · rw [hsp, hpayloads, hsnd]
        exact (passages_sample env threshold h hprepared).1
  · intro data rows cols hopen hlen
    exact sampleCorpus_error hopen hlen threshold expectedRows

end VectorDbBenchmark.Msmarco
