import Mathlib.Data.Multiset.AddSub
import VectorDbBenchmark.Readers.StreamedRows
import VectorDbBenchmark.UploadStream.Invariant

/-!
# Where the batches are

A stream that only ever handed out blocks stands behind the last of them: its blocks are
adjacent ranges of rows from row 0 on, each with the vectors and the payload lines of its
rows, and what is left are those of the other rows.  As long as nothing failed, every batch
that was read was handed to an upload call that returned `Ok` or is held by a worker, and the
totals lag behind the calls by what the workers have yet to add.
-/

namespace VectorDbBenchmark.UploadStream

open Kit Readers CompoundStream

/-! ## Blocks of a stream -/

/-- Adjacent, non-empty ranges of rows from `a` up to `b`. -/
def Contiguous : ℕ → List RawBatch → ℕ → Prop
  | a, [], b => a = b
  | a, raw :: raws, b => raw.firstId = a ∧ 0 < raw.rows ∧ Contiguous (a + raw.rows) raws b

theorem Contiguous.append {a b : ℕ} {raws : List RawBatch} (h : Contiguous a raws b)
    {raw : RawBatch} (hfirst : raw.firstId = b) (hrows : 0 < raw.rows) :
    Contiguous a (raws ++ [raw]) (b + raw.rows) := by
  induction raws generalizing a with
  | nil =>
      cases h
      exact ⟨hfirst, hrows, rfl⟩
  | cons r raws ih => exact ⟨h.1, h.2.1, ih h.2.2⟩

/-- The batch holds the row. -/
def Holds (row : ℕ) (raw : RawBatch) : Bool :=
  raw.firstId ≤ row && row < raw.firstId + raw.rows

/-- Adjacent ranges hold each of their rows once, and no other. -/
theorem Contiguous.countP {a b : ℕ} {raws : List RawBatch} (h : Contiguous a raws b) (row : ℕ) :
    a ≤ b ∧ raws.countP (Holds row) = if a ≤ row ∧ row < b then 1 else 0 := by
  induction raws generalizing a with
  | nil =>
      cases h
      exact ⟨le_rfl, (if_neg fun hlt ↦ absurd hlt.2 (not_lt.mpr hlt.1)).symm⟩
  | cons raw raws ih =>
      obtain ⟨rfl, hrows, hrest⟩ := h
      obtain ⟨hle, hcount⟩ := ih hrest
      refine ⟨(Nat.le_add_right _ _).trans hle, ?_⟩
      rw [List.countP_cons, hcount]
      simp only [Holds, Bool.and_eq_true, decide_eq_true_eq]
      split_ifs <;> omega

/-- The bytes of a batch are those that the corpus holds for its rows. -/
structure CutBytes (start : CompoundStream) (raw : RawBatch) : Prop where
  vectors : raw.vectorBytes =
    (start.vectors.drop (raw.firstId * (raw.cols * 4))).take (raw.rows * (raw.cols * 4))
  length : raw.vectorBytes.length = raw.rows * (raw.cols * 4)

/-- A batch is what the corpus holds for its rows; its bytes are, when the declared size
does not wrap. -/
structure Cut (start : CompoundStream) (raw : RawBatch) : Prop where
  cols : raw.cols = start.layout.cols
  normalize : raw.normalize = start.normalize
  fits : raw.firstId + raw.rows ≤ start.layout.rows
  bytes : start.layout.Fits → CutBytes start raw
  lines : raw.lines = (linesLeft start.payloads).map fun ls ↦ (ls.drop raw.firstId).take raw.rows
  covered : ∀ ls ∈ linesLeft start.payloads, raw.firstId + raw.rows ≤ ls.length

/-- Every row was handed out and the payload file has no other. -/
def AtEnd (start s : CompoundStream) : Prop :=
  s.nextRow = start.layout.rows ∧
    ∀ ls ∈ linesLeft start.payloads, ls.length = start.layout.rows

/-- The stream `start` after it handed out `produced`. -/
structure Ahead (start s : CompoundStream) (produced : List RawBatch) : Prop where
  layout : s.layout = start.layout
  normalize : s.normalize = start.normalize
  contiguous : Contiguous 0 produced s.nextRow
  le : s.nextRow ≤ start.layout.rows
  vectors : start.layout.Fits →
    s.vectors = start.vectors.drop (s.nextRow * (start.layout.cols * 4))
  lines : linesLeft s.payloads = (linesLeft start.payloads).map (·.drop s.nextRow)
  covered : ∀ ls ∈ linesLeft start.payloads, s.nextRow ≤ ls.length
  cut : ∀ raw ∈ produced, Cut start raw
  finished : s.finished = true → AtEnd start s

theorem Ahead.start {start : CompoundStream} (hrow : start.nextRow = 0)
    (hfinished : start.finished = false) : Ahead start start [] where
  layout := rfl
  normalize := rfl
  contiguous := hrow.symm
  le := hrow ▸ Nat.zero_le _
  vectors _ := by rw [hrow, Nat.zero_mul, List.drop_zero]
  lines := by
    rw [hrow]
    exact Option.map_id_apply.symm
  covered ls _ := hrow ▸ Nat.zero_le _
  cut raw h := (nomatch h)
  finished h := by
    rw [hfinished] at h
    cases h

section Blocks

variable {start s s' : CompoundStream} {produced : List RawBatch} {batchSize : ℕ}

/-- A block is the next range of rows. -/
theorem Ahead.take (h : Ahead start s produced) {raw : RawBatch}
    (hraw : s.nextRaw batchSize = (.ok (some raw), s')) :
    Ahead start s' (produced ++ [raw]) := by
  obtain ⟨hsize, hlt, hblock⟩ := s.nextRaw_eq_some hraw
  obtain ⟨n, hn⟩ : ∃ n, n = min (s.layout.rows - s.nextRow) batchSize := ⟨_, rfl⟩
  rw [← hn] at hblock
  have hpos : 0 < n := by
    rw [hn]
    exact lt_min (Nat.sub_pos_of_lt hlt) hsize
  have hle : s.nextRow + n ≤ s.layout.rows := by omega
  obtain ⟨bytes, lines, vectors, payloads, hread, hnext, rfl, rfl⟩ := s.nextBlock_eq_ok hblock
  obtain ⟨hvectors, hbytes⟩ := readExact_eq_ok.mp hread
  obtain ⟨hcovers, rfl, hrest⟩ := s.nextLines_eq_ok hnext
  have hlength : start.layout.Fits → bytes.length = n * (s.layout.cols * 4) := by
    intro hfits
    rwa [s.blockBytes_of_fits (h.layout.symm ▸ hfits) (by omega)] at hbytes
  have hsplit : start.layout.Fits →
      start.vectors.drop (s.nextRow * (s.layout.cols * 4)) = bytes ++ vectors := by
    intro hfits
    rw [h.layout, ← h.vectors hfits, hvectors]
  have hcovered : ∀ ls ∈ linesLeft start.payloads, s.nextRow + n ≤ ls.length := by
    intro ls hls
    have hdrop := hcovers (ls.drop s.nextRow) (by
      rw [h.lines, Option.mem_def.mp hls]
      rfl)
    have hrow := h.covered ls hls
    rw [List.length_drop] at hdrop
    omega
  refine ⟨h.layout, h.normalize, h.contiguous.append rfl hpos, h.layout ▸ hle, fun hfits ↦ ?_, ?_,
    hcovered, fun r hr ↦ ?_, fun hfinished ↦ ?_⟩
  · show vectors = start.vectors.drop ((s.nextRow + n) * (start.layout.cols * 4))
    rw [Nat.add_mul, ← List.drop_drop, ← h.layout, hsplit hfits, ← hlength hfits, List.drop_left]
  · show linesLeft payloads = (linesLeft start.payloads).map (·.drop (s.nextRow + n))
    rw [hrest, h.lines, Option.map_map]
    simp only [Function.comp_def, List.drop_drop]
  · rcases List.mem_append.mp hr with hr | hr
    · exact h.cut r hr
    · cases List.mem_singleton.mp hr
      refine ⟨congrArg F32NpyLayout.cols h.layout, h.normalize, h.layout ▸ hle,
        fun hfits ↦ ⟨?_, hlength hfits⟩, ?_, hcovered⟩
      · show bytes = (start.vectors.drop (s.nextRow * (s.layout.cols * 4))).take
          (n * (s.layout.cols * 4))
        rw [hsplit hfits, ← hlength hfits, List.take_left]
      · show (linesLeft s.payloads).map (·.take n) =
          (linesLeft start.payloads).map fun ls ↦ (ls.drop s.nextRow).take n
        rw [h.lines, Option.map_map]
        rfl
  · have hend := h.finished hfinished
    rw [h.layout, hend.1] at hlt
    exact absurd hlt (lt_irrefl _)

/-- A stream that ends has handed out every row. -/
theorem Ahead.finish (h : Ahead start s produced)
    (hnone : s.nextRaw batchSize = (.ok none, s')) :
    Ahead start s' produced ∧ AtEnd start s' := by
  rcases s.nextRaw_eq_none hnone with ⟨hfinished, rfl⟩ | ⟨hrows, hfinish⟩
  · exact ⟨h, h.finished hfinished⟩
  · have hrow : s.nextRow = start.layout.rows := le_antisymm h.le (h.layout ▸ hrows)
    cases hp : s.payloads with
    | none =>
        simp only [CompoundStream.finish, hp] at hfinish
        cases hfinish
        have hnone : linesLeft start.payloads = none := by
          have hlines := h.lines
          rw [hp] at hlines
          exact Option.map_eq_none_iff.mp hlines.symm
        have hend : ∀ ls ∈ linesLeft start.payloads, ls.length = start.layout.rows := by
          rw [hnone]
          exact fun ls hls ↦ absurd hls (Option.not_mem_none ls)
        refine ⟨?_, hrow, hend⟩
        refine ⟨h.layout, h.normalize, h.contiguous, h.le, h.vectors, ?_, h.covered, h.cut,
          fun _ ↦ ⟨hrow, hend⟩⟩
        rw [← h.lines, hp]
    | some text =>
        simp only [CompoundStream.finish, hp] at hfinish
        split_ifs at hfinish with hextra
        · cases (Prod.mk.inj hfinish).1
        · cases hfinish
          have hlines := h.lines
          rw [hp] at hlines
          have hempty : textLines text = [] := by
            rw [countLines_eq_length, Nat.pos_iff_ne_zero, not_not] at hextra
            exact List.length_eq_zero_iff.mp hextra
          have hend : ∀ ls ∈ linesLeft start.payloads, ls.length = start.layout.rows := by
            intro ls hls
            rw [Option.mem_def.mp hls, linesLeft, Option.map_some, hempty, Option.map_some,
              Option.some.injEq] at hlines
            have hle := List.drop_eq_nil_iff.mp hlines.symm
            have hge := h.covered ls hls
            omega
          refine ⟨?_, hrow, hend⟩
          refine ⟨h.layout, h.normalize, h.contiguous, h.le, h.vectors, ?_, h.covered, h.cut,
            fun _ ↦ ⟨hrow, hend⟩⟩
          rw [← hlines, linesLeft, linesLeft, Option.map_some, Option.map_some, hempty]
          rfl

end Blocks

/-! ## Batches handed over -/

/-- The batch a worker has yet to hand over. -/
def Pc.held : Pc → Multiset RawBatch
  | .taken raw | .counted raw _ | .uploading raw => {raw}
  | _ => 0

/-- The rows a worker handed over and has yet to add. -/
def Pc.owedRows : Pc → ℕ
  | .uploaded (.ok n) | .settling (.ok n) => n
  | _ => 0

/-- The batches a worker handed over and has yet to add. -/
def Pc.owedBatches : Pc → ℕ
  | .uploaded (.ok _) | .settling (.ok _) | .tallying => 1
  | _ => 0

/-- An upload of `start` in which nothing failed so far. -/
structure Clean (env : ReaderEnv) (start : CompoundStream) (s : Upload) : Prop where
  ahead : Ahead start s.shared.stream s.shared.produced
  exhausted : s.shared.exhausted = true → AtEnd start s.shared.stream
  decoded : ∀ c ∈ s.shared.calls, c.raw.decode env = .ok c.batch
  handed : (s.shared.produced : Multiset RawBatch) =
    (s.shared.calls.map Call.raw : Multiset RawBatch) + weigh Pc.held s.workers
  uploaded : s.shared.uploaded + weigh Pc.owedRows s.workers =
    (s.shared.calls.map fun c ↦ c.batch.ids.length).sum
  batches : s.shared.batches + weigh Pc.owedBatches s.workers = s.shared.calls.length

theorem Clean.start (env : ReaderEnv) {stream : CompoundStream} (hrow : stream.nextRow = 0)
    (hfinished : stream.finished = false) (parallel : ℕ) :
    Clean env stream (.start stream parallel) where
  ahead := .start hrow hfinished
  exhausted h := nomatch h
  decoded c h := nomatch h
  handed := by
    rw [weigh_start (f := Pc.held) rfl]
    rfl
  uploaded := by
    rw [weigh_start (f := Pc.owedRows) rfl]
    rfl
  batches := by
    rw [weigh_start (f := Pc.owedBatches) rfl]
    rfl

variable {env : ReaderEnv} {batchSize : ℕ} {start : CompoundStream} {sh sh' : Shared}
  {pc pc' : Pc}

/-! ## One worker -/

theorem Does.ahead (h : Does env batchSize sh pc pc' sh') (hok : sh'.failures = [])
    (hahead : Ahead start sh.stream sh.produced) : Ahead start sh'.stream sh'.produced := by
  cases h with
  | take raw stream hraw => exact hahead.take hraw
  | finish stream hnone => exact (hahead.finish hnone).1
  | readFails e stream => exact absurd hok (by simp [Shared.noteFailure])
  | _ => exact hahead

/-- The stream goes on only while it is not at its end. -/
theorem Does.exhausted (h : Does env batchSize sh pc pc' sh') (hok : sh'.failures = [])
    (hahead : Ahead start sh.stream sh.produced)
    (hend : sh.exhausted = true → AtEnd start sh.stream) :
    sh'.exhausted = true → AtEnd start sh'.stream := by
  intro hexhausted
  cases h with
  | take raw stream hraw =>
      have hlt := (sh.stream.nextRaw_eq_some hraw).2.1
      rw [hahead.layout, (hend hexhausted).1] at hlt
      exact absurd hlt (lt_irrefl _)
  | finish stream hnone => exact (hahead.finish hnone).2
  | readFails e stream => exact absurd hok (by simp [Shared.noteFailure])
  | _ => exact hend hexhausted

theorem Does.decoded (h : Does env batchSize sh pc pc' sh')
    (hdecoded : ∀ c ∈ sh.calls, c.raw.decode env = .ok c.batch) :
    ∀ c ∈ sh'.calls, c.raw.decode env = .ok c.batch := by
  intro c hc
  cases h with
  | upload raw batch hbatch =>
      rcases List.mem_append.mp hc with hc | hc
      · exact hdecoded c hc
      · cases List.mem_singleton.mp hc
        exact hbatch
  | _ => exact hdecoded c hc

/-- A batch is taken, held and handed over. -/
theorem Does.handed (h : Does env batchSize sh pc pc' sh') (hok : sh'.failures = []) :
    (sh'.produced : Multiset RawBatch) + pc.held + (sh.calls.map Call.raw : Multiset RawBatch) =
      sh.produced + pc'.held + (sh'.calls.map Call.raw : Multiset RawBatch) := by
  cases h with
  | take raw stream hraw =>
      simp only [Pc.held, ← Multiset.coe_add, Multiset.coe_singleton, add_zero]
  | upload raw batch hbatch =>
      simp only [Pc.held, List.map_append, List.map_cons, List.map_nil, ← Multiset.coe_add,
        Multiset.coe_singleton, add_zero]
      exact (add_assoc _ _ _).trans (congrArg _ (add_comm _ _))
  | uploadFails raw e => exact absurd hok (by simp [Shared.noteFailure])
  | _ => rfl

/-- Rows are added once they are handed over. -/
theorem Does.uploaded (h : Does env batchSize sh pc pc' sh') :
    sh'.uploaded + pc'.owedRows + (sh.calls.map fun c ↦ c.batch.ids.length).sum =
      sh.uploaded + pc.owedRows + (sh'.calls.map fun c ↦ c.batch.ids.length).sum := by
  cases h with
  | release result => cases result <;> rfl
  | upload raw batch hbatch =>
      simp only [Pc.owedRows, List.map_append, List.map_cons, List.map_nil, List.sum_append,
        List.sum_singleton]
      omega
  | _ => rfl

theorem Does.batches (h : Does env batchSize sh pc pc' sh') :
    sh'.batches + pc'.owedBatches + sh.calls.length =
      sh.batches + pc.owedBatches + sh'.calls.length := by
  cases h with
  | release result => cases result <;> rfl
  | upload raw batch hbatch =>
      simp only [Pc.owedBatches, List.length_append, List.length_singleton]
      omega
  | _ => rfl

/-- A failure that was noted stays noted. -/
theorem Does.failures_nil (h : Does env batchSize sh pc pc' sh') (hok : sh'.failures = []) :
    sh.failures = [] := by
  cases h with
  | connectFails | readFails | uploadFails => exact absurd hok (by simp [Shared.noteFailure])
  | _ => exact hok

/-! ## Any upload -/

variable {s s' : Upload} {a : ℕ × Move}

theorem Clean.does {i : ℕ} (h : Clean env start s) (hi : s.workers[i]? = some ⟨pc, false⟩)
    (hdoes : Does env batchSize s.shared pc pc' sh') (hok : sh'.failures = []) :
    Clean env start ⟨sh', s.workers.set i ⟨pc', false⟩⟩ := by
  refine ⟨hdoes.ahead hok h.ahead, hdoes.exhausted hok h.ahead h.exhausted,
    hdoes.decoded h.decoded, ?_, ?_, ?_⟩
  · have hset := weigh_set Pc.held hi ⟨pc', false⟩
    have hmove := hdoes.handed hok
    have hheld := h.handed
    simp only at hset ⊢
    rw [hheld] at hmove
    have hsum : (sh'.produced : Multiset RawBatch) + pc.held +
        (s.shared.calls.map Call.raw : Multiset RawBatch) =
        (sh'.calls.map Call.raw : Multiset RawBatch) +
          weigh Pc.held (s.workers.set i ⟨pc', false⟩) + pc.held +
          (s.shared.calls.map Call.raw : Multiset RawBatch) := by
      rw [hmove, add_assoc (sh'.calls.map Call.raw : Multiset RawBatch), hset]
      abel
    exact add_right_cancel (add_right_cancel hsum)
  · have hset := weigh_set Pc.owedRows hi ⟨pc', false⟩
    have hmove := hdoes.uploaded
    have howed := h.uploaded
    simp only at hset ⊢
    omega
  · have hset := weigh_set Pc.owedBatches hi ⟨pc', false⟩
    have hmove := hdoes.batches
    have howed := h.batches
    simp only at hset ⊢
    omega

theorem Clean.panic {i : ℕ} (h : Clean env start s) (hi : s.workers[i]? = some ⟨pc, false⟩)
    (poisoned : Bool) :
    Clean env start ⟨{ s.shared with poisoned }, s.workers.set i ⟨pc, true⟩⟩ := by
  refine ⟨h.ahead, h.exhausted, h.decoded, ?_, ?_, ?_⟩
  · rw [weigh_set_of_eq Pc.held hi ⟨pc, true⟩ rfl]
    exact h.handed
  · rw [weigh_set_of_eq Pc.owedRows hi ⟨pc, true⟩ rfl]
    exact h.uploaded
  · rw [weigh_set_of_eq Pc.owedBatches hi ⟨pc, true⟩ rfl]
    exact h.batches

theorem Clean.step (hstep : Upload.step env batchSize s a = some s')
    (h : s.shared.failures = [] → Clean env start s) :
    s'.shared.failures = [] → Clean env start s' := by
  intro hok
  obtain ⟨i, pc, hi, ⟨pc', sh', hdoes, rfl⟩ | ⟨poisoned, rfl, -⟩⟩ := step_cases hstep
  · exact (h (hdoes.failures_nil hok)).does hi hdoes hok
  · exact (h hok).panic hi poisoned

end VectorDbBenchmark.UploadStream
