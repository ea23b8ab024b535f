import VectorDbBenchmark.Readers.StreamLayout
import VectorDbBenchmark.UploadStream.Handed

/-!
# A streaming upload is complete or fails

Whatever the order of the workers' actions: an upload that returns `Ok` handed every row
of the corpus to exactly one upload call that returned `Ok`, and one in which anything
failed returns `Err`.
-/

namespace VectorDbBenchmark.UploadStream

open Kit Readers CompoundStream

/-! ## What an upload call is handed -/

/-- The bytes of a row. -/
def rowBytes (dir : CompoundDir) (layout : F32NpyLayout) (row : ℕ) : Bytes :=
  ((dir.vectors.drop layout.dataStart).drop (row * (layout.cols * 4))).take (layout.cols * 4)

/-- The metadata of a row: that of the payload line of its own index. -/
def rowPayload (env : ReaderEnv) (dir : CompoundDir) (row : ℕ) : Option (Option MetadataItem) :=
  match linesLeft dir.payloads with
  | none => some none
  | some lines => lines[row]?.bind (rowItem env)

/-- A call hands a row over: its id, its vector and the metadata of its payload line stand
at the row's place in the batch; the vector does, when the declared size does not wrap. -/
structure Delivers (env : ReaderEnv) (dir : CompoundDir) (layout : F32NpyLayout)
    (normalize : Bool) (row : ℕ) (call : Call) : Prop where
  id : call.batch.ids[row - call.raw.firstId]? = some (Int64.ofNat row)
  vector : layout.Fits → call.batch.vectors[row - call.raw.firstId]? =
    some (rowVector env normalize (rowBytes dir layout row))
  metadata : ∃ item, call.batch.metadata[row - call.raw.firstId]? = some item ∧
    rowPayload env dir row = some item

variable {env : ReaderEnv} {dir : CompoundDir} {normalize : Bool} {stream : CompoundStream}

theorem delivers_of_decode (hopen : openDir dir normalize = .ok stream) {call : Call}
    (hcut : Cut stream call.raw) (hdecode : call.raw.decode env = .ok call.batch) {row : ℕ}
    (hrow : Holds row call.raw = true) :
    Delivers env dir stream.layout normalize row call := by
  obtain ⟨hlayout, -, -, hpayloads, hnormalize, hvectors⟩ := openDir_eq_ok hopen
  obtain ⟨-, -, -, hcols, -⟩ := f32NpyLayout_eq_ok hlayout
  rw [Holds, Bool.and_eq_true, decide_eq_true_eq, decide_eq_true_eq] at hrow
  obtain ⟨i, hi⟩ := Nat.exists_eq_add_of_le hrow.1
  have hlt : i < call.raw.rows := by omega
  have hlines : ∀ ls ∈ call.raw.lines, ls.length = call.raw.rows := by
    rw [hcut.lines]
    intro ls hls
    obtain ⟨full, hfull, rfl⟩ := Option.map_eq_some_iff.mp hls
    have hcovered := hcut.covered full hfull
    rw [List.length_take_of_le (by rw [List.length_drop]; omega)]
  obtain ⟨-, items, hitems, hbatch⟩ := (decode_eq_ok env hlines).mp hdecode
  have hplace : row - call.raw.firstId = i := by omega
  refine ⟨?_, fun hfits ↦ ?_, ?_⟩
  · rw [hbatch, hplace, hi]
    simp [hlt]
  · obtain ⟨hraw, hlength⟩ := hcut.bytes hfits
    have hrows : 0 < stream.layout.rows := (Nat.zero_le row).trans_lt (hrow.2.trans_le hcut.fits)
    have hwidth := RawBatch.rowWidth_of_fits _ hfits hcut.cols hrows
    have hchunks : asChunks call.raw.rowWidth call.raw.vectorBytes =
        takeChunks (call.raw.cols * 4) call.raw.rows call.raw.vectorBytes := by
      rw [hwidth, asChunks_of_length (Nat.mul_pos (hcut.cols ▸ hcols) (by decide)) hlength]
    have hbytes : (call.raw.vectorBytes.drop (i * (call.raw.cols * 4))).take (call.raw.cols * 4) =
        rowBytes dir stream.layout row := by
      have hle : call.raw.cols * 4 ≤
          call.raw.rows * (call.raw.cols * 4) - i * (call.raw.cols * 4) := by
        rw [← Nat.sub_mul]
        exact Nat.le_mul_of_pos_left _ (Nat.sub_pos_of_lt hlt)
      rw [hraw, List.drop_take, List.take_take, min_eq_left hle, List.drop_drop,
        ← Nat.add_mul, ← hi, hvectors, hcut.cols, rowBytes]
    rw [hbatch, hplace, hchunks]
    simp only [List.getElem?_map, getElem?_takeChunks hlt, hbytes, Option.map_some, hcut.normalize,
      hnormalize]
  · rw [hbatch, hplace, rowPayload, ← hpayloads]
    have hraw := hcut.lines
    cases hl : linesLeft stream.payloads with
    | none =>
        rw [hl] at hraw
        rw [hraw] at hitems
        cases hitems
        refine ⟨none, ?_, rfl⟩
        simp [hlt]
    | some full =>
        rw [hl] at hraw
        have hcovered := hcut.covered full hl
        rw [hraw, Option.map_some, itemsLeft, if_pos (hlines _ (by rw [hraw]; rfl))] at hitems
        have hitem := getElem?_of_mapM_eq_some hitems i
        rw [List.getElem?_take_of_lt hlt, List.getElem?_drop, ← hi] at hitem
        have hilt : i < items.length := by
          rw [length_of_mapM_eq_some hitems, List.length_take_of_le]
          · exact hlt
          · rw [List.length_drop]
            omega
        refine ⟨items[i], List.getElem?_eq_getElem hilt, ?_⟩
        exact hitem.symm.trans (List.getElem?_eq_getElem hilt)

/-! ## The upload -/

/-- A complete upload of the stream's rows. -/
structure Complete (env : ReaderEnv) (dir : CompoundDir) (normalize : Bool)
    (stream : CompoundStream) (parallel : ℕ) (stats : StreamStats) (s : Upload) : Prop where
  /-- Every row is in one call that returned `Ok`. -/
  once : ∀ row < stream.rows, ∃ call,
    s.shared.calls.filter (fun c ↦ Holds row c.raw) = [call] ∧
      Delivers env dir stream.layout normalize row call
  /-- The batches were produced as adjacent ranges in ascending order. -/
  contiguous : Contiguous 0 s.shared.produced stream.rows
  /-- The calls are those batches, in some order. -/
  handed : (s.shared.calls.map Call.raw).Perm s.shared.produced
  rows : stats.rows = stream.rows
  batches : stats.batches = s.shared.calls.length
  maxInFlight : stats.maxInFlight ≤ max parallel 1

/-- The threads are over and none panicked: all of them returned. -/
theorem returned_of_returns {expected : ℕ} {s : Upload} {result : Except String StreamStats}
    (h : s.returns expected = some result) :
    (∀ w ∈ s.workers, w.pc = .returned) ∧ result = Upload.outcome expected s.shared := by
  rw [Upload.returns] at h
  split_ifs at h with hall
  rw [Bool.and_eq_true, List.all_eq_true, List.all_eq_true] at hall
  refine ⟨fun w hw ↦ ?_, (Option.some.inj h).symm⟩
  have hended := hall.1 w hw
  have hpanicked : w.panicked = false := by simpa using hall.2 w hw
  rw [Worker.ended, hpanicked, Bool.false_or] at hended
  cases hpc : w.pc <;> rw [hpc] at hended <;> first | rfl | exact absurd hended (by simp)

theorem weigh_returned {M : Type} [AddCancelCommMonoid M] {f : Pc → M} (h : f .returned = 0)
    {ws : List Worker} (hws : ∀ w ∈ ws, w.pc = .returned) : weigh f ws = 0 := by
  rw [weigh]
  refine List.sum_eq_zero fun x hx ↦ ?_
  obtain ⟨w, hw, rfl⟩ := List.mem_map.mp hx
  rw [hws w hw, h]

theorem outcome_eq_ok {expected : ℕ} {sh : Shared} {stats : StreamStats}
    (h : Upload.outcome expected sh = .ok stats) :
    sh.error = none ∧ sh.exhausted = true ∧ sh.uploaded = expected ∧
      stats = ⟨sh.uploaded, sh.batches, sh.maxInFlight⟩ := by
  rw [Upload.outcome] at h
  split at h
  · cases h
  · next herror =>
      split_ifs at h with hpartial
      cases h
      simp only [Bool.or_eq_true, Bool.not_eq_true', decide_eq_true_eq, not_or,
        Bool.not_eq_false, not_not] at hpartial
      exact ⟨herror, hpartial.1, hpartial.2, rfl⟩

variable {parallel batchSize : ℕ} {s : Upload}

theorem reachable_invariants (hopen : openDir dir normalize = .ok stream)
    (h : (Upload.machine env stream parallel batchSize).Reachable s) :
    Flight (max parallel 1) s ∧ Reported s ∧
      (s.shared.failures = [] → Clean env stream s) := by
  obtain ⟨-, hrow, hfinished, -⟩ := openDir_eq_ok hopen
  refine ⟨?_, ?_, ?_⟩
  · exact h.invariant (P := Flight (max parallel 1)) (.start stream parallel)
      fun s a s' hstep ↦ Flight.step hstep
  · exact h.invariant (P := Reported) (.start stream parallel)
      fun s a s' hstep ↦ Reported.step hstep
  · exact h.invariant (P := fun s ↦ s.shared.failures = [] → Clean env stream s)
      (fun _ ↦ .start env hrow hfinished parallel) fun s a s' hstep ↦ Clean.step hstep

/-- Nothing failed in an upload that returned `Ok`. -/
theorem failures_eq_nil (hreported : Reported s) (hreturned : ∀ w ∈ s.workers, w.pc = .returned)
    (herror : s.shared.error = none) : s.shared.failures = [] := by
  by_contra hfailures
  rcases hreported hfailures with hne | ⟨i, pc, hi, hfailing⟩
  · exact hne herror
  · have hpc : pc = .returned := hreturned _ (List.mem_of_getElem? hi)
    rw [hpc] at hfailing
    exact hfailing

/-- An upload in which nothing failed and which came to the end of the stream is complete. -/
theorem Clean.complete (hopen : openDir dir normalize = .ok stream)
    (hflight : Flight (max parallel 1) s) (h : Clean env stream s)
    (hreturned : ∀ w ∈ s.workers, w.pc = .returned) (hexhausted : s.shared.exhausted = true)
    (hrows : s.shared.uploaded = stream.rows) :
    Complete env dir normalize stream parallel
      ⟨s.shared.uploaded, s.shared.batches, s.shared.maxInFlight⟩ s := by
  have hperm : (s.shared.calls.map Call.raw).Perm s.shared.produced := by
    have hhanded := h.handed
    rw [weigh_returned (f := Pc.held) rfl hreturned, add_zero] at hhanded
    exact (Multiset.coe_eq_coe.mp hhanded).symm
  have hcontiguous : Contiguous 0 s.shared.produced stream.rows := by
    have hall := h.ahead.contiguous
    rw [(h.exhausted hexhausted).1] at hall
    exact hall
  refine ⟨fun row hrow ↦ ?_, hcontiguous, hperm, hrows, ?_, hflight.maxInFlight⟩
  · have hcount : (s.shared.calls.filter fun c ↦ Holds row c.raw).length = 1 := by
      have hmap : (s.shared.calls.map Call.raw).countP (Holds row) = 1 := by
        rw [hperm.countP_eq, (hcontiguous.countP row).2, if_pos ⟨Nat.zero_le row, hrow⟩]
      rw [List.countP_map] at hmap
      rw [← List.countP_eq_length_filter]
      exact hmap
    obtain ⟨call, hcall⟩ := List.length_eq_one_iff.mp hcount
    have hmem : call ∈ s.shared.calls.filter fun c ↦ Holds row c.raw := by
      rw [hcall]
      exact List.mem_singleton_self call
    obtain ⟨hin, hholds⟩ := List.mem_filter.mp hmem
    have hproduced : call.raw ∈ s.shared.produced :=
      hperm.mem_iff.mp (List.mem_map_of_mem hin)
    exact ⟨call, hcall, delivers_of_decode hopen (h.ahead.cut _ hproduced) (h.decoded _ hin) hholds⟩
  · have hbatches := h.batches
    rw [weigh_returned (f := Pc.owedBatches) rfl hreturned, Nat.add_zero] at hbatches
    exact hbatches

/-- For every corpus, batch size, number of workers and interleaving: an upload that
returns `Ok` is complete, and one in which a connection, a read, a decode or an upload
failed returns `Err`. -/
theorem uploadStream_complete_or_fails (env : ReaderEnv) (dir : CompoundDir) (normalize : Bool)
    (stream : CompoundStream) (hopen : openDir dir normalize = .ok stream)
    (parallel batchSize : ℕ) (result : Except String StreamStats) (s : Upload)
    (h : Returns env stream parallel batchSize result s) :
    (∀ stats, result = .ok stats →
      Complete env dir normalize stream parallel stats s) ∧
    (s.shared.failures ≠ [] → ∃ e, result = .error e) := by
  cases h with
  | refused hsize =>
      exact ⟨fun stats hstats ↦ (nomatch hstats), fun hfailures ↦ absurd rfl hfailures⟩
  | joined hsize hs hresult =>
      obtain ⟨hflight, hreported, hclean⟩ := reachable_invariants hopen hs
      obtain ⟨hreturned, rfl⟩ := returned_of_returns hresult
      constructor
      · intro stats hstats
        obtain ⟨herror, hexhausted, hrows, rfl⟩ := outcome_eq_ok hstats
        exact (hclean (failures_eq_nil hreported hreturned herror)).complete hopen hflight
          hreturned hexhausted hrows
      · intro hfailures
        cases hresult : Upload.outcome stream.rows s.shared with
        | error e => exact ⟨e, rfl⟩
        | ok stats =>
            have herror := (outcome_eq_ok hresult).1
            exact absurd (failures_eq_nil hreported hreturned herror) hfailures

def twoRowsDir : CompoundDir := ⟨"corpus", twoRows.bytes, some "\n\x7b\x7d".toList⟩

def twoRowsStream : CompoundStream where
  vectors := twoRows.data
  vectorsPath := twoRowsDir.vectorsPath
  payloads := twoRowsDir.payloads
  layout := ⟨2, 1, twoRows.dataStart⟩
  nextRow := 0
  normalize := false
  finished := false

theorem openDir_twoRowsDir : openDir twoRowsDir false = .ok twoRowsStream := by
  have hlayout : f32NpyLayout twoRowsDir.vectorsPath twoRows.bytes =
      .ok ⟨2, 1, twoRows.dataStart⟩ := by
    decide +kernel
  rw [openDir, show twoRowsDir.vectors = twoRows.bytes from rfl, hlayout, ok_bind,
    twoRows.drop_dataStart]
  rfl

/-- One worker connects, uploads a batch twice and finds the end of the stream. -/
def twoRowsActions : List (ℕ × Move) :=
  let batch : List Move :=
    [.check, .read, .count, .peak, .upload (.ok ()), .release, .settle, .tally]
  let moves : List Move := .connect (.ok ()) :: (batch ++ batch ++ [.check, .read])
  moves.map fun move ↦ (0, move)

theorem uploadStream_complete_or_fails_twoRows :
    ∃ s, (∀ stats, (.ok ⟨2, 2, 1⟩ : Except String StreamStats) = .ok stats →
        Complete (envOf twoRows.bytes twoRows.array) twoRowsDir false twoRowsStream 1 stats s) ∧
      (s.shared.failures ≠ [] → ∃ e, (.ok ⟨2, 2, 1⟩ : Except String StreamStats) = .error e) := by
  have hrun : ((Upload.machine (envOf twoRows.bytes twoRows.array) twoRowsStream 1 1).runFrom
      (.start twoRowsStream 1) twoRowsActions).map (fun s ↦ s.returns 2) =
      some (some (.ok ⟨2, 2, 1⟩)) := by
    with_unfolding_all decide
  obtain ⟨s, hs, hreturns⟩ := Option.map_eq_some_iff.mp hrun
  have h : Returns (envOf twoRows.bytes twoRows.array) twoRowsStream 1 1 (.ok ⟨2, 2, 1⟩) s :=
    .joined (by decide) ⟨twoRowsActions, hs⟩ hreturns
  exact ⟨s, uploadStream_complete_or_fails _ twoRowsDir false twoRowsStream openDir_twoRowsDir
    1 1 _ s h⟩

end VectorDbBenchmark.UploadStream
