import VectorDbBenchmark.Readers.StreamReader

/-!
# What draining a stream yields

A stream whose vector bytes match its layout yields the rows that are left, whatever
the block size, and fails exactly when the payload lines that are left are not as many
or one of them does not parse (`drainFrom_toOption`).
-/

namespace VectorDbBenchmark.Readers

open Kit

/-! ## Lines -/

theorem countLines_eq_length (t : Text) : countLines t = (textLines t).length := by
  induction t using countLines.induct with
  | case1 t h =>
      rw [countLines, dif_pos h, readLine_eq_nil.mp h]
      rfl
  | case2 t h _ ih =>
      have ht : t ≠ [] := fun ht ↦ h (readLine_eq_nil.mpr ht)
      rw [countLines, dif_neg h, ih, textLines_eq_readLine ht, List.length_cons]

namespace CompoundStream

variable (s : CompoundStream)

/-- Enough lines are left: they are handed out in order. -/
theorem readPayloadLines_of_le {n i : ℕ} {text : Text} (h : n ≤ (textLines text).length) :
    ∃ rest, s.readPayloadLines n i text = (.ok ((textLines text).take n), rest) ∧
      textLines rest = (textLines text).drop n := by
  induction n generalizing i text with
  | zero => exact ⟨text, rfl, rfl⟩
  | succ n ih =>
      have ht : text ≠ [] := by
        rintro rfl
        exact Nat.not_succ_le_zero n h
      rw [textLines_eq_readLine ht, List.length_cons, Nat.succ_le_succ_iff] at h
      obtain ⟨rest, hread, hrest⟩ := ih (i := i + 1) h
      refine ⟨rest, ?_, ?_⟩
      · rw [readPayloadLines, textLines_eq_readLine ht, List.take_succ_cons]
        simp only [if_neg (mt readLine_eq_nil.mp ht), hread]
      · rw [textLines_eq_readLine ht, List.drop_succ_cons, hrest]

/-- Too few lines are left. -/
theorem readPayloadLines_of_lt {n i : ℕ} {text : Text} (h : (textLines text).length < n) :
    ∃ e rest, s.readPayloadLines n i text = (.error e, rest) := by
  induction n generalizing i text with
  | zero => exact absurd h (Nat.not_lt_zero _)
  | succ n ih =>
      rw [readPayloadLines]
      by_cases ht : text = []
      · exact ⟨_, _, if_pos (readLine_eq_nil.mpr ht)⟩
      · rw [textLines_eq_readLine ht, List.length_cons, Nat.succ_lt_succ_iff] at h
        obtain ⟨e, rest, hread⟩ := ih (i := i + 1) h
        refine ⟨e, rest, ?_⟩
        simp only [if_neg (mt readLine_eq_nil.mp ht), hread]

/-- The lines that are left of a payload file. -/
def linesLeft (payloads : Option Text) : Option (List Text) := payloads.map textLines

/-- The payload file has a line for each of the next `n` rows. -/
def Covers (payloads : Option Text) (n : ℕ) : Prop := ∀ lines ∈ linesLeft payloads, n ≤ lines.length

theorem nextLines_of_covers {n : ℕ} (h : Covers s.payloads n) :
    ∃ payloads, s.nextLines n = (.ok ((linesLeft s.payloads).map (·.take n)), payloads) ∧
      linesLeft payloads = (linesLeft s.payloads).map (·.drop n) := by
  rw [nextLines]
  cases hp : s.payloads with
  | none => exact ⟨none, rfl, rfl⟩
  | some text =>
      rw [hp] at h
      obtain ⟨rest, hread, hrest⟩ := s.readPayloadLines_of_le (i := 0) (h _ rfl)
      refine ⟨some rest, ?_, congrArg some hrest⟩
      simp only [hread]
      rfl

theorem nextLines_of_not_covers {n : ℕ} (h : ¬ Covers s.payloads n) :
    ∃ e payloads, s.nextLines n = (.error e, payloads) := by
  rw [nextLines]
  cases hp : s.payloads with
  | none =>
      rw [hp] at h
      exact absurd (fun lines hl ↦ nomatch hl) h
  | some text =>
      have hlt : (textLines text).length < n := by
        by_contra hle
        refine h fun lines hl ↦ ?_
        rw [hp] at hl
        cases hl
        exact not_lt.mp hle
      obtain ⟨e, rest, hread⟩ := s.readPayloadLines_of_lt (i := 0) hlt
      refine ⟨e, some rest, ?_⟩
      simp only [hread]

/-- Payload lines that were handed out were there. -/
theorem nextLines_eq_ok {n : ℕ} {lines : Option (List Text)} {payloads : Option Text}
    (h : s.nextLines n = (.ok lines, payloads)) :
    Covers s.payloads n ∧ lines = (linesLeft s.payloads).map (·.take n) ∧
      linesLeft payloads = (linesLeft s.payloads).map (·.drop n) := by
  by_cases hcovers : Covers s.payloads n
  · obtain ⟨_, hlines, hrest⟩ := s.nextLines_of_covers hcovers
    rw [hlines] at h
    cases h
    exact ⟨hcovers, rfl, hrest⟩
  · obtain ⟨e, _, herror⟩ := s.nextLines_of_not_covers hcovers
    rw [herror] at h
    cases (Prod.mk.inj h).1

/-! ## Blocks -/

/-- What a block that was handed out is and what it leaves. -/
theorem nextBlock_eq_ok {n : ℕ} {raw : RawBatch} {s' : CompoundStream}
    (h : s.nextBlock n = (.ok raw, s')) :
    ∃ bytes lines vectors payloads, readExact (s.blockBytes n) s.vectors =
      .ok (bytes, vectors) ∧ s.nextLines n = (.ok lines, payloads) ∧
      raw = ⟨s.nextRow, n, s.layout.cols, s.normalize, bytes, lines⟩ ∧
      s' = { s with vectors, payloads, nextRow := s.nextRow + n } := by
  rw [nextBlock] at h
  split at h
  · cases (Prod.mk.inj h).1
  · next hbytes =>
      split at h
      · cases (Prod.mk.inj h).1
      · next hlines =>
          cases h
          exact ⟨_, _, _, _, hbytes, hlines, rfl, rfl⟩

theorem nextRaw_eq_some {m : ℕ} {raw : RawBatch} {s' : CompoundStream}
    (h : s.nextRaw m = (.ok (some raw), s')) :
    0 < m ∧ s.nextRow < s.layout.rows ∧
      s.nextBlock (min (s.layout.rows - s.nextRow) m) = (.ok raw, s') := by
  rw [nextRaw] at h
  dsimp only at h
  split_ifs at h with hm hf hr
  · cases (Prod.mk.inj h).1
  · cases (Prod.mk.inj h).1
  · obtain ⟨hresult, -⟩ := Prod.mk.inj h
    obtain ⟨_, -, hnone⟩ := map_eq_ok.mp hresult
    cases hnone
  · obtain ⟨hresult, hs⟩ := Prod.mk.inj h
    obtain ⟨_, hok, hraw⟩ := map_eq_ok.mp hresult
    cases hraw
    exact ⟨Nat.pos_of_ne_zero hm, Nat.sub_pos_iff_lt.mp (Nat.pos_of_ne_zero hr),
      Prod.ext hok hs⟩

/-- The end of the stream: it was confirmed before, or it is confirmed now. -/
theorem nextRaw_eq_none {m : ℕ} {s' : CompoundStream} (h : s.nextRaw m = (.ok none, s')) :
    (s.finished = true ∧ s' = s) ∨
      (s.layout.rows ≤ s.nextRow ∧ s.finish = (.ok (), s')) := by
  rw [nextRaw] at h
  dsimp only at h
  split_ifs at h with hm hf hr
  · cases (Prod.mk.inj h).1
  · exact .inl ⟨hf, (Prod.mk.inj h).2.symm⟩
  · obtain ⟨hresult, hs⟩ := Prod.mk.inj h
    obtain ⟨_, hok, -⟩ := map_eq_ok.mp hresult
    exact .inr ⟨Nat.sub_eq_zero_iff_le.mp hr, Prod.ext hok hs⟩
  · obtain ⟨hresult, -⟩ := Prod.mk.inj h
    obtain ⟨_, -, hnone⟩ := map_eq_ok.mp hresult
    cases hnone

end CompoundStream

/-! ## Draining -/

/-- Read and decode blocks until the stream ends. -/
def drainFrom (env : ReaderEnv) (block : ℕ) (s : CompoundStream) (all : Batch) :
    Except String Batch :=
  match h : s.nextRaw block with
  | (.error e, _) => .error e
  | (.ok none, _) => .ok all
  | (.ok (some raw), s') =>
    have : s'.layout.rows - s'.nextRow < s.layout.rows - s.nextRow := by
      obtain ⟨hm, hlt, hblock⟩ := s.nextRaw_eq_some h
      obtain ⟨_, _, _, _, -, -, -, rfl⟩ := s.nextBlock_eq_ok hblock
      simp only
      omega
    match raw.decode env with
    | .error e => .error e
    | .ok b => drainFrom env block s' (all.extend b)
termination_by s.layout.rows - s.nextRow

def drain (env : ReaderEnv) (dir : CompoundDir) (normalize : Bool) (block : ℕ) :
    Except String Batch := do
  let s ← CompoundStream.openDir dir normalize
  drainFrom env block s .empty

/-! ## The rows that are left -/

/-- The metadata of one line, when it parses. -/
def rowItem (env : ReaderEnv) (line : Text) : Option (Option MetadataItem) :=
  if (trim line).isEmpty then some none
  else (env.fromStr line).toOption.map parseMetadataFromJson

theorem payloadRow_toOption (env : ReaderEnv) (row : ℕ) (line : Text) :
    (payloadRow env row line).toOption = rowItem env line := by
  rw [payloadRow, rowItem]
  split_ifs
  · rfl
  · cases env.fromStr line <;> rfl

theorem decodeLines_toOption (env : ReaderEnv) (firstId i : ℕ) (lines : List Text) :
    (RawBatch.decodeLines env firstId i lines).toOption = lines.mapM (rowItem env) := by
  induction lines generalizing i with
  | nil => rfl
  | cons line lines ih =>
      rw [RawBatch.decodeLines, List.mapM_cons, ← payloadRow_toOption env (firstId + i + 1)]
      cases payloadRow env (firstId + i + 1) line with
      | error e => rfl
      | ok item =>
          rw [← ih (i + 1)]
          cases RawBatch.decodeLines env firstId (i + 1) lines <;> rfl

/-- The metadata of the `n` rows that are left: one item for each of the lines, of which
there must be `n`. -/
def itemsLeft (env : ReaderEnv) (lines : Option (List Text)) (n : ℕ) :
    Option (List (Option MetadataItem)) :=
  match lines with
  | none => some (List.replicate n none)
  | some lines => if lines.length = n then lines.mapM (rowItem env) else none

/-- The vector of one row. -/
def rowVector (env : ReaderEnv) (normalize : Bool) (row : Bytes) : List F32 :=
  if normalize then normalizeRow env.f32 (f32Row row) else f32Row row

/-- The batch of the `n` rows from row `first` on. -/
def batchOf (env : ReaderEnv) (normalize : Bool) (cols first n : ℕ) (vectors : Bytes)
    (items : List (Option MetadataItem)) : Batch :=
  ⟨(List.range n).map fun i ↦ Int64.ofNat (first + i),
    (takeChunks (cols * 4) n vectors).map (rowVector env normalize), items⟩

/-- Two adjacent blocks of rows are one block. -/
theorem batchOf_extend (env : ReaderEnv) (normalize : Bool) {cols first n m : ℕ}
    {bytes vectors : Bytes} (h : bytes.length = n * (cols * 4))
    (a b : List (Option MetadataItem)) :
    (batchOf env normalize cols first n bytes a).extend
      (batchOf env normalize cols (first + n) m vectors b) =
    batchOf env normalize cols first (n + m) (bytes ++ vectors) (a ++ b) := by
  have hrows : takeChunks (cols * 4) (n + m) (bytes ++ vectors) =
      takeChunks (cols * 4) n bytes ++ takeChunks (cols * 4) m vectors := by
    rw [takeChunks_add, takeChunks_append h, ← h, List.drop_left]
  simp only [batchOf, Batch.extend, hrows, List.range_add, List.map_append, List.map_map,
    Function.comp_def, Nat.add_assoc]

/-- The items of `n` rows and then of the `m` rows after them. -/
theorem itemsLeft_add (env : ReaderEnv) {lines : Option (List Text)} {n : ℕ}
    (h : ∀ ls ∈ lines, n ≤ ls.length) (m : ℕ) :
    itemsLeft env lines (n + m) =
      (itemsLeft env (lines.map (·.take n)) n).bind fun a ↦
        (itemsLeft env (lines.map (·.drop n)) m).map (a ++ ·) := by
  cases lines with
  | none => simp [itemsLeft]
  | some ls =>
      have hle : n ≤ ls.length := h ls rfl
      have hlen : (ls.drop n).length = m ↔ ls.length = n + m := by
        rw [List.length_drop]
        omega
      have hmap : ls.mapM (rowItem env) =
          ((ls.take n).mapM (rowItem env)).bind fun a ↦
            ((ls.drop n).mapM (rowItem env)).map (a ++ ·) := by
        conv_lhs => rw [← List.take_append_drop n ls]
        rw [List.mapM_append]
        cases (ls.take n).mapM (rowItem env) <;> cases (ls.drop n).mapM (rowItem env) <;> rfl
      simp only [itemsLeft, Option.map_some, List.length_take_of_le hle, if_true, hlen]
      split_ifs
      · exact hmap
      · cases (ls.take n).mapM (rowItem env) <;> rfl

/-- What a block decodes to, if it does: its ids, its chunks and its items. -/
theorem decode_eq_ok (env : ReaderEnv) {raw : RawBatch}
    (hlines : ∀ ls ∈ raw.lines, ls.length = raw.rows) {b : Batch} :
    raw.decode env = .ok b ↔ raw.rowWidth ≠ 0 ∧ ∃ items,
      itemsLeft env raw.lines raw.rows = some items ∧
      b = ⟨(List.range raw.rows).map fun i ↦ Int64.ofNat (raw.firstId + i),
        (asChunks raw.rowWidth raw.vectorBytes).map (rowVector env raw.normalize), items⟩ := by
  rw [RawBatch.decode]
  by_cases hwidth : raw.rowWidth = 0
  · rw [if_pos hwidth]
    exact ⟨fun h ↦ (nomatch h), fun h ↦ absurd hwidth h.1⟩
  · rw [if_neg hwidth]
    cases hl : raw.lines with
    | none =>
        constructor
        · intro h
          cases h
          exact ⟨hwidth, _, rfl, rfl⟩
        · rintro ⟨-, items, hitems, rfl⟩
          cases hitems
          rfl
    | some ls =>
        simp only [itemsLeft, if_pos (hlines ls hl), ← decodeLines_toOption env raw.firstId 0]
        cases RawBatch.decodeLines env raw.firstId 0 ls with
        | error e => exact ⟨fun h ↦ (nomatch h), fun ⟨_, _, h, _⟩ ↦ (nomatch h)⟩
        | ok items =>
            constructor
            · intro h
              cases h
              exact ⟨hwidth, _, rfl, rfl⟩
            · rintro ⟨-, items, hitems, rfl⟩
              cases hitems
              rfl

/-- A block decodes to its rows, or not at all. -/
theorem decode_toOption (env : ReaderEnv) {raw : RawBatch} (hcols : 0 < raw.cols)
    (hwidth : raw.rowWidth = raw.cols * 4)
    (hbytes : raw.vectorBytes.length = raw.rows * (raw.cols * 4))
    (hlines : ∀ ls ∈ raw.lines, ls.length = raw.rows) :
    (raw.decode env).toOption =
      (itemsLeft env raw.lines raw.rows).map
        (batchOf env raw.normalize raw.cols raw.firstId raw.rows raw.vectorBytes) := by
  have hk : 0 < raw.cols * 4 := Nat.mul_pos hcols (by decide)
  apply Option.ext
  intro b
  rw [toOption_eq_some, decode_eq_ok env hlines, Option.map_eq_some_iff, hwidth,
    asChunks_of_length hk hbytes]
  constructor
  · rintro ⟨-, items, hitems, rfl⟩
    exact ⟨items, hitems, rfl⟩
  · rintro ⟨items, hitems, rfl⟩
    exact ⟨hk.ne', items, hitems, rfl⟩

/-! ## Sizes that do not wrap -/

/-- The declared data has fewer than `2 ^ 64` bytes. -/
def F32NpyLayout.Fits (layout : F32NpyLayout) : Prop :=
  layout.rows * (layout.cols * 4) < u64Size

instance (layout : F32NpyLayout) : Decidable layout.Fits := inferInstanceAs (Decidable (_ < _))

theorem CompoundStream.blockBytes_of_fits {s : CompoundStream} (h : s.layout.Fits) {n : ℕ}
    (hn : n ≤ s.layout.rows) : s.blockBytes n = n * (s.layout.cols * 4) := by
  have hlt : n * (s.layout.cols * 4) < u64Size := (Nat.mul_le_mul_right _ hn).trans_lt h
  have hcount : n * s.layout.cols < u64Size := by
    rw [← Nat.mul_assoc] at hlt
    omega
  rw [blockBytes, Nat.mod_eq_of_lt hcount, Nat.mul_assoc, Nat.mod_eq_of_lt hlt]

theorem RawBatch.rowWidth_of_fits (raw : RawBatch) {layout : F32NpyLayout} (h : layout.Fits)
    (hcols : raw.cols = layout.cols) (hrows : 0 < layout.rows) :
    raw.rowWidth = raw.cols * 4 := by
  rw [rowWidth, hcols]
  exact Nat.mod_eq_of_lt ((Nat.le_mul_of_pos_left _ hrows).trans_lt h)

namespace CompoundStream

/-- What is left of the vectors are the rows that were not handed out. -/
structure Aligned (s : CompoundStream) : Prop where
  running : s.finished = false
  cols_pos : 0 < s.layout.cols
  fits : s.layout.Fits
  length : s.vectors.length = (s.layout.rows - s.nextRow) * (s.layout.cols * 4)

/-- The rows that were not handed out, when every payload line they need is there and
parses, and no other. -/
def rowsLeft (env : ReaderEnv) (s : CompoundStream) : Option Batch :=
  let n := s.layout.rows - s.nextRow
  (itemsLeft env (linesLeft s.payloads) n).map
    (batchOf env s.normalize s.layout.cols s.nextRow n s.vectors)

variable {s s' : CompoundStream} (env : ReaderEnv) {block : ℕ}

theorem readExact_of_aligned (hs : s.Aligned) {n : ℕ} (hn : n ≤ s.layout.rows - s.nextRow) :
    ∃ bytes vectors, readExact (s.blockBytes n) s.vectors = .ok (bytes, vectors) ∧
      s.vectors = bytes ++ vectors ∧ bytes.length = n * (s.layout.cols * 4) := by
  have hbytes := s.blockBytes_of_fits hs.fits (hn.trans (Nat.sub_le _ _))
  have hle : s.blockBytes n ≤ s.vectors.length := by
    rw [hs.length, hbytes]
    exact Nat.mul_le_mul_right _ hn
  refine ⟨_, _, if_pos hle, (List.take_append_drop _ _).symm, ?_⟩
  rw [List.length_take_of_le hle, hbytes]

/-- A stream that cannot go on has no rows that all read. -/
theorem rowsLeft_of_error (hs : s.Aligned) (hblock : 0 < block) {e : String}
    (h : s.nextRaw block = (.error e, s')) : s.rowsLeft env = none := by
  rw [nextRaw] at h
  dsimp only at h
  rw [if_neg hblock.ne', if_neg (by rw [hs.running]; exact Bool.false_ne_true)] at h
  suffices hitems : itemsLeft env (linesLeft s.payloads) (s.layout.rows - s.nextRow) = none by
    rw [rowsLeft]
    simp only [hitems, Option.map_none]
  split_ifs at h with hr
  · cases hp : s.payloads with
    | none =>
        simp only [finish, hp] at h
        cases (Prod.mk.inj h).1
    | some text =>
        simp only [finish, hp] at h
        split_ifs at h with hextra
        · rw [countLines_eq_length] at hextra
          refine if_neg ?_
          rw [hr]
          exact hextra.ne'
        · cases (Prod.mk.inj h).1
  · have hn : min (s.layout.rows - s.nextRow) block ≤ s.layout.rows - s.nextRow :=
      Nat.min_le_left _ _
    obtain ⟨bytes, vectors, hread, -, -⟩ := readExact_of_aligned hs hn
    by_cases hcovers : Covers s.payloads (min (s.layout.rows - s.nextRow) block)
    · obtain ⟨payloads, hlines, -⟩ := s.nextLines_of_covers hcovers
      simp only [nextBlock, hread, hlines] at h
      cases (Prod.mk.inj h).1
    · rw [Covers] at hcovers
      push Not at hcovers
      obtain ⟨lines, hl, hlt⟩ := hcovers
      rw [Option.mem_def.mp hl, itemsLeft]
      exact if_neg (hlt.trans_le hn).ne

/-- A stream that ended has no rows left. -/
theorem rowsLeft_of_none (hs : s.Aligned) (h : s.nextRaw block = (.ok none, s')) :
    s.rowsLeft env = some .empty := by
  rcases s.nextRaw_eq_none h with ⟨hfinished, -⟩ | ⟨hrows, hfinish⟩
  · rw [hs.running] at hfinished
    cases hfinished
  · rw [rowsLeft, Nat.sub_eq_zero_of_le hrows]
    cases hp : s.payloads with
    | none => rfl
    | some text =>
        simp only [finish, hp] at hfinish
        split_ifs at hfinish with hextra
        · cases (Prod.mk.inj hfinish).1
        · rw [countLines_eq_length, Nat.pos_iff_ne_zero, not_not] at hextra
          rw [linesLeft, Option.map_some, List.length_eq_zero_iff.mp hextra]
          rfl

/-- A block takes its rows off those that are left. -/
theorem rowsLeft_of_some (hs : s.Aligned) {raw : RawBatch}
    (h : s.nextRaw block = (.ok (some raw), s')) :
    s'.Aligned ∧ s.rowsLeft env =
      (raw.decode env).toOption.bind fun b ↦ (s'.rowsLeft env).map b.extend := by
  obtain ⟨-, hlt, hblock⟩ := s.nextRaw_eq_some h
  obtain ⟨n, hn⟩ : ∃ n, n = min (s.layout.rows - s.nextRow) block := ⟨_, rfl⟩
  rw [← hn] at hblock
  have hle : n ≤ s.layout.rows - s.nextRow := hn ▸ Nat.min_le_left _ _
  obtain ⟨bytes, lines, vectors, payloads, hread, hnext, rfl, rfl⟩ := s.nextBlock_eq_ok hblock
  obtain ⟨hvectors, hbytes⟩ := readExact_eq_ok.mp hread
  rw [s.blockBytes_of_fits hs.fits (hle.trans (Nat.sub_le _ _))] at hbytes
  have hsplit : s.layout.rows - s.nextRow = n + (s.layout.rows - (s.nextRow + n)) := by omega
  obtain ⟨hcovers, rfl, hrest⟩ := s.nextLines_eq_ok hnext
  constructor
  · refine ⟨hs.running, hs.cols_pos, hs.fits, ?_⟩
    have hlen := hs.length
    rw [hvectors, List.length_append, hbytes, hsplit, Nat.add_mul] at hlen
    exact Nat.add_left_cancel hlen
  · have hwidth := RawBatch.rowWidth_of_fits ⟨s.nextRow, n, s.layout.cols, s.normalize, bytes,
      (linesLeft s.payloads).map (·.take n)⟩ hs.fits rfl (Nat.zero_lt_of_lt hlt)
    rw [decode_toOption env hs.cols_pos hwidth hbytes]
    · rw [rowsLeft, rowsLeft]
      simp only [hrest, hsplit, itemsLeft_add env hcovers, hvectors]
      simp only [Option.map_bind, Option.bind_map, Option.map_map, Function.comp_def,
        batchOf_extend env s.normalize hbytes]
    · intro ls hls
      obtain ⟨full, hfull, rfl⟩ := Option.map_eq_some_iff.mp hls
      exact List.length_take_of_le (hcovers full hfull)

end CompoundStream

theorem Batch.extend_assoc (a b c : Batch) : (a.extend b).extend c = a.extend (b.extend c) := by
  simp only [Batch.extend, List.append_assoc]

/-- One round of the drain loop. -/
theorem drainFrom_eq (env : ReaderEnv) (block : ℕ) (s : CompoundStream) (all : Batch) :
    drainFrom env block s all =
      match s.nextRaw block with
      | (.error e, _) => .error e
      | (.ok none, _) => .ok all
      | (.ok (some raw), s') =>
        match raw.decode env with
        | .error e => .error e
        | .ok b => drainFrom env block s' (all.extend b) := by
  rw [drainFrom]
  split <;> simp only [*]

/-- Draining an aligned stream appends the rows that are left, for every block size. -/
theorem drainFrom_toOption (env : ReaderEnv) {block : ℕ} (hblock : 0 < block)
    {s : CompoundStream} (hs : s.Aligned) (all : Batch) :
    (drainFrom env block s all).toOption = (s.rowsLeft env).map all.extend := by
  induction s, all using drainFrom.induct env block with
  | case1 s all e s' h =>
      rw [drainFrom_eq, h, s.rowsLeft_of_error env hs hblock h]
      rfl
  | case2 s all s' h =>
      rw [drainFrom_eq, h, s.rowsLeft_of_none env hs h]
      simp [Except.toOption, Batch.extend, Batch.empty]
  | case3 s all raw s' h _ e hdecode =>
      rw [drainFrom_eq, h, (s.rowsLeft_of_some env hs h).2]
      simp only [hdecode]
      rfl
  | case4 s all raw s' h _ b hdecode ih =>
      obtain ⟨hs', hrows⟩ := s.rowsLeft_of_some env hs h
      rw [drainFrom_eq, h, hrows]
      simp only [hdecode, ih hs']
      cases s'.rowsLeft env with
      | none => rfl
      | some rest => exact congrArg some (all.extend_assoc b rest)

end VectorDbBenchmark.Readers
