import VectorDbBenchmark.Msmarco.DerivedCorpus
import VectorDbBenchmark.Msmarco.PassagePayload
import VectorDbBenchmark.Msmarco.Publication

/-!
# Recovery of a shard

`recover_part` of `src/msmarco/preparation.rs`: the selection of a shard that an earlier attempt
wrote is taken over when it is the one that its source would have now.  All metadata is read
again, and every passage that is selected must have its payload next among the stored ones and a
row of finite floats.
-/

namespace VectorDbBenchmark.Msmarco

open Kit Readers

/-- What an attempt certifies of the files of a shard. -/
structure PartReceipt where
  version : UInt32
  revision : String
  sourceRows : ℕ
  firstId : ℕ
  threshold : UInt32
  dimensions : ℕ
  payloads : FileIntegrity
  vectors : FileIntegrity

structure RecoveredShard where
  kept : ℕ
  wanted : List (ℕ × ℤ)
  docids : List (ℕ × String)
  maxFieldBytes : MaxBytes

/-- What is asked for: a shard of a corpus whose ids, and whose sizes in bytes, are machine
integers. -/
structure Shard where
  sourceRows : ℕ
  firstId : ℕ
  threshold : UInt32
  dimensions : ℕ
  ids_lt : firstId + sourceRows < 2 ^ 63
  size_lt : sourceRows * dimensions * 4 < u64Size

/-- What is found on the disk, every part of which may be unreadable. -/
structure PartFiles where
  /-- The receipt, once it was opened. -/
  receipt : Except String (Except String PartReceipt)
  payloadsDigest : Except String FileIntegrity
  vectorsDigest : Except String FileIntegrity
  payloads : Except String (List (Except String Text))
  vectors : Except String Bytes

/-- The state of the loop: how many rows have been seen, and what is left of the stored lines. -/
structure Recovery where
  seen : ℕ
  stored : List (Except String Text)
  out : RecoveredShard

section Model

variable (env : DerivedEnv) (shard : Shard) (wantedOffsets : List ℕ)

def checkReceipt (files : PartFiles) : Except String Unit := do
  let parsed ← files.receipt.mapError fun e ↦ s!"missing completed shard receipt: {e}"
  let receipt ← parsed.mapError fun e ↦ s!"invalid completed shard receipt: {e}"
  if receipt.version ≠ 1 ∨ receipt.revision ≠ hfRevision ∨
      receipt.sourceRows ≠ shard.sourceRows ∨ receipt.firstId ≠ shard.firstId ∨
      receipt.threshold ≠ shard.threshold ∨ receipt.dimensions ≠ shard.dimensions then
    .error "cached shard source identity differs"
  else if (← files.payloadsDigest) ≠ receipt.payloads then
    .error "cached shard SHA-256 mismatch"
  else if (← files.vectorsDigest) ≠ receipt.vectors then
    .error "cached shard SHA-256 mismatch"
  else pure ()

/-- `first_id + seen`. -/
def Shard.offset (seen : ℕ) : ℕ := (shard.firstId + seen) % u64Size

/-- `kept as i64`. -/
def position (kept : ℕ) : ℤ := (Int64.ofNat kept).toInt

/-- A selected row. -/
def RecoveredShard.keep (out : RecoveredShard) (offset : ℕ) (docid : String)
    (payload : List (String × Json)) : RecoveredShard where
  kept := out.kept + 1
  wanted := if offset ∈ wantedOffsets then out.wanted ++ [(offset, position out.kept)]
    else out.wanted
  docids := if offset ∈ wantedOffsets then insertKey offset docid out.docids else out.docids
  maxFieldBytes := out.maxFieldBytes.record payload

/-- One row of the source. -/
def recoverRow (r : Recovery) (line : Except String Text) : Except String Recovery := do
  let line ← line
  let source ← fromStr env.hybrid line
  let payload ← payloadFromPassage env.hybrid source
  match (payload.get "docid").bind Json.asStr with
  | none => .error "missing source docid"
  | some docid =>
    if !keeps env.sample docid shard.threshold then pure { r with seen := r.seen + 1 }
    else
      match r.stored with
      | [] => .error "cached payloads are truncated"
      | actual :: stored => do
        let actual ← actual
        let actual ← fromStr env.hybrid actual
        if !actual.eq payload then
          .error "cached payload differs from the pinned source/order"
        else
          match payload.asObject with
          | none => .error "payload is not an object"
          | some fields =>
            pure ⟨r.seen + 1, stored,
              r.out.keep wantedOffsets (shard.offset r.seen) docid fields⟩

/-- The block that vectors are read in. -/
def scanBlock : ℕ := 4 * 2 ^ 20

def scanVectors (remaining : ℕ) (file : Bytes) : Except String Unit :=
  if h : remaining = 0 then .ok ()
  else
    match readExact (min remaining scanBlock) file with
    | .error e => .error e
    | .ok (block, file) =>
      if (f32Row block).any fun v ↦ !F32.isFinite v then
        .error "cached vectors contain non-finite values"
      else
        have : remaining - min remaining scanBlock < remaining :=
          Nat.sub_lt (Nat.pos_of_ne_zero h)
            (Nat.lt_min.mpr ⟨Nat.pos_of_ne_zero h, by decide⟩)
        scanVectors (remaining - min remaining scanBlock) file
termination_by remaining

def checkVectors (kept : ℕ) (vectors : Bytes) : Except String Unit :=
  let size := kept * shard.dimensions * 4 % u64Size
  if vectors.length ≠ size then .error "cached vectors are truncated or carry extra rows"
  else scanVectors size vectors

/-- `recover_part`. -/
def recoverPart (source : List (Except String Text)) (files : PartFiles) :
    Except String RecoveredShard := do
  checkReceipt shard files
  let stored ← files.payloads
  let r ← source.foldlM (recoverRow env shard wantedOffsets) ⟨0, stored, ⟨0, [], [], []⟩⟩
  if r.seen ≠ shard.sourceRows ∨ r.stored ≠ [] then
    .error "cached/source shard row counts differ"
  else do
    let vectors ← files.vectors
    checkVectors shard r.out.kept vectors
    pure r.out

end Model

/-! ## The selection -/

/-- A row of the source. -/
structure SourceRow where
  docid : String
  payload : Json

section Selection

variable (env : DerivedEnv) (shard : Shard) (wantedOffsets : List ℕ)

/-- A line of the metadata is a row. -/
def ReadsRow (line : Except String Text) (row : SourceRow) : Prop :=
  ∃ text source, line = .ok text ∧ fromStr env.hybrid text = .ok source ∧
    source.get "docid" = some (.string row.docid) ∧
    payloadFromPassage env.hybrid source = .ok row.payload

/-- A stored line is the payload of a row. -/
def Holds (line : Except String Text) (row : SourceRow × ℕ) : Prop :=
  ∃ text stored, line = .ok text ∧ fromStr env.hybrid text = .ok stored ∧
    stored.eq row.1.payload = true

/-- The rows whose docid is kept, with their places in the source. -/
def keptRows (rows : List SourceRow) : List (SourceRow × ℕ) :=
  rows.zipIdx.filter fun row ↦ keeps env.sample row.1.docid shard.threshold

/-- The selection of some rows; `offset` and `position` number them. -/
structure Selects (offset : ℕ → ℕ) (position : ℕ → ℤ) (rows : List SourceRow)
    (stored : List (Except String Text)) (out : RecoveredShard) : Prop where
  payloads : List.Forall₂ (Holds env) stored (keptRows env shard rows)
  kept : out.kept = (keptRows env shard rows).length
  wanted : out.wanted =
    ((keptRows env shard rows).zipIdx.filter fun row ↦ offset row.1.2 ∈ wantedOffsets).map
      fun row ↦ (offset row.1.2, position row.2)
  docids : out.docids = insertKeys []
    (((keptRows env shard rows).filter fun row ↦ offset row.2 ∈ wantedOffsets).map
      fun row ↦ (offset row.2, row.1.docid))

variable {env shard wantedOffsets}

theorem keptRows_append (rows : List SourceRow) (row : SourceRow) :
    keptRows env shard (rows ++ [row]) = keptRows env shard rows ++
      if keeps env.sample row.docid shard.threshold then [(row, rows.length)] else [] := by
  rw [keptRows, List.zipIdx_append, List.filter_append, Nat.zero_add, List.zipIdx_singleton,
    List.filter_singleton, Bool.cond_eq_ite]
  rfl

/-! ## The loop -/

/-- The docid of a payload is that of its source. -/
theorem docid_of_payload {source p : Json} (h : payloadFromPassage env.hybrid source = .ok p)
    {docid : String} (hdocid : (p.get "docid").bind Json.asStr = some docid) :
    source.get "docid" = some (.string docid) := by
  obtain ⟨docid', hsource, hp⟩ := get_docid_payload h
  rw [hp] at hdocid
  exact hsource.trans (congrArg (fun d ↦ some (Json.string d)) (Option.some.inj hdocid))

/-- What a row adds. -/
theorem recoverRow_eq_ok {r r' : Recovery} {line : Except String Text}
    (h : recoverRow env shard wantedOffsets r line = .ok r') :
    ∃ row, ReadsRow env line row ∧ r'.seen = r.seen + 1 ∧
      if keeps env.sample row.docid shard.threshold then
        ∃ actual payload, r.stored = actual :: r'.stored ∧ Holds env actual (row, r.seen) ∧
          r'.out = r.out.keep wantedOffsets (shard.offset r.seen) row.docid payload
      else r'.stored = r.stored ∧ r'.out = r.out := by
  rw [recoverRow] at h
  obtain ⟨text, htext, h⟩ := bind_eq_ok.mp h
  obtain ⟨source, hsource, h⟩ := bind_eq_ok.mp h
  obtain ⟨payload, hpayload, h⟩ := bind_eq_ok.mp h
  split at h
  · cases h
  · next docid hdocid =>
      refine ⟨⟨docid, payload⟩, ⟨text, source, htext, hsource, docid_of_payload hpayload hdocid,
        hpayload⟩, ?_⟩
      cases hkeeps : keeps env.sample docid shard.threshold with
      | false =>
          rw [hkeeps] at h
          cases h
          exact ⟨rfl, rfl, rfl⟩
      | true =>
          rw [hkeeps] at h
          rw [if_pos rfl]
          simp only [Bool.not_true, Bool.false_eq_true, ↓reduceIte] at h
          split at h
          · cases h
          · next actual stored hstored =>
              obtain ⟨line, hline, h⟩ := bind_eq_ok.mp h
              obtain ⟨value, hvalue, h⟩ := bind_eq_ok.mp h
              cases heq : value.eq payload with
              | false =>
                  rw [heq] at h
                  cases h
              | true =>
                  rw [heq] at h
                  simp only [Bool.not_true, Bool.false_eq_true, ↓reduceIte] at h
                  split at h
                  · cases h
                  · next fields hfields =>
                      cases h
                      exact ⟨rfl, actual, fields, hstored, ⟨line, value, hline, hvalue, heq⟩, rfl⟩

variable {rows : List SourceRow} {row : SourceRow} {used : List (Except String Text)}
  {offset : ℕ → ℕ} {out : RecoveredShard}

theorem Selects.skip {position : ℕ → ℤ}
    (h : Selects env shard wantedOffsets offset position rows used out)
    (hrow : keeps env.sample row.docid shard.threshold = false) :
    Selects env shard wantedOffsets offset position (rows ++ [row]) used out := by
  have hkept : keptRows env shard (rows ++ [row]) = keptRows env shard rows := by
    rw [keptRows_append, hrow, if_neg Bool.false_ne_true, List.append_nil]
  exact ⟨hkept ▸ h.payloads, hkept ▸ h.kept, hkept ▸ h.wanted, hkept ▸ h.docids⟩

theorem Selects.keep
    (h : Selects env shard wantedOffsets offset position rows used out)
    (hrow : keeps env.sample row.docid shard.threshold = true) {actual : Except String Text}
    (hactual : Holds env actual (row, rows.length)) (payload : List (String × Json)) :
    Selects env shard wantedOffsets offset position (rows ++ [row]) (used ++ [actual])
      (out.keep wantedOffsets (offset rows.length) row.docid payload) := by
  have hkept : keptRows env shard (rows ++ [row]) =
      keptRows env shard rows ++ [(row, rows.length)] := by
    rw [keptRows_append, if_pos hrow]
  constructor
  · rw [hkept]
    exact List.rel_append h.payloads (.cons hactual .nil)
  · rw [hkept, List.length_append, ← h.kept]
    rfl
  · rw [hkept, List.zipIdx_append, List.filter_append, List.map_append, ← h.wanted,
      Nat.zero_add, List.zipIdx_singleton, List.filter_singleton, ← h.kept,
      RecoveredShard.keep, Bool.cond_eq_ite]
    dsimp only
    by_cases hoffset : offset rows.length ∈ wantedOffsets
    · rw [if_pos hoffset, if_pos (decide_eq_true hoffset), List.map_singleton]
    · rw [if_neg hoffset, if_neg (mt of_decide_eq_true hoffset), List.map_nil, List.append_nil]
  · rw [hkept, List.filter_append, List.map_append, insertKeys_append, ← h.docids,
      List.filter_singleton, RecoveredShard.keep, Bool.cond_eq_ite]
    dsimp only
    by_cases hoffset : offset rows.length ∈ wantedOffsets
    · rw [if_pos hoffset, if_pos (decide_eq_true hoffset), List.map_singleton]
      rfl
    · rw [if_neg hoffset, if_neg (mt of_decide_eq_true hoffset), List.map_nil]
      rfl

variable (env shard wantedOffsets)

/-- After some lines: the rows that they are, and the stored lines that were used for them. -/
def Recovered (stored done : List (Except String Text)) (r : Recovery) : Prop :=
  ∃ rows used, List.Forall₂ (ReadsRow env) done rows ∧ r.seen = rows.length ∧
    stored = used ++ r.stored ∧
    Selects env shard wantedOffsets shard.offset position rows used r.out

variable {env shard wantedOffsets} {stored done : List (Except String Text)}

theorem Recovered.step {r r' : Recovery} {line : Except String Text}
    (h : Recovered env shard wantedOffsets stored done r)
    (hrow : recoverRow env shard wantedOffsets r line = .ok r') :
    Recovered env shard wantedOffsets stored (done ++ [line]) r' := by
  obtain ⟨rows, used, hrows, hseen, hstored, hsel⟩ := h
  obtain ⟨row, hread, hseen', hrow⟩ := recoverRow_eq_ok hrow
  have hrows' := List.rel_append hrows (.cons hread .nil)
  have hlength : r'.seen = (rows ++ [row]).length := by
    rw [hseen', hseen, List.length_append, List.length_singleton]
  cases hkeeps : keeps env.sample row.docid shard.threshold with
  | false =>
      rw [hkeeps, if_neg Bool.false_ne_true] at hrow
      refine ⟨rows ++ [row], used, hrows', hlength, ?_, hrow.2 ▸ hsel.skip hkeeps⟩
      rw [hrow.1, hstored]
  | true =>
      rw [hkeeps, if_pos rfl] at hrow
      obtain ⟨actual, payload, hnext, hactual, hout⟩ := hrow
      rw [hseen] at hactual hout
      refine ⟨rows ++ [row], used ++ [actual], hrows', hlength, ?_, ?_⟩
      · rw [hstored, hnext, List.append_assoc, List.singleton_append]
      · exact hout ▸ hsel.keep hkeeps hactual payload

theorem recovered_of_foldlM {source : List (Except String Text)} {r : Recovery}
    (h : source.foldlM (recoverRow env shard wantedOffsets) ⟨0, stored, ⟨0, [], [], []⟩⟩ = .ok r) :
    Recovered env shard wantedOffsets stored source r :=
  @foldlM_prefix_induction _ _ _ _ (Recovered env shard wantedOffsets stored)
    (fun _ _ _ _ hr hrow ↦ hr.step hrow) source [] _ _
    ⟨[], [], .nil, rfl, rfl, .nil, rfl, rfl, rfl⟩ h

/-! ## The vectors -/

theorem f32Row_append {block : Bytes} {n : ℕ} (h : block.length = n * 4) (file : Bytes) :
    f32Row (block ++ file) = f32Row block ++ f32Row file := by
  have hlen : (block ++ file).length / 4 = n + file.length / 4 := by
    rw [List.length_append, h]
    omega
  rw [f32Row, f32Row, f32Row, ← List.map_append, asChunks, hlen, takeChunks_add,
    takeChunks_append h, ← h, List.drop_left, asChunks_of_length (by decide) h, asChunks]

/-- A file of floats is read in blocks of floats. -/
theorem scanVectors_eq_ok {n : ℕ} {file : Bytes} (hfile : file.length = n * 4)
    (h : scanVectors (n * 4) file = .ok ()) : ∀ v ∈ f32Row file, F32.isFinite v = true := by
  induction n using Nat.strong_induction_on generalizing file with
  | _ n ih =>
      rw [scanVectors] at h
      split at h
      · next hzero =>
          have hnil : file = [] := List.length_eq_zero_iff.mp (hfile.trans hzero)
          rw [hnil]
          exact fun v hv ↦ absurd hv List.not_mem_nil
      · next hpos =>
          obtain ⟨m, hm, hlt, hblock⟩ : ∃ m, min (n * 4) scanBlock = m * 4 ∧ n - m < n ∧ m ≤ n :=
            ⟨min n (2 ^ 20), by rw [scanBlock]; omega, by omega, by omega⟩
          simp only [hm] at h
          split at h
          · cases h
          · next block rest hread =>
              obtain ⟨rfl, hlength⟩ := readExact_eq_ok.mp hread
              split_ifs at h with hfinite
              have hrest : rest.length = (n - m) * 4 := by
                rw [List.length_append, hlength] at hfile
                omega
              rw [← Nat.sub_mul] at h
              rw [f32Row_append hlength]
              intro v hv
              rcases List.mem_append.mp hv with hv | hv
              · have hany := List.any_eq_false.mp (Bool.eq_false_iff.mpr hfinite) v hv
                simpa using hany
              · exact ih (n - m) hlt hrest h v hv

theorem length_f32Row {file : Bytes} {n : ℕ} (h : file.length = n * 4) :
    (f32Row file).length = n := by
  rw [f32Row, List.length_map, length_asChunks, h, Nat.mul_div_cancel n (by decide)]

/-! ## The whole shard -/

theorem snd_lt_of_mem_keptRows {row : SourceRow × ℕ} (h : row ∈ keptRows env shard rows) :
    row.2 < rows.length :=
  List.snd_lt_of_mem_zipIdx (List.mem_of_mem_filter h)

theorem length_keptRows_le : (keptRows env shard rows).length ≤ rows.length :=
  (List.length_filter_le _ _).trans_eq List.length_zipIdx

theorem nodup_keptRows : ((keptRows env shard rows).map Prod.snd).Nodup := by
  refine List.Nodup.sublist (List.filter_sublist.map Prod.snd) ?_
  rw [List.zipIdx_map_snd]
  exact List.nodup_range'

/-- With sizes that are machine integers the selection is numbered without wrapping. -/
theorem Selects.unwrapped (hlength : rows.length = shard.sourceRows)
    (h : Selects env shard wantedOffsets shard.offset position rows used out) :
    Selects env shard wantedOffsets (shard.firstId + ·) Nat.cast rows used out := by
  have hids := shard.ids_lt
  have hoffset : ∀ row ∈ keptRows env shard rows, shard.offset row.2 = shard.firstId + row.2 := by
    intro row hrow
    have hlt := snd_lt_of_mem_keptRows hrow
    rw [Shard.offset, u64Size, Nat.mod_eq_of_lt (by omega)]
  have hfst : ∀ row ∈ (keptRows env shard rows).zipIdx, row.1 ∈ keptRows env shard rows :=
    fun row hrow ↦ List.fst_mem_of_mem_zipIdx hrow
  refine ⟨h.payloads, h.kept, h.wanted.trans ?_, h.docids.trans ?_⟩
  · rw [List.filter_congr fun row hrow ↦ by rw [hoffset _ (hfst row hrow)]]
    refine List.map_congr_left fun row hrow ↦ ?_
    have hmem := List.mem_of_mem_filter hrow
    have hlt : row.2 < rows.length :=
      (List.snd_lt_of_mem_zipIdx hmem).trans_le length_keptRows_le
    rw [hoffset _ (hfst row hmem), position, Int64.toInt_ofNat_of_lt (by omega)]
  · rw [List.filter_congr fun row hrow ↦ by rw [hoffset row hrow]]
    refine congrArg (insertKeys []) (List.map_congr_left fun row hrow ↦ ?_)
    rw [hoffset row (List.mem_of_mem_filter hrow)]

/-- A recovered shard is the one that would be selected now. -/
theorem recover_part (env : DerivedEnv) (shard : Shard) (wantedOffsets : List ℕ)
    (source : List (Except String Text)) (files : PartFiles) (out : RecoveredShard)
    (h : recoverPart env shard wantedOffsets source files = .ok out) :
    ∃ rows stored vectors, List.Forall₂ (ReadsRow env) source rows ∧
      source.length = shard.sourceRows ∧
      files.payloads = .ok stored ∧
      Selects env shard wantedOffsets (shard.firstId + ·) Nat.cast rows stored out ∧
      out.docids = (((keptRows env shard rows).filter
        fun row ↦ shard.firstId + row.2 ∈ wantedOffsets).map
          fun row ↦ (shard.firstId + row.2, row.1.docid)) ∧
      (out.docids.map Prod.fst).Nodup ∧
      files.vectors = .ok vectors ∧
      vectors.length = out.kept * shard.dimensions * 4 ∧
      (f32Row vectors).length = out.kept * shard.dimensions ∧
      ∀ v ∈ f32Row vectors, F32.isFinite v = true := by
  rw [recoverPart] at h
  obtain ⟨-, -, h⟩ := bind_eq_ok.mp h
  obtain ⟨stored, hstored, h⟩ := bind_eq_ok.mp h
  obtain ⟨r, hloop, h⟩ := bind_eq_ok.mp h
  split_ifs at h with hcounts
  rw [not_or, not_not, not_not] at hcounts
  obtain ⟨vectors, hvectors, h⟩ := bind_eq_ok.mp h
  obtain ⟨⟨⟩, hcheck, h⟩ := bind_eq_ok.mp h
  cases h
  obtain ⟨rows, used, hrows, hseen, hsplit, hsel⟩ := recovered_of_foldlM hloop
  have hlength : rows.length = shard.sourceRows := hseen.symm.trans hcounts.1
  rw [hcounts.2, List.append_nil] at hsplit
  subst hsplit
  have hsel := hsel.unwrapped hlength
  have hdocids : ((((keptRows env shard rows).filter
      fun row ↦ shard.firstId + row.2 ∈ wantedOffsets).map
        fun row ↦ (shard.firstId + row.2, row.1.docid)).map Prod.fst).Nodup := by
    rw [List.map_map]
    have hnodup : (((keptRows env shard rows).filter
        fun row ↦ shard.firstId + row.2 ∈ wantedOffsets).map Prod.snd).Nodup :=
      nodup_keptRows.sublist (List.filter_sublist.map Prod.snd)
    have hmap := hnodup.map (fun i j hij ↦ Nat.add_left_cancel hij : Function.Injective
      (shard.firstId + ·))
    rwa [List.map_map] at hmap
  have hout := hsel.docids.trans (insertKeys_of_nodup hdocids)
  rw [List.nil_append] at hout
  have hkept : r.out.kept ≤ shard.sourceRows :=
    hsel.kept.trans_le (length_keptRows_le.trans_eq hlength)
  have hsize : r.out.kept * shard.dimensions * 4 % u64Size = r.out.kept * shard.dimensions * 4 :=
    Nat.mod_eq_of_lt (((Nat.mul_le_mul_right _ (Nat.mul_le_mul_right _ hkept))).trans_lt
      shard.size_lt)
  simp only [checkVectors, hsize] at hcheck
  split_ifs at hcheck with hlen
  rw [not_not] at hlen
  exact ⟨rows, stored, vectors, hrows, hrows.length_eq.trans hlength, hstored, hsel, hout,
    hout ▸ hdocids, hvectors, hlen, length_f32Row hlen, scanVectors_eq_ok hlen hcheck⟩

end Selection

/-! ## A shard of two rows -/

def twoRowEnv : DerivedEnv where
  hybrid := { zeroDigestEnv with
    parse := fun text ↦
      if text = ['A'] then
        .ok (.object [("docid", .string "a"), ("category", .string "cat00"),
          ("doc_len", .number (.posInt 16 (by decide))), ("tier", .number (.posInt 0 (by decide))),
          ("rand_key", .number (.posInt 0 (by decide)))])
      else .ok (.object [("docid", .string (String.ofList text))]) }
  sample :=
    { docid := fun _ ↦ .error "EOF"
      fromStr := fun _ ↦ .error "EOF"
      crc32 := fun docid ↦ if docid = "a" then 0 else 1
      displayF32 := fun _ ↦ "" }

def twoRowShard : Shard where
  sourceRows := 2
  firstId := 6
  threshold := 1
  dimensions := 1
  ids_lt := by decide
  size_lt := by decide

def twoRowFiles : PartFiles where
  receipt := .ok (.ok ⟨1, hfRevision, 2, 6, 1, 1, ⟨2, ""⟩, ⟨4, ""⟩⟩)
  payloadsDigest := .ok ⟨2, ""⟩
  vectorsDigest := .ok ⟨4, ""⟩
  payloads := .ok [.ok ['A']]
  vectors := .ok [0, 0, 128, 63]

/-- The second row is selected, and wanted. -/
theorem recoverPart_twoRow : recoverPart twoRowEnv twoRowShard [7] [.ok ['b'], .ok ['a']]
    twoRowFiles = .ok ⟨1, [(7, 0)], [(7, "a")], [("category", 5), ("docid", 1)]⟩ := by
  have hscan : checkVectors twoRowShard 1 [0, 0, 128, 63] = .ok () := by
    show scanVectors 4 [0, 0, 128, 63] = .ok ()
    rw [scanVectors, dif_neg (by decide)]
    show scanVectors 0 [] = .ok ()
    rw [scanVectors, dif_pos rfl]
  have hfirst : recoverRow twoRowEnv twoRowShard [7] ⟨0, [.ok ['A']], ⟨0, [], [], []⟩⟩ (.ok ['b']) =
      .ok ⟨1, [.ok ['A']], ⟨0, [], [], []⟩⟩ := rfl
  have hsecond : recoverRow twoRowEnv twoRowShard [7] ⟨1, [.ok ['A']], ⟨0, [], [], []⟩⟩
    (.ok ['a']) =
      .ok ⟨2, [], ⟨1, [(7, 0)], [(7, "a")], [("category", 5), ("docid", 1)]⟩⟩ := rfl
  have hloop : [.ok ['b'], .ok ['a']].foldlM (recoverRow twoRowEnv twoRowShard [7])
      ⟨0, [.ok ['A']], ⟨0, [], [], []⟩⟩ =
        .ok ⟨2, [], ⟨1, [(7, 0)], [(7, "a")], [("category", 5), ("docid", 1)]⟩⟩ := by
    rw [List.foldlM_cons, hfirst, ok_bind, List.foldlM_cons, hsecond, ok_bind]
    rfl
  refine bind_eq_ok.mpr ⟨(), rfl, bind_eq_ok.mpr ⟨[.ok ['A']], rfl, bind_eq_ok.mpr ⟨_, hloop, ?_⟩⟩⟩
  rw [if_neg (by decide)]
  exact bind_eq_ok.mpr ⟨_, rfl, bind_eq_ok.mpr ⟨(), hscan, rfl⟩⟩

theorem recover_part_twoRow : ∃ rows : List SourceRow,
    Selects twoRowEnv twoRowShard [7] (6 + ·) Nat.cast rows [.ok ['A']]
      ⟨1, [(7, 0)], [(7, "a")], [("category", 5), ("docid", 1)]⟩ := by
  obtain ⟨rows, stored, vectors, -, -, hstored, hsel, -⟩ :=
    recover_part twoRowEnv twoRowShard [7] _ twoRowFiles _ recoverPart_twoRow
  cases hstored
  exact ⟨rows, hsel⟩

end VectorDbBenchmark.Msmarco
