import VectorDbBenchmark.JsonFields
import VectorDbBenchmark.OpenSearch.DocumentIds
import VectorDbBenchmark.OpenSearch.ForceMerge
import VectorDbBenchmark.UploadParallel.Pool

/-!
# Bulk uploads

`upload_bulk_batch` of the OpenSearch and the Elasticsearch engine, as the sender of their
`upload_parallel`: a batch is one bulk request, in which every row has the id of its document and
the document.  OpenSearch sends the request again after a lost response, a busy gateway, and item
errors that all say that the server sheds load; Elasticsearch does not.  A bulk response with no
errors comes after the writes of all its items.
-/

namespace VectorDbBenchmark.OpenSearch

open Kit UploadParallel
open Readers (MetadataItem MetadataValue)

/-! ## Documents -/

def metadataJson : MetadataValue → Json
  | .string s => .string s
  | .int n => Json.ofI64 n
  | .float f => .ofF64 f
  | .labels labels => .ofStrings labels
  | .geo lon lat => .object [("lon", .ofF64 lon), ("lat", .ofF64 lat)]

/-- The document line; a field of the metadata may replace the vector. -/
def document (row : Row) : Json :=
  .object (insertKeys [("vector", .array (row.vector.map fun f ↦ .ofF64 (widen f)))]
    ((row.metadata.elim [] MetadataItem.fields).map fun f ↦ (f.1, metadataJson f.2)))

/-! ## Replies -/

def httpStatusRetryable (status : ℕ) : Bool :=
  status = 429 || status = 502 || status = 503 || status = 504

def bulkRetryHint (status : ℕ) : String :=
  if status = 502 ∨ status = 504 ∨ status = 413 then
    "request is likely too large — lower upload_params.batch_size " ++
      "(bulk bytes scale with vector dimension)"
  else
    "server is shedding load — lower upload_params.parallel or " ++
      "raise OPENSEARCH_BULK_MAX_RETRIES"

def itemIsRetryable (item : Json) : Bool :=
  match item.get "index" with
  | none => false
  | some idx =>
    (idx.get "status").bind Json.asU64 = some 429 ||
      match ((idx.get "error").bind fun e ↦ e.get "type").bind Json.asStr with
      | some kind => kind = "es_rejected_execution_exception" ||
          kind = "circuit_breaking_exception" || kind = "cluster_block_exception"
      | none => false

def itemFailed (item : Json) : Bool := ((item.get "index").bind fun idx ↦ idx.get "error").isSome

/-- The failing items, and the items that are worth a retry. -/
def bulkItemErrorCounts (items : List Json) : ℕ × ℕ :=
  (items.countP itemFailed, items.countP itemIsRetryable)

def batchIsRetryable (errorCount retryableCount : ℕ) : Bool :=
  0 < retryableCount && retryableCount = errorCount

/-- The body says that some items failed. -/
def hasErrors (body : Json) : Bool := ((body.get "errors").bind Json.asBool).getD false

def bulkItems (body : Json) : List Json := ((body.get "items").bind Json.asArray).getD []

inductive BulkEngine where
  | openSearch (maxRetries : ℕ)
  | elasticsearch

namespace BulkEngine

def maxRetries : BulkEngine → ℕ
  | openSearch maxRetries => maxRetries
  | elasticsearch => 0

section Code

-- `serde_json::from_str`
variable (fromStr : String → Except String Json)

/-- Another attempt, or the error that is left when there is none. -/
def retryOr (maxRetries attempt : ℕ) (e : String) : ℕ ⊕ Except String Unit :=
  if maxRetries ≤ attempt then .inr (.error e) else .inl (attempt + 1)

/-- What is done with a response that says that the request was carried out. -/
def bulkBody (maxRetries documents attempt : ℕ) (text : Except String String) :
    ℕ ⊕ Except String Unit :=
  match text.bind fromStr with
  | .error e => .inr (.error s!"Failed to parse bulk response: {e}")
  | .ok body =>
    if hasErrors body then
      let (errorCount, retryableCount) := bulkItemErrorCounts (bulkItems body)
      if batchIsRetryable errorCount retryableCount ∧ attempt < maxRetries then .inl (attempt + 1)
      else .inr (.error (s!"Bulk upload had {errorCount} errors out of {documents} documents " ++
        s!"({retryableCount} retryable, {attempt} retries used)"))
    else .inr (.ok ())

def openSearchStep (maxRetries documents attempt : ℕ) : Reply → ℕ ⊕ Except String Unit
  | .failed e =>
    retryOr maxRetries attempt (s!"Bulk upload failed after {maxRetries} retries: {e} " ++
      "(transport error — the server may be dropping connections under load; lower " ++
      "upload_params.parallel or batch_size)")
  | .response status text =>
    let shown := text.toOption.getD ""
    if !httpStatusRetryable status ∧ ¬(200 ≤ status ∧ status < 300) then
      .inr (.error s!"Bulk upload error: HTTP {status}: {shown}")
    else if httpStatusRetryable status then
      retryOr maxRetries attempt (s!"Bulk upload error: HTTP {status} still returned after " ++
        s!"{maxRetries} retries ({bulkRetryHint status}): {shown}")
    else bulkBody fromStr maxRetries documents attempt text

def elasticsearchStep (documents : ℕ) : Reply → ℕ ⊕ Except String Unit
  | .failed e => .inr (.error s!"Bulk upload failed: {e}")
  | .response status text =>
    let shown := text.toOption.getD ""
    if ¬(200 ≤ status ∧ status < 300) then .inr (.error s!"Bulk upload error: {shown}")
    else
      match text.bind fromStr with
      | .error e => .inr (.error s!"Failed to parse bulk response: {e}")
      | .ok body =>
        if hasErrors body then
          .inr (.error (s!"Bulk upload had {(bulkItems body).countP itemFailed} errors " ++
            s!"out of {documents} documents"))
        else .inr (.ok ())

/-- What `upload_bulk_batch` does with a response. -/
def step (engine : BulkEngine) (documents attempt : ℕ) (r : Reply) : ℕ ⊕ Except String Unit :=
  match engine with
  | openSearch maxRetries => openSearchStep fromStr maxRetries documents attempt r
  | elasticsearch => elasticsearchStep fromStr documents r

/-- A response that says that every item was carried out. -/
def bulkAcks : Reply → Bool
  | .failed _ => false
  | .response status text =>
    200 ≤ status && status < 300 && match text.bind fromStr with
      | .ok body => !hasErrors body
      | .error _ => false

end Code

/-! ## One response -/

section Step

variable {fromStr : String → Except String Json} {engine : BulkEngine}
  {maxRetries documents attempt attempt' : ℕ} {r : Reply} {text : Except String String}

theorem retryOr_eq_inl {e : String} :
    retryOr maxRetries attempt e = .inl attempt' ↔
      attempt < maxRetries ∧ attempt' = attempt + 1 := by
  rw [retryOr]
  split_ifs with hspent
  · simp [hspent]
  · simp [not_le.mp hspent, eq_comm]

theorem retryOr_ne_ok {e : String} : retryOr maxRetries attempt e ≠ .inr (.ok ()) := by
  rw [retryOr]
  split_ifs <;> simp

theorem bulkBody_eq_inl (h : bulkBody fromStr maxRetries documents attempt text = .inl attempt') :
    attempt < maxRetries ∧ attempt' = attempt + 1 := by
  rw [bulkBody] at h
  cases hbody : text.bind fromStr with
  | error e =>
      rw [hbody] at h
      cases h
  | ok body =>
      rw [hbody] at h
      dsimp only at h
      split_ifs at h with herrors hretry
      cases h
      exact ⟨hretry.2, rfl⟩

theorem bulkBody_eq_ok (h : bulkBody fromStr maxRetries documents attempt text = .inr (.ok ())) :
    ∃ body, text.bind fromStr = .ok body ∧ hasErrors body = false := by
  rw [bulkBody] at h
  cases hbody : text.bind fromStr with
  | error e =>
      rw [hbody] at h
      cases h
  | ok body =>
      rw [hbody] at h
      dsimp only at h
      split_ifs at h with herrors
      · cases h
      · exact ⟨body, rfl, Bool.eq_false_of_not_eq_true herrors⟩

theorem bulkAcks_iff {status : ℕ} :
    bulkAcks fromStr (.response status text) ↔
      (200 ≤ status ∧ status < 300) ∧
        ∃ body, text.bind fromStr = .ok body ∧ hasErrors body = false := by
  rw [bulkAcks]
  cases text.bind fromStr <;> simp

/-- A request is sent again while there are retries. -/
theorem again_of_step (h : engine.step fromStr documents attempt r = .inl attempt') :
    attempt < engine.maxRetries ∧ attempt' = attempt + 1 := by
  cases engine with
  | openSearch maxRetries =>
      cases r with
      | failed e => exact retryOr_eq_inl.mp h
      | response status text =>
          rw [step, openSearchStep] at h
          split_ifs at h with hrefused hretryable
          · exact retryOr_eq_inl.mp h
          · exact bulkBody_eq_inl h
  | elasticsearch =>
      cases r with
      | failed e => cases h
      | response status text =>
          rw [step, elasticsearchStep] at h
          split_ifs at h with haccepted
          split at h
          · cases h
          · split_ifs at h

/-- An upload is over without an error on an acknowledgement only. -/
theorem acks_of_step (h : engine.step fromStr documents attempt r = .inr (.ok ())) :
    bulkAcks fromStr r := by
  cases engine with
  | openSearch maxRetries =>
      cases r with
      | failed e => exact absurd h retryOr_ne_ok
      | response status text =>
          rw [step, openSearchStep] at h
          split_ifs at h with hrefused hretryable
          · cases h
          · exact absurd h retryOr_ne_ok
          · have hstatus : 200 ≤ status ∧ status < 300 := by
              by_contra hne
              exact hrefused ⟨by simpa using hretryable, hne⟩
            exact bulkAcks_iff.mpr ⟨hstatus, bulkBody_eq_ok h⟩
  | elasticsearch =>
      cases r with
      | failed e => cases h
      | response status text =>
          rw [step, elasticsearchStep] at h
          split_ifs at h with haccepted
          · split at h
            · cases h
            next body hbody =>
              split_ifs at h with herrors
              · cases h
              · exact bulkAcks_iff.mpr
                  ⟨haccepted, body, hbody, Bool.eq_false_of_not_eq_true herrors⟩
          · cases h

end Step

def sender (fromStr : String → Except String Json) (engine : BulkEngine) (n batchSize : ℕ) :
    Sender Reply where
  maxRetries := engine.maxRetries
  acks := bulkAcks fromStr
  step idx := engine.step fromStr (batchRows n batchSize idx).length
  again := again_of_step
  ok := acks_of_step

end BulkEngine

/-- `upload_parallel` of the engine. -/
def bulkUpload (fromStr : String → Except String Json) (engine : BulkEngine) (rows : List Row)
    (batchSize parallel : ℕ) : Spec Reply where
  rows := rows.length
  batchSize
  threads := parallel
  checksError := true
  sender := engine.sender fromStr rows.length batchSize

/-! ## The index -/

/-- The documents of an index, by their ids. -/
abbrev Index := Text → Option Json

/-- The index after the rows were written. -/
def indexed (rows : List Row) (index : Index) (applied : List ℕ) : Index :=
  stored (fun doc _ ↦ some doc) (fun r ↦ (idToUuidHex r.id, document r)) rows index applied

section Indexed

variable {rows : List Row} {index : Index} {applied : List ℕ} {id : Text} {r : Row}

theorem idToUuidHex_injective : Function.Injective idToUuidHex := by
  intro id id' h
  have hread := uuidHexToInt_idToUuidHex readsSimple_parseSimple id
  rw [h, uuidHexToInt_idToUuidHex readsSimple_parseSimple id'] at hread
  exact (Except.ok.inj hread).symm

/-- Nothing is written under an id that is not the id of a row. -/
theorem indexed_of_forall_ne (h : ∀ r ∈ rows, idToUuidHex r.id ≠ id) :
    indexed rows index applied id = index id :=
  stored_of_forall_ne h

/-- Under the id of a row is its document, once it is written. -/
theorem indexed_row (hids : (rows.map Row.id).Nodup) {row : ℕ} (hr : rows[row]? = some r) :
    indexed rows index applied (idToUuidHex r.id) =
      if row ∈ applied then some (document r) else index (idToUuidHex r.id) :=
  stored_row hids (fun _ _ h ↦ idToUuidHex_injective h) (fun _ ↦ rfl) hr

end Indexed

/-! ## Every run -/

section Runs

variable (fromStr : String → Except String Json) (engine : BulkEngine) {rows : List Row}

/-- Whatever the threads, the server and the network do: under an id that is not the id of a row
there is what was there, and under the id of a row that or its document; no batch is sent more
often than the retries allow; and where the upload returns `Ok`, every document is there.  Without
threads it returns `Ok` too, and nothing is written. -/
theorem bulkUpload_indexed (hids : (rows.map Row.id).Nodup) (batchSize parallel : ℕ)
    (index : Index) {s : Crew Shared Pc}
    (h : (bulkUpload fromStr engine rows batchSize parallel).machine.Reachable s) :
    (∀ id, (∀ r ∈ rows, idToUuidHex r.id ≠ id) →
      indexed rows index s.shared.applied id = index id) ∧
      (∀ r ∈ rows, indexed rows index s.shared.applied (idToUuidHex r.id) ∈
        ({index (idToUuidHex r.id), some (document r)} : Set (Option Json))) ∧
      (∀ idx, s.shared.sent.count idx ≤ engine.maxRetries + 1) ∧
      (parallel ≠ 0 → (bulkUpload fromStr engine rows batchSize parallel).returns s =
        some (.ok ()) →
        ∀ r ∈ rows,
          indexed rows index s.shared.applied (idToUuidHex r.id) = some (document r)) ∧
      (parallel = 0 → batchSize ≠ 0 →
        (bulkUpload fromStr engine rows batchSize parallel).returns s = some (.ok ()) ∧
          indexed rows index s.shared.applied = index) := by
  refine ⟨fun id hid ↦ indexed_of_forall_ne hid, ?_, count_sent_le h, ?_, ?_⟩
  · intro r hr
    obtain ⟨row, hrow⟩ := List.mem_iff_getElem?.mp hr
    rw [indexed_row hids hrow]
    split_ifs
    · exact .inr rfl
    · exact .inl rfl
  · intro hparallel hok r hr
    obtain ⟨row, hrow⟩ := List.mem_iff_getElem?.mp hr
    have hlt : row < rows.length := (List.getElem?_eq_some_iff.mp hrow).1
    rw [indexed_row hids hrow, if_pos (mem_applied_of_returns h hok hparallel hlt)]
  · intro hparallel hsize
    obtain ⟨hok, happlied⟩ := returns_of_threads_eq_zero h hparallel hsize
    rw [happlied]
    exact ⟨hok, rfl⟩

namespace BulkEngine

/-- Where the engine finds the id of a hit. -/
def hitId : BulkEngine → Json → Option String
  | openSearch _ => OpenSearch.hitId
  | elasticsearch => elasticsearchHitId

def extractKnnHits (parseStr : Text → Except String (BitVec 128)) :
    BulkEngine → Json → Except String (List (Int64 × F64))
  | openSearch _ => OpenSearch.extractKnnHits parseStr
  | elasticsearch => elasticsearchExtractKnnHits parseStr

theorem extractKnnHits_eq {parseStr : Text → Except String (BitVec 128)} {engine : BulkEngine} :
    engine.extractKnnHits parseStr = extractHits parseStr engine.hitId := by
  cases engine <;> rfl

end BulkEngine

/-- Where nothing but rows of the corpus was written, also by an upload that failed, the hits of a
response are read, one by one and in order, as the rows whose documents they are. -/
theorem extractKnnHits_indexed {parseStr : Text → Except String (BitVec 128)}
    (hparse : ReadsSimple parseStr) (rows : List Row) (applied : List ℕ) {respBody : Json}
    {hits : List Json}
    (hhits : ((respBody.get "hits").bind fun h ↦ h.get "hits").bind Json.asArray = some hits)
    (hindexed : ∀ hit ∈ hits, ∃ id, engine.hitId hit = some id ∧
      indexed rows (fun _ ↦ none) applied id.toList ≠ none) :
    ∃ results, engine.extractKnnHits parseStr respBody = .ok results ∧
      List.Forall₂ (fun hit result ↦ ∃ r ∈ rows, ∃ id, engine.hitId hit = some id ∧
        id.toList = idToUuidHex r.id ∧ result.1 = r.id) hits results := by
  rw [BulkEngine.extractKnnHits_eq]
  have hhit : ∀ hit, (∃ id, engine.hitId hit = some id ∧
      indexed rows (fun _ ↦ none) applied id.toList ≠ none) →
      ∃ result, extractHit parseStr engine.hitId hit = .ok result ∧ ∃ r ∈ rows, ∃ id,
        engine.hitId hit = some id ∧ id.toList = idToUuidHex r.id ∧ result.1 = r.id := by
    rintro hit ⟨id, hid, hne⟩
    obtain ⟨r, hr, hkey⟩ : ∃ r ∈ rows, idToUuidHex r.id = id.toList := by
      by_contra hnone
      push Not at hnone
      exact hne (indexed_of_forall_ne hnone)
    refine ⟨(r.id, ((hit.get "_score").bind Json.asF64).getD (.fin 0)), ?_, r, hr, id, hid,
      hkey.symm, rfl⟩
    rw [extractHit, hid]
    dsimp only
    rw [← hkey, uuidHexToInt_idToUuidHex hparse]
    rfl
  have : Nonempty (Int64 × F64) := ⟨0, .nan⟩
  choose! result hresult using fun hit hmem ↦ hhit hit (hindexed hit hmem)
  refine ⟨hits.map result, ?_, ?_⟩
  · rw [extractHits, hhits]
    dsimp only
    rw [mapM_eq_ok, List.forall₂_map_right_iff, List.forall₂_same]
    exact fun hit hmem ↦ (hresult hit hmem).1
  · rw [List.forall₂_map_right_iff, List.forall₂_same]
    exact fun hit hmem ↦ (hresult hit hmem).2

end Runs

/-! ## A run -/

def threeRows : List Row :=
  [⟨7, [⟨0x3F800000⟩], some ⟨[("color", .string "red")]⟩⟩, ⟨-1, [⟨0xBF800000⟩], none⟩,
    ⟨9, [⟨0⟩], some ⟨[("size", .int 3), ("vector", .int 0)]⟩⟩]

/-- Two threads.  The server writes one row of the first batch, of which the reply is lost, and the
other one only after it was sent again and the second thread is through. -/
def lostReply : List (Action Reply) :=
  [.thread 0 (.connect (.ok ())), .thread 1 (.connect (.ok ())), .thread 0 .claim,
    .thread 1 .claim, .thread 0 .check, .thread 0 .send, .write 1, .thread 1 .check,
      .thread 1 .send,
    .thread 0 (.reply (.failed "connection reset")), .write 2,
    .thread 1 (.reply (.response 200 (.ok "\x7b\"errors\":false\x7d"))), .thread 0 .send,
    .thread 1 .claim, .write 1, .write 0,
    .thread 0 (.reply (.response 200 (.ok "\x7b\"errors\":false\x7d"))), .thread 0 .claim]

/-- The value of that text. -/
def noErrors : String → Except String Json := fun _ ↦ .ok (.object [("errors", .bool false)])

theorem bulkUpload_indexed_lostReply :
    ∃ s, (bulkUpload noErrors (.openSearch 1) threeRows 2 2).returns s = some (.ok ()) ∧
      s.shared.sent = [0, 1, 0] ∧
      ∀ r ∈ threeRows, indexed threeRows (fun _ ↦ none) s.shared.applied (idToUuidHex r.id) =
        some (document r) := by
  have hreach : (bulkUpload noErrors (.openSearch 1) threeRows 2 2).machine.Reachable
      ⟨⟨4, none, [0, 1, 0], [1, 2, 1, 0]⟩, [.returned, .returned]⟩ := ⟨lostReply, rfl⟩
  have hids : (threeRows.map Row.id).Nodup := by decide
  obtain ⟨-, -, -, hall, -⟩ :=
    bulkUpload_indexed noErrors (.openSearch 1) hids 2 2 (fun _ ↦ none) hreach
  have hreturns : (bulkUpload noErrors (.openSearch 1) threeRows 2 2).returns
      ⟨⟨4, none, [0, 1, 0], [1, 2, 1, 0]⟩, [.returned, .returned]⟩ = some (.ok ()) := rfl
  exact ⟨_, hreturns, rfl, hall (by decide) hreturns⟩

/-- A hit of the first row that OpenSearch returns without its source. -/
def fieldHit : Json :=
  .object [("fields", .object [("_id", .array [.string (String.ofList (idToUuidHex 7))])])]

def plainHit : Json := .object [("_id", .string (String.ofList (idToUuidHex (-1))))]

/-- After a failed upload that wrote two of the rows. -/
theorem extractKnnHits_indexed_bothEngines :
    (∃ results, BulkEngine.extractKnnHits parseSimple (.openSearch 0)
        (.object [("hits", .object [("hits", .array [fieldHit, plainHit])])]) = .ok results ∧
      List.Forall₂ (fun hit result ↦ ∃ r ∈ threeRows, ∃ id,
        (BulkEngine.openSearch 0).hitId hit = some id ∧ id.toList = idToUuidHex r.id ∧
          result.1 = r.id) [fieldHit, plainHit] results) ∧
    ∃ results, BulkEngine.extractKnnHits parseSimple .elasticsearch
        (.object [("hits", .object [("hits", .array [plainHit])])]) = .ok results ∧
      List.Forall₂ (fun hit result ↦ ∃ r ∈ threeRows, ∃ id,
        BulkEngine.elasticsearch.hitId hit = some id ∧ id.toList = idToUuidHex r.id ∧
          result.1 = r.id) [plainHit] results := by
  have hids : (threeRows.map Row.id).Nodup := by decide
  have hrow : ∀ (row : ℕ) (r : Row), threeRows[row]? = some r → row ∈ [0, 1] →
      indexed threeRows (fun _ ↦ none) [0, 1] (String.ofList (idToUuidHex r.id)).toList ≠ none := by
    intro row r hr happlied
    rw [String.toList_ofList, indexed_row hids hr, if_pos happlied]
    exact Option.some_ne_none _
  have hfirst := hrow 0 _ rfl (by decide)
  have hsecond := hrow 1 _ rfl (by decide)
  refine ⟨extractKnnHits_indexed (.openSearch 0) readsSimple_parseSimple threeRows [0, 1] rfl ?_,
    extractKnnHits_indexed .elasticsearch readsSimple_parseSimple threeRows [0, 1] rfl ?_⟩
  · rw [List.forall_mem_cons, List.forall_mem_singleton]
    exact ⟨⟨_, rfl, hfirst⟩, ⟨_, rfl, hsecond⟩⟩
  · rw [List.forall_mem_singleton]
    exact ⟨_, rfl, hsecond⟩

end VectorDbBenchmark.OpenSearch
