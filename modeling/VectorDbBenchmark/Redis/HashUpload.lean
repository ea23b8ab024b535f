import VectorDbBenchmark.Kit.DecimalText
import VectorDbBenchmark.Kit.Rounding
import VectorDbBenchmark.Redis.FilterBuilder
import VectorDbBenchmark.Redis.IndexingWait
import VectorDbBenchmark.Redis.Value
import VectorDbBenchmark.UploadParallel.Pool

/-!
# Hash uploads

`upload_batch_internal` and the upload loops of the engines that store a row as a hash: a batch is
a pipeline of `HSET` commands.  The Redis engine reconnects and sends a batch again after an error
that may pass, except in a cluster and with one thread.  A pipeline that returns `Ok` has executed
all its commands.  How floats print and the wider and narrower float formats are parameters.
-/

namespace VectorDbBenchmark.HashUpload

open Kit Redis UploadParallel
open Readers (F32 MetadataItem MetadataValue)

/-! ## Fields -/

structure Env where
  numbers : NumberEnv
  showF64 : F64 → String
  f64Bytes : F32 → Bytes
  f16Bytes : F32 → Bytes
  bf16Bytes : F32 → Bytes

inductive HashEngine where
  | redis (clusterApi : Bool)
  | valkey
  | dragonfly
  | kividb
deriving DecidableEq, Repr

structure Config where
  keyPrefix : Text
  dataType : String
  datetimeFields : List String
  /-- Fields of text that Valkey indexes as tags. -/
  textTagFields : List String

/-- A component as an integer of the given range; what is no number is zero. -/
def clampRound (lo hi : ℤ) : F64 → ℤ
  | .nan => 0
  | .negInf => lo
  | .posInf => hi
  | .fin q => max lo (min hi (roundAway q))

/-- The byte of an `i8` or a `u8`. -/
def intByte (i : ℤ) : UInt8 := UInt8.ofNat (i % 256).toNat

section Code

variable (env : Env)

def encodeFloats (dataType : String) (vector : List F32) : Bytes :=
  if dataType = "FLOAT64" then vector.flatMap env.f64Bytes
  else if dataType = "FLOAT16" then vector.flatMap env.f16Bytes
  else if dataType = "BFLOAT16" then vector.flatMap env.bf16Bytes
  else vector.flatMap Readers.f32ToLeBytes

/-- `encode_vector` of the Redis engine. -/
def encodeVector (dataType : String) (vector : List F32) : Bytes :=
  if dataType = "INT8" then vector.map fun f ↦ intByte (clampRound (-128) 127 (widen f))
  else if dataType = "UINT8" then vector.map fun f ↦ intByte (clampRound 0 255 (widen f))
  else encodeFloats env dataType vector

def vectorBytes (engine : HashEngine) (config : Config) (vector : List F32) : Bytes :=
  match engine with
  | .redis _ => encodeVector env config.dataType vector
  | .valkey => encodeFloats env config.dataType vector
  | .dragonfly | .kividb => vector.flatMap Readers.f32ToLeBytes

def encodeStringField (config : Config) (key value : String) : String :=
  if key ∈ config.datetimeFields then
    match env.numbers.datetimeToEpochSecs value with
    | some epoch => toString epoch
    | none => value
  else value

def tokenizeTextToTag (text : String) : String :=
  let words := (text.toList.splitOnP isWhiteSpace).filter (!·.isEmpty)
  ";".intercalate (words.map fun w ↦
    String.ofList (w.flatMap fun c ↦ if c = ';' then ['\\', ';'] else [c]))

def stringField (engine : HashEngine) (config : Config) (key value : String) : String :=
  if engine = .valkey ∧ key ∉ config.datetimeFields ∧ key ∈ config.textTagFields then
    tokenizeTextToTag value
  else encodeStringField env config key value

/-- `lat.clamp(-85.05112878, 85.05112878)`. -/
def clampLat : F64 → F64
  | .nan => .nan
  | .negInf => .fin (-85.05112878)
  | .posInf => .fin 85.05112878
  | .fin q => .fin (max (-85.05112878) (min 85.05112878 q))

def geoField (engine : HashEngine) (lon lat : F64) : String :=
  match engine with
  | .redis _ | .valkey => s!"{env.showF64 lon},{env.showF64 (clampLat lat)}"
  | .dragonfly | .kividb => s!"{env.showF64 lon},{env.showF64 lat}"

def metadataField (engine : HashEngine) (config : Config) (key : String) : MetadataValue → String
  | .string s => stringField env engine config key s
  | .int n => toString n
  | .float f => env.showF64 f
  | .labels labels => ";".intercalate labels
  | .geo lon lat => geoField env engine lon lat

/-- What the `HSET` of a row sets. -/
def hashFields (engine : HashEngine) (config : Config) (row : Row) : List (String × Bytes) :=
  ("vector", vectorBytes env engine config row.vector) ::
    (row.metadata.elim [] MetadataItem.fields).map fun f ↦
      (f.1, utf8Bytes (metadataField env engine config f.1 f.2))

/-- `format!("{}{}", key_prefix, id)`. -/
def hashKey (config : Config) (id : Int64) : Text := config.keyPrefix ++ intText id.toInt

end Code

/-! ## Senders -/

def maxUploadRetries : ℕ := 5

/-- One attempt, whose result is returned. -/
def once : Sender (Except String Unit) where
  maxRetries := 0
  acks := fun r ↦ r.toBool
  step _ _ r := .inr r
  again := by
    intro idx attempt r attempt' h
    cases h
  ok := by
    intro idx attempt r h
    cases h
    rfl

/-- `upload_batch_with_retry`. -/
def retryStep (clusterApi : Bool) (idx attempt : ℕ) :
    Except String Unit → ℕ ⊕ Except String Unit
  | .ok () => .inr (.ok ())
  | .error e =>
    if clusterApi ∨ !IndexingWait.isTransientConnError e ∨ maxUploadRetries ≤ attempt then
      .inr (.error s!"batch {idx} failed after {attempt} reconnect attempt(s): {e}")
    else .inl (attempt + 1)

def withRetry (clusterApi : Bool) : Sender (Except String Unit) where
  maxRetries := if clusterApi then 0 else maxUploadRetries
  acks := fun r ↦ r.toBool
  step := retryStep clusterApi
  again := by
    intro idx attempt r attempt' h
    cases r with
    | ok u => cases h
    | error e =>
        rw [retryStep] at h
        split_ifs at h with hgive
        cases h
        rw [not_or, not_or] at hgive
        rw [if_neg hgive.1]
        exact ⟨not_le.mp hgive.2.2, rfl⟩
  ok := by
    intro idx attempt r h
    cases r with
    | ok u => rfl
    | error e =>
        rw [retryStep] at h
        split_ifs at h
        cases h

/-! ## Uploads -/

/-- `upload_sequential` is the upload of one thread. -/
def uploadSequential (n batchSize : ℕ) : Spec (Except String Unit) := ⟨n, batchSize, 1, false, once⟩

/-- `upload_parallel` of the engine. -/
def uploadParallel (engine : HashEngine) (n batchSize parallel : ℕ) : Spec (Except String Unit) :=
  let total := (batches n batchSize).length
  match engine with
  | .redis clusterApi => ⟨n, batchSize, parallel, false, withRetry clusterApi⟩
  | .valkey => ⟨n, batchSize, min parallel total, false, once⟩
  | .dragonfly | .kividb => ⟨n, batchSize, max (min parallel total) 1, false, once⟩

/-- The upload that the engine's `upload` starts. -/
def hashUpload (engine : HashEngine) (rows : List Row) (batchSize parallel : ℕ) :
    Spec (Except String Unit) :=
  if parallel ≤ 1 then uploadSequential rows.length batchSize
  else uploadParallel engine rows.length batchSize parallel

/-- How often a batch is sent at most. -/
def attempts (engine : HashEngine) (parallel : ℕ) : ℕ :=
  if engine = .redis false ∧ 1 < parallel then maxUploadRetries + 1 else 1

/-! ## Hashes -/

abbrev Hash := String → Option Bytes

/-- `HSET`: of several values for a field the last one stays. -/
def hset (fields : List (String × Bytes)) (hash : Hash) : Hash :=
  fun field ↦ (fields.reverse.lookup field).orElse fun _ ↦ hash field

theorem hset_hset (fields : List (String × Bytes)) (hash : Hash) :
    hset fields (hset fields hash) = hset fields hash := by
  funext field
  simp only [hset]
  cases fields.reverse.lookup field <;> rfl

theorem intText_injective {m n : ℤ} (h : intText m = intText n) : m = n := by
  have hm := parseDecimal_decimalText (isDecimal_intCast m)
  rw [decimalText_intCast, h, ← decimalText_intCast,
    parseDecimal_decimalText (isDecimal_intCast n), Option.some.injEq] at hm
  exact_mod_cast hm.symm

theorem hashKey_injective (config : Config) : Function.Injective (hashKey config) := by
  intro id id' h
  exact Int64.toInt_inj.mp (intText_injective (List.append_cancel_left h))

/-- The hashes after rows were written. -/
def hashes (env : Env) (engine : HashEngine) (config : Config) (rows : List Row)
    (store : Text → Hash) (applied : List ℕ) : Text → Hash :=
  stored hset (fun r ↦ (hashKey config r.id, hashFields env engine config r)) rows store applied

section Runs

variable {engine : HashEngine} {rows : List Row} {batchSize parallel : ℕ}

theorem rows_hashUpload : (hashUpload engine rows batchSize parallel).rows = rows.length := by
  rw [hashUpload]
  split_ifs
  · rfl
  · cases engine <;> rfl

theorem batchSize_hashUpload :
    (hashUpload engine rows batchSize parallel).batchSize = batchSize := by
  rw [hashUpload]
  split_ifs
  · rfl
  · cases engine <;> rfl

theorem maxRetries_hashUpload :
    (hashUpload engine rows batchSize parallel).sender.maxRetries + 1 =
      attempts engine parallel := by
  rw [hashUpload, attempts]
  by_cases hone : parallel ≤ 1
  · rw [if_pos hone, if_neg fun h ↦ absurd h.2 (not_lt.mpr hone)]
    rfl
  · rw [if_neg hone]
    cases engine with
    | redis clusterApi =>
        cases clusterApi with
        | false =>
            rw [if_pos ⟨rfl, not_le.mp hone⟩]
            rfl
        | true => rfl
    | _ => rfl

/-- There is a thread where there is a row. -/
theorem threads_hashUpload (hsize : batchSize ≠ 0) (hrows : rows ≠ []) :
    (hashUpload engine rows batchSize parallel).threads ≠ 0 := by
  obtain ⟨idx, hidx, -⟩ := exists_mem_batchRows hsize (List.length_pos_iff.mpr hrows)
  rw [hashUpload]
  split_ifs with hone
  · exact one_ne_zero
  · cases engine <;> simp only [uploadParallel] <;> omega

/-- Whatever the threads, the server and the network do: a key that is not the key of a row keeps
its hash; under the key of a row there is the hash that was there, or that with all the fields of
the row; no batch is sent more often than the engine allows; and where the upload returns `Ok`,
all fields of every row are there. -/
theorem hashUpload_hashes (env : Env) (config : Config) (hids : (rows.map Row.id).Nodup)
    (store : Text → Hash) {s : Crew Shared Pc}
    (h : (hashUpload engine rows batchSize parallel).machine.Reachable s) :
    (∀ key, (∀ r ∈ rows, hashKey config r.id ≠ key) →
        hashes env engine config rows store s.shared.applied key = store key) ∧
      (∀ r ∈ rows, hashes env engine config rows store s.shared.applied (hashKey config r.id) ∈
        ({store (hashKey config r.id),
          hset (hashFields env engine config r) (store (hashKey config r.id))} : Set Hash)) ∧
      (∀ idx, s.shared.sent.count idx ≤ attempts engine parallel) ∧
      ((hashUpload engine rows batchSize parallel).returns s = some (.ok ()) → ∀ r ∈ rows,
        hashes env engine config rows store s.shared.applied (hashKey config r.id) =
          hset (hashFields env engine config r) (store (hashKey config r.id))) := by
  have hrow : ∀ r ∈ rows, ∃ row < rows.length,
      hashes env engine config rows store s.shared.applied (hashKey config r.id) =
        if row ∈ s.shared.applied then
          hset (hashFields env engine config r) (store (hashKey config r.id))
        else store (hashKey config r.id) := by
    intro r hr
    obtain ⟨row, hget⟩ := List.mem_iff_getElem?.mp hr
    exact ⟨row, (List.getElem?_eq_some_iff.mp hget).1,
      stored_row hids (fun _ _ hkey ↦ hashKey_injective config hkey) (hset_hset _) hget⟩
  refine ⟨fun key hkey ↦ stored_of_forall_ne hkey, fun r hr ↦ ?_, fun idx ↦ ?_, fun hok r hr ↦ ?_⟩
  · obtain ⟨row, -, hhash⟩ := hrow r hr
    rw [hhash]
    split_ifs
    · exact .inr rfl
    · exact .inl rfl
  · rw [← maxRetries_hashUpload]
    exact count_sent_le h idx
  · obtain ⟨row, hlt, hhash⟩ := hrow r hr
    have hsize := batchSize_hashUpload ▸ batchSize_ne_zero_of_returns hok
    rw [hhash, if_pos]
    exact mem_applied_of_returns h hok (threads_hashUpload hsize (List.ne_nil_of_mem hr))
      (rows_hashUpload.symm ▸ hlt)

end Runs

/-! ## A run -/

/-- The last row has a field that takes the place of its vector. -/
def threeRows : List Row :=
  [⟨7, [⟨0x3F800000⟩], some ⟨[("color", .string "red"), ("labels", .labels ["a", "b"])]⟩⟩,
    ⟨-1, [⟨0xBF800000⟩], none⟩, ⟨9, [⟨0⟩], some ⟨[("size", .int 3), ("vector", .int 0)]⟩⟩]

/-- Two threads.  The connection of the first breaks after one command of its pipeline, and the
server executes the other one twice once the pipeline was sent again. -/
def brokenPipeline : List (Action (Except String Unit)) :=
  [.thread 0 (.connect (.ok ())), .thread 1 (.connect (.ok ())), .thread 0 .claim, .thread 1 .claim,
    .thread 0 .send, .write 0, .thread 1 .send, .thread 0 (.reply (.error "broken pipe")), .write 2,
    .thread 0 .send, .thread 1 (.reply (.ok ())), .write 0, .write 1, .write 1,
    .thread 0 (.reply (.ok ())), .thread 1 .claim, .thread 0 .claim]

/-- No value of the rows is printed or converted that is no integer. -/
def plainEnv : Env := ⟨noNumbers, fun _ ↦ "", fun _ ↦ [], fun _ ↦ [], fun _ ↦ []⟩

def plainConfig : Config := ⟨"doc:".toList, "FLOAT32", [], []⟩

theorem hashUpload_hashes_brokenPipeline :
    ∃ s, (hashUpload (.redis false) threeRows 2 2).returns s = some (.ok ()) ∧
      s.shared.sent = [0, 1, 0] ∧ ∀ r ∈ threeRows,
        hashes plainEnv (.redis false) plainConfig threeRows (fun _ _ ↦ none) s.shared.applied
            (hashKey plainConfig r.id) =
          hset (hashFields plainEnv (.redis false) plainConfig r) (fun _ ↦ none) := by
  have hreach : (hashUpload (.redis false) threeRows 2 2).machine.Reachable
      ⟨⟨4, none, [0, 1, 0], [0, 2, 0, 1, 1]⟩, [.returned, .returned]⟩ := ⟨brokenPipeline, rfl⟩
  have hids : (threeRows.map Row.id).Nodup := by decide
  have hreturns : (hashUpload (.redis false) threeRows 2 2).returns
      ⟨⟨4, none, [0, 1, 0], [0, 2, 0, 1, 1]⟩, [.returned, .returned]⟩ = some (.ok ()) := rfl
  obtain ⟨-, -, -, hall⟩ :=
    hashUpload_hashes plainEnv plainConfig hids (fun _ _ ↦ none) hreach
  exact ⟨_, hreturns, rfl, hall hreturns⟩

end VectorDbBenchmark.HashUpload
