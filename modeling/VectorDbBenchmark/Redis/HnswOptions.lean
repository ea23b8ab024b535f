import VectorDbBenchmark.JsonFields
import VectorDbBenchmark.Kit.Fallible

/-!
# The compression options of an HNSW index

`Sq8Options` of `src/redis_hnsw_sq8.rs`: the options are merged from the config and the
environment, field by field, and checked; what a result records of them has the server's
default filled in.
-/

namespace VectorDbBenchmark.Redis

open Kit

def serverDefaultTrainingThreshold : ℕ := 10 * 1024

def maxTrainingThreshold : ℕ := 100 * 1024

structure Sq8Options where
  compression : Option String
  trainingThreshold : Option ℕ
deriving DecidableEq

/-- The options, and the variables that supplied a value. -/
structure Sq8Resolution where
  options : Sq8Options
  fromEnv : List String
deriving DecidableEq

/-- What `resolve` is called with: the values of the config, the texts of the environment. -/
structure Sq8Inputs where
  configCompression : Option String
  configTrainingThreshold : Option ℕ
  envCompression : Option String
  envTrainingThreshold : Option String
  algorithm : String
  dataType : String
  skipVectorIndex : Bool

/-! ## Resolving -/

section Resolve

def envApplies (algorithm : String) (skipVectorIndex : Bool) : Bool :=
  eqIgnoreAsciiCase algorithm "hnsw" && !skipVectorIndex

def compressionField : Option String → Except String (Option String)
  | none => .ok none
  | some s =>
    if eqIgnoreAsciiCase s "SQ8" then .ok (some "SQ8")
    else .error "collection_params.hnsw_config.COMPRESSION must be SQ8"

def fromHnswFields (compression : Option String) (trainingThreshold : Option ℕ)
    (algorithm dataType : String) (skipVectorIndex : Bool) : Except String Sq8Options :=
  if compression.isNone && trainingThreshold.isNone then .ok ⟨none, none⟩
  else if !eqIgnoreAsciiCase algorithm "hnsw" || skipVectorIndex then
    .error "collection_params.hnsw_config SQ8 options require an HNSW vector index"
  else do
    let compression ← compressionField compression
    if trainingThreshold.any (maxTrainingThreshold < ·) then
      .error ("collection_params.hnsw_config.TRAINING_THRESHOLD must be an integer from 0 to " ++
        "102400")
    else if trainingThreshold.isSome && compression.isNone then
      .error "collection_params.hnsw_config.TRAINING_THRESHOLD requires COMPRESSION SQ8"
    else if compression.isSome && !eqIgnoreAsciiCase dataType "FLOAT32" &&
        !eqIgnoreAsciiCase dataType "FLOAT16" then
      .error "HNSW SQ8 COMPRESSION requires FLOAT32 or FLOAT16 vectors"
    else .ok ⟨compression, trainingThreshold⟩

/-- A variable, trimmed; a blank one counts as unset. -/
def envText (applies : Bool) (var : Option String) : Option Text :=
  if applies then (var.map (trim ·.toList)).filter (!·.isEmpty) else none

variable (debug : String → String)

def mergedCompression (config : Option String) (env : Option Text) :
    Except String (Option String) :=
  match config, env with
  | some c, _ => .ok (some c)
  | none, some e =>
    if eqIgnoreAsciiCase (.ofList e) "SQ8" then .ok (some "SQ8")
    else .error s!"REDIS_HNSW_COMPRESSION must be SQ8, got {debug (.ofList e)}"
  | none, none => .ok none

def mergedThreshold (compression : Option String) (config : Option ℕ) (env : Option Text) :
    Except String (Option ℕ) :=
  match config, env with
  | some n, _ => .ok (some n)
  | none, some e =>
    match (parseU64 e).filter (· ≤ maxTrainingThreshold) with
    | none =>
      .error (s!"REDIS_HNSW_TRAINING_THRESHOLD must be an integer from 0 to 102400, got " ++
        s!"{debug (.ofList e)}")
    | some n =>
      if compression.isNone then
        .error ("REDIS_HNSW_TRAINING_THRESHOLD requires COMPRESSION SQ8 " ++
          "(config or REDIS_HNSW_COMPRESSION)")
      else .ok (some n)
  | none, none => .ok none

/-- `Sq8Options::resolve`, where `debug` quotes a text in an error. -/
def resolve (i : Sq8Inputs) : Except String Sq8Resolution := do
  let applies := envApplies i.algorithm i.skipVectorIndex
  let envCompression := envText applies i.envCompression
  let envTrainingThreshold := envText applies i.envTrainingThreshold
  let compressionFromEnv := i.configCompression.isNone && envCompression.isSome
  let compression ← mergedCompression debug i.configCompression envCompression
  let thresholdFromEnv := i.configTrainingThreshold.isNone && envTrainingThreshold.isSome
  let trainingThreshold ←
    mergedThreshold debug compression i.configTrainingThreshold envTrainingThreshold
  let options ←
    (fromHnswFields compression trainingThreshold i.algorithm i.dataType
      i.skipVectorIndex).mapError fun e ↦
        if compressionFromEnv then s!"{e} (from REDIS_HNSW_COMPRESSION)" else e
  .ok
    { options
      fromEnv := (if compressionFromEnv then ["REDIS_HNSW_COMPRESSION"] else []) ++
        (if thresholdFromEnv then ["REDIS_HNSW_TRAINING_THRESHOLD"] else []) }

end Resolve

/-! ## What is recorded -/

namespace Sq8Options

variable {o : Sq8Options}

def effectiveTrainingThreshold (o : Sq8Options) : Option ℕ :=
  o.compression.map fun _ ↦ o.trainingThreshold.getD serverDefaultTrainingThreshold

def effectiveRecord (o : Sq8Options) : Json × Json :=
  ((o.compression.map Json.string).getD .null,
    (o.effectiveTrainingThreshold.map Json.ofNat).getD .null)

/-- Options that `resolve` can come to. -/
structure Resolved (o : Sq8Options) : Prop where
  compression : ∀ c, o.compression = some c → c = "SQ8"
  trainingThreshold : ∀ n, o.trainingThreshold = some n → n ≤ maxTrainingThreshold

theorem Resolved.lt (h : o.Resolved) {n : ℕ} (hn : o.effectiveTrainingThreshold = some n) :
    n < 2 ^ 63 := by
  obtain ⟨c, -, rfl⟩ := Option.map_eq_some_iff.mp hn
  cases ht : o.trainingThreshold with
  | none => decide
  | some k => exact (h.trainingThreshold k ht).trans_lt (by decide)

/-- The record tells the effective options. -/
theorem effectiveRecord_eq_iff {o p : Sq8Options} (ho : o.Resolved) (hp : p.Resolved) :
    o.effectiveRecord = p.effectiveRecord ↔
      o.compression = p.compression ∧
        o.effectiveTrainingThreshold = p.effectiveTrainingThreshold := by
  have hstring : ∀ {a b : Option String},
      (a.map Json.string).getD .null = (b.map Json.string).getD .null ↔ a = b := by
    rintro (_ | a) (_ | b) <;> simp
  have hnat : ∀ {a b : Option ℕ}, (∀ n, a = some n → n < 2 ^ 63) →
      (∀ n, b = some n → n < 2 ^ 63) →
      ((a.map Json.ofNat).getD .null = (b.map Json.ofNat).getD .null ↔ a = b) := by
    intro a b ha hb
    refine ⟨fun h ↦ ?_, fun h ↦ by rw [h]⟩
    have hread := congrArg Json.asU64 h
    cases a with
    | none =>
        cases b with
        | none => rfl
        | some m => cases h
    | some n =>
        cases b with
        | none => cases h
        | some m =>
            have hn : n < 2 ^ 64 := (ha n rfl).trans (by decide)
            have hm : m < 2 ^ 64 := (hb m rfl).trans (by decide)
            simpa [Json.asU64_ofNat hn, Json.asU64_ofNat hm] using hread
  rw [effectiveRecord, effectiveRecord, Prod.mk.injEq, hstring,
    hnat (fun _ ↦ ho.lt) (fun _ ↦ hp.lt)]

end Sq8Options

theorem eq_of_compressionField {compression c : Option String}
    (h : compressionField compression = .ok c) : ∀ s, c = some s → s = "SQ8" := by
  cases compression with
  | none =>
      cases h
      rintro s ⟨⟩
  | some t =>
      rw [compressionField] at h
      split_ifs at h
      cases h
      rintro s ⟨⟩
      rfl

theorem resolved_of_fromHnswFields {compression : Option String} {trainingThreshold : Option ℕ}
    {algorithm dataType : String} {skipVectorIndex : Bool} {o : Sq8Options}
    (h : fromHnswFields compression trainingThreshold algorithm dataType skipVectorIndex = .ok o) :
    o.Resolved := by
  rw [fromHnswFields] at h
  split_ifs at h with hnone _ hmax
  · cases h
    refine ⟨?_, ?_⟩
    · rintro c ⟨⟩
    · rintro n ⟨⟩
  · obtain ⟨c, -, h⟩ := bind_eq_ok.mp h
    cases h
  · obtain ⟨c, hc, h⟩ := bind_eq_ok.mp h
    split_ifs at h
    cases h
    refine ⟨eq_of_compressionField hc, fun n hn ↦ ?_⟩
    rw [show trainingThreshold = some n from hn, Option.any_some, decide_eq_true_eq] at hmax
    exact not_lt.mp hmax

theorem resolved_of_resolve {debug : String → String} {i : Sq8Inputs} {r : Sq8Resolution}
    (h : resolve debug i = .ok r) : r.options.Resolved := by
  obtain ⟨compression, -, h⟩ := bind_eq_ok.mp h
  obtain ⟨trainingThreshold, -, h⟩ := bind_eq_ok.mp h
  obtain ⟨options, hoptions, h⟩ := bind_eq_ok.mp h
  cases h
  exact resolved_of_fromHnswFields (mapError_eq_ok.mp hoptions)

end VectorDbBenchmark.Redis
