import VectorDbBenchmark.Json
import VectorDbBenchmark.Kit.Staging
import VectorDbBenchmark.Msmarco.SampleCorpus
import VectorDbBenchmark.Readers.StreamReader

/-!
# Checking and recovering a prepared directory

`src/msmarco/preparation.rs`: the check of a prepared corpus against the capabilities its
manifest declares, and the recovery of a publication that was interrupted between renames.  A
directory is a map from names to contents; the JSON parser and SHA-256 are parameters, and the
file operations themselves succeed.
-/

namespace VectorDbBenchmark.Msmarco

open Kit Readers

structure FileIntegrity where
  bytes : UInt64
  sha256 : String
deriving DecidableEq, Repr

/-- `BTreeMap<String, FileIntegrity>`: no key is there twice. -/
structure FileInventory where
  entries : List (String × FileIntegrity)
  nodup : (entries.map Prod.fst).Nodup

namespace FileInventory

def get (files : FileInventory) (name : String) : Option FileIntegrity := files.entries.lookup name

def containsKey (files : FileInventory) (name : String) : Bool := (files.get name).isSome

def len (files : FileInventory) : ℕ := files.entries.length

end FileInventory

structure Capabilities where
  version : UInt32
  vectors : Bool
  text : Bool
  scalar : Bool
  vectorTruth : Bool
  filteredTruth : Bool
  files : FileInventory

/-- A registered size of the corpus. -/
structure Variant where
  datasetName : String
  limit : UInt64
  threshold : UInt32

def hfRevision : String := "e78737fe92ac1b783211b705c12207ca75fcc9b7"

abbrev Dir := Directory String Bytes

/-- What comes from outside the repository. -/
structure PublicationEnv where
  /-- The path of the directory. -/
  root : String
  /-- `serde_json::from_reader::<Value>`. -/
  fromReader : Bytes → Except String Json
  /-- `serde_json::from_str::<Value>`. -/
  fromStr : Text → Except String Json
  /-- `serde_json::from_value::<Capabilities>`, which refuses unknown fields. -/
  fromValue : Json → Except String Capabilities
  /-- The lower-case hexadecimal digest. -/
  sha256 : Bytes → String

variable (env : PublicationEnv)

def digest (content : Bytes) : FileIntegrity := ⟨.ofNat content.length, env.sha256 content⟩

/-- `{name}.part`. -/
def part (name : String) : String := name ++ ".part"

/-- The name `artifact_path` chooses. -/
def artifactPath (dir : Dir) (name : String) (staged : Bool) : String :=
  if staged && (dir (part name)).isSome then part name else name

def artifact (dir : Dir) (staged : Bool) (name : String) : Option Bytes :=
  dir (artifactPath dir name staged)

def notFound : String := "No such file or directory (os error 2)"

/-! ## Query rows -/

/-- `BufRead::lines` of a file of bytes; a line must be UTF-8. -/
def fileLines (file : Bytes) : List (Except String Text) :=
  let decode (line : Bytes) : Except String Text :=
    match String.fromUTF8? ⟨line.toArray⟩ with
    | some s => .ok s.toList
    | none => .error "stream did not contain valid UTF-8"
  let pieces := splitAtSep 0x0A file
  let chomp (line : Bytes) := if line.getLast? = some 0x0D then line.dropLast else line
  pieces.dropLast.map (fun line ↦ decode (chomp line)) ++
    (pieces.getLast?.toList.filter fun line ↦ !line.isEmpty).map decode

/-- `row[key].as_array()` is missing or empty. -/
def lacksRanking (key : String) (row : Json) : Bool :=
  match (row.get key).bind Json.asArray with
  | none => true
  | some elems => elems.isEmpty

def knnTruthAbsent : String :=
  "KNN truth is absent; restore PREPARED.json and run prepare-msmarco --dataset <dataset> " ++
    "--add-knn-truth --out-dir <datasets dir>"

def checkLegacyRow (rows : ℕ) (line : Except String Text) : Except String ℕ := do
  let line ← line
  if (trim line).isEmpty then pure rows
  else
    let row ← env.fromStr line
    if lacksRanking "closest_ids" row then .error knnTruthAbsent else pure (rows + 1)

/-- `check_legacy_truth`. -/
def checkLegacyTruth (dir : Dir) : Except String Unit :=
  match dir "tests.jsonl" with
  | none => .ok ()
  | some file => do
    let rows ← (fileLines file).foldlM (checkLegacyRow env) 0
    if rows = 0 then .error "tests.jsonl: no queries or KNN truth" else pure ()

/-- The fields every query row has: its vector, its text and its id. -/
def validQueryInput (dim : ℕ) (row : Json) : Bool :=
  (match (row.get "query").bind Json.asArray with
    | none => false
    | some q => q.length = dim && q.all fun v ↦ (v.asF64.map F64.isFinite).getD false) &&
  (match (row.get "query_text").bind Json.asStr with
    | none => false
    | some s => !(trim s.toList).isEmpty) &&
  match (row.get "query_id").bind Json.asStr with
    | none => false
    | some s => !s.isEmpty

def checkQueryRow (dim : ℕ) (truth : Bool) (rows : ℕ) (line : Except String Text) :
    Except String ℕ := do
  let row ← (env.fromStr (← line)).mapError fun e ↦ s!"tests.jsonl: {e}"
  if !validQueryInput dim row then .error "tests.jsonl: invalid query input"
  else if truth && (lacksRanking "closest_ids" row || lacksRanking "closest_scores" row) then
    .error knnTruthAbsent
  else if !truth && ((row.get "closest_ids").isSome || (row.get "closest_scores").isSome) then
    .error "text/scalar-only query rows must omit vector rankings"
  else pure (rows + 1)

/-- `check_query_rows`. -/
def checkQueryRows (file : Option Bytes) (dim : ℕ) (count : Option ℕ) (truth : Bool) :
    Except String Unit :=
  match file with
  | none => .error s!"tests.jsonl: {notFound}"
  | some file => do
    let rows ← (fileLines file).foldlM (checkQueryRow env dim truth) 0
    if rows = 0 || count.any (· ≠ rows) then .error "tests.jsonl: query count mismatch" else pure ()

/-! ## The check -/

/-- The files a preparation must have. -/
def required (caps : Capabilities) : List String :=
  ["vectors.npy", "payloads.jsonl", "tests.jsonl", "filter_queries.jsonl"] ++
    if caps.filteredTruth then ["hybrid_queries.jsonl"] else []

/-- Whether the manifest is that of the registered corpus. -/
def identityMatches (variant : Variant) (manifest : Json) : Bool :=
  let sampling := manifest.get "sampling"
  (manifest.get "dataset").bind Json.asStr = some variant.datasetName &&
  (manifest.get "passages").bind Json.asU64 = some variant.limit.toNat &&
  (manifest.get "dimensions").bind Json.asU64 = some dim &&
  (manifest.get "distance").bind Json.asStr = some "cosine" &&
  (sampling.bind (Json.get "threshold")).bind Json.asU64 = some variant.threshold.toNat &&
  (sampling.bind (Json.get "buckets")).bind Json.asU64 = some crc32Buckets.toNat &&
  (manifest.get "source_revision").bind Json.asStr = some hfRevision

def isHexDigit (b : UInt8) : Bool :=
  (0x30 ≤ b && b ≤ 0x39) || (0x41 ≤ b && b ≤ 0x46) || (0x61 ≤ b && b ≤ 0x66)

/-- One file against its record: its size, the shape of the record, and the hash. -/
def checkArtifact (caps : Capabilities) (hashes staged : Bool) (dir : Dir) (name : String) :
    Except String Unit :=
  match caps.files.get name with
  | none => .error s!"no integrity record for {name}"
  | some expected =>
    match artifact dir staged name with
    | none => .error s!"{env.root}/{artifactPath dir name staged}: {notFound}"
    | some content =>
      if content.length ≠ expected.bytes.toNat || expected.sha256.utf8ByteSize ≠ 64 ||
          !expected.sha256.toUTF8.toList.all isHexDigit then
        .error s!"{name}: invalid size/integrity record"
      else if hashes && (digest env content).sha256 ≠ expected.sha256 then
        .error s!"{name}: SHA-256 mismatch"
      else .ok ()

/-- The shape of `vectors.npy`. -/
def checkShape (variant : Variant) (staged : Bool) (dir : Dir) : Except String Unit :=
  let path := artifactPath dir "vectors.npy" staged
  let shown := s!"{env.root}/{path}"
  match artifact dir staged "vectors.npy" with
  | none => .error s!"{shown}: {notFound}"
  | some file => do
    let layout ← f32NpyLayout shown file
    if layout.rows ≠ variant.limit.toNat || layout.cols ≠ dim then
      .error "vectors.npy: corpus shape mismatch"
    else pure ()

/-- The checks of the files, after those of the manifest. -/
def checkFiles (variant : Variant) (hashes staged : Bool) (dir : Dir) (manifest : Json)
    (caps : Capabilities) : Except String Unit := do
  (required caps).forM (checkArtifact env caps hashes staged dir)
  checkShape env variant staged dir
  match ((manifest.get "queries").bind Json.asU64).filter (0 < ·) with
  | none => .error "manifest has no query count"
  | some count =>
    checkQueryRows env (artifact dir staged "tests.jsonl") dim (some count) caps.vectorTruth

/-- `inspect`. -/
def inspect (variant : Variant) (hashes staged : Bool) (dir : Dir) :
    Except String (Option Capabilities) :=
  match artifact dir staged "PREPARED.json" with
  | none => do
    checkLegacyTruth env dir
    pure none
  | some file => do
    let manifest ← env.fromReader file
    match manifest.get "preparation" with
    | none => do
      checkLegacyTruth env dir
      pure none
    | some value =>
      let caps ← (env.fromValue value).mapError fun e ↦ s!"invalid preparation capabilities: {e}"
      if caps.version ≠ 1 || !caps.vectors || !caps.text || !caps.scalar ||
          (caps.filteredTruth && !caps.vectorTruth) then
        .error "unsupported/incomplete preparation capabilities"
      else if !staged && (dir "COMPLETE").isNone then
        .error ("incomplete preparation: missing COMPLETE marker; finish/rebuild the interrupted " ++
          "preparation")
      else if !identityMatches variant manifest then
        .error ("prepared corpus identity does not match the registered " ++
          "dataset/sampling/source")
      else if caps.files.len ≠ (required caps).length then
        .error "incomplete preparation file inventory"
      else do
        checkFiles env variant hashes staged dir manifest caps
        pure (some caps)

/-- `check`. -/
def check (variant : Variant) (hashes : Bool) (dir : Dir) : Except String (Option Capabilities) :=
  inspect env variant hashes false dir

/-! ## Recovery -/

/-- A file operation of the recovery. -/
inductive RecoveryStep where
  | remove (name : String)
  | publish (name : String)
  | write (name : String) (content : Bytes)
deriving DecidableEq, Repr

def RecoveryStep.run (dir : Dir) : RecoveryStep → Dir
  | remove name => Function.update dir name none
  | publish name => Kit.publish part dir name
  | write name content => Function.update dir name (some content)

def publishOrder : List String :=
  ["vectors.npy", "payloads.jsonl", "tests.jsonl", "hybrid_queries.jsonl", "PREPARED.json",
    "filter_queries.jsonl"]

/-- The files a recovery publishes, in order. -/
def publishedNames (caps : Capabilities) : List String :=
  publishOrder.filter fun name ↦ name = "PREPARED.json" || caps.files.containsKey name

def recoverySteps (caps : Capabilities) : List RecoveryStep :=
  (if caps.filteredTruth then [] else [.remove "hybrid_queries.jsonl"]) ++
    ((publishedNames caps).map .publish ++ [.write "COMPLETE" (asciiBytes "ok\n".toList)])

/-- What `recover_publication` returns, with the file operations that it makes. -/
def recoveryTrace (variant : Variant) (dir : Dir) : Except String Bool × List RecoveryStep :=
  if (dir "COMPLETE").isSome || (artifact dir true "PREPARED.json").isNone then (.ok false, [])
  else
    match inspect env variant true true dir with
    | .error e => (.error e, [])
    | .ok none => (.ok false, [])
    | .ok (some caps) => (.ok true, recoverySteps caps)

/-- `recover_publication`. -/
def recoverPublication (variant : Variant) (dir : Dir) : Except String Bool × Dir :=
  ((recoveryTrace env variant dir).1, (recoveryTrace env variant dir).2.foldl RecoveryStep.run dir)

end VectorDbBenchmark.Msmarco
