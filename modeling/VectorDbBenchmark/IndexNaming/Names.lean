import VectorDbBenchmark.Kit.Fallible
import VectorDbBenchmark.Kit.Glob
import VectorDbBenchmark.Kit.Machine
import VectorDbBenchmark.Kit.Utf8

/-!
# Index names and key prefixes

The index and the keys of a config of a Redis-wire engine are named after the config, and no
run is started with two configs of one engine whose indexes have one name.  The configs share a
server, on which each is set up and torn down by commands that name its index and its keys.
-/

namespace VectorDbBenchmark.IndexNaming

open Kit

/-! ## Settings -/

/-- The environment variables that are set. -/
abbrev Settings := String → Option Text

def envOr (vars : Settings) (name : String) (default : Text) : Text := (vars name).getD default

/-- Whether a switch is set to one of the accepted values. -/
def envFlag (vars : Settings) (name : String) (accept : List String) : Bool :=
  (vars name).any fun text ↦ accept.any fun a ↦ eqIgnoreAsciiCase (.ofList text) a

/-! ## Names -/

def isTokenChar (c : Char) : Bool := c.isAlphanum || c = '-' || c = '_'

def sanitizeToken (name : Text) : Text := name.map fun c ↦ if isTokenChar c then c else '_'

def indexNameExact (vars : Settings) (baseEnv : String) : Bool :=
  envFlag vars (baseEnv ++ "_EXACT") ["1", "true"]

def deriveIndexName (vars : Settings) (baseEnv defaultBase : String) (engineName : Text) : Text :=
  let base := envOr vars baseEnv defaultBase.toList
  if indexNameExact vars baseEnv then base else base ++ ':' :: sanitizeToken engineName

def deriveKeyPrefix (engineName : Text) : Text := sanitizeToken engineName ++ [':']

/-! ## Configs -/

/-- Which scalar fields a fulltext index has. -/
inductive ScalarIndexing where
  | all
  | textTagOnly
deriving DecidableEq

structure EngineConfig where
  name : Text
  engine : Option String
  /-- The fulltext profile, if the config has one. -/
  profile : Option ScalarIndexing

inductive RedisWire where
  | redis
  | valkey
  | dragonfly
  | kividb
  | vectorsets
deriving DecidableEq

namespace RedisWire

def engineType : RedisWire → String
  | redis => "redis"
  | valkey => "valkey"
  | dragonfly => "dragonfly"
  | kividb => "kividb"
  | vectorsets => "vectorsets"

def baseEnv : RedisWire → String
  | redis => "REDIS_INDEX_NAME"
  | valkey => "VALKEY_INDEX_NAME"
  | dragonfly => "DRAGONFLY_INDEX_NAME"
  | kividb => "KIVIDB_INDEX_NAME"
  | vectorsets => "VECTORSETS_INDEX_NAME"

/-- The name of a config's index, which is a key in VectorSets. -/
def indexName (e : RedisWire) (vars : Settings) (name : Text) : Text :=
  deriveIndexName vars e.baseEnv "idx" name

end RedisWire

/-! ## The collision guard -/

section Guard

/-- The variable with the base of the names of an engine that is guarded. -/
def guardedEnv (engineType : String) : Option String :=
  match engineType with
  | "redis" => some "REDIS_INDEX_NAME"
  | "valkey" => some "VALKEY_INDEX_NAME"
  | "dragonfly" => some "DRAGONFLY_INDEX_NAME"
  | "kividb" => some "KIVIDB_INDEX_NAME"
  | "vectorsets" => some "VECTORSETS_INDEX_NAME"
  | "mongodb" => some "MONGODB_COLLECTION"
  | _ => none

variable (vars : Settings) (mongodbCollectionName : Text → Text)

/-- What a config's teardown destroys. -/
def namespaceOf (config : EngineConfig) : Option (String × Text) :=
  let engineType := config.engine.getD ""
  (guardedEnv engineType).map fun baseEnv ↦
    (engineType, if engineType = "mongodb" then mongodbCollectionName config.name
      else deriveIndexName vars baseEnv "idx" config.name)

def collision (prev name idx : Text) (engineType : String) : String :=
  let baseEnv := (guardedEnv engineType).getD ""
  let exactHint :=
    if indexNameExact vars baseEnv then
      s!" ({baseEnv}_EXACT is set — exact mode requires a single config per engine.)"
    else ""
  let object := if engineType = "mongodb" then "collection" else "index"
  s!"Configs '{String.ofList prev}' and '{String.ofList name}' derive the same index namespace " ++
    s!"'{String.ofList idx}' (the {engineType} {object}); rename them — a sweep would silently " ++
    s!"overwrite one with the other (issue #151-4).{exactHint}"

/-- The configs that were seen are kept with what they destroy. -/
def checkFrom (seen : List ((String × Text) × Text)) : List EngineConfig → Except String Unit
  | [] => .ok ⟨⟩
  | config :: configs =>
    match namespaceOf vars mongodbCollectionName config with
    | none => checkFrom seen configs
    | some key =>
      match seen.lookup key with
      | some prev => .error (collision vars prev config.name key.2 key.1)
      | none => checkFrom ((key, config.name) :: seen) configs

def checkCollisions (configs : List EngineConfig) : Except String Unit :=
  checkFrom vars mongodbCollectionName [] configs

end Guard

/-! ## Distinct names -/

section Distinct

variable {vars : Settings} {mongodbCollectionName : Text → Text}

theorem pairwise_of_checkFrom {seen : List ((String × Text) × Text)} {configs : List EngineConfig}
    (h : checkFrom vars mongodbCollectionName seen configs = .ok ⟨⟩) :
    (∀ c ∈ configs, ∀ key, namespaceOf vars mongodbCollectionName c = some key →
      seen.lookup key = none) ∧
    configs.Pairwise fun a b ↦ ∀ key, namespaceOf vars mongodbCollectionName a = some key →
      namespaceOf vars mongodbCollectionName b ≠ some key := by
  induction configs generalizing seen with
  | nil => exact ⟨fun c hc ↦ absurd hc List.not_mem_nil, .nil⟩
  | cons config configs ih =>
      rw [checkFrom] at h
      rw [List.forall_mem_cons, List.pairwise_cons]
      split at h
      · next hnone =>
          obtain ⟨hseen, hpairs⟩ := ih h
          refine ⟨⟨fun key hkey ↦ ?_, hseen⟩, fun c hc key hkey ↦ ?_, hpairs⟩
          · rw [hnone] at hkey
            cases hkey
          · rw [hnone] at hkey
            cases hkey
      · next key hkey =>
          split at h
          · cases h
          · next hlookup =>
              obtain ⟨hseen, hpairs⟩ := ih h
              have hcons : ∀ c ∈ configs, ∀ key',
                  namespaceOf vars mongodbCollectionName c = some key' →
                    key' ≠ key ∧ seen.lookup key' = none := by
                intro c hc key' hkey'
                have hnone := hseen c hc key' hkey'
                rw [List.lookup_cons] at hnone
                split at hnone
                · cases hnone
                · next hne => exact ⟨fun heq ↦ by simp [heq] at hne, hnone⟩
              refine ⟨⟨fun key' hkey' ↦ ?_, fun c hc key' hkey' ↦ (hcons c hc key' hkey').2⟩,
                fun c hc key' hkey' heq ↦ ?_, hpairs⟩
              · rw [hkey] at hkey'
                cases hkey'
                exact hlookup
              · rw [hkey] at hkey'
                cases hkey'
                exact (hcons c hc key heq).1 rfl

theorem namespaceOf_redisWire {config : EngineConfig} {e : RedisWire}
    (h : config.engine = some e.engineType) :
    namespaceOf vars mongodbCollectionName config =
      some (e.engineType, e.indexName vars config.name) := by
  rw [namespaceOf, h]
  cases e <;> rfl

/-- Two configs of one engine that pass the guard have indexes with different names. -/
theorem indexName_ne {configs : List EngineConfig} {e : RedisWire} {i j : ℕ} {a b : EngineConfig}
    (h : checkCollisions vars mongodbCollectionName configs = .ok ⟨⟩) (hi : configs[i]? = some a)
    (hj : configs[j]? = some b) (ha : a.engine = some e.engineType)
    (hb : b.engine = some e.engineType) (hij : i ≠ j) :
    e.indexName vars a.name ≠ e.indexName vars b.name := by
  have hlt : ∀ {i j : ℕ} {a b : EngineConfig}, configs[i]? = some a → configs[j]? = some b →
      a.engine = some e.engineType → b.engine = some e.engineType → i < j →
      e.indexName vars a.name ≠ e.indexName vars b.name := by
    intro i j a b hi hj ha hb hij heq
    obtain ⟨hilt, rfl⟩ := List.getElem?_eq_some_iff.mp hi
    obtain ⟨hjlt, rfl⟩ := List.getElem?_eq_some_iff.mp hj
    have hne := List.pairwise_iff_getElem.mp (pairwise_of_checkFrom h).2 i j hilt hjlt hij _
      (namespaceOf_redisWire ha)
    rw [heq] at hne
    exact hne (namespaceOf_redisWire hb)
  rcases Nat.lt_or_gt_of_ne hij with hij | hij
  · exact hlt hi hj ha hb hij
  · exact (hlt hj hi hb ha hij).symm

/-- Names that are sanitized alike have one index name. -/
theorem indexName_congr {e : RedisWire} {name name' : Text}
    (h : sanitizeToken name = sanitizeToken name') :
    e.indexName vars name = e.indexName vars name' := by
  rw [RedisWire.indexName, RedisWire.indexName, deriveIndexName, deriveIndexName, h]

end Distinct

/-! ## Tokens -/

section Tokens

theorem isTokenChar_of_mem {name : Text} {c : Char} (h : c ∈ sanitizeToken name) :
    isTokenChar c = true := by
  obtain ⟨d, -, rfl⟩ := List.mem_map.mp h
  split_ifs with hd
  · exact hd
  · rfl

theorem toNat_of_isTokenChar {c : Char} (h : isTokenChar c = true) :
    c.toNat < 128 ∧ c.toNat ≠ 42 ∧ c.toNat ≠ 58 ∧ c.toNat ≠ 63 ∧ c.toNat ≠ 91 ∧ c.toNat ≠ 92 := by
  rw [isTokenChar, Bool.or_eq_true, Bool.or_eq_true, decide_eq_true_eq, decide_eq_true_eq] at h
  rcases h with (h | rfl) | rfl
  · have hrange := toNat_of_isAlphanum h
    omega
  · decide
  · decide

theorem utf8Bytes_sanitizeToken (name : Text) :
    utf8Bytes (sanitizeToken name) = asciiBytes (sanitizeToken name) :=
  utf8Bytes_ascii fun _ hc ↦ (toNat_of_isTokenChar (isTokenChar_of_mem hc)).1

/-- The bytes of a token have no meaning in a pattern, and none is a colon. -/
theorem not_mem_special {name : Text} {b : UInt8} (h : b ∈ asciiBytes (sanitizeToken name)) :
    b ∉ Glob.special ∧ b ≠ 58 := by
  obtain ⟨c, hc, rfl⟩ := List.mem_map.mp h
  obtain ⟨hlt, hstar, hcolon, hany, hclass, hescape⟩ :=
    toNat_of_isTokenChar (isTokenChar_of_mem hc)
  have hne : ∀ n : ℕ, n < 256 → c.toNat ≠ n → UInt8.ofNat c.toNat ≠ UInt8.ofNat n := by
    intro n hn hcn heq
    have hnat := congrArg UInt8.toNat heq
    rw [UInt8.toNat_ofNat', UInt8.toNat_ofNat', Nat.mod_eq_of_lt hn] at hnat
    exact hcn ((Nat.mod_eq_of_lt (by omega)).symm.trans hnat)
  simp only [Glob.special, List.mem_cons, List.not_mem_nil, or_false, not_or]
  exact ⟨⟨hne 42 (by omega) hstar, hne 63 (by omega) hany, hne 91 (by omega) hclass,
    hne 92 (by omega) hescape⟩, hne 58 (by omega) hcolon⟩

end Tokens

/-! ## The server -/

/-- The indexes with their prefixes, the keys of hashes, and all other keys. -/
structure Server where
  indexes : List (Text × Text)
  hashes : List Text
  others : List Text

inductive Command where
  /-- `FT.DROPINDEX`, with the documents that the server has in the index. -/
  | dropIndex (name : Text) (deleteDocs : Bool) (documents : List Text)
  | createIndex (name keyPrefix : Text)
  | unlink (keys : List Text)
  | set (key : Text)
  | hset (key : Text)
  | vadd (key : Text)

/-- Whether a key belongs to the documents of an index. -/
def Server.covers (s : Server) (name key : Text) : Bool :=
  s.indexes.any fun i ↦ i.1 = name && i.2.isPrefixOf key

def Server.exec (s : Server) : Command → Server
  | .dropIndex name deleteDocs documents =>
    { s with
      indexes := s.indexes.filter fun i ↦ i.1 ≠ name
      hashes := s.hashes.filter fun k ↦
        !(deleteDocs && documents.contains k && s.covers name k) }
  | .createIndex name keyPrefix =>
    if s.indexes.any fun i ↦ i.1 = name then s
    else { s with indexes := (name, keyPrefix) :: s.indexes }
  | .unlink keys =>
    { s with
      hashes := s.hashes.filter fun k ↦ !keys.contains k
      others := s.others.filter fun k ↦ !keys.contains k }
  | .set key =>
    { s with
      hashes := s.hashes.filter fun k ↦ k ≠ key
      others := key :: s.others }
  | .hset key => if s.others.contains key then s else { s with hashes := key :: s.hashes }
  | .vadd key => if s.hashes.contains key then s else { s with others := key :: s.others }

/-- Whether `SCAN` finds a key. -/
def globMatches (pattern key : Text) : Bool :=
  (Glob.parse (utf8Bytes pattern)).accepts (utf8Bytes key)

/-! ## Dropping an index and its keys -/

/-- An answer to `SCAN`: the next cursor and some keys that match the pattern. -/
structure ScanReply (pattern : Text) where
  next : ℕ
  keys : List Text
  matching : ∀ key ∈ keys, globMatches pattern key = true

/-- What is unlinked on the way, until the cursor is zero or `SCAN` fails. -/
def unlinkScanned {pattern : Text} : List (Option (ScanReply pattern)) → List Command
  | [] => []
  | none :: _ => []
  | some reply :: replies =>
    (if reply.keys.isEmpty then [] else [.unlink reply.keys]) ++
      if reply.next = 0 then [] else unlinkScanned replies

def teardownPattern (keyPrefix : Text) : Text := keyPrefix ++ ['*']

def dropIndexAndKeys (indexName keyPrefix : Text)
    (replies : List (Option (ScanReply (teardownPattern keyPrefix)))) : List Command :=
  .dropIndex indexName false [] :: unlinkScanned replies

/-! ## The engines -/

section Engines

variable (e : RedisWire) (vars : Settings)

/-- The prefix that all configs of Redis share, if one is set. -/
def sharedKeyPrefix : Option Text :=
  (vars "REDIS_KEY_PREFIX").bind fun raw ↦
    let s := trim raw
    if s.isEmpty then none
    else if s.getLast? = some ':' then some s
    else some (s ++ [':'])

def keyPrefix (name : Text) : Text :=
  match e with
  | .redis => (sharedKeyPrefix vars).getD (deriveKeyPrefix name)
  | _ => deriveKeyPrefix name

def redisMarkerNamespace : Text := "vdbb:fulltext-profile:".toList

def redisMarkerKey (indexName : Text) : Text := redisMarkerNamespace ++ indexName

/-- An index that is created only where there is none, and is never dropped. -/
def EngineConfig.isReduced (c : EngineConfig) : Bool := c.profile = some .textTagOnly

def markerCreateCommands (c : EngineConfig) (indexName : Text) : List Command :=
  match c.profile with
  | none => []
  | some _ => [.unlink [redisMarkerKey indexName], .set (redisMarkerKey indexName)]

def markerTeardownCommands (c : EngineConfig) (indexName : Text) : List Command :=
  match c.profile with
  | none => []
  | some _ => [.unlink [redisMarkerKey indexName]]

/-- What the server answers to the commands of a config. -/
structure Answers (name : Text) where
  documents : List Text
  replies : List (Option (ScanReply (teardownPattern (keyPrefix e vars name))))

section Operations

variable (c : EngineConfig)

def upload (ids : List Text) : List Command :=
  if e = .vectorsets then ids.map fun _ ↦ .vadd (e.indexName vars c.name)
  else ids.map fun id ↦ .hset (keyPrefix e vars c.name ++ id)

variable {vars} (answers : Answers e vars c.name)

/-- The index of a config is dropped with its keys. -/
def dropCommands : List Command :=
  let name := e.indexName vars c.name
  if e = .redis then [.dropIndex name (sharedKeyPrefix vars).isNone answers.documents]
  else if e = .vectorsets then [.unlink [name]]
  else dropIndexAndKeys name (keyPrefix e vars c.name) answers.replies

def configure : List Command :=
  let name := e.indexName vars c.name
  let create := .createIndex name (keyPrefix e vars c.name)
  if e = .redis then
    (if c.isReduced then [] else dropCommands e c answers) ++
      create :: markerCreateCommands c name
  else if e = .vectorsets then dropCommands e c answers
  else dropCommands e c answers ++ [create]

def delete : List Command :=
  if e = .redis then
    if c.isReduced then []
    else dropCommands e c answers ++ markerTeardownCommands c (e.indexName vars c.name)
  else dropCommands e c answers

end Operations

/-- A command that one of a config's operations has. -/
inductive Issues (c : EngineConfig) : Command → Prop
  | configure (answers : Answers e vars c.name) {command : Command}
    (h : command ∈ configure e c answers) : Issues c command
  | upload (ids : List Text) {command : Command} (h : command ∈ upload e vars c ids) :
    Issues c command
  | delete (answers : Answers e vars c.name) {command : Command}
    (h : command ∈ delete e c answers) : Issues c command

end Engines

/-! ## Runs -/

/-- A command of one of the configs of an engine. -/
structure Action (e : RedisWire) (vars : Settings) (configs : List EngineConfig) where
  index : ℕ
  config : EngineConfig
  command : Command
  selected : configs[index]? = some config
  engine : config.engine = some e.engineType
  issued : Issues e vars config command

/-- The server, which has no indexes at first, and the commands of the configs in any order. -/
def machine (e : RedisWire) (vars : Settings) (configs : List EngineConfig)
    (hashes others : List Text) : Machine Server (Action e vars configs) where
  init := ⟨[], hashes, others⟩
  step s a := some (s.exec a.command)

end VectorDbBenchmark.IndexNaming
