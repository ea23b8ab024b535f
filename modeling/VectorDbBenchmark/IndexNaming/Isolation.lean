import VectorDbBenchmark.IndexNaming.Names
import VectorDbBenchmark.Kit.DecimalText

/-!
# Teardown never touches a sibling

Configs of one engine whose index names differ have disjoint keys, and no run of some of them
removes a key of another.
-/

namespace VectorDbBenchmark.IndexNaming

open Kit

/-! ## Patterns -/

/-- The teardown pattern of a config finds the documents of the configs with its token. -/
theorem globMatches_teardownPattern {name name' id : Text} :
    globMatches (teardownPattern (deriveKeyPrefix name)) (deriveKeyPrefix name' ++ id) = true ↔
      sanitizeToken name = sanitizeToken name' := by
  have hkey : utf8Bytes (deriveKeyPrefix name' ++ id) =
      asciiBytes (sanitizeToken name') ++ 58 :: utf8Bytes id := by
    rw [deriveKeyPrefix, utf8Bytes_append, utf8Bytes_append, utf8Bytes_sanitizeToken,
      List.append_assoc]
    rfl
  have hpattern : utf8Bytes (teardownPattern (deriveKeyPrefix name)) =
      (asciiBytes (sanitizeToken name) ++ [58]) ++ [42] := by
    rw [teardownPattern, deriveKeyPrefix, utf8Bytes_append, utf8Bytes_append,
      utf8Bytes_sanitizeToken]
    rfl
  have hplain : ∀ b ∈ asciiBytes (sanitizeToken name) ++ [58], b ∉ Glob.special := by
    rw [List.forall_mem_append, List.forall_mem_singleton]
    exact ⟨fun b hb ↦ (not_mem_special hb).1, by decide⟩
  have hcolon : ∀ name : Text, (58 : UInt8) ∉ asciiBytes (sanitizeToken name) :=
    fun _ h ↦ (not_mem_special h).2 rfl
  rw [globMatches, hkey, hpattern, Glob.accepts_parse_star hplain,
    append_sep_prefix_iff (hcolon name) (hcolon name')]
  constructor
  · have hascii : ∀ name : Text, ∀ c ∈ sanitizeToken name, c.toNat < 128 :=
      fun _ _ hc ↦ (toNat_of_isTokenChar (isTokenChar_of_mem hc)).1
    exact asciiBytes_inj (hascii name) (hascii name')
  · intro h
    rw [h]

theorem colon_not_mem (name : Text) : ':' ∉ sanitizeToken name := by
  intro h
  cases isTokenChar_of_mem h

/-- So does the prefix of its index. -/
theorem deriveKeyPrefix_prefix {name name' id : Text} :
    deriveKeyPrefix name <+: deriveKeyPrefix name' ++ id ↔
      sanitizeToken name = sanitizeToken name' := by
  rw [deriveKeyPrefix, deriveKeyPrefix, List.append_assoc, List.singleton_append]
  exact append_sep_prefix_iff (colon_not_mem name) (colon_not_mem name')

/-! ## Commands -/

section Commands

variable {e : RedisWire} {vars : Settings} {c : EngineConfig}

/-- What the commands of a config can be. -/
inductive Effect (e : RedisWire) (vars : Settings) (c : EngineConfig) : Command → Prop
  | drop (deleteDocs : Bool) (documents : List Text)
    (h : deleteDocs = true → e = .redis ∧ sharedKeyPrefix vars = none) :
    Effect e vars c (.dropIndex (e.indexName vars c.name) deleteDocs documents)
  | create : Effect e vars c (.createIndex (e.indexName vars c.name) (keyPrefix e vars c.name))
  | unlinkMarker (he : e = .redis) (hprofile : c.profile.isSome = true) :
    Effect e vars c (.unlink [redisMarkerKey (e.indexName vars c.name)])
  | unlinkSet (he : e = .vectorsets) : Effect e vars c (.unlink [e.indexName vars c.name])
  | unlinkScanned (keys : List Text) (hredis : e ≠ .redis) (hsets : e ≠ .vectorsets)
    (h : ∀ key ∈ keys, globMatches (teardownPattern (deriveKeyPrefix c.name)) key = true) :
    Effect e vars c (.unlink keys)
  | setMarker (he : e = .redis) (hprofile : c.profile.isSome = true) :
    Effect e vars c (.set (redisMarkerKey (e.indexName vars c.name)))
  | hset (id : Text) : Effect e vars c (.hset (keyPrefix e vars c.name ++ id))
  | vadd : Effect e vars c (.vadd (e.indexName vars c.name))

theorem keyPrefix_of_ne (he : e ≠ .redis) (name : Text) :
    keyPrefix e vars name = deriveKeyPrefix name := by
  cases e with
  | redis => exact absurd rfl he
  | valkey => rfl
  | dragonfly => rfl
  | kividb => rfl
  | vectorsets => rfl

theorem effect_of_unlinkScanned (hredis : e ≠ .redis) (hsets : e ≠ .vectorsets)
    {replies : List (Option (ScanReply (teardownPattern (keyPrefix e vars c.name))))}
    {command : Command} (h : command ∈ unlinkScanned replies) : Effect e vars c command := by
  induction replies with
  | nil => cases h
  | cons reply replies ih =>
      cases reply with
      | none => cases h
      | some reply =>
          rw [unlinkScanned, List.mem_append] at h
          rcases h with h | h
          · split_ifs at h
            · cases h
            · rw [List.mem_singleton] at h
              subst h
              refine .unlinkScanned reply.keys hredis hsets ?_
              rw [← keyPrefix_of_ne hredis]
              exact reply.matching
          · split_ifs at h
            · cases h
            · exact ih h

theorem effect_of_dropCommands {answers : Answers e vars c.name} {command : Command}
    (h : command ∈ dropCommands e c answers) : Effect e vars c command := by
  unfold dropCommands at h
  dsimp only at h
  split_ifs at h with hredis hsets
  · rw [List.mem_singleton] at h
    subst h
    exact .drop _ _ fun hshared ↦ ⟨hredis, Option.isNone_iff_eq_none.mp hshared⟩
  · rw [List.mem_singleton] at h
    subst h
    exact .unlinkSet hsets
  · rcases List.mem_cons.mp h with rfl | h
    · exact .drop _ _ fun hfalse ↦ by cases hfalse
    · exact effect_of_unlinkScanned hredis hsets h

theorem effect_of_markerTeardownCommands (he : e = .redis) {command : Command}
    (h : command ∈ markerTeardownCommands c (e.indexName vars c.name)) :
    Effect e vars c command := by
  unfold markerTeardownCommands at h
  split at h
  · cases h
  · next hprofile =>
      rw [List.mem_singleton] at h
      subst h
      exact .unlinkMarker he (by rw [hprofile, Option.isSome_some])

theorem effect_of_markerCreateCommands (he : e = .redis) {command : Command}
    (h : command ∈ markerCreateCommands c (e.indexName vars c.name)) :
    Effect e vars c command := by
  unfold markerCreateCommands at h
  split at h
  · cases h
  · next hprofile =>
      rw [List.mem_cons, List.mem_singleton] at h
      rcases h with rfl | rfl
      · exact .unlinkMarker he (by rw [hprofile, Option.isSome_some])
      · exact .setMarker he (by rw [hprofile, Option.isSome_some])

theorem effect_of_configure {answers : Answers e vars c.name} {command : Command}
    (h : command ∈ configure e c answers) : Effect e vars c command := by
  unfold configure at h
  dsimp only at h
  split_ifs at h with hredis hreduced hsets
  · rcases List.mem_cons.mp h with rfl | h
    · exact .create
    · exact effect_of_markerCreateCommands hredis h
  · rcases List.mem_append.mp h with h | h
    · exact effect_of_dropCommands h
    · rcases List.mem_cons.mp h with rfl | h
      · exact .create
      · exact effect_of_markerCreateCommands hredis h
  · exact effect_of_dropCommands h
  · rcases List.mem_append.mp h with h | h
    · exact effect_of_dropCommands h
    · rw [List.mem_singleton] at h
      subst h
      exact .create

theorem effect_of_upload {ids : List Text} {command : Command}
    (h : command ∈ upload e vars c ids) : Effect e vars c command := by
  unfold upload at h
  split_ifs at h
  · obtain ⟨_, -, rfl⟩ := List.mem_map.mp h
    exact .vadd
  · obtain ⟨id, -, rfl⟩ := List.mem_map.mp h
    exact .hset id

theorem effect_of_delete {answers : Answers e vars c.name} {command : Command}
    (h : command ∈ delete e c answers) : Effect e vars c command := by
  unfold delete at h
  split_ifs at h with hredis hreduced
  · cases h
  · rcases List.mem_append.mp h with h | h
    · exact effect_of_dropCommands h
    · exact effect_of_markerTeardownCommands hredis h
  · exact effect_of_dropCommands h

theorem Issues.effect {command : Command} (h : Issues e vars c command) :
    Effect e vars c command := by
  cases h with
  | configure answers h => exact effect_of_configure h
  | upload ids h => exact effect_of_upload h
  | delete answers h => exact effect_of_delete h

end Commands

/-! ## Runs -/

section Runs

variable {e : RedisWire} {vars : Settings} {configs : List EngineConfig}

/-- Every index is one of a config, with its prefix. -/
def Ours (e : RedisWire) (vars : Settings) (configs : List EngineConfig) (s : Server) : Prop :=
  ∀ i ∈ s.indexes, ∃ (k : ℕ) (c : EngineConfig), configs[k]? = some c ∧
    c.engine = some e.engineType ∧ i = (e.indexName vars c.name, keyPrefix e vars c.name)

theorem ours_exec {s : Server} (hs : Ours e vars configs s) (a : Action e vars configs) :
    Ours e vars configs (s.exec a.command) := by
  have heffect := a.issued.effect
  generalize a.command = command at heffect
  cases heffect with
  | drop _ _ _ => exact fun i hi ↦ hs i (List.mem_filter.mp hi).1
  | create =>
      rw [Server.exec]
      split_ifs
      · exact hs
      · intro i hi
        rcases List.mem_cons.mp hi with rfl | hi
        · exact ⟨a.index, a.config, a.selected, a.engine, rfl⟩
        · exact hs i hi
  | unlinkMarker _ _ => exact hs
  | unlinkSet _ => exact hs
  | unlinkScanned _ _ _ _ => exact hs
  | setMarker _ _ => exact hs
  | hset id =>
      rw [Server.exec]
      split_ifs
      · exact hs
      · exact hs
  | vadd =>
      rw [Server.exec]
      split_ifs
      · exact hs
      · exact hs

/-- A document of a config, under a key that is no marker's. -/
structure IsDocument (e : RedisWire) (vars : Settings) (configs : List EngineConfig)
    (name key : Text) : Prop where
  engine : e ≠ .vectorsets
  id : ∃ id, key = keyPrefix e vars name ++ id
  notMarker : e = .redis → ∀ c ∈ configs, c.profile.isSome = true →
    key ≠ redisMarkerKey (e.indexName vars c.name)

/-- The one key of a config besides those of its documents: its marker or its vector set. -/
def IsOwnKey (e : RedisWire) (vars : Settings) (name key : Text) : Prop :=
  (e = .redis ∧ key = redisMarkerKey (e.indexName vars name)) ∨
    (e = .vectorsets ∧ key = e.indexName vars name)

/-- Nothing of a config is removed. -/
structure Keeps (e : RedisWire) (vars : Settings) (configs : List EngineConfig) (name : Text)
    (s s' : Server) : Prop where
  documents : ∀ key, IsDocument e vars configs name key → key ∈ s.hashes → key ∈ s'.hashes
  ownKey : ∀ key, IsOwnKey e vars name key → key ∈ s.others → key ∈ s'.others

variable {mongodbCollectionName : Text → Text} {i j : ℕ} {a b : EngineConfig}

/-- Configs with one token are one config. -/
theorem index_eq_of_sanitizeToken
    (hguard : checkCollisions vars mongodbCollectionName configs = .ok ⟨⟩)
    (hi : configs[i]? = some a) (hj : configs[j]? = some b) (ha : a.engine = some e.engineType)
    (hb : b.engine = some e.engineType) (h : sanitizeToken a.name = sanitizeToken b.name) :
    i = j :=
  by_contra fun hij ↦ indexName_ne hguard hi hj ha hb hij (indexName_congr h)

/-- An index that covers a document of a config is its own. -/
theorem not_covers (hguard : checkCollisions vars mongodbCollectionName configs = .ok ⟨⟩)
    (hi : configs[i]? = some a) (hj : configs[j]? = some b) (ha : a.engine = some e.engineType)
    (hb : b.engine = some e.engineType) (hij : i ≠ j) (hshared : sharedKeyPrefix vars = none)
    {s : Server} (hs : Ours e vars configs s) (id : Text) :
    s.covers (e.indexName vars a.name) (keyPrefix e vars b.name ++ id) = false := by
  have hkey : ∀ name, keyPrefix e vars name = deriveKeyPrefix name := by
    intro name
    by_cases he : e = .redis
    · rw [he, keyPrefix, hshared, Option.getD_none]
    · exact keyPrefix_of_ne he name
  rw [Server.covers, List.any_eq_false]
  intro index hindex hcovers
  obtain ⟨k, c, hk, hc, rfl⟩ := hs index hindex
  rw [Bool.and_eq_true, decide_eq_true_eq, List.isPrefixOf_iff_prefix] at hcovers
  obtain ⟨hname, hprefix⟩ := hcovers
  have hki : k = i := by_contra fun hne ↦ indexName_ne hguard hk hi hc ha hne hname
  subst hki
  obtain rfl : c = a := Option.some.inj (hk.symm.trans hi)
  rw [hkey, hkey, deriveKeyPrefix_prefix] at hprefix
  exact hij (index_eq_of_sanitizeToken hguard hk hj hc hb hprefix)

theorem not_contains_singleton {key k : Text} (h : key ≠ k) : (!([k].contains key)) = true := by
  rw [Bool.not_eq_true', ← Bool.not_eq_true, List.contains_iff_mem, List.mem_singleton]
  exact h

/-- A command of one config keeps the keys of another. -/
theorem keeps_exec (hguard : checkCollisions vars mongodbCollectionName configs = .ok ⟨⟩)
    (hj : configs[j]? = some b) (hb : b.engine = some e.engineType) {s : Server}
    (hs : Ours e vars configs s) {act : Action e vars configs} (hact : act.index ≠ j) :
    Keeps e vars configs b.name s (s.exec act.command) := by
  obtain ⟨i, c, command, hi, hc, hissued⟩ := act
  have hne := indexName_ne hguard hi hj hc hb hact
  have hmem : c ∈ configs := List.mem_of_getElem? hi
  have hmarker : redisMarkerKey (e.indexName vars b.name) ≠
      redisMarkerKey (e.indexName vars c.name) := by
    rw [redisMarkerKey, redisMarkerKey, Ne, List.append_cancel_left_eq]
    exact hne.symm
  have heffect := hissued.effect
  cases heffect with
  | drop deleteDocs documents hdelete =>
      refine ⟨fun key hkey hold ↦ List.mem_filter.mpr ⟨hold, ?_⟩, fun key _ hold ↦ hold⟩
      obtain ⟨id, rfl⟩ := hkey.id
      cases deleteDocs with
      | false => rfl
      | true =>
          rw [not_covers hguard hi hj hc hb hact (hdelete rfl).2 hs id, Bool.and_false]
          rfl
  | create =>
      refine ⟨fun key _ hold ↦ ?_, fun key _ hold ↦ ?_⟩
      · rw [Server.exec]
        split_ifs
        · exact hold
        · exact hold
      · rw [Server.exec]
        split_ifs
        · exact hold
        · exact hold
  | unlinkMarker he hprofile =>
      refine ⟨fun key hkey hold ↦ List.mem_filter.mpr ⟨hold, ?_⟩,
        fun key hkey hold ↦ List.mem_filter.mpr ⟨hold, ?_⟩⟩
      · exact not_contains_singleton (hkey.notMarker he c hmem hprofile)
      · rcases hkey with ⟨-, rfl⟩ | ⟨hsets, -⟩
        · exact not_contains_singleton hmarker
        · rw [he] at hsets
          cases hsets
  | unlinkSet he =>
      refine ⟨fun key hkey _ ↦ absurd he hkey.engine,
        fun key hkey hold ↦ List.mem_filter.mpr ⟨hold, ?_⟩⟩
      rcases hkey with ⟨hredis, -⟩ | ⟨-, rfl⟩
      · rw [he] at hredis
        cases hredis
      · exact not_contains_singleton hne.symm
  | unlinkScanned keys hredis hsets hkeys =>
      refine ⟨fun key hkey hold ↦ List.mem_filter.mpr ⟨hold, ?_⟩, fun key hkey _ ↦ ?_⟩
      · obtain ⟨id, rfl⟩ := hkey.id
        rw [keyPrefix_of_ne hredis, Bool.not_eq_true', ← Bool.not_eq_true, List.contains_iff_mem]
        intro hfound
        have htoken := globMatches_teardownPattern.mp (hkeys _ hfound)
        exact hact (index_eq_of_sanitizeToken hguard hi hj hc hb htoken)
      · rcases hkey with ⟨he, -⟩ | ⟨he, -⟩
        · exact absurd he hredis
        · exact absurd he hsets
  | setMarker he hprofile =>
      refine ⟨fun key hkey hold ↦ List.mem_filter.mpr ⟨hold, ?_⟩,
        fun key _ hold ↦ List.mem_cons_of_mem _ hold⟩
      exact decide_eq_true (hkey.notMarker he c hmem hprofile)
  | hset id =>
      refine ⟨fun key _ hold ↦ ?_, fun key _ hold ↦ ?_⟩
      · rw [Server.exec]
        split_ifs
        · exact hold
        · exact List.mem_cons_of_mem _ hold
      · rw [Server.exec]
        split_ifs
        · exact hold
        · exact hold
  | vadd =>
      refine ⟨fun key _ hold ↦ ?_, fun key _ hold ↦ ?_⟩
      · rw [Server.exec]
        split_ifs
        · exact hold
        · exact hold
      · rw [Server.exec]
        split_ifs
        · exact hold
        · exact List.mem_cons_of_mem _ hold

variable {hashes others : List Text}

theorem keeps_runFrom (hguard : checkCollisions vars mongodbCollectionName configs = .ok ⟨⟩)
    (hj : configs[j]? = some b) (hb : b.engine = some e.engineType) {s s' : Server}
    (hs : Ours e vars configs s) {acts : List (Action e vars configs)}
    (hacts : ∀ act ∈ acts, act.index ≠ j)
    (hrun : (machine e vars configs hashes others).runFrom s acts = some s') :
    Keeps e vars configs b.name s s' := by
  induction acts generalizing s with
  | nil =>
      cases hrun
      exact ⟨fun _ _ hold ↦ hold, fun _ _ hold ↦ hold⟩
  | cons act acts ih =>
      rw [List.forall_mem_cons] at hacts
      obtain ⟨t, ht, hrun⟩ := Machine.runFrom_cons.mp hrun
      cases ht
      have hfirst := keeps_exec hguard hj hb hs hacts.1
      have hrest := ih (ours_exec hs act) hacts.2 hrun
      exact ⟨fun key hkey hold ↦ hrest.documents key hkey (hfirst.documents key hkey hold),
        fun key hkey hold ↦ hrest.ownKey key hkey (hfirst.ownKey key hkey hold)⟩

/-- Configs of one engine that pass the collision guard have different indexes, the teardown
pattern of one finds no document of another, and no run of other configs removes a key of one. -/
theorem teardown_isolated (hguard : checkCollisions vars mongodbCollectionName configs = .ok ⟨⟩)
    (hj : configs[j]? = some b) (hb : b.engine = some e.engineType) :
    (∀ i a, configs[i]? = some a → a.engine = some e.engineType →
      (e.indexName vars a.name = e.indexName vars b.name ↔ i = j) ∧
      ∀ id, globMatches (teardownPattern (deriveKeyPrefix a.name)) (deriveKeyPrefix b.name ++ id) =
        true ↔ i = j) ∧
    ∀ hashes others s s' acts, (machine e vars configs hashes others).Reachable s →
      (∀ act ∈ acts, act.index ≠ j) →
      (machine e vars configs hashes others).runFrom s acts = some s' →
      Keeps e vars configs b.name s s' := by
  refine ⟨fun i a hi ha ↦ ?_, fun hashes others s s' acts hs hacts hrun ↦ ?_⟩
  · have hsame : i = j → a = b := by
      rintro rfl
      exact Option.some.inj (hi.symm.trans hj)
    refine ⟨⟨fun hname ↦ ?_, fun hij ↦ ?_⟩, fun id ↦ ?_⟩
    · exact by_contra fun hij ↦ indexName_ne hguard hi hj ha hb hij hname
    · rw [hsame hij]
    · rw [globMatches_teardownPattern]
      refine ⟨index_eq_of_sanitizeToken hguard hi hj ha hb, fun hij ↦ ?_⟩
      rw [hsame hij]
  · have hours : Ours e vars configs s :=
      hs.invariant (fun i hi ↦ absurd hi List.not_mem_nil) fun s act s' hstep hs ↦ by
        cases hstep
        exact ours_exec hs act
    exact keeps_runFrom hguard hj hb hours hacts hrun

/-! ### Two configs -/

def starConfigs : List EngineConfig :=
  [⟨"m-1*".toList, some "valkey", none⟩, ⟨"m-1".toList, some "valkey", none⟩]

/-- A star in the name of a config. -/
theorem teardown_isolated_star :
    {id | globMatches (teardownPattern (deriveKeyPrefix "m-1*".toList))
      (deriveKeyPrefix "m-1".toList ++ id) = true} = ∅ := by
  refine Set.eq_empty_of_forall_notMem fun id hid ↦ ?_
  have hguard : checkCollisions (fun _ ↦ none) (fun name ↦ name) starConfigs = .ok ⟨⟩ := by
    rfl
  have hiff := ((teardown_isolated (e := .valkey) hguard (j := 1) rfl rfl).1 0 _ rfl rfl).2 id
  exact Nat.zero_ne_one (hiff.mp hid)

end Runs

end VectorDbBenchmark.IndexNaming
