import Mathlib.Data.List.Sort
import VectorDbBenchmark.EffectiveConfig.Faithful
import VectorDbBenchmark.JsonFields
import VectorDbBenchmark.Kit.Pointwise

/-!
# The recorder

`Recorder` of `effective_config.rs`: the knobs that an experiment resolved, and the block an
artifact publishes of them.  The block is checked to have no secret in the clear, which it
is unless a knob or a variable has the name `key`: the check takes such a member for the
name of the others.
-/

namespace VectorDbBenchmark.EffectiveConfig

open Kit

def engineParamsSchemaVersion : ℕ := 1

def ignoredKeysCovers : String :=
  "hnsw_config keys serde could not type, plus the CI-asserted KNOWN_UNREAD inventory for " ++
    "this engine"

structure Override where
  key : String
  declared : Json
  effective : Json
  reason : String

structure Recorder where
  declared : Option Json
  invocation : Option Json
  phase : Option String
  env : List (String × Json)
  effective : List (String × Json)
  overridden : List Override
  ignored : List String
  fromDefault : List String

/-! ## Operations -/

section Operations

def Recorder.new : Recorder := ⟨none, none, none, [], [], [], [], []⟩

/-- `BTreeMap::insert`. -/
def treeInsert (key : String) (v : Json) (es : List (String × Json)) : List (String × Json) :=
  (es.filter fun e ↦ e.1 ≠ key).orderedInsert (fun e f ↦ e.1 ≤ f.1) (key, v)

/-- `BTreeSet::insert`. -/
def setInsert (key : String) (ks : List String) : List String :=
  (ks.filter fun k ↦ k ≠ key).orderedInsert (· ≤ ·) key

inductive Operation where
  | setDeclared (collectionParams uploadParams : Option Json)
  | setInvocation (invocation : Json)
  | setPhase (phase : String)
  | observeEnv (name : String) (raw : Option String)
  | recordEffective (key : String) (value : Json)
  | recordEffectiveFromDefault (key : String) (value : Json)
  | noteOverride (key : String) (declared effective : Json) (reason : String)
  | noteIgnored (key : String)
  | begin

namespace Recorder

variable (r : Recorder)

def setDeclared (collectionParams uploadParams : Option Json) : Recorder :=
  { r with
    declared := some (.object [("collection_params", collectionParams.getD .null),
      ("upload_params", uploadParams.getD .null)]) }

/-- The first observation wins. -/
def observeEnv (name : String) (raw : Option String) : Recorder :=
  if r.env.any (·.1 = name) then r
  else { r with env := treeInsert name ((raw.map Json.string).getD .null) r.env }

/-- The last write wins. -/
def recordEffective (key : String) (value : Json) : Recorder :=
  { r with
    effective := treeInsert key value r.effective
    fromDefault := r.fromDefault.filter fun k ↦ k ≠ key }

def recordEffectiveFromDefault (key : String) (value : Json) : Recorder :=
  { r with
    effective := treeInsert key value r.effective
    fromDefault := setInsert key r.fromDefault }

def noteOverride (key : String) (declared effective : Json) (reason : String) : Recorder :=
  if r.overridden.any fun o ↦ o.key = key && o.declared.eq declared &&
      o.effective.eq effective && o.reason = reason then r
  else { r with overridden := r.overridden ++ [⟨key, declared, effective, reason⟩] }

def noteIgnored (key : String) : Recorder := { r with ignored := setInsert key r.ignored }

def apply : Operation → Recorder
  | .setDeclared collectionParams uploadParams => r.setDeclared collectionParams uploadParams
  | .setInvocation invocation => { r with invocation := some invocation }
  | .setPhase phase => { r with phase := some phase }
  | .observeEnv name raw => r.observeEnv name raw
  | .recordEffective key value => r.recordEffective key value
  | .recordEffectiveFromDefault key value => r.recordEffectiveFromDefault key value
  | .noteOverride key declared effective reason => r.noteOverride key declared effective reason
  | .noteIgnored key => r.noteIgnored key
  | .begin => new

end Recorder

/-- The state that operations come to. -/
def run (ops : List Operation) : Recorder := ops.foldl Recorder.apply .new

end Operations

/-! ## The snapshot -/

section Snapshot

variable (sha256 : String → Text) (display : Json → String)

namespace Recorder

variable (r : Recorder)

/-- What was declared under a key. -/
def declaredPart (key : String) : Json := ((r.declared.bind (Json.get key)).getD .null)

def scrubbedDeclared : Json :=
  if r.declared.isNone then .null
  else
    .object [("collection_params", scrub sha256 false true (r.declaredPart "collection_params")),
      ("upload_params", scrub sha256 false true (r.declaredPart "upload_params"))]

def effectiveValue (e : String × Json) : Json :=
  if isSecret e.1 && r.fromDefault.contains e.1 then .string redactedDefault
  else scrubValue sha256 e.2 (isSecret e.1)

def scrubbedEffective : Json :=
  .object (collect (r.effective.map fun e ↦ (e.1, r.effectiveValue sha256 e)))

def scrubbedEnv : Json :=
  .object (collect (r.env.map fun e ↦ (e.1, scrubValue sha256 e.2 (isSecret e.1))))

end Recorder

def Override.toJson (o : Override) : Json :=
  .object [("key", .string (redactConnectionLike sha256 o.key)),
    ("declared", scrubValue sha256 o.declared (isSecret o.key)),
    ("effective", scrubValue sha256 o.effective (isSecret o.key)),
    ("reason", .string o.reason)]

def ignoredJson (ignored : List String) : Json :=
  .object [("exhaustive", .bool false), ("covers", .string ignoredKeysCovers),
    ("keys", .array (ignored.map fun k ↦ .string (redactConnectionLike sha256 k)))]

namespace Recorder

variable (r : Recorder)

def document : Json :=
  .object [("schema_version", .ofNat engineParamsSchemaVersion),
    ("phase", (r.phase.map Json.string).getD .null),
    ("invocation", scrubValue sha256 (r.invocation.getD .null) false),
    ("declared", r.scrubbedDeclared sha256),
    ("effective", r.scrubbedEffective sha256),
    ("env", r.scrubbedEnv sha256),
    ("overridden", .array (r.overridden.map (Override.toJson sha256))),
    ("ignored_declared_keys", ignoredJson sha256 r.ignored)]

/-- `Recorder::snapshot`; a failed check is a panic. -/
def snapshot : Except String Json := do
  assertNoCleartextSecrets sha256 display false "engine_params" (r.document sha256)
  .ok (r.document sha256)

end Recorder

end Snapshot

/-! ## Invariants of a run -/

section Invariants

/-- A member called `key` that holds the name of a credential. -/
def NamesSecret (e : String × Json) : Prop :=
  e.1 = "key" ∧ ∃ s, e.2 = .string s ∧ isPlainToken s = true ∧ isSecret s = true

namespace Operation

/-- The values an operation records. -/
def values : Operation → List Json
  | .setDeclared collectionParams uploadParams => collectionParams.toList ++ uploadParams.toList
  | .setInvocation invocation => [invocation]
  | .recordEffective _ value => [value]
  | .recordEffectiveFromDefault _ value => [value]
  | .noteOverride _ declared effective _ => [declared, effective]
  | _ => []

/-- The members an operation adds to the knobs and the variables. -/
def members : Operation → List (String × Json)
  | .observeEnv name raw => [(name, (raw.map Json.string).getD .null)]
  | .recordEffective key value => [(key, value)]
  | .recordEffectiveFromDefault key value => [(key, value)]
  | _ => []

/-- The maps of the values have each key once. -/
def WellFormed (o : Operation) : Prop := ∀ v ∈ o.values, v.keysDistinct = true

/-- No knob and no variable is called `key` and holds the name of a credential. -/
def Quiet (o : Operation) : Prop := ∀ e ∈ o.members, ¬NamesSecret e

end Operation

structure Recorder.Quiet (r : Recorder) : Prop where
  declared : ∀ key, (r.declaredPart key).keysDistinct = true
  invocation : (r.invocation.getD .null).keysDistinct = true
  env : ∀ e ∈ r.env, e.2.keysDistinct = true ∧ ¬NamesSecret e
  effective : ∀ e ∈ r.effective, e.2.keysDistinct = true ∧ ¬NamesSecret e
  overridden : ∀ o ∈ r.overridden, o.declared.keysDistinct = true ∧ o.effective.keysDistinct = true

theorem mem_of_mem_treeInsert {key : String} {v : Json} {es : List (String × Json)}
    {e : String × Json} (h : e ∈ treeInsert key v es) : e = (key, v) ∨ e ∈ es := by
  rw [treeInsert, List.mem_orderedInsert] at h
  exact h.imp_right List.mem_of_mem_filter

theorem quiet_new : Recorder.new.Quiet where
  declared _ := rfl
  invocation := rfl
  env _ he := absurd he List.not_mem_nil
  effective _ he := absurd he List.not_mem_nil
  overridden _ ho := absurd ho List.not_mem_nil

/-- Each operation keeps the invariant. -/
theorem Recorder.Quiet.apply {r : Recorder} (h : r.Quiet) {o : Operation} (ho : o.WellFormed)
    (hquiet : o.Quiet) : (r.apply o).Quiet := by
  have hinsert : ∀ {key v} {es : List (String × Json)}, v.keysDistinct = true →
      ¬NamesSecret (key, v) → (∀ e ∈ es, e.2.keysDistinct = true ∧ ¬NamesSecret e) →
      ∀ e ∈ treeInsert key v es, e.2.keysDistinct = true ∧ ¬NamesSecret e := by
    intro key v es hv hname hes e he
    rcases mem_of_mem_treeInsert he with rfl | he
    · exact ⟨hv, hname⟩
    · exact hes e he
  cases o with
  | setDeclared collectionParams uploadParams =>
      refine ⟨fun key ↦ ?_, h.invocation, h.env, h.effective, h.overridden⟩
      have hpart : ∀ p : Option Json, p.toList ⊆
          Operation.values (.setDeclared collectionParams uploadParams) →
          (p.getD .null).keysDistinct = true := by
        intro p hp
        cases p with
        | none => rfl
        | some v => exact ho v (hp List.mem_cons_self)
      show ((Json.getEntry key [("collection_params", collectionParams.getD .null),
        ("upload_params", uploadParams.getD .null)]).getD .null).keysDistinct = true
      rw [Json.getEntry, Json.getEntry]
      split_ifs
      · exact hpart collectionParams (List.subset_append_left _ _)
      · exact hpart uploadParams (List.subset_append_right _ _)
      · rfl
  | setInvocation invocation =>
      exact ⟨h.declared, ho invocation List.mem_cons_self, h.env, h.effective, h.overridden⟩
  | setPhase phase => exact ⟨h.declared, h.invocation, h.env, h.effective, h.overridden⟩
  | observeEnv name raw =>
      show (r.observeEnv name raw).Quiet
      rw [observeEnv]
      split_ifs
      · exact h
      · refine ⟨h.declared, h.invocation, ?_, h.effective, h.overridden⟩
        refine hinsert ?_ (hquiet _ List.mem_cons_self) h.env
        cases raw <;> rfl
  | recordEffective key value =>
      refine ⟨h.declared, h.invocation, h.env, ?_, h.overridden⟩
      exact hinsert (ho value List.mem_cons_self) (hquiet _ List.mem_cons_self) h.effective
  | recordEffectiveFromDefault key value =>
      refine ⟨h.declared, h.invocation, h.env, ?_, h.overridden⟩
      exact hinsert (ho value List.mem_cons_self) (hquiet _ List.mem_cons_self) h.effective
  | noteOverride key declared effective reason =>
      show (r.noteOverride key declared effective reason).Quiet
      rw [noteOverride]
      split_ifs
      · exact h
      · refine ⟨h.declared, h.invocation, h.env, h.effective, fun o hmem ↦ ?_⟩
        rcases List.mem_append.mp hmem with hmem | hmem
        · exact h.overridden o hmem
        · rw [List.mem_singleton.mp hmem]
          exact ⟨ho declared List.mem_cons_self,
            ho effective (List.mem_cons_of_mem _ List.mem_cons_self)⟩
  | noteIgnored key => exact ⟨h.declared, h.invocation, h.env, h.effective, h.overridden⟩
  | begin => exact quiet_new

theorem quiet_run {ops : List Operation} (hops : ∀ o ∈ ops, o.WellFormed ∧ o.Quiet) :
    (run ops).Quiet := by
  have hfold : ∀ {ops : List Operation} {r : Recorder}, (∀ o ∈ ops, o.WellFormed ∧ o.Quiet) →
      r.Quiet → (ops.foldl Recorder.apply r).Quiet := by
    intro ops
    induction ops with
    | nil => exact fun _ h ↦ h
    | cons o ops ih =>
        intro r hops h
        rw [List.forall_mem_cons] at hops
        exact ih hops.2 (h.apply hops.1.1 hops.1.2)
  exact hfold hops quiet_new

end Invariants

/-! ## The snapshot does not panic -/

section Accepted

variable {sha256 : String → Text} {display : Json → String}

/-- Outside of secrets a leaf is accepted. -/
theorem assert_leaf {v : Json} (hv : isLeaf v = true) (path : String) :
    assertNoCleartextSecrets sha256 display false path v = .ok () := by
  cases v with
  | null => cases hv
  | array _ => cases hv
  | object _ => cases hv
  | bool _ => rfl
  | number _ => rfl
  | string _ => rfl

/-- The members of a map, each scrubbed under its own name. -/
theorem assert_members (hhex : Hexadecimal sha256) {es : List (String × Json)}
    {value : String × Json → Json}
    (hes : ∀ e ∈ es, e.2.keysDistinct = true ∧ ¬NamesSecret e)
    (hvalue : ∀ e ∈ es, value e = scrubValue sha256 e.2 (isSecret e.1) ∨
      isSecret e.1 = true ∧ value e = .string redactedDefault) (path : String) :
    assertNoCleartextSecrets sha256 display false path
      (.object (collect (es.map fun e ↦ (e.1, value e)))) = .ok () := by
  have hseeds : seeds (collect (es.map fun e ↦ (e.1, value e))) = false := by
    refine Bool.eq_false_iff.mpr fun h ↦ ?_
    obtain ⟨s, hget, hs⟩ := seeds_iff.mp h
    obtain ⟨e, he, hentry⟩ := List.mem_map.mp (mem_of_mem_collect (Json.mem_of_getEntry hget))
    obtain ⟨hname, hs'⟩ := Prod.mk.inj hentry
    have hkey : isSecret e.1 = false := by
      rw [hname]
      decide
    rcases hvalue e he with hscrub | ⟨hsecret, -⟩
    · have hstring : scrub sha256 false false e.2 = .string s := by
        rw [← hs', hscrub, scrubValue, hkey]
      have hraw := eq_string_of_scrub hhex hstring hs
      refine (hes e he).2 ⟨hname, s, hraw, ?_, hs⟩
      rw [hraw] at hstring
      have hplain : redactConnectionLike sha256 s = s := Json.string.inj hstring
      rw [redactConnectionLike] at hplain
      split_ifs at hplain with hp
      · exact hp
      · rw [← hplain, isSecret_opaqueDigest hhex] at hs
        cases hs
    · rw [hsecret] at hkey
      cases hkey
  rw [assertNoCleartextSecrets, hseeds]
  refine assertEntries_eq_ok fun f hf path ↦ ?_
  obtain ⟨e, he, rfl⟩ := List.mem_map.mp (mem_of_mem_collect hf)
  have hflag : secretAt false false e.1 = isSecret e.1 := by
    rw [secretAt, Bool.false_or, Bool.false_and, Bool.or_false]
  rw [hflag]
  rcases hvalue e he with hscrub | ⟨-, hdefault⟩
  · rw [hscrub]
    exact assert_scrub hhex (fun h ↦ h) (hes e he).1 path
  · rw [hdefault, assertNoCleartextSecrets, assertLeaf]
    · exact if_pos (by simp [Json.asStr])
    all_goals simp

/-- An override is scrubbed under the name it is checked under. -/
theorem assert_override (hhex : Hexadecimal sha256) {o : Override}
    (ho : o.declared.keysDistinct = true ∧ o.effective.keysDistinct = true) (path : String) :
    assertNoCleartextSecrets sha256 display false path (o.toJson sha256) = .ok () := by
  have hseed : ∀ {es : List (String × Json)} {key : String},
      secretAt false (seeds (("key", .string (redactConnectionLike sha256 o.key)) :: es)) key =
        true → isSecret key = false → isSecret o.key = true := by
    intro es key h hkey
    rw [secretAt, hkey, Bool.false_or, Bool.false_or, Bool.and_eq_true] at h
    have hs : isSecret (redactConnectionLike sha256 o.key) = true := h.1
    rwa [eq_of_isSecret_redact hhex hs] at hs
  have hexempt : ∀ {seed : Bool} {key : String}, isSecret key = false →
      entryKeyExempt.contains key = true → secretAt false seed key = false := by
    intro seed key hkey hmem
    rw [secretAt, hkey, hmem, Bool.not_true, Bool.and_false]
    rfl
  rw [Override.toJson, assertNoCleartextSecrets]
  refine assertEntries_eq_ok fun e he path ↦ ?_
  simp only [List.mem_cons, List.not_mem_nil, or_false] at he
  rcases he with rfl | rfl | rfl | rfl <;> dsimp only
  · rw [hexempt (by decide) (by decide)]
    exact assert_leaf rfl path
  · exact assert_scrub hhex (fun h ↦ hseed h (by decide)) ho.1 path
  · exact assert_scrub hhex (fun h ↦ hseed h (by decide)) ho.2 path
  · rw [hexempt (by decide) (by decide)]
    exact assert_leaf rfl path

theorem assert_ignored (ignored : List String) (path : String) :
    assertNoCleartextSecrets sha256 display false path (ignoredJson sha256 ignored) = .ok () := by
  have hnames : ∀ path, assertNoCleartextSecrets sha256 display false path
      (.array (ignored.map fun k ↦ .string (redactConnectionLike sha256 k))) = .ok () := by
    intro path
    rw [assertNoCleartextSecrets]
    refine assertEach_eq_ok fun v hv path ↦ ?_
    obtain ⟨k, -, rfl⟩ := List.mem_map.mp hv
    exact assert_leaf rfl path
  have hflags : ∀ key ∈ ["exhaustive", "covers", "keys"], secretAt false false key = false := by
    decide
  rw [ignoredJson, assertNoCleartextSecrets]
  refine assertEntries_eq_ok fun e he path ↦ ?_
  show assertNoCleartextSecrets sha256 display (secretAt false false e.1) path e.2 = .ok ()
  simp only [List.mem_cons, List.not_mem_nil, or_false] at he
  rcases he with rfl | rfl | rfl <;> dsimp only
  · rw [hflags _ (by decide)]
    exact assert_leaf rfl path
  · rw [hflags _ (by decide)]
    exact assert_leaf rfl path
  · rw [hflags _ (by decide)]
    exact hnames path

theorem assert_declared (hhex : Hexadecimal sha256) {r : Recorder} (h : r.Quiet) (path : String) :
    assertNoCleartextSecrets sha256 display false path (r.scrubbedDeclared sha256) = .ok () := by
  rw [Recorder.scrubbedDeclared]
  split_ifs
  · rfl
  · rw [assertNoCleartextSecrets]
    refine assertEntries_eq_ok fun e he path ↦ ?_
    have hflags : ∀ key ∈ ["collection_params", "upload_params"],
        secretAt false false key = false := by decide
    show assertNoCleartextSecrets sha256 display (secretAt false false e.1) path e.2 = .ok ()
    simp only [List.mem_cons, List.not_mem_nil, or_false] at he
    rcases he with rfl | rfl <;> dsimp only
    · rw [hflags _ (by decide)]
      exact assert_scrub hhex (fun h ↦ h) (h.declared _) path
    · rw [hflags _ (by decide)]
      exact assert_scrub hhex (fun h ↦ h) (h.declared _) path

/-- A run without such names comes to a state whose snapshot passes the check. -/
theorem assert_document (hhex : Hexadecimal sha256) {r : Recorder} (h : r.Quiet) (path : String) :
    assertNoCleartextSecrets sha256 display false path (r.document sha256) = .ok () := by
  have hflags : ∀ key ∈ ["schema_version", "phase", "invocation", "declared", "effective", "env",
      "overridden", "ignored_declared_keys"], secretAt false false key = false := by decide
  rw [Recorder.document, assertNoCleartextSecrets]
  refine assertEntries_eq_ok fun e he path ↦ ?_
  show assertNoCleartextSecrets sha256 display (secretAt false false e.1) path e.2 = .ok ()
  have hname : e.1 ∈ ["schema_version", "phase", "invocation", "declared", "effective", "env",
      "overridden", "ignored_declared_keys"] := List.mem_map_of_mem (f := Prod.fst) he
  rw [hflags _ hname]
  simp only [List.mem_cons, List.not_mem_nil, or_false] at he
  rcases he with rfl | rfl | rfl | rfl | rfl | rfl | rfl | rfl
  · exact assert_leaf rfl path
  · cases r.phase <;> rfl
  · exact assert_scrub hhex (fun h ↦ h) h.invocation path
  · exact assert_declared hhex h path
  · refine assert_members hhex h.effective (fun e _ ↦ ?_) path
    rw [Recorder.effectiveValue]
    split_ifs with hdefault
    · rw [Bool.and_eq_true] at hdefault
      exact .inr ⟨hdefault.1, rfl⟩
    · exact .inl rfl
  · exact assert_members hhex h.env (fun e _ ↦ .inl rfl) path
  · rw [assertNoCleartextSecrets]
    refine assertEach_eq_ok fun v hv path ↦ ?_
    obtain ⟨o, ho, rfl⟩ := List.mem_map.mp hv
    exact assert_override hhex (h.overridden o ho) path
  · exact assert_ignored r.ignored path

end Accepted

/-! ## What a snapshot tells -/

section Told

variable {sha256 : String → Text} {display : Json → String}

/-- Members that differ at most in leaves below a credential's key, their own included. -/
def SameMembers : List (String × Json) → List (String × Json) → Prop :=
  List.Forall₂ fun e f ↦ e.1 = f.1 ∧ SameBut (isSecret e.1) e.2 f.2

/-- States that differ at most in leaves below a credential's key. -/
structure Recorder.SameBut (r s : Recorder) : Prop where
  isNone : r.declared.isNone = s.declared.isNone
  declared : ∀ key, EffectiveConfig.SameBut false (r.declaredPart key) (s.declaredPart key)
  invocation : EffectiveConfig.SameBut false (r.invocation.getD .null) (s.invocation.getD .null)
  phase : r.phase = s.phase
  env : SameMembers r.env s.env
  effective : SameMembers r.effective s.effective
  overridden : List.Forall₂ (fun o p ↦ o.key = p.key ∧ o.reason = p.reason ∧
    EffectiveConfig.SameBut (isSecret o.key) o.declared p.declared ∧
    EffectiveConfig.SameBut (isSecret o.key) o.effective p.effective) r.overridden s.overridden
  ignored : r.ignored = s.ignored
  fromDefault : r.fromDefault = s.fromDefault

theorem document_eq_of_sameBut {r s : Recorder} (h : r.SameBut s) :
    r.document sha256 = s.document sha256 := by
  have hdeclared : r.scrubbedDeclared sha256 = s.scrubbedDeclared sha256 := by
    rw [Recorder.scrubbedDeclared, Recorder.scrubbedDeclared, h.isNone,
      scrub_eq_of_sameBut (h.declared "collection_params"),
      scrub_eq_of_sameBut (h.declared "upload_params")]
  have hinvocation : scrubValue sha256 (r.invocation.getD .null) false =
      scrubValue sha256 (s.invocation.getD .null) false := scrub_eq_of_sameBut h.invocation
  have hmember : ∀ e f : String × Json, e.1 = f.1 ∧ EffectiveConfig.SameBut (isSecret e.1) e.2 f.2 →
      scrubValue sha256 e.2 (isSecret e.1) = scrubValue sha256 f.2 (isSecret f.1) := by
    rintro e f ⟨hname, hvalue⟩
    rw [← hname]
    exact scrub_eq_of_sameBut hvalue
  have henv : r.scrubbedEnv sha256 = s.scrubbedEnv sha256 := by
    refine congrArg (Json.object ∘ collect) (map_eq_map_of_forall₂ h.env fun e f hef ↦ ?_)
    rw [hef.1, ← hmember e f hef, hef.1]
  have heffective : r.scrubbedEffective sha256 = s.scrubbedEffective sha256 := by
    refine congrArg (Json.object ∘ collect) (map_eq_map_of_forall₂ h.effective fun e f hef ↦ ?_)
    rw [Recorder.effectiveValue, Recorder.effectiveValue, h.fromDefault, hmember e f hef, hef.1]
  have hoverridden : r.overridden.map (Override.toJson sha256) =
      s.overridden.map (Override.toJson sha256) := by
    refine map_eq_map_of_forall₂ h.overridden ?_
    rintro o p ⟨hkey, hreason, hdeclared, heffective⟩
    rw [Override.toJson, Override.toJson, scrubValue, scrubValue, scrub_eq_of_sameBut hdeclared,
      scrub_eq_of_sameBut heffective, hkey, hreason]
    rfl
  rw [Recorder.document, Recorder.document, hdeclared, hinvocation, henv, heffective, hoverridden,
    h.phase, h.ignored]

/-- The texts that the authors of the tool wrote. -/
def Recorder.authored (r : Recorder) : List String :=
  r.phase.toList ++ ignoredKeysCovers :: r.overridden.map (·.reason)

/-- The texts that an operator gave. -/
def Recorder.given (r : Recorder) : List String :=
  texts (r.invocation.getD .null) ++ texts (r.declaredPart "collection_params") ++
    texts (r.declaredPart "upload_params") ++ textsIn r.effective ++ textsIn r.env ++
    r.overridden.flatMap (fun o ↦ o.key :: (texts o.declared ++ texts o.effective)) ++ r.ignored

theorem published_override {o : Override} {s : String} (h : s ∈ texts (o.toJson sha256)) :
    s = o.reason ∨ Published sha256 (o.key :: (texts o.declared ++ texts o.effective)) s := by
  rw [Override.toJson, texts, mem_textsIn] at h
  obtain ⟨e, he, hs⟩ := h
  simp only [List.mem_cons, List.not_mem_nil, or_false] at he
  rcases he with rfl | rfl | rfl | rfl
  · rw [List.mem_singleton.mp hs]
    exact .inr (published_redact List.mem_cons_self)
  · exact .inr ((published_scrub hs).mono fun t ht ↦
      List.mem_cons_of_mem _ (List.mem_append_left _ ht))
  · exact .inr ((published_scrub hs).mono fun t ht ↦
      List.mem_cons_of_mem _ (List.mem_append_right _ ht))
  · exact .inl (List.mem_singleton.mp hs)

theorem published_ignored {ignored : List String} {s : String}
    (h : s ∈ texts (ignoredJson sha256 ignored)) :
    s = ignoredKeysCovers ∨ Published sha256 ignored s := by
  rw [ignoredJson, texts, mem_textsIn] at h
  obtain ⟨e, he, hs⟩ := h
  simp only [List.mem_cons, List.not_mem_nil, or_false] at he
  rcases he with rfl | rfl | rfl
  · cases hs
  · exact .inl (List.mem_singleton.mp hs)
  · rw [texts, mem_textsEach] at hs
    obtain ⟨v, hv, hs⟩ := hs
    obtain ⟨k, hk, rfl⟩ := List.mem_map.mp hv
    rw [List.mem_singleton.mp hs]
    exact .inr (published_redact hk)

theorem published_declared {r : Recorder} {s : String}
    (h : s ∈ texts (r.scrubbedDeclared sha256)) :
    Published sha256 (texts (r.declaredPart "collection_params") ++
      texts (r.declaredPart "upload_params")) s := by
  rw [Recorder.scrubbedDeclared] at h
  split_ifs at h
  · cases h
  · rw [texts, mem_textsIn] at h
    obtain ⟨e, he, hs⟩ := h
    simp only [List.mem_cons, List.not_mem_nil, or_false] at he
    rcases he with rfl | rfl
    · exact (published_scrub hs).mono (List.subset_append_left _ _)
    · exact (published_scrub hs).mono (List.subset_append_right _ _)

theorem published_members {es : List (String × Json)} {value : String × Json → Json} {s : String}
    (hvalue : ∀ e ∈ es, s ∈ texts (value e) → Published sha256 (texts e.2) s)
    (h : s ∈ texts (.object (collect (es.map fun e ↦ (e.1, value e))))) :
    Published sha256 (textsIn es) s := by
  rw [texts, mem_textsIn] at h
  obtain ⟨f, hf, hs⟩ := h
  obtain ⟨e, he, rfl⟩ := List.mem_map.mp (mem_of_mem_collect hf)
  exact (hvalue e he hs).mono fun t ht ↦ mem_textsIn.mpr ⟨e, he, ht⟩

/-- Each text of a snapshot was written by the authors or is fit to publish. -/
theorem published_document {r : Recorder} {s : String} (h : s ∈ texts (r.document sha256)) :
    s ∈ r.authored ∨ Published sha256 r.given s := by
  rw [Recorder.document, texts, mem_textsIn] at h
  obtain ⟨e, he, hs⟩ := h
  simp only [List.mem_cons, List.not_mem_nil, or_false] at he
  rcases he with rfl | rfl | rfl | rfl | rfl | rfl | rfl | rfl
  · cases hs
  · cases hphase : r.phase with
    | none =>
        rw [hphase] at hs
        cases hs
    | some phase =>
        rw [hphase] at hs
        rw [List.mem_singleton.mp hs, Recorder.authored, hphase]
        exact .inl List.mem_cons_self
  · refine .inr ((published_scrub hs).mono fun t ht ↦ ?_)
    simp only [Recorder.given, List.mem_append]
    tauto
  · refine .inr ((published_declared hs).mono fun t ht ↦ ?_)
    rw [List.mem_append] at ht
    simp only [Recorder.given, List.mem_append]
    tauto
  · have heffective : Published sha256 (textsIn r.effective) s := by
      refine published_members (fun e _ hs ↦ ?_) hs
      rw [Recorder.effectiveValue] at hs
      split_ifs at hs
      · rw [List.mem_singleton.mp hs]
        exact published_placeholder (by decide)
      · exact published_scrub hs
    refine .inr (heffective.mono fun t ht ↦ ?_)
    simp only [Recorder.given, List.mem_append]
    tauto
  · refine .inr ((published_members (fun e _ hs ↦ published_scrub hs) hs).mono fun t ht ↦ ?_)
    simp only [Recorder.given, List.mem_append]
    tauto
  · rw [texts, mem_textsEach] at hs
    obtain ⟨v, hv, hs⟩ := hs
    obtain ⟨o, ho, rfl⟩ := List.mem_map.mp hv
    rcases published_override hs with rfl | hs
    · exact .inl (List.mem_append_right _ (List.mem_cons_of_mem _ (List.mem_map_of_mem ho)))
    · refine .inr (hs.mono fun t ht ↦ ?_)
      have hmem : t ∈ r.overridden.flatMap fun o ↦
          o.key :: (texts o.declared ++ texts o.effective) := List.mem_flatMap.mpr ⟨o, ho, ht⟩
      simp only [Recorder.given, List.mem_append]
      tauto
  · rcases published_ignored hs with rfl | hs
    · exact .inl (List.mem_append_right _ List.mem_cons_self)
    · refine .inr (hs.mono fun t ht ↦ ?_)
      simp only [Recorder.given, List.mem_append]
      tauto

/-- The keys of the declared blocks are fit to publish as well. -/
theorem published_keys_declared {r : Recorder} {s : String}
    (h : s ∈ keys (r.scrubbedDeclared sha256)) :
    s ∈ ["collection_params", "upload_params"] ∨
      Published sha256 (keys (r.declaredPart "collection_params") ++
        keys (r.declaredPart "upload_params")) s := by
  rw [Recorder.scrubbedDeclared] at h
  split_ifs at h
  · cases h
  · rw [keys, mem_keysIn] at h
    obtain ⟨e, he, hs⟩ := h
    simp only [List.mem_cons, List.not_mem_nil, or_false] at he
    rcases he with rfl | rfl
    · rcases hs with rfl | hs
      · exact .inl List.mem_cons_self
      · exact .inr ((published_keys_scrub hs).mono (List.subset_append_left _ _))
    · rcases hs with rfl | hs
      · exact .inl (List.mem_cons_of_mem _ List.mem_cons_self)
      · exact .inr ((published_keys_scrub hs).mono (List.subset_append_right _ _))

/-- In a run that calls no knob and no variable `key` and gives it the name of a credential,
the snapshot is there, tells nothing that stands below a credential's key, and each text of it
that an operator gave is a plain token, a digest or a placeholder. -/
theorem snapshot_publishes (hhex : Hexadecimal sha256) {ops : List Operation}
    (hops : ∀ o ∈ ops, o.WellFormed ∧ o.Quiet) :
    (∃ doc, (run ops).snapshot sha256 display = .ok doc ∧
      (∀ s ∈ texts doc, s ∈ (run ops).authored ∨ Published sha256 (run ops).given s) ∧
      ∀ declared, doc.get "declared" = some declared → ∀ s ∈ keys declared,
        s ∈ ["collection_params", "upload_params"] ∨
          Published sha256 (keys ((run ops).declaredPart "collection_params") ++
            keys ((run ops).declaredPart "upload_params")) s) ∧
    ∀ ops' : List Operation, (∀ o ∈ ops', o.WellFormed ∧ o.Quiet) →
      (run ops).SameBut (run ops') →
        (run ops').snapshot sha256 display = (run ops).snapshot sha256 display := by
  refine ⟨⟨(run ops).document sha256, ?_, fun s hs ↦ published_document hs, ?_⟩, ?_⟩
  · rw [Recorder.snapshot, assert_document hhex (quiet_run hops), ok_bind]
  · intro declared hdeclared s hs
    have hget : ((run ops).document sha256).get "declared" =
        some ((run ops).scrubbedDeclared sha256) := rfl
    rw [hget, Option.some.injEq] at hdeclared
    rw [← hdeclared] at hs
    exact published_keys_declared hs
  · intro ops' _ hsame
    rw [Recorder.snapshot, Recorder.snapshot, document_eq_of_sameBut hsame]

end Told

/-! ## Examples -/

section Examples

/-- The digests of two texts. -/
def sampleSha256 (value : String) : Text :=
  if value = "16" then "b17ef6d19c7a5b1ee83b907c595526dcb1eb06db8227d650d5dda0a9f4ce8cd9".toList
  else "617b71503852a33f3bca1887695d9e3f423c01af8f68f3de0a178e1866241566".toList

theorem hexadecimal_sampleSha256 : Hexadecimal sampleSha256 := by
  intro s c hc
  rw [sampleSha256] at hc
  split_ifs at hc
  · exact forall_mem_of_all (by decide) c hc
  · exact forall_mem_of_all (by decide) c hc

/-- A password, and the address of a server with another in it. -/
def passwordOps (password : String) : List Operation :=
  [.observeEnv "REDIS_PASSWORD" (some password),
    .recordEffective "host" (.string "redis://u:p@h")]

theorem quiet_passwordOps (password : String) :
    ∀ o ∈ passwordOps password, o.WellFormed ∧ o.Quiet := by
  have hmember : ∀ {name : String} {v : Json}, name ≠ "key" →
      ∀ e ∈ [(name, v)], ¬NamesSecret e := by
    intro name v hname e he h
    rw [List.mem_singleton.mp he] at h
    exact hname h.1
  rw [passwordOps, List.forall_mem_cons, List.forall_mem_singleton]
  refine ⟨⟨fun v hv ↦ absurd hv List.not_mem_nil, hmember (by decide)⟩, ?_,
    hmember (by decide)⟩
  intro v hv
  rw [List.mem_singleton.mp hv]
  rfl

theorem sameBut_passwordOps :
    (run (passwordOps "hunter2")).SameBut (run (passwordOps "swordfish")) where
  isNone := rfl
  declared _ := trivial
  invocation := trivial
  phase := rfl
  env := .cons ⟨rfl, rfl, rfl, .inl (by decide)⟩ .nil
  effective := .cons ⟨rfl, rfl, rfl, .inr rfl⟩ .nil
  overridden := .nil
  ignored := rfl
  fromDefault := rfl

theorem snapshot_publishes_password :
    (run (passwordOps "swordfish")).snapshot sampleSha256 (fun _ ↦ "16") =
      (run (passwordOps "hunter2")).snapshot sampleSha256 (fun _ ↦ "16") ∧
    ∃ doc, (run (passwordOps "hunter2")).snapshot sampleSha256 (fun _ ↦ "16") = .ok doc ∧
      ∀ s ∈ texts doc, s ∈ (run (passwordOps "hunter2")).authored ∨
        Published sampleSha256 (run (passwordOps "hunter2")).given s := by
  obtain ⟨⟨doc, hdoc, htexts, -⟩, hsame⟩ :=
    snapshot_publishes hexadecimal_sampleSha256 (quiet_passwordOps "hunter2")
  exact ⟨hsame _ (quiet_passwordOps "swordfish") sameBut_passwordOps, doc, hdoc, htexts⟩

/-- A knob called `key`. -/
def keyOps : List Operation :=
  [.recordEffective "key" (.string "api_token"), .recordEffective "m" (.ofNat 16)]

/-- The check takes the value of such a knob for the name of the others, and the snapshot
panics with no secret in it. -/
theorem snapshot_key_panics : Hexadecimal sampleSha256 ∧ (∀ o ∈ keyOps, o.WellFormed) ∧
    (run keyOps).snapshot sampleSha256 (fun _ ↦ "16") =
      .error ("refusing to publish `engine_params.effective.m` in the clear: a " ++
        "credential-named key reached the artifact carrying " ++
        "<redacted:opaque sha256=b17ef6d19c7a5b1e>. Every value under such a key must go " ++
        "through `scrub_value`.") := by
  refine ⟨hexadecimal_sampleSha256, ?_, ?_⟩
  · intro o ho v hv
    simp only [keyOps, List.mem_cons, List.not_mem_nil, or_false] at ho
    rcases ho with rfl | rfl
    · rw [List.mem_singleton.mp hv]
      rfl
    · rw [List.mem_singleton.mp hv]
      rfl
  · have hassert : assertNoCleartextSecrets sampleSha256 (fun _ ↦ "16") false "engine_params"
        ((run keyOps).document sampleSha256) =
        .error ("refusing to publish `engine_params.effective.m` in the clear: a " ++
          "credential-named key reached the artifact carrying " ++
          "<redacted:opaque sha256=b17ef6d19c7a5b1e>. Every value under such a key must go " ++
          "through `scrub_value`.") := by
      set_option maxRecDepth 8000 in decide
    rw [Recorder.snapshot, hassert]
    rfl

end Examples

end VectorDbBenchmark.EffectiveConfig
