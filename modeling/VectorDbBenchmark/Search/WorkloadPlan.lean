import Mathlib.Order.Minimal
import VectorDbBenchmark.Fulltext.IndexProfile
import VectorDbBenchmark.Search.Stats

/-!
# Workloads and the index they share

The plan of an engine config (`workload.rs`): which workload each search config runs, and the
layout of the one index that all of them run on.  Configs pass the checks of the start of a run
before anything connects; then `configure` builds the layout, and every search goes through one
dispatch point, which refuses a result that another workload leaves.
-/

namespace VectorDbBenchmark.Search

open Kit Results

/-! ## Layouts -/

inductive IndexLayout where
  | vector
  | noVector
  | full
deriving DecidableEq

def requiredLayout : Workload → IndexLayout
  | .filterOnly => .noVector
  | _ => .vector

namespace IndexLayout

def serves (l : IndexLayout) (w : Workload) : Bool := l = .full || requiredLayout w = l

/-- A full index is the union of the other two. -/
instance : PartialOrder IndexLayout where
  le l l' := l = l' ∨ l' = .full
  le_refl _ := .inl rfl
  le_trans l l' l'' h h' := by
    rcases h' with rfl | h'
    · exact h
    · exact .inr h'
  le_antisymm l l' h h' := by
    rcases h with h | h
    · exact h
    · rcases h' with h' | h'
      · exact h'.symm
      · exact h'.trans h.symm

end IndexLayout

def layoutFromFlags (skipVectorIndex fullIndexLayout : Bool) : Except String IndexLayout :=
  match skipVectorIndex, fullIndexLayout with
  | true, true =>
    .error ("engine config sets both skip_vector_index and the full index layout; the full " ++
      "layout indexes the vector field (#344)")
  | true, false => .ok .noVector
  | false, true => .ok .full
  | false, false => .ok .vector

def supportsFullLayout (engineType : String) : Bool :=
  engineType = "redis" || engineType = "opensearch"

def combineLayouts (engineType : String) (workloads : List Workload) :
    Except String IndexLayout :=
  match workloads.find? (requiredLayout · = .vector),
    workloads.find? (requiredLayout · = .noVector) with
  | some v, some nv =>
    if supportsFullLayout engineType then .ok .full
    else
      .error (s!"engine config mixes workloads \"{v.asStr}\" and \"{nv.asStr}\", which need a " ++
        s!"vector index and a no-vector index; engine '{engineType}' cannot build the shared " ++
        "`full` index (#344), which exists for redis and opensearch only — split them into " ++
        "separate engine configs")
  | none, some _ => .ok .noVector
  | _, none => .ok .vector

/-! ## Engines -/

/-- The workloads that a search config may declare. -/
def implemented (engineType : String) : List Workload :=
  if engineType = "redis" || engineType = "opensearch" then
    [.vector, .hybrid, .filterOnly, .fulltext, .hybridRrf]
  else [.vector]

/-- Whether the engine records its answer to each query. -/
def captures (engineType : String) (_ : Workload) : Bool :=
  engineType = "redis" || engineType = "opensearch"

/-- Engines whose filter-only searches are reached by `--skip-vector-index` alone. -/
def legacyFilterOnly (engineType : String) : Bool :=
  engineType = "valkey" || engineType = "mongodb"

def supportsSkipVectorIndex (engineType : String) : Bool :=
  .filterOnly ∈ implemented engineType || legacyFilterOnly engineType

def dispatchable (engineType : String) (w : Workload) : Bool :=
  w ∈ implemented engineType || (w = .filterOnly && legacyFilterOnly engineType)

/-! ## The plan -/

structure WorkloadPlan where
  engineType : String
  layout : IndexLayout
  /-- One workload for each search config. -/
  workloads : List Workload

def WorkloadPlan.workload (p : WorkloadPlan) (searchId : ℕ) : Except String Workload :=
  match p.workloads[searchId]? with
  | some w => .ok w
  | none =>
    .error (s!"search config #{searchId} has no resolved workload (plan covers " ++
      s!"{p.workloads.length})")

/-- The workload of one search config, by its declaration and the flag. -/
def declaredWorkload (skipVectorIndex : Bool) (d : Option Workload × ℕ) : Except String Workload :=
  match skipVectorIndex, d.1 with
  | true, some w =>
    if w ≠ .filterOnly then
      .error (s!"--skip-vector-index runs every search config as filter-only, but search " ++
        s!"config #{d.2} declares workload \"{w.asStr}\"; drop the flag or the declaration")
    else .ok .filterOnly
  | true, none => .ok .filterOnly
  | false, some w => .ok w
  | false, none => .ok .vector

def resolve (engineType : String) (skipVectorIndex : Bool) (d : Option Workload × ℕ) :
    Except String Workload := do
  let w ← declaredWorkload skipVectorIndex d
  let allowed :=
    if skipVectorIndex then supportsSkipVectorIndex engineType
    else decide (w ∈ implemented engineType)
  if allowed then .ok w
  else
    .error (s!"workload \"{w.asStr}\" is not implemented for engine '{engineType}' (search " ++
      s!"config #{d.2}); implemented: " ++
      ", ".intercalate ((implemented engineType).map Workload.asStr))

/-- The layout of the plan; the flag is an alias for filter-only searches. -/
def planLayout (engineType : String) (workloads : List Workload) (skipVectorIndex : Bool) :
    Except String IndexLayout :=
  if skipVectorIndex then .ok .noVector else combineLayouts engineType workloads

def plan (engineType : String) (declared : List (Option Workload)) (skipVectorIndex : Bool) :
    Except String WorkloadPlan := do
  let workloads ← declared.zipIdx.mapM (resolve engineType skipVectorIndex)
  let layout ← planLayout engineType workloads skipVectorIndex
  pure { engineType, layout, workloads }

/-! ## The checks of the start -/

def checkCapture (p : WorkloadPlan) : Except String Unit :=
  match p.workloads.find? (!captures p.engineType ·) with
  | some w =>
    .error (s!"--dump-results: engine '{p.engineType}' does not capture per-query results for " ++
      s!"workload \"{w.asStr}\"; per-query capture exists for redis and opensearch (vector, " ++
      "hybrid, filter-only, fulltext, hybrid-rrf)")
  | none => .ok ()

def checkCalibration (p : WorkloadPlan) (calibrationDeclared : List Bool)
    (skipVectorIndex : Bool) : Except String Unit :=
  (p.workloads.zip calibrationDeclared).zipIdx.forM fun e ↦
    if e.1.2 && e.1.1 ≠ .vector && !skipVectorIndex then
      .error (s!"search config #{e.2} declares calibration_param, which only tunes the vector " ++
        s!"workload; it is \"{e.1.1.asStr}\" — remove calibration_param")
    else .ok ()

def checkUpdateSearchRatio (p : WorkloadPlan) (hasRatio : Bool) : Except String Unit :=
  if !hasRatio || (p.layout = .noVector && p.workloads.all (· = .filterOnly)) then .ok ()
  else
    match p.workloads.zipIdx.find? (·.1 ≠ .vector) with
    | some (w, i) =>
      .error (s!"--update-search-ratio runs the vector workload in its mixed phases, but search " ++
        s!"config #{i} is \"{w.asStr}\"; run the non-vector search configs in a separate engine " ++
        "config without --update-search-ratio")
    | none => .ok ()

/-- `fulltext::apply_layout`, on the blocks of the fulltext configs. -/
def applyLayout (env : Fulltext.SpecEnv) (p : WorkloadPlan) (blocks : List (Option Json)) :
    Except String WorkloadPlan := do
  let specs ← blocks.mapM (Fulltext.parseSpec env)
  if specs.any (·.noVectorIndex) then
    if specs.any (!·.noVectorIndex) || p.workloads.any Workload.hasGroundTruth then
      .error "no_vector_index must agree across fulltext configs and cannot serve KNN"
    else .ok { p with layout := .noVector }
  else if specs.any (·.compound.isSome) then
    if p.workloads.any (· ∈ [Workload.vector, .hybrid, .hybridRrf]) then
      .error "compound matching requires a dedicated text/scalar engine config"
    else .ok { p with layout := .full }
  else .ok p

structure SearchConfig where
  workload : Option Workload
  calibrationDeclared : Bool
  /-- The `fulltext` block. -/
  fulltext : Option Json

/-- The options of the run that the checks look at. -/
structure RunArgs where
  skipVectorIndex : Bool
  /-- A phase that mixes updates with searches. -/
  mixedPhases : Bool
  dumpResults : Bool

/-- The round of one engine config in the loop at the start of `run`.  Left out are the checks that
only refuse and leave the plan as it is: those of `--search-id`, of the blocks of a workload, of the
index profile with the prefix of a shared corpus, and of the `top`, pacing and policy of fulltext
and hybrid searches and of the result limit of searches on a full layout. -/
def startPlan (env : Fulltext.SpecEnv) (args : RunArgs) (name engineType : String)
    (configs : List SearchConfig) : Except String WorkloadPlan := do
  let named := fun e ↦ s!"config '{name}': {e}"
  let p ← (plan engineType (configs.map (·.workload)) args.skipVectorIndex).mapError named
  let p ← applyLayout env p
    ((configs.filter (·.workload = some .fulltext)).map (·.fulltext))
  (checkCalibration p (configs.map (·.calibrationDeclared)) args.skipVectorIndex).mapError named
  (checkUpdateSearchRatio p args.mixedPhases).mapError named
  if args.dumpResults then (checkCapture p).mapError named
  pure p

/-- The layout that `configure` builds.  `declaredSkip` is the `skip_vector_index` of the config
file, which `run` sets for a plan with no vector index, and which no check looks at. -/
def builtLayout (declaredSkip : Bool) (p : WorkloadPlan) : Except String IndexLayout :=
  layoutFromFlags (declaredSkip || p.layout = .noVector) (p.layout = .full)

/-! ## Dispatch -/

/-- What the dispatch point looks at in the results of a search. -/
structure WorkloadResults where
  results : SearchResults
  filterOnly : Bool
  fulltext : Bool
  hybrid : Bool
  hybridRrf : Bool
  workload : Option Workload := none

def verifyResultShape (w : Workload) (filterOnlyStats : Bool) : Except String Unit :=
  if w = .filterOnly && !filterOnlyStats then
    .error ("workload filter-only returned a result without filter-only stats — the engine did " ++
      "not run its filter-only path")
  else if filterOnlyStats && w ≠ .filterOnly then
    .error (s!"workload \"{w.asStr}\" returned filter-only stats — the engine ran its " ++
      "filter-only path")
  else .ok ()

def verifyEngineResultShape (engineType : String) (w : Workload)
    (filterOnlyStats precisionSentinel : Bool) : Except String Unit :=
  if !legacyFilterOnly engineType then verifyResultShape w filterOnlyStats
  else if w = .filterOnly && !precisionSentinel then
    .error (s!"workload filter-only on '{engineType}' returned a result without the -1.0 " ++
      "precision sentinel — the engine did not run its filter-only path")
  else if precisionSentinel && w ≠ .filterOnly then
    .error (s!"workload \"{w.asStr}\" on '{engineType}' returned the filter-only precision " ++
      "sentinel — the engine ran its filter-only path")
  else .ok ()

def verifyFulltextShape (w : Workload) (fulltextMetadata : Bool) : Except String Unit :=
  if w = .fulltext && !fulltextMetadata then
    .error ("workload fulltext returned a result without fulltext metadata — the engine did not " ++
      "run its fulltext path")
  else if fulltextMetadata && w ≠ .fulltext then
    .error (s!"workload \"{w.asStr}\" returned fulltext metadata — the engine ran its fulltext " ++
      "path")
  else .ok ()

/-- `hybrid::verify_fingerprint`. -/
def verifyHybrid (w : Workload) (hasReport : Bool) : Except String Unit :=
  if w = .hybrid && !hasReport then
    .error ("workload hybrid returned a result without a per-bucket hybrid report — the engine " ++
      "did not run its hybrid path")
  else if hasReport && w ≠ .hybrid then
    .error (s!"workload \"{w.asStr}\" returned a hybrid report — the engine ran its hybrid path")
  else .ok ()

/-- `hybrid_rrf::verify_fingerprint`. -/
def verifyHybridRrf (w : Workload) (hasMetadata : Bool) : Except String Unit :=
  if w = .hybridRrf && !hasMetadata then
    .error ("workload hybrid-rrf returned a result without hybrid_rrf metadata — the engine did " ++
      "not run its hybrid-rrf path")
  else if hasMetadata && w ≠ .hybridRrf then
    .error (s!"workload \"{w.asStr}\" returned hybrid_rrf metadata — the engine ran its " ++
      "hybrid-rrf path")
  else .ok ()

def validateCapture (records requestedQueries : ℕ) : Except String Unit :=
  if records ≠ requestedQueries then
    .error (s!"per-query capture recorded {records} queries but the run attempted " ++
      s!"{requestedQueries}; a dump that silently drops queries cannot be compared")
  else .ok ()

/-- There is a record for every query, where they are asked for. -/
def verifyCapture (name : String) (w : Workload) (r : SearchResults) : Except String Unit :=
  match r.queryRecords with
  | none =>
    .error (s!"--dump-results: engine '{name}' does not capture per-query results for " ++
      s!"workload \"{w.asStr}\"")
  | some records =>
    (validateCapture records.length r.requestedQueries).mapError fun e ↦ s!"engine '{name}': {e}"

/-- `search` is the method of the engine for a workload, `name` what the engine calls itself. -/
def searchWorkload (name : String) (search : Workload → Except String WorkloadResults)
    (engineType : String) (w : Workload) (captureQueryResults : Bool) :
    Except String WorkloadResults := do
  let named := fun e ↦ s!"engine '{name}': {e}"
  if !dispatchable engineType w then
    .error s!"workload \"{w.asStr}\" is not implemented by engine '{name}'"
  else
    let r ← search w
    (verifyEngineResultShape engineType w r.filterOnly
      (r.results.meanPrecisionAtReturned = -1)).mapError named
    (verifyFulltextShape w r.fulltext).mapError named
    (verifyHybrid w r.hybrid).mapError named
    (verifyHybridRrf w r.hybridRrf).mapError named
    if captureQueryResults then verifyCapture name w r.results
    pure { r with workload := some w }

/-! ## What a plan is -/

/-- The workload of a config; one that declares none searches vectors, or what the flag says. -/
def resolved (skipVectorIndex : Bool) (d : Option Workload) : Workload :=
  d.getD (if skipVectorIndex then .filterOnly else .vector)

def Allowed (engineType : String) (skipVectorIndex : Bool) (d : Option Workload) : Prop :=
  if skipVectorIndex then
    supportsSkipVectorIndex engineType ∧ resolved skipVectorIndex d = .filterOnly
  else resolved skipVectorIndex d ∈ implemented engineType

/-- An index in this layout runs all of the workloads. -/
def ServesAll (workloads : List Workload) (l : IndexLayout) : Prop := ∀ w ∈ workloads, l.serves w

structure Planned (engineType : String) (declared : List (Option Workload))
    (skipVectorIndex : Bool) (p : WorkloadPlan) : Prop where
  allowed : ∀ d ∈ declared, Allowed engineType skipVectorIndex d
  engineType : p.engineType = engineType
  workloads : p.workloads = declared.map (resolved skipVectorIndex)
  layout : Minimal (ServesAll p.workloads) p.layout
  empty : declared = [] → p.layout = if skipVectorIndex then .noVector else .vector

section Plans

variable {engineType : String} {declared : List (Option Workload)} {skipVectorIndex : Bool}
  {p : WorkloadPlan} {ws : List Workload} {w : Workload} {l l' : IndexLayout}

theorem serves_iff : l.serves w ↔ l = .full ∨ requiredLayout w = l := by
  rw [IndexLayout.serves, Bool.or_eq_true, decide_eq_true_eq, decide_eq_true_eq]

theorem declaredWorkload_eq_ok {d : Option Workload × ℕ} :
    declaredWorkload skipVectorIndex d = .ok w ↔
      (skipVectorIndex → resolved skipVectorIndex d.1 = .filterOnly) ∧
        w = resolved skipVectorIndex d.1 := by
  obtain ⟨d, i⟩ := d
  cases skipVectorIndex with
  | false => cases d <;> simp [declaredWorkload, resolved, eq_comm]
  | true =>
      cases d with
      | none => simp [declaredWorkload, resolved, eq_comm]
      | some v =>
          by_cases hv : v = .filterOnly
          · simp [declaredWorkload, resolved, hv, eq_comm]
          · simp [declaredWorkload, resolved, hv]

theorem resolve_eq_ok {d : Option Workload × ℕ} :
    resolve engineType skipVectorIndex d = .ok w ↔
      Allowed engineType skipVectorIndex d.1 ∧ w = resolved skipVectorIndex d.1 := by
  rw [resolve, bind_eq_ok, Allowed]
  simp only [declaredWorkload_eq_ok]
  cases skipVectorIndex with
  | true =>
      by_cases h : supportsSkipVectorIndex engineType
      · simp [h, eq_comm]
      · simp [h]
  | false =>
      by_cases h : resolved false d.1 ∈ implemented engineType
      · simp [h, eq_comm]
      · simp [h]

theorem mapM_resolve_eq_ok :
    declared.zipIdx.mapM (resolve engineType skipVectorIndex) = .ok ws ↔
      (∀ d ∈ declared, Allowed engineType skipVectorIndex d) ∧
        ws = declared.map (resolved skipVectorIndex) := by
  simp only [mapM_eq_ok, resolve_eq_ok]
  rw [List.forall₂_and_left, forall₂_eq_map]
  have hfst : declared.zipIdx.map Prod.fst = declared := List.zipIdx_map_fst 0 declared
  have hmap : declared.zipIdx.map (fun d ↦ resolved skipVectorIndex d.1) =
      declared.map (resolved skipVectorIndex) := by
    rw [← Function.comp_def, ← List.map_map, hfst]
  rw [hmap]
  constructor
  · rintro ⟨hall, rfl⟩
    refine ⟨fun d hd ↦ ?_, rfl⟩
    rw [← hfst] at hd
    obtain ⟨e, he, rfl⟩ := List.mem_map.mp hd
    exact hall e he
  · rintro ⟨hall, rfl⟩
    refine ⟨fun e he ↦ hall e.1 ?_, rfl⟩
    rw [← hfst]
    exact List.mem_map_of_mem he

theorem requiredLayout_cases (w : Workload) :
    requiredLayout w = .vector ∨ requiredLayout w = .noVector := by
  cases w <;> decide

/-- One of the workloads needs this layout, or a full one. -/
def Needs (ws : List Workload) (l : IndexLayout) : Prop := ∃ w ∈ ws, requiredLayout w = l

theorem find?_requiredLayout {found : Option Workload}
    (h : ws.find? (requiredLayout · = l) = found) : Needs ws l ↔ found.isSome := by
  rw [← h, List.find?_isSome, Needs]
  simp only [decide_eq_true_eq]

/-- The layout, by the layouts that the workloads need. -/
theorem combineLayouts_eq_ok :
    combineLayouts engineType ws = .ok l ↔
      (Needs ws .vector ∧ Needs ws .noVector ∧ supportsFullLayout engineType ∧ .full = l) ∨
        (¬Needs ws .vector ∧ Needs ws .noVector ∧ .noVector = l) ∨
        (¬Needs ws .noVector ∧ .vector = l) := by
  rw [combineLayouts]
  cases hv : ws.find? (requiredLayout · = .vector) with
  | none =>
      rw [find?_requiredLayout hv]
      cases hnv : ws.find? (requiredLayout · = .noVector) with
      | none =>
          rw [find?_requiredLayout hnv]
          simp
      | some nv =>
          rw [find?_requiredLayout hnv]
          simp
  | some v =>
      rw [find?_requiredLayout hv]
      cases hnv : ws.find? (requiredLayout · = .noVector) with
      | none =>
          rw [find?_requiredLayout hnv]
          simp
      | some nv =>
          rw [find?_requiredLayout hnv]
          by_cases hfull : supportsFullLayout engineType
          · simp [hfull]
          · simp [hfull]

theorem combineLayouts_minimal (h : combineLayouts engineType ws = .ok l) :
    Minimal (ServesAll ws) l := by
  rcases combineLayouts_eq_ok.mp h with ⟨⟨v, hv, hvNeeds⟩, ⟨nv, hnv, hnvNeeds⟩, -, rfl⟩ |
    ⟨hnone, -, rfl⟩ | ⟨hnone, rfl⟩
  · refine ⟨fun w _ ↦ serves_iff.mpr (.inl rfl), fun l' hl' _ ↦ ?_⟩
    rcases serves_iff.mp (hl' v hv) with rfl | hv'
    · exact le_rfl
    · rcases serves_iff.mp (hl' nv hnv) with rfl | hnv'
      · exact le_rfl
      · cases (hvNeeds.symm.trans hv').trans (hnv'.symm.trans hnvNeeds)
  · refine ⟨fun w hw ↦ serves_iff.mpr (.inr ?_), fun l' _ hle ↦ ?_⟩
    · exact (requiredLayout_cases w).resolve_left fun h ↦ hnone ⟨w, hw, h⟩
    · rcases hle with rfl | h
      · exact le_rfl
      · cases h
  · refine ⟨fun w hw ↦ serves_iff.mpr (.inr ?_), fun l' _ hle ↦ ?_⟩
    · exact (requiredLayout_cases w).resolve_right fun h ↦ hnone ⟨w, hw, h⟩
    · rcases hle with rfl | h
      · exact le_rfl
      · cases h

/-- There is one least layout where there is a workload. -/
theorem minimal_unique (hne : ws ≠ []) (h : Minimal (ServesAll ws) l)
    (h' : Minimal (ServesAll ws) l') : l = l' := by
  obtain ⟨w, hw⟩ := List.exists_mem_of_ne_nil ws hne
  rcases serves_iff.mp (h.1 w hw) with rfl | hl
  · exact (h.2 h'.1 (.inr rfl)).elim id fun h ↦ h.symm
  · rcases serves_iff.mp (h'.1 w hw) with rfl | hl'
    · exact ((h'.2 h.1 (.inr rfl)).elim id fun h ↦ h.symm).symm
    · exact hl.symm.trans hl'

/-- Only a mix of workloads needs a full layout. -/
theorem needs_of_minimal_full (h : Minimal (ServesAll ws) .full) :
    Needs ws .vector ∧ Needs ws .noVector := by
  constructor
  · by_contra hnone
    have hserves : ServesAll ws .noVector := fun w hw ↦
      serves_iff.mpr (.inr ((requiredLayout_cases w).resolve_left fun h ↦ hnone ⟨w, hw, h⟩))
    rcases h.2 hserves (.inr rfl) with h | h <;> cases h
  · by_contra hnone
    have hserves : ServesAll ws .vector := fun w hw ↦
      serves_iff.mpr (.inr ((requiredLayout_cases w).resolve_right fun h ↦ hnone ⟨w, hw, h⟩))
    rcases h.2 hserves (.inr rfl) with h | h <;> cases h

theorem implemented_eq (h : w ∈ implemented engineType) :
    w = .vector ∨ supportsFullLayout engineType := by
  rw [implemented] at h
  split_ifs at h with hfull
  · exact .inr hfull
  · exact .inl (List.mem_singleton.mp h)

/-- Engines that have both kinds of workloads have the layout for them. -/
theorem exists_combineLayouts (h : ∀ w ∈ ws, w ∈ implemented engineType) :
    ∃ l, combineLayouts engineType ws = .ok l := by
  by_cases hnv : Needs ws .noVector
  · by_cases hv : Needs ws .vector
    · obtain ⟨w, hw, hneeds⟩ := hnv
      refine ⟨.full, combineLayouts_eq_ok.mpr (.inl ⟨hv, ⟨w, hw, hneeds⟩, ?_, rfl⟩)⟩
      refine (implemented_eq (h w hw)).resolve_left ?_
      rintro rfl
      cases hneeds
    · exact ⟨.noVector, combineLayouts_eq_ok.mpr (.inr (.inl ⟨hv, hnv, rfl⟩))⟩
  · exact ⟨.vector, combineLayouts_eq_ok.mpr (.inr (.inr ⟨hnv, rfl⟩))⟩

theorem plan_planned (h : plan engineType declared skipVectorIndex = .ok p) :
    Planned engineType declared skipVectorIndex p := by
  obtain ⟨ws, hws, h⟩ := bind_eq_ok.mp h
  obtain ⟨hallowed, rfl⟩ := mapM_resolve_eq_ok.mp hws
  obtain ⟨l, hl, h⟩ := bind_eq_ok.mp h
  cases h
  constructor
  case allowed => exact hallowed
  case engineType => rfl
  case workloads => rfl
  case layout =>
    cases skipVectorIndex with
    | false => exact combineLayouts_minimal hl
    | true =>
        cases hl
        refine ⟨fun w hw ↦ ?_, fun l' _ hle ↦ ?_⟩
        · obtain ⟨d, hd, rfl⟩ := List.mem_map.mp hw
          rw [(hallowed d hd).2]
          rfl
        · rcases hle with rfl | h
          · exact le_rfl
          · cases h
  case empty =>
    rintro rfl
    cases skipVectorIndex with
    | false =>
        cases hl
        rfl
    | true =>
        cases hl
        rfl

theorem exists_plan (h : ∀ d ∈ declared, Allowed engineType skipVectorIndex d) :
    ∃ p, plan engineType declared skipVectorIndex = .ok p := by
  have hws := mapM_resolve_eq_ok.mpr ⟨h, rfl⟩
  cases skipVectorIndex with
  | true => exact ⟨_, bind_eq_ok.mpr ⟨_, hws, rfl⟩⟩
  | false =>
      have himplemented : ∀ w ∈ declared.map (resolved false), w ∈ implemented engineType := by
        rw [List.forall_mem_map]
        exact h
      obtain ⟨l, hl⟩ := exists_combineLayouts himplemented
      exact ⟨_, bind_eq_ok.mpr ⟨_, hws, bind_eq_ok.mpr ⟨l, hl, rfl⟩⟩⟩

theorem Planned.unique {p' : WorkloadPlan} (h : Planned engineType declared skipVectorIndex p)
    (h' : Planned engineType declared skipVectorIndex p') : p = p' := by
  obtain ⟨e, l, ws⟩ := p
  obtain ⟨e', l', ws'⟩ := p'
  obtain ⟨-, rfl, hws, hl, hempty⟩ := h
  obtain ⟨-, rfl, hws', hl', hempty'⟩ := h'
  dsimp only at hws hws' hl hl' hempty hempty'
  obtain rfl : ws = ws' := hws.trans hws'.symm
  by_cases hnil : declared = []
  · rw [hempty hnil, hempty' hnil]
  · have hne : ws ≠ [] := by
      rw [hws]
      exact fun h ↦ hnil (List.map_eq_nil_iff.mp h)
    rw [minimal_unique hne hl hl']

end Plans

/-- A plan is made exactly if the engine may run each of the workloads; no mix of them is refused.
Its layout is the least one of an index that serves them all. -/
theorem plan_eq_ok_iff (engineType : String) (declared : List (Option Workload))
    (skipVectorIndex : Bool) (p : WorkloadPlan) :
    plan engineType declared skipVectorIndex = .ok p ↔
      Planned engineType declared skipVectorIndex p := by
  constructor
  · exact plan_planned
  · intro h
    obtain ⟨p', hp'⟩ := exists_plan h.allowed
    rw [hp', (plan_planned hp').unique h]

/-! ## What the start of a run admits -/

/-- Every search config has the workload that it says, which the engine can be asked for, on an
index with what the workload looks for; the options of the run touch only what they are made for. -/
structure Admitted (args : RunArgs) (engineType : String) (declaredSkip : Bool)
    (configs : List SearchConfig) (p : WorkloadPlan) : Prop where
  engine : p.engineType = engineType
  workloads : p.workloads = configs.map fun c ↦ resolved args.skipVectorIndex c.workload
  dispatchable : ∀ w ∈ p.workloads, dispatchable engineType w
  groundTruth : ∀ w ∈ p.workloads, w.hasGroundTruth → p.layout ≠ .noVector
  filterOnly : .filterOnly ∈ p.workloads → p.layout ≠ .vector
  full : p.layout = .full → supportsFullLayout engineType
  /-- The plan's layout is the one that is built, unless the config file skips a vector index that
  the plan has. -/
  built : builtLayout declaredSkip p = .ok p.layout ↔ (declaredSkip → p.layout = .noVector)
  calibration : ∀ c ∈ configs, c.calibrationDeclared →
    args.skipVectorIndex ∨ resolved args.skipVectorIndex c.workload = .vector
  mixed : args.mixedPhases → (∀ w ∈ p.workloads, w = .vector) ∨
    p.layout = .noVector ∧ ∀ w ∈ p.workloads, w = .filterOnly
  captured : args.dumpResults → ∀ w ∈ p.workloads, captures engineType w

section Start

variable {env : Fulltext.SpecEnv} {args : RunArgs} {name engineType : String}
  {configs : List SearchConfig} {p p' : WorkloadPlan} {blocks : List (Option Json)}
  {d : Option Workload} {skipVectorIndex : Bool}

theorem builtLayout_eq_ok_iff {declaredSkip : Bool} :
    builtLayout declaredSkip p = .ok p.layout ↔ (declaredSkip → p.layout = .noVector) := by
  rw [builtLayout]
  cases declaredSkip <;> cases p.layout <;> simp [layoutFromFlags]

/-- Fulltext configs change nothing but the layout, and there are some when they do. -/
theorem applyLayout_cases (h : applyLayout env p blocks = .ok p') :
    p'.engineType = p.engineType ∧ p'.workloads = p.workloads ∧
      (p'.layout = p.layout ∨
        (p'.layout = .noVector ∧ ∀ w ∈ p.workloads, w.hasGroundTruth = false) ∨
        (p'.layout = .full ∧ blocks ≠ [])) := by
  obtain ⟨specs, hspecs, h⟩ := bind_eq_ok.mp h
  split_ifs at h with hnone hbad hcompound hbad
  · cases h
    refine ⟨rfl, rfl, .inr (.inl ⟨rfl, fun w hw ↦ ?_⟩)⟩
    rw [Bool.or_eq_true, not_or] at hbad
    exact eq_false_of_ne_true fun htrue ↦ hbad.2 (List.any_eq_true.mpr ⟨w, hw, htrue⟩)
  · cases h
    refine ⟨rfl, rfl, .inr (.inr ⟨rfl, ?_⟩)⟩
    rintro rfl
    cases hspecs
    cases hcompound
  · cases h
    exact ⟨rfl, rfl, .inl rfl⟩

theorem Allowed.dispatchable (h : Allowed engineType skipVectorIndex d) :
    dispatchable engineType (resolved skipVectorIndex d) := by
  rw [Allowed] at h
  rw [Search.dispatchable, Bool.or_eq_true, decide_eq_true_eq]
  split_ifs at h with hskip
  · rw [h.2]
    rcases Bool.or_eq_true _ _ |>.mp h.1 with himplemented | hlegacy
    · exact .inl (of_decide_eq_true himplemented)
    · exact .inr hlegacy
  · exact .inl h

/-- What a workload looks for is in the index that serves it. -/
theorem layout_ne_of_serves {l : IndexLayout} {w : Workload} (h : l.serves w) :
    (w.hasGroundTruth → l ≠ .noVector) ∧ (w = .filterOnly → l ≠ .vector) := by
  revert h
  cases l <;> cases w <;> decide

theorem checkCalibration_eq_ok {calibrationDeclared : List Bool}
    (h : checkCalibration p calibrationDeclared skipVectorIndex = .ok ()) :
    ∀ e ∈ p.workloads.zip calibrationDeclared, e.2 → skipVectorIndex ∨ e.1 = .vector := by
  rw [checkCalibration, forM_eq_ok] at h
  intro e he hdeclared
  rw [← List.zipIdx_map_fst 0 (p.workloads.zip calibrationDeclared)] at he
  obtain ⟨numbered, hnumbered, rfl⟩ := List.mem_map.mp he
  have hround := h numbered hnumbered
  split_ifs at hround with hbad
  by_contra hnot
  obtain ⟨hskip, hvector⟩ := not_or.mp hnot
  apply hbad
  simp [hdeclared, hvector, eq_false_of_ne_true hskip]

theorem checkUpdateSearchRatio_eq_ok (h : checkUpdateSearchRatio p true = .ok ()) :
    (∀ w ∈ p.workloads, w = .vector) ∨
      p.layout = .noVector ∧ ∀ w ∈ p.workloads, w = .filterOnly := by
  rw [checkUpdateSearchRatio] at h
  split_ifs at h with hexempt
  · right
    simpa using hexempt
  · left
    intro w hw
    rw [← List.zipIdx_map_fst 0 p.workloads] at hw
    obtain ⟨e, he, rfl⟩ := List.mem_map.mp hw
    cases hfind : p.workloads.zipIdx.find? (·.1 ≠ .vector) with
    | some bad =>
        rw [hfind] at h
        cases h
    | none =>
        by_contra hne
        exact List.find?_eq_none.mp hfind e he (decide_eq_true hne)

theorem checkCapture_eq_ok (h : checkCapture p = .ok ()) :
    ∀ w ∈ p.workloads, captures p.engineType w := by
  rw [checkCapture] at h
  cases hfind : p.workloads.find? (!captures p.engineType ·) with
  | some w =>
      rw [hfind] at h
      cases h
  | none =>
      intro w hw
      simpa using List.find?_eq_none.mp hfind w hw

end Start

/-- What the engine left on its results that only a search of this workload leaves. -/
def marked (engineType : String) (r : WorkloadResults) : Workload → Bool
  | .vector => false
  | .hybrid => r.hybrid
  | .fulltext => r.fulltext
  | .filterOnly =>
    if legacyFilterOnly engineType then r.results.meanPrecisionAtReturned = -1 else r.filterOnly
  | .hybridRrf => r.hybridRrf

/-- One answer was recorded for each query. -/
def Captured (r : SearchResults) : Prop :=
  ∃ records, r.queryRecords = some records ∧ records.length = r.requestedQueries

section Dispatch

variable {w v : Workload} {present : Bool} {e e' : String}

/-- The check that all fingerprints share. -/
theorem fingerprint_eq_ok :
    (if w = v && !present then .error e else if present && w ≠ v then .error e' else .ok () :
      Except String Unit) = .ok () ↔ (present ↔ w = v) := by
  by_cases hw : w = v
  · cases present <;> simp [hw]
  · cases present <;> simp [hw]

theorem verifyEngineResultShape_eq_ok {engineType : String} {r : WorkloadResults} :
    verifyEngineResultShape engineType w r.filterOnly
        (r.results.meanPrecisionAtReturned = -1) = .ok () ↔
      (marked engineType r .filterOnly ↔ w = .filterOnly) := by
  rw [verifyEngineResultShape, marked]
  cases legacyFilterOnly engineType with
  | false => exact fingerprint_eq_ok
  | true => exact fingerprint_eq_ok

theorem forall_marked_iff {engineType : String} {r : WorkloadResults} :
    (∀ v ≠ .vector, marked engineType r v ↔ w = v) ↔
      (marked engineType r .filterOnly ↔ w = .filterOnly) ∧ (r.fulltext ↔ w = .fulltext) ∧
        (r.hybrid ↔ w = .hybrid) ∧ (r.hybridRrf ↔ w = .hybridRrf) := by
  constructor
  · intro h
    exact ⟨h .filterOnly (by decide), h .fulltext (by decide), h .hybrid (by decide),
      h .hybridRrf (by decide)⟩
  · rintro ⟨hfilterOnly, hfulltext, hhybrid, hhybridRrf⟩ v hv
    cases v with
    | vector => exact absurd rfl hv
    | hybrid => exact hhybrid
    | fulltext => exact hfulltext
    | filterOnly => exact hfilterOnly
    | hybridRrf => exact hhybridRrf

theorem verifyCapture_eq_ok {name : String} {r : SearchResults} :
    verifyCapture name w r = .ok () ↔ Captured r := by
  rw [verifyCapture, Captured]
  cases r.queryRecords with
  | none => simp
  | some records =>
      by_cases h : records.length = r.requestedQueries
      · simp [validateCapture, h]
      · simp [validateCapture, h]

end Dispatch

/-- A search has an answer exactly if the workload is one of the engine, and what the method of the
engine for it returned is marked as a search of this workload and of no other. -/
theorem searchWorkload_eq_ok_iff (name : String) (search : Workload → Except String WorkloadResults)
    (engineType : String) (w : Workload) (captureQueryResults : Bool) (r : WorkloadResults) :
    searchWorkload name search engineType w captureQueryResults = .ok r ↔
      dispatchable engineType w ∧ ∃ r', search w = .ok r' ∧ r = { r' with workload := some w } ∧
        (∀ v ≠ .vector, marked engineType r' v ↔ w = v) ∧
        (captureQueryResults → Captured r'.results) := by
  rw [searchWorkload]
  cases hdispatch : dispatchable engineType w with
  | false => simp
  | true =>
      simp only [Bool.not_true, Bool.false_eq_true, if_false, true_and, forall_marked_iff]
      constructor
      · intro h
        obtain ⟨r', hr', h⟩ := bind_eq_ok.mp h
        obtain ⟨⟨⟩, hfilterOnly, h⟩ := bind_eq_ok.mp h
        obtain ⟨⟨⟩, hfulltext, h⟩ := bind_eq_ok.mp h
        obtain ⟨⟨⟩, hhybrid, h⟩ := bind_eq_ok.mp h
        obtain ⟨⟨⟩, hhybridRrf, h⟩ := bind_eq_ok.mp h
        have hfilterOnly := verifyEngineResultShape_eq_ok.mp (mapError_eq_ok.mp hfilterOnly)
        have hfulltext := fingerprint_eq_ok.mp (mapError_eq_ok.mp hfulltext)
        have hhybrid := fingerprint_eq_ok.mp (mapError_eq_ok.mp hhybrid)
        have hhybridRrf := fingerprint_eq_ok.mp (mapError_eq_ok.mp hhybridRrf)
        split_ifs at h with hcapture
        · obtain ⟨⟨⟩, hcaptured, h⟩ := bind_eq_ok.mp h
          cases h
          exact ⟨r', hr', rfl, ⟨hfilterOnly, hfulltext, hhybrid, hhybridRrf⟩,
            fun _ ↦ verifyCapture_eq_ok.mp hcaptured⟩
        · cases h
          exact ⟨r', hr', rfl, ⟨hfilterOnly, hfulltext, hhybrid, hhybridRrf⟩,
            fun h ↦ absurd h hcapture⟩
      · rintro ⟨r', hr', rfl, ⟨hfilterOnly, hfulltext, hhybrid, hhybridRrf⟩, hcaptured⟩
        refine bind_eq_ok.mpr ⟨r', hr', ?_⟩
        refine bind_eq_ok.mpr
          ⟨(), mapError_eq_ok.mpr (verifyEngineResultShape_eq_ok.mpr hfilterOnly), ?_⟩
        refine bind_eq_ok.mpr ⟨(), mapError_eq_ok.mpr (fingerprint_eq_ok.mpr hfulltext), ?_⟩
        refine bind_eq_ok.mpr ⟨(), mapError_eq_ok.mpr (fingerprint_eq_ok.mpr hhybrid), ?_⟩
        refine bind_eq_ok.mpr ⟨(), mapError_eq_ok.mpr (fingerprint_eq_ok.mpr hhybridRrf), ?_⟩
        split_ifs with hcapture
        · exact bind_eq_ok.mpr ⟨(), verifyCapture_eq_ok.mpr (hcaptured hcapture), rfl⟩
        · rfl

end VectorDbBenchmark.Search
