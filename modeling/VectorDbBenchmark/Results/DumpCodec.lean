import VectorDbBenchmark.F64Order
import VectorDbBenchmark.JsonFields
import VectorDbBenchmark.Kit.Lines
import VectorDbBenchmark.Results.ResultsDump

/-!
# The dump file

`write_dump` and `read_dump`: a header line and one line for each record, in JSON.  Optional
fields are left out when they are empty.  A float that is no number is written as `null`,
which is not read back, so that exactly the dumps of finite floats are.
-/

namespace VectorDbBenchmark.Results

open Kit

def dumpSchemaVersion : ℕ := 1

inductive DumpLine where
  | header (h : DumpHeader)
  | query (r : QueryRecord)
deriving DecidableEq

/-! ## Writing -/

section Write

def IdSpace.toJson : IdSpace → Json
  | .row => .object (Json.present [("kind", some (.string "row"))])
  | .field name =>
    .object (Json.present [("kind", some (.string "field")), ("field", some (.string name))])

def CompoundIdentity.toJson (c : CompoundIdentity) : Json :=
  .object (Json.present [("analysis", some (.string c.analysis)),
    ("query_sha256", some (.string c.querySha256)),
    ("preparation_sha256", some ((c.preparationSha256.map Json.string).getD .null))])

def DumpHeader.fields (h : DumpHeader) : List (String × Option Json) :=
  [("kind", some (.string "header")),
    ("schema_version", some (.ofNat h.schemaVersion)), ("engine", some (.string h.engine)),
    ("config", some (.string h.config)), ("dataset", some (.string h.dataset)),
    ("workload", some (.string h.workload.asStr)), ("parallel", some (.ofNat h.parallel)),
    ("top", some (.ofNat h.top)), ("search_id", some (.ofNat h.searchId)),
    ("id_space", some h.idSpace.toJson), ("index_layout", h.indexLayout.map Json.string),
    ("compound_identity", h.compoundIdentity.map CompoundIdentity.toJson)]

def QueryRecord.fields (r : QueryRecord) : List (String × Option Json) :=
  [("kind", some (.string "query")), ("query_id", some (.ofNat r.queryId)),
    ("seq", some (.ofNat r.seq)), ("shape", r.shape.map Json.string),
    ("ids", some (.ofStrings r.ids)), ("scores", r.scores.map Json.ofFloats),
    ("total", some ((r.total.map Json.ofNat).getD .null)), ("latency", some (.ofF64 r.latency)),
    ("error", r.error.map Json.string), ("expected", r.expected.map Json.ofStrings)]

def DumpLine.fields : DumpLine → List (String × Option Json)
  | .header h => h.fields
  | .query r => r.fields

def DumpLine.toJson (l : DumpLine) : Json := .object (Json.present l.fields)

def writeDump (codec : JsonCodec) (header : DumpHeader) (records : List QueryRecord) : Text :=
  writeLines ((DumpLine.header header :: records.map .query).map fun l ↦ codec.write l.toJson)

end Write

/-! ## Reading -/

section Read

def Workload.parse (s : String) : Option Workload :=
  [Workload.vector, .hybrid, .fulltext, .filterOnly, .hybridRrf].find? (·.asStr = s)

def readU32 (v : Json) : Option ℕ := v.asU64.filter (· < 2 ^ 32)

/-- `kind`, by which the alternatives are told apart. -/
def readKind (es : List (String × Json)) : Option String := Json.required Json.asStr "kind" es

def IdSpace.read (v : Json) : Option IdSpace := do
  let es ← v.asObject
  match ← readKind es with
  | "row" => some .row
  | "field" => (Json.required Json.asStr "field" es).map .field
  | _ => none

def CompoundIdentity.read (v : Json) : Option CompoundIdentity := do
  let es ← v.asObject
  guard (es.all fun e ↦ ["analysis", "query_sha256", "preparation_sha256"].contains e.1)
  let analysis ← Json.required Json.asStr "analysis" es
  let querySha256 ← Json.required Json.asStr "query_sha256" es
  let preparationSha256 ← Json.optional Json.asStr "preparation_sha256" es
  some { analysis, querySha256, preparationSha256 }

def DumpHeader.read (es : List (String × Json)) : Option DumpHeader := do
  let schemaVersion ← Json.required readU32 "schema_version" es
  let engine ← Json.required Json.asStr "engine" es
  let config ← Json.required Json.asStr "config" es
  let dataset ← Json.required Json.asStr "dataset" es
  let workload ← Json.required (fun v ↦ v.asStr.bind Workload.parse) "workload" es
  let parallel ← Json.required Json.asU64 "parallel" es
  let top ← Json.required Json.asU64 "top" es
  let searchId ← Json.required Json.asU64 "search_id" es
  let idSpace ← Json.required IdSpace.read "id_space" es
  let indexLayout ← Json.optional Json.asStr "index_layout" es
  let compoundIdentity ← Json.optional CompoundIdentity.read "compound_identity" es
  some { schemaVersion, engine, config, dataset, workload, parallel, top, searchId, idSpace,
         indexLayout, compoundIdentity }

def QueryRecord.read (es : List (String × Json)) : Option QueryRecord := do
  let queryId ← Json.required Json.asU64 "query_id" es
  let seq ← Json.required Json.asU64 "seq" es
  let shape ← Json.optional Json.asStr "shape" es
  let ids ← Json.required (Json.readList Json.asStr) "ids" es
  let scores ← Json.optional (Json.readList Json.asF64) "scores" es
  let total ← Json.optional Json.asU64 "total" es
  let latency ← Json.required Json.asF64 "latency" es
  let error ← Json.optional Json.asStr "error" es
  let expected ← Json.optional (Json.readList Json.asStr) "expected" es
  some { queryId, seq, shape, ids, scores, total, latency, error, expected }

def DumpLine.read (v : Json) : Option DumpLine := do
  let es ← v.asObject
  match ← readKind es with
  | "header" => (DumpHeader.read es).map .header
  | "query" => (QueryRecord.read es).map .query
  | _ => none

def isHexDigest (hash : String) : Bool :=
  hash.toList.length = 64 && hash.toList.all fun c ↦
    c.isDigit || ('a'.toNat ≤ c.toNat && c.toNat ≤ 'f'.toNat)

def CompoundIdentity.validate (c : CompoundIdentity) : Except String Unit :=
  if !(c.analysis = "english" || c.analysis = "parity") then
    .error "invalid compound analysis identity"
  else if !((c.querySha256 :: c.preparationSha256.toList).all isHexDigest) then
    .error "invalid compound SHA-256 identity"
  else .ok ()

variable (codec : JsonCodec) (describe : Text → String)

/-- The lines behind line `n`, where `header` and `records` have been read. -/
def readLines : ℕ → List Text → Option DumpHeader → List QueryRecord → Except String Dump
  | _, [], header, records =>
    match header with
    | none => .error "dump has no header line"
    | some header => .ok ⟨header, records⟩
  | n, line :: lines, header, records =>
    if (trim line).isEmpty then readLines (n + 1) lines header records
    else
      match (codec.read line).bind DumpLine.read, header with
      | none, _ => .error s!"line {n + 1}: {describe line}"
      | some (.header h), none =>
        if h.schemaVersion ≠ dumpSchemaVersion then
          .error (s!"dump schema_version {h.schemaVersion} is not the supported " ++
            s!"{dumpSchemaVersion}")
        else
          match (h.compoundIdentity.map CompoundIdentity.validate).getD (.ok ()) with
          | .error e => .error e
          | .ok () => readLines (n + 1) lines (some h) records
      | some (.header _), some _ => .error s!"line {n + 1}: second header"
      | some (.query _), none => .error s!"line {n + 1}: query before header"
      | some (.query q), some header => readLines (n + 1) lines (some header) (records ++ [q])

/-- `read_dump`, where `describe` says what is wrong with a line that is no dump line. -/
def readDump (t : Text) : Except String Dump := readLines codec describe 0 (bufLines t) none []

end Read

/-! ## Lines are read back -/

section ReadBack

/-- The numbers of a header fit their machine types. -/
structure DumpHeader.Fits (h : DumpHeader) : Prop where
  schemaVersion : h.schemaVersion < 2 ^ 32
  parallel : h.parallel < 2 ^ 64
  top : h.top < 2 ^ 64
  searchId : h.searchId < 2 ^ 64

/-- The numbers of a record fit their machine types. -/
structure QueryRecord.Fits (r : QueryRecord) : Prop where
  queryId : r.queryId < 2 ^ 64
  seq : r.seq < 2 ^ 64
  total : ∀ n, r.total = some n → n < 2 ^ 64
  scores : ∀ xs, r.scores = some xs → ∀ x ∈ xs, x.Valid
  latency : r.latency.Valid

/-- Whether all floats of a record are finite. -/
def QueryRecord.finite (r : QueryRecord) : Bool :=
  r.latency.isFinite && r.scores.all fun xs ↦ xs.all F64.isFinite

@[simp] theorem Workload.parse_asStr (w : Workload) : Workload.parse w.asStr = some w := by
  cases w <;> decide

theorem IdSpace.read_toJson (s : IdSpace) : IdSpace.read s.toJson = some s := by
  cases s with
  | row => rfl
  | field name => rfl

theorem CompoundIdentity.read_toJson (c : CompoundIdentity) :
    CompoundIdentity.read c.toJson = some c := by
  obtain ⟨analysis, querySha256, preparationSha256⟩ := c
  cases preparationSha256 <;> rfl

theorem CompoundIdentity.toJson_ne_null (c : CompoundIdentity) : c.toJson ≠ .null := by
  rintro ⟨⟩

theorem DumpHeader.nodup_fields (h : DumpHeader) : (h.fields.map Prod.fst).Nodup :=
  (by decide : ["kind", "schema_version", "engine", "config", "dataset", "workload", "parallel",
    "top", "search_id", "id_space", "index_layout", "compound_identity"].Nodup)

theorem QueryRecord.nodup_fields (r : QueryRecord) : (r.fields.map Prod.fst).Nodup :=
  (by decide : ["kind", "query_id", "seq", "shape", "ids", "scores", "total", "latency", "error",
    "expected"].Nodup)

/-- An optional text is read back. -/
theorem optional_string {fields : List (String × Option Json)} (key : String) (x : Option String)
    (hfields : (fields.map Prod.fst).Nodup) (hx : (key, x.map Json.string) ∈ fields) :
    Json.optional Json.asStr key (Json.present fields) = some x := by
  rw [Json.optional_present x Json.string hfields hx (fun a ↦ by rintro ⟨⟩)]
  cases x <;> rfl

theorem required_nat {fields : List (String × Option Json)} (key : String) {n : ℕ}
    (hfields : (fields.map Prod.fst).Nodup) (hn : (key, some (Json.ofNat n)) ∈ fields)
    (hbound : n < 2 ^ 64) : Json.required Json.asU64 key (Json.present fields) = some n := by
  rw [Json.required_present _ hfields hn, Json.asU64_ofNat hbound]

theorem DumpHeader.read_fields {h : DumpHeader} (hfits : h.Fits) :
    DumpHeader.read (Json.present h.fields) = some h := by
  have hnodup := h.nodup_fields
  have hversion : readU32 (Json.ofNat h.schemaVersion) = some h.schemaVersion := by
    rw [readU32, Json.asU64_ofNat (hfits.schemaVersion.trans (by decide))]
    exact if_pos (decide_eq_true hfits.schemaVersion)
  have hstring : ∀ key s, (key, some (Json.string s)) ∈ h.fields →
      Json.required Json.asStr key (Json.present h.fields) = some s := fun _ _ hs ↦
    Json.required_present _ hnodup hs
  have hworkload : Json.required (fun v ↦ v.asStr.bind Workload.parse) "workload"
      (Json.present h.fields) = some h.workload :=
    (Json.required_present (.string h.workload.asStr) hnodup (by simp [fields])).trans
      (Workload.parse_asStr _)
  have hspace : Json.required IdSpace.read "id_space" (Json.present h.fields) = some h.idSpace :=
    (Json.required_present h.idSpace.toJson hnodup (by simp [fields])).trans
      (IdSpace.read_toJson _)
  have hidentity : Json.optional CompoundIdentity.read "compound_identity"
      (Json.present h.fields) = some h.compoundIdentity := by
    rw [Json.optional_present h.compoundIdentity CompoundIdentity.toJson hnodup
      (by simp [fields]) CompoundIdentity.toJson_ne_null]
    cases h.compoundIdentity with
    | none => rfl
    | some c => exact congrArg (Option.map some) c.read_toJson
  have hschema : Json.required readU32 "schema_version" (Json.present h.fields) =
      some h.schemaVersion :=
    (Json.required_present (.ofNat h.schemaVersion) hnodup (by simp [fields])).trans hversion
  have hparallel := required_nat "parallel" hnodup (by simp [fields]) hfits.parallel
  have htop := required_nat "top" hnodup (by simp [fields]) hfits.top
  have hsearch := required_nat "search_id" hnodup (by simp [fields]) hfits.searchId
  have hlayout := optional_string "index_layout" h.indexLayout hnodup
    (by simp [fields])
  have hengine := hstring "engine" h.engine (by simp [fields])
  have hconfig := hstring "config" h.config (by simp [fields])
  have hdataset := hstring "dataset" h.dataset (by simp [fields])
  simp only [DumpHeader.read, hschema, hengine, hconfig, hdataset, hworkload, hparallel, htop,
    hsearch, hspace, hlayout, hidentity, Option.bind_eq_bind, Option.bind_some]

/-- A record is read back exactly when its floats are finite. -/
theorem QueryRecord.read_fields {r : QueryRecord} (hfits : r.Fits) :
    QueryRecord.read (Json.present r.fields) = if r.finite then some r else none := by
  have hnodup := r.nodup_fields
  have hquery := required_nat "query_id" hnodup (by simp [fields]) hfits.queryId
  have hseq := required_nat "seq" hnodup (by simp [fields]) hfits.seq
  have hshape := optional_string "shape" r.shape hnodup (by simp [fields])
  have herror := optional_string "error" r.error hnodup (by simp [fields])
  have hids : Json.required (Json.readList Json.asStr) "ids" (Json.present r.fields) =
      some r.ids :=
    (Json.required_present (.ofStrings r.ids) hnodup (by simp [fields])).trans
      (Json.readList_ofStrings _)
  have hexpected : Json.optional (Json.readList Json.asStr) "expected" (Json.present r.fields) =
      some r.expected := by
    rw [Json.optional_present r.expected Json.ofStrings hnodup (by simp [fields])
      (fun a ↦ by rintro ⟨⟩)]
    cases r.expected with
    | none => rfl
    | some ids => exact congrArg (Option.map some) (Json.readList_ofStrings ids)
  have htotal : Json.optional Json.asU64 "total" (Json.present r.fields) = some r.total := by
    rw [Json.optional, Json.field_present hnodup (v := some ((r.total.map Json.ofNat).getD .null))
      (by simp [fields])]
    cases ht : r.total with
    | none => rfl
    | some n => exact congrArg (Option.map some) (Json.asU64_ofNat (hfits.total n ht))
  have hscores : Json.optional (Json.readList Json.asF64) "scores" (Json.present r.fields) =
      if r.scores.all fun xs ↦ xs.all F64.isFinite then some r.scores else none := by
    rw [Json.optional_present r.scores Json.ofFloats hnodup (by simp [fields])
      (fun a ↦ by rintro ⟨⟩)]
    cases r.scores with
    | none => rfl
    | some xs =>
        rw [Option.elim_some, Json.readList_ofFloats, Option.all_some]
        split_ifs <;> rfl
  have hlatency : Json.required Json.asF64 "latency" (Json.present r.fields) =
      if r.latency.isFinite then some r.latency else none :=
    (Json.required_present (.ofF64 r.latency) hnodup (by simp [fields])).trans (Json.asF64_ofF64 _)
  simp only [QueryRecord.read, hquery, hseq, hshape, hids, hscores, htotal, hlatency, herror,
    hexpected, Option.bind_eq_bind, Option.bind_some]
  have hfinite : r.finite = true ↔ r.latency.isFinite = true ∧
      (r.scores.all fun xs ↦ xs.all F64.isFinite) = true := by
    rw [finite, Bool.and_eq_true]
  by_cases hl : r.latency.isFinite = true
  · by_cases hs : (r.scores.all fun xs ↦ xs.all F64.isFinite) = true
    · rw [if_pos hl, if_pos hs, if_pos (hfinite.mpr ⟨hl, hs⟩)]
      rfl
    · rw [if_neg hs, if_neg fun h ↦ hs (hfinite.mp h).2]
      rfl
  · rw [if_neg hl, if_neg fun h ↦ hl (hfinite.mp h).1]
    split_ifs <;> rfl

/-- Whether a line can be read back. -/
def DumpLine.finite : DumpLine → Bool
  | .header _ => true
  | .query r => r.finite

def DumpLine.Fits : DumpLine → Prop
  | .header h => h.Fits
  | .query r => r.Fits

theorem DumpLine.read_toJson {l : DumpLine} (hfits : l.Fits) :
    DumpLine.read l.toJson = if l.finite then some l else none := by
  cases l with
  | header h =>
      have hkind : readKind (Json.present h.fields) = some "header" :=
        Json.required_present (.string "header") h.nodup_fields List.mem_cons_self
      show (readKind (Json.present h.fields)).bind _ = _
      rw [hkind]
      exact congrArg (Option.map DumpLine.header) (DumpHeader.read_fields hfits)
  | query r =>
      have hkind : readKind (Json.present r.fields) = some "query" :=
        Json.required_present (.string "query") r.nodup_fields List.mem_cons_self
      show (readKind (Json.present r.fields)).bind _ = _
      rw [hkind]
      have hread := congrArg (Option.map DumpLine.query) (QueryRecord.read_fields hfits)
      refine hread.trans ?_
      show _ = if r.finite then _ else _
      split_ifs <;> rfl

theorem floats_ofStrings (ss : List String) : (Json.ofStrings ss).floats = [] := by
  rw [Json.ofStrings, Json.floats]
  induction ss with
  | nil => rfl
  | cons s ss ih =>
      rw [List.map_cons, Json.floatsEach, ih]
      rfl

theorem mem_floats_ofFloats {xs : List F64} {q : ℚ} (h : q ∈ (Json.ofFloats xs).floats) :
    .fin q ∈ xs := by
  rw [Json.ofFloats, Json.floats] at h
  induction xs with
  | nil => cases h
  | cons x xs ih =>
      rw [List.map_cons, Json.floatsEach, List.mem_append] at h
      rcases h with h | h
      · rw [Json.mem_floats_ofF64 h]
        exact List.mem_cons_self
      · exact List.mem_cons_of_mem x (ih h)

/-- A header has no floats. -/
theorem DumpHeader.floats_of_mem_fields {h : DumpHeader} {f : String × Option Json}
    (hf : f ∈ h.fields) {w : Json} (hw : f.2 = some w) : w.floats = [] := by
  have hspace : h.idSpace.toJson.floats = [] := by cases h.idSpace <;> rfl
  have hidentity : ∀ c : CompoundIdentity, c.toJson.floats = [] := by
    rintro ⟨analysis, querySha256, preparationSha256⟩
    cases preparationSha256 <;> rfl
  simp only [fields, List.mem_cons, List.not_mem_nil, or_false] at hf
  rcases hf with rfl | rfl | rfl | rfl | rfl | rfl | rfl | rfl | rfl | rfl | rfl | rfl
  all_goals try (cases hw; rfl)
  · cases hw
    exact hspace
  · obtain ⟨layout, -, rfl⟩ := Option.map_eq_some_iff.mp hw
    rfl
  · obtain ⟨c, -, rfl⟩ := Option.map_eq_some_iff.mp hw
    exact hidentity c

/-- The floats of a record are its scores and its latency. -/
theorem QueryRecord.mem_floats_of_mem_fields {r : QueryRecord} {f : String × Option Json}
    (hf : f ∈ r.fields) {w : Json} (hw : f.2 = some w) {q : ℚ} (hq : q ∈ w.floats) :
    r.latency = .fin q ∨ ∃ xs, r.scores = some xs ∧ .fin q ∈ xs := by
  simp only [fields, List.mem_cons, List.not_mem_nil, or_false] at hf
  rcases hf with rfl | rfl | rfl | rfl | rfl | rfl | rfl | rfl | rfl | rfl
  · cases hw
    cases hq
  · cases hw
    cases hq
  · cases hw
    cases hq
  · obtain ⟨shape, -, rfl⟩ := Option.map_eq_some_iff.mp hw
    cases hq
  · cases hw
    rw [floats_ofStrings] at hq
    cases hq
  · obtain ⟨xs, hxs, rfl⟩ := Option.map_eq_some_iff.mp hw
    exact .inr ⟨xs, hxs, mem_floats_ofFloats hq⟩
  · cases hw
    cases ht : r.total with
    | none =>
        rw [ht] at hq
        cases hq
    | some n =>
        rw [ht] at hq
        cases hq
  · cases hw
    exact .inl (Json.mem_floats_ofF64 hq)
  · obtain ⟨error, -, rfl⟩ := Option.map_eq_some_iff.mp hw
    cases hq
  · obtain ⟨ids, -, rfl⟩ := Option.map_eq_some_iff.mp hw
    rw [floats_ofStrings] at hq
    cases hq

/-- The floats of a line are values. -/
theorem DumpLine.isValue_of_mem_floats {l : DumpLine} (hfits : l.Fits) {q : ℚ}
    (hq : q ∈ l.toJson.floats) : F64.IsValue q := by
  obtain ⟨f, hf, w, hw, hmem⟩ := Json.mem_floats_present hq
  cases l with
  | header h =>
      rw [DumpHeader.floats_of_mem_fields hf hw] at hmem
      cases hmem
  | query r =>
      have hvalid : ∀ {x : F64}, x.Valid → x = .fin q → F64.IsValue q := by
        rintro _ hx rfl
        exact hx
      rcases QueryRecord.mem_floats_of_mem_fields hf hw hmem with hlatency | ⟨xs, hxs, hx⟩
      · exact hvalid (QueryRecord.Fits.latency hfits) hlatency
      · exact hvalid (QueryRecord.Fits.scores hfits xs hxs _ hx) rfl

end ReadBack

/-! ## The round trip -/

section RoundTrip

variable {codec : JsonCodec} {describe : Text → String}

/-- The line of an entry. -/
def DumpLine.text (codec : JsonCodec) (l : DumpLine) : Text := codec.write l.toJson

/-- The library keeps its promises for a line. -/
abbrev DumpLine.Lawful (codec : JsonCodec) (l : DumpLine) : Prop := codec.Lawful l.toJson

section Line

variable {l : DumpLine}

/-- What is read of a line that was written. -/
theorem bind_read_text (hc : l.Lawful codec) (hfits : l.Fits) :
    (codec.read (l.text codec)).bind DumpLine.read = if l.finite then some l else none := by
  rw [DumpLine.text, hc.readsBack fun q hq ↦ l.isValue_of_mem_floats hfits hq,
    Option.bind_some, DumpLine.read_toJson hfits]

theorem trim_text_ne_nil (hc : l.Lawful codec) : (trim (l.text codec)).isEmpty = false := by
  have hmem : '\x7b' ∈ trim (l.text codec) :=
    mem_trim (List.mem_of_mem_head? hc.brace) (by decide)
  exact List.isEmpty_eq_false_iff.mpr (List.ne_nil_of_mem hmem)

/-- A line has no line break in it. -/
theorem plain_text (hc : l.Lawful codec) :
    '\n' ∉ l.text codec ∧ (l.text codec).getLast? ≠ some '\r' := by
  refine ⟨fun hmem ↦ absurd (hc.escapes _ hmem) (by decide), fun hlast ↦ ?_⟩
  exact absurd (hc.escapes _ (List.mem_of_getLast? hlast)) (by decide)

end Line

/-- The header line. -/
theorem readLines_header {header : DumpHeader} (hc : (DumpLine.header header).Lawful codec)
    (hfits : header.Fits) (hversion : header.schemaVersion = dumpSchemaVersion)
    (hidentity : ∀ i, header.compoundIdentity = some i → i.validate = .ok ())
    (n : ℕ) (lines : List Text) (records : List QueryRecord) :
    readLines codec describe n ((DumpLine.header header).text codec :: lines) none records =
      readLines codec describe (n + 1) lines (some header) records := by
  have hread : (codec.read ((DumpLine.header header).text codec)).bind DumpLine.read =
      some (.header header) := bind_read_text hc hfits
  have hvalid : (header.compoundIdentity.map CompoundIdentity.validate).getD (.ok ()) =
      .ok () := by
    cases hi : header.compoundIdentity with
    | none => rfl
    | some i => exact hidentity i hi
  conv_lhs => rw [readLines.eq_def]
  dsimp only
  rw [trim_text_ne_nil hc, if_neg Bool.false_ne_true, hread]
  dsimp only
  rw [if_neg (not_not.mpr hversion), hvalid]

/-- The line of a record. -/
theorem readLines_query {r : QueryRecord} (hc : (DumpLine.query r).Lawful codec)
    (hfits : r.Fits) (n : ℕ) (lines : List Text) (header : DumpHeader)
    (records : List QueryRecord) :
    readLines codec describe n ((DumpLine.query r).text codec :: lines) (some header) records =
      if r.finite then readLines codec describe (n + 1) lines (some header) (records ++ [r])
      else .error s!"line {n + 1}: {describe ((DumpLine.query r).text codec)}" := by
  have hread : (codec.read ((DumpLine.query r).text codec)).bind DumpLine.read =
      if r.finite then some (.query r) else none := bind_read_text hc hfits
  conv_lhs => rw [readLines.eq_def]
  dsimp only
  rw [trim_text_ne_nil hc, if_neg Bool.false_ne_true, hread]
  split_ifs <;> rfl

/-- The lines of records behind a header are read back exactly when all floats are finite. -/
theorem readLines_records_iff {rs : List QueryRecord}
    (hc : ∀ r ∈ rs, (DumpLine.query r).Lawful codec) (hfits : ∀ r ∈ rs, r.Fits) (n : ℕ)
    (header : DumpHeader) (records : List QueryRecord) :
    readLines codec describe n (rs.map fun r ↦ (DumpLine.query r).text codec) (some header)
        records = .ok ⟨header, records ++ rs⟩ ↔ ∀ r ∈ rs, r.finite = true := by
  induction rs generalizing n records with
  | nil =>
      rw [List.map_nil, List.append_nil]
      exact iff_of_true rfl fun r hr ↦ absurd hr List.not_mem_nil
  | cons r rs ih =>
      rw [List.forall_mem_cons] at hfits hc
      have happend : records ++ r :: rs = records ++ [r] ++ rs := by
        rw [List.append_assoc, List.singleton_append]
      rw [List.map_cons, readLines_query hc.1 hfits.1, List.forall_mem_cons, happend]
      split_ifs with hr
      · rw [ih hc.2 hfits.2]
        exact (and_iff_right hr).symm
      · exact iff_of_false (fun h ↦ by cases h) fun h ↦ hr h.1

/-- What is written is read back as it was exactly when every score and every latency is a
finite number. -/
theorem readDump_writeDump_iff {header : DumpHeader} {records : List QueryRecord}
    (hheader : (DumpLine.header header).Lawful codec)
    (hrecords : ∀ r ∈ records, (DumpLine.query r).Lawful codec)
    (hversion : header.schemaVersion = dumpSchemaVersion)
    (hidentity : ∀ i, header.compoundIdentity = some i → i.validate = .ok ())
    (hfits : header.Fits ∧ ∀ r ∈ records, r.Fits) :
    readDump codec describe (writeDump codec header records) = .ok ⟨header, records⟩ ↔
      ∀ r ∈ records, r.finite = true := by
  have hlines : bufLines (writeDump codec header records) =
      (DumpLine.header header).text codec ::
        records.map fun r ↦ (DumpLine.query r).text codec := by
    rw [writeDump, bufLines_writeLines, List.map_cons, List.map_map]
    · rfl
    · rw [List.map_cons, List.forall_mem_cons]
      refine ⟨plain_text hheader, fun line hline ↦ ?_⟩
      obtain ⟨l, hl, rfl⟩ := List.mem_map.mp hline
      obtain ⟨r, hr, rfl⟩ := List.mem_map.mp hl
      exact plain_text (hrecords r hr)
  rw [readDump, hlines, readLines_header hheader hfits.1 hversion hidentity]
  exact readLines_records_iff hrecords hfits.2 1 header []

end RoundTrip

/-! ## Examples -/

section Examples

def plainHeader : DumpHeader where
  schemaVersion := 1
  engine := "redis"
  config := "redis-m-16"
  dataset := "d"
  workload := .vector
  parallel := 4
  top := 2
  searchId := 0
  idSpace := .row
  indexLayout := none
  compoundIdentity := none

/-- A query answered with one hit of this score. -/
def oneHit (score : F64) : QueryRecord where
  queryId := 0
  seq := 0
  shape := none
  ids := ["7"]
  scores := some [score]
  total := none
  latency := .fin (1 / 2)
  error := none
  expected := none

def quoted (s : String) : Text :=
  '"' :: (s.toList.flatMap fun c ↦ if c = '"' ∨ c = '\\' then ['\\', c] else [c]) ++ ['"']

mutual

/-- The compact text of a value without control characters and very large or small floats. -/
def compact : Json → Text
  | .null => "null".toList
  | .bool b => (if b then "true" else "false").toList
  | .number (.posInt n _) => intText n
  | .number (.negInt i _) => intText i
  | .number (.float q) =>
    let t := F64.display (.fin q)
    if t.contains '.' then t else t ++ ".0".toList
  | .string s => quoted s
  | .array vs => '[' :: ([','].intercalate (compactEach vs) ++ [']'])
  | .object es => '\x7b' :: ([','].intercalate (compactEntries es) ++ ['\x7d'])

def compactEach : List Json → List Text
  | [] => []
  | v :: vs => compact v :: compactEach vs

def compactEntries : List (String × Json) → List Text
  | [] => []
  | (k, v) :: es => (quoted k ++ ':' :: compact v) :: compactEntries es

end

/-- A library that reads the lines of one dump. -/
def plainCodec (ls : List DumpLine) : JsonCodec where
  write := compact
  read t := (ls.map DumpLine.toJson).find? (compact · = t)

theorem lawful_plainCodec {ls : List DumpLine} {l : DumpLine}
    (hfind : ∀ l' ∈ ls, compact l'.toJson = compact l.toJson → l' = l) (hl : l ∈ ls)
    (hescapes : ∀ c ∈ compact l.toJson, 32 ≤ c.toNat) : l.Lawful (plainCodec ls) where
  readsBack _ := by
    show (ls.map DumpLine.toJson).find? (compact · = compact l.toJson) = some l.toJson
    rw [List.find?_map]
    cases hf : ls.find? ((fun v ↦ decide (compact v = compact l.toJson)) ∘ DumpLine.toJson) with
    | none =>
        refine absurd (List.find?_eq_none.mp hf l hl) (not_not.mpr ?_)
        exact decide_eq_true rfl
    | some l' =>
        have htext := List.find?_some hf
        rw [Function.comp_apply, decide_eq_true_iff] at htext
        rw [hfind l' (List.mem_of_find?_eq_some hf) htext]
        rfl
  escapes := hescapes
  brace := rfl

def finiteLines : List DumpLine := [.header plainHeader, .query (oneHit (.fin (1 / 8)))]

def describeLine (_ : Text) : String := "invalid type: null, expected f64"

theorem readDump_writeDump_iff_finite :
    readDump (plainCodec finiteLines) describeLine
        (writeDump (plainCodec finiteLines) plainHeader [oneHit (.fin (1 / 8))]) =
      .ok ⟨plainHeader, [oneHit (.fin (1 / 8))]⟩ ↔
      ∀ r ∈ [oneHit (.fin (1 / 8))], r.finite = true := by
  refine readDump_writeDump_iff (lawful_plainCodec ?_ ?_ ?_) ?_ rfl ?_ ⟨?_, ?_⟩
  · decide +kernel
  · exact List.mem_cons_self
  · exact forall_mem_of_all (by decide)
  · rw [List.forall_mem_singleton]
    exact lawful_plainCodec (by decide +kernel) (List.mem_cons_of_mem _ List.mem_cons_self)
      (forall_mem_of_all (by decide +kernel))
  · rintro i ⟨⟩
  · exact ⟨by decide, by decide, by decide, by decide⟩
  · rw [List.forall_mem_singleton]
    exact ⟨by decide, by decide, by rintro n ⟨⟩, by
      rintro xs ⟨⟩ x hx
      rw [List.mem_singleton.mp hx]
      exact (by decide +kernel : F64.IsValue (1 / 8)),
      (by decide +kernel : F64.IsValue (1 / 2))⟩

/-- A score that is no number, such as a server's cosine distance to a null vector. -/
def nanLines : List DumpLine := [.header plainHeader, .query (oneHit .nan)]

/-- Such a dump is written and cannot be read. -/
theorem readDump_writeDump_nan :
    (∀ l ∈ nanLines, l.Lawful (plainCodec nanLines) ∧ l.Fits) ∧
      readDump (plainCodec nanLines) describeLine
          (writeDump (plainCodec nanLines) plainHeader [oneHit .nan]) =
        .error "line 2: invalid type: null, expected f64" := by
  refine ⟨?_, ?_⟩
  · rw [nanLines, List.forall_mem_cons, List.forall_mem_singleton]
    refine ⟨⟨lawful_plainCodec ?_ List.mem_cons_self ?_, ?_⟩,
      ⟨lawful_plainCodec ?_ (List.mem_cons_of_mem _ List.mem_cons_self) ?_, ?_⟩⟩
    · decide +kernel
    · exact forall_mem_of_all (by decide)
    · exact ⟨by decide, by decide, by decide, by decide⟩
    · decide +kernel
    · exact forall_mem_of_all (by decide +kernel)
    · exact ⟨by decide, by decide, by rintro n ⟨⟩, by
        rintro xs ⟨⟩ x hx
        rw [List.mem_singleton.mp hx]
        trivial, (by decide +kernel : F64.IsValue (1 / 2))⟩
  · decide +kernel

end Examples

end VectorDbBenchmark.Results
