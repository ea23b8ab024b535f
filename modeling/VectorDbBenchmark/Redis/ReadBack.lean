import VectorDbBenchmark.Kit.DecimalText
import VectorDbBenchmark.Redis.HnswOptions
import VectorDbBenchmark.Redis.Value

/-!
# The index a run searches is the one it says

`verify_vector_field_compression`: before a search the algorithm and the compression that
`FT.INFO` reports for the vector field are compared with the options of the run.  A server
that reports what it built is accepted exactly by runs that record the same options.
-/

namespace VectorDbBenchmark.Redis

open Kit

/-! ## Reading a reply -/

section Reply

def asString : Value → Option String
  | .simpleString s => some s
  | .bulkString b => fromUtf8 b
  | .int n => some (.ofList (intText n.toInt))
  | _ => none

/-- The first value at a key. -/
def entryAt (key : String) (es : List (Value × Value)) : Option Value :=
  (es.find? fun e ↦ asString e.1 = some key).map Prod.snd

def field (v : Value) (key : String) : Option Value :=
  match v with
  | .map es => entryAt key es
  | .array vs => entryAt key (twoByTwo vs)
  | _ => none

def stringAt (v : Value) (key : String) : Option String := (field v key).bind asString

def noVectorAttribute : String := "FT.INFO has no vector attribute"

def isVectorAttribute (v : Value) : Bool := stringAt v "identifier" = some "vector"

def vectorEntry (entries : List Value) : Except String Value :=
  match entries.find? isVectorAttribute with
  | some v => .ok v
  | none => .error noVectorAttribute

def vectorAttribute (info : Value) : Except String Value :=
  match field info "attributes" with
  | none => .error "FT.INFO has no attributes"
  | some (.array entries) => vectorEntry entries
  | some (.set entries) => vectorEntry entries
  | some _ => .error "FT.INFO attributes has an unexpected shape"

def vectorAttributeIfAny (info : Value) : Except String (Option Value) :=
  match vectorAttribute info with
  | .ok v => .ok (some v)
  | .error e => if e = noVectorAttribute then .ok none else .error e

end Reply

/-! ## The checks -/

section Verify

variable (debug : String → String)

def debugOption : Option String → String
  | none => "None"
  | some s => s!"Some({s})"

def Sq8Options.verifyFtInfo (o : Sq8Options) (info : Value) : Except String Unit :=
  if o.compression.isNone then .ok ()
  else do
    let vector ← vectorAttribute info
    let actualCompression := stringAt vector "compression"
    if actualCompression ≠ o.compression then
      .error (s!"FT.INFO vector compression {debugOption (actualCompression.map debug)} differs " ++
        s!"from requested {debugOption (o.compression.map debug)} (the index was not built " ++
        "with this run's HNSW COMPRESSION; check REDIS_HNSW_* and the config against the " ++
        "invocation that built it)")
    else
      let expectedThreshold := o.trainingThreshold.getD serverDefaultTrainingThreshold
      let actualThreshold :=
        (stringAt vector "training_threshold").bind fun s ↦ parseU64 s.toList
      if actualThreshold ≠ some expectedThreshold then
        .error (s!"FT.INFO vector training_threshold " ++
          s!"{debugOption (actualThreshold.map toString)} differs from requested " ++
          s!"{expectedThreshold}")
      else .ok ()

def Sq8Options.verifyIndexCompression (o : Sq8Options) (info : Value) : Except String Unit := do
  match ← vectorAttributeIfAny info with
  | none => .ok ()
  | some vector =>
    if o.compression.isSome then o.verifyFtInfo debug info
    else
      match stringAt vector "compression" with
      | none => .ok ()
      | some c =>
        .error ("this run resolves no HNSW COMPRESSION (neither the config nor " ++
          "REDIS_HNSW_COMPRESSION sets it), but the index's vector field reports " ++
          s!"compression {c} (training_threshold " ++
          (stringAt vector "training_threshold").getD "?" ++ "); it was built by another " ++
          "invocation or config, and its results would be labeled uncompressed")

/-- When a vector-compression read-back runs. -/
inductive ReadBack where
  | created
  | reused
deriving DecidableEq

def svsAlgorithm : String := "SVS-VAMANA"

def svsNoCompression : String := "NO_COMPRESSION"

def svsCompressionFtInfo : List String :=
  ["LVQ8", "LVQ4", "LVQ4x4", "LVQ4x8", "LeanVec4x8", "LeanVec8x8"]

def svsScalarFallback : String := "GlobalSQ8"

def svsExpectedFtInfoCompression (requested : String) : String :=
  (svsCompressionFtInfo.find? (eqIgnoreAsciiCase · requested)).getD requested

def verifySvsCompression (requested : String) (info : Value) : Except String Unit := do
  let vector ← vectorAttribute info
  match stringAt vector "compression" with
  | none => .error "FT.INFO vector attribute has no compression"
  | some actual =>
    let expected := svsExpectedFtInfoCompression requested
    if eqIgnoreAsciiCase actual expected then .ok ()
    else if actual = svsScalarFallback then
      .error (s!"SVS COMPRESSION: requested {requested}, server built {svsScalarFallback} (this " ++
        "platform has no LVQ/LeanVec support, so RediSearch fell back to scalar 8-bit " ++
        s!"quantization); refusing to report its results under the {requested} label")
    else
      .error (s!"SVS COMPRESSION: requested {requested} (FT.INFO spelling {expected}), server " ++
        s!"built {actual}")

def verifySvsIndexCompression (requested : Option String) (info : Value) : Except String Unit := do
  match ← vectorAttributeIfAny info with
  | none => .ok ()
  | some vector =>
    match requested with
    | some requested => verifySvsCompression requested info
    | none =>
      match stringAt vector "compression" with
      | none => .error "FT.INFO SVS vector attribute has no compression"
      | some c =>
        if c = svsNoCompression then .ok ()
        else
          .error ("this run resolves no SVS COMPRESSION (neither the config nor " ++
            "REDIS_SVS_COMPRESSION sets it), but the index's vector field reports " ++
            s!"compression {c}; it was built by another invocation or config, and its results " ++
            "would be labeled uncompressed")

def checkCreated (info : Value) : ReadBack → Except String Unit
  | .reused => .ok ()
  | .created =>
    match vectorAttribute info with
    | .ok _ => .ok ()
    | .error e =>
      .error (s!"{e} right after FT.CREATE declared one; the compression cannot be confirmed")

def checkAlgorithm (algorithm : String) : Option Value → Except String Unit
  | none => .ok ()
  | some vector =>
    match stringAt vector "algorithm" with
    | none => .error "FT.INFO vector attribute has no algorithm"
    | some built =>
      if eqIgnoreAsciiCase built algorithm then .ok ()
      else
        .error (s!"this config builds {algorithm}, but the index's vector field is {built}; " ++
          "it was built by another config (REDIS_INDEX_NAME_EXACT=1 or --skip-upload reuse), " ++
          "and its results would carry this config's label")

def verifyVectorFieldCompression (algorithm : String) (hnsw : Sq8Options)
    (svsCompression : Option String) (info : Value) (when : ReadBack) : Except String Unit := do
  checkCreated info when
  checkAlgorithm algorithm (← vectorAttributeIfAny info)
  if eqIgnoreAsciiCase algorithm svsAlgorithm then verifySvsIndexCompression svsCompression info
  else hnsw.verifyIndexCompression debug info

end Verify

/-! ## What a server reports -/

section Server

/-- A vector index as the server built it: its algorithm and, when it is quantized, the
compression and the training threshold. -/
structure VectorIndex where
  algorithm : String
  quantization : Option (String × ℕ)

/-- The index that `FT.CREATE` builds from the options. -/
def Sq8Options.build (o : Sq8Options) : VectorIndex where
  algorithm := "HNSW"
  quantization := o.compression.map fun c ↦
    (c, o.trainingThreshold.getD serverDefaultTrainingThreshold)

/-- How a reply spells a text. -/
inductive Spells : String → Value → Prop
  | simple (s : String) : Spells s (.simpleString s)
  | bulk (s : String) : Spells s (.bulkString (utf8Bytes s))

/-- How a reply spells a number. -/
inductive SpellsNat : ℕ → Value → Prop
  | int {n : ℕ} {i : Int64} (h : i.toInt = n) : SpellsNat n (.int i)
  | text {n : ℕ} {v : Value} (h : Spells (.ofList (digitText n)) v) : SpellsNat n v

/-- A reply value that lists fields: a map, or keys and values in turn with perhaps a last
flag. -/
inductive Lists (es : List (String × Value)) : Value → Prop
  | resp3 {ks : List (Value × Value)}
    (h : List.Forall₂ (fun e k ↦ Spells e.1 k.1 ∧ k.2 = e.2) es ks) :
    Lists es (.map ks)
  | resp2 {ks : List (Value × Value)} {rest : List Value}
    (h : List.Forall₂ (fun e k ↦ Spells e.1 k.1 ∧ k.2 = e.2) es ks) (hrest : rest.length ≤ 1) :
    Lists es (.array (alternating ks ++ rest))

/-- The fields of the vector attribute of an index: the keys of a compression are there
exactly when it is quantized. -/
structure Describes (ix : VectorIndex) (es : List (String × Value)) : Prop where
  identifier : Option.Rel Spells (some "vector") (es.lookup "identifier")
  algorithm : Option.Rel Spells (some ix.algorithm) (es.lookup "algorithm")
  compression : Option.Rel Spells (ix.quantization.map Prod.fst) (es.lookup "compression")
  trainingThreshold :
    Option.Rel SpellsNat (ix.quantization.map Prod.snd) (es.lookup "training_threshold")

/-- An attribute of another field. -/
def OtherAttribute (v : Value) : Prop :=
  ∃ es name w, Lists es v ∧ es.lookup "identifier" = some w ∧ Spells name w ∧ name ≠ "vector"

/-- An `FT.INFO` reply, in any layout, that has the vector attribute of an index. -/
inductive Reports (ix : VectorIndex) : Value → Prop
  | mk {info entry attributes : Value} {fields es : List (String × Value)}
    {before after : List Value} (hinfo : Lists fields info)
    (hattributes : fields.lookup "attributes" = some attributes)
    (hentries : attributes = .array (before ++ entry :: after) ∨
      attributes = .set (before ++ entry :: after))
    (hbefore : ∀ v ∈ before, OtherAttribute v) (hentry : Lists es entry)
    (hdescribes : Describes ix es) : Reports ix info

end Server

/-! ## Reading what was reported -/

section ReadReport

theorem Spells.asString {s : String} {v : Value} (h : Spells s v) : asString v = some s := by
  cases h with
  | simple => rfl
  | bulk => exact fromUtf8_utf8Bytes s

theorem parseU64_digitText {n : ℕ} (h : n < 2 ^ 64) : parseU64 (digitText n) = some n :=
  parseU64_repr h

theorem SpellsNat.asString {n : ℕ} {v : Value} (h : SpellsNat n v) :
    Redis.asString v = some (.ofList (digitText n)) := by
  cases h with
  | int h =>
      rw [Redis.asString, h]
      rfl
  | text h => exact h.asString

variable {es : List (String × Value)} {v : Value}

theorem entryAt_of_forall₂ {ks : List (Value × Value)} (key : String)
    (h : List.Forall₂ (fun e k ↦ Spells e.1 k.1 ∧ k.2 = e.2) es ks) :
    entryAt key ks = es.lookup key := by
  induction h with
  | nil => rfl
  | @cons e k es ks hk _ ih =>
      obtain ⟨name, w⟩ := e
      rw [entryAt, List.find?_cons, List.lookup_cons, hk.1.asString]
      by_cases hname : name = key
      · subst hname
        simp [hk.2]
      · have hkey : (key == name) = false := beq_eq_false_iff_ne.mpr (Ne.symm hname)
        simp only [Option.some.injEq, hname, decide_false, hkey]
        exact ih

theorem twoByTwo_append {rest : List Value} (ks : List (Value × Value)) (h : rest.length ≤ 1) :
    twoByTwo (alternating ks ++ rest) = ks := by
  induction ks with
  | nil =>
      match rest, h with
      | [], _ => rfl
      | [_], _ => rfl
  | cons k ks ih => exact congrArg (k :: ·) ih

theorem Lists.field (h : Lists es v) (key : String) : field v key = es.lookup key := by
  cases h with
  | resp3 h => exact entryAt_of_forall₂ key h
  | resp2 h hrest =>
      rw [Redis.field, twoByTwo_append _ hrest]
      exact entryAt_of_forall₂ key h

theorem Lists.stringAt (h : Lists es v) (key : String) :
    stringAt v key = (es.lookup key).bind asString := by
  rw [Redis.stringAt, h.field]

theorem bind_asString_of_rel {o : Option String} {w : Option Value} (h : Option.Rel Spells o w) :
    w.bind asString = o := by
  cases h with
  | none => rfl
  | some h => exact h.asString

theorem bind_asString_of_relNat {o : Option ℕ} {w : Option Value}
    (h : Option.Rel SpellsNat o w) :
    w.bind asString = o.map fun n ↦ .ofList (digitText n) := by
  cases h with
  | none => rfl
  | some h => exact h.asString

variable {ix : VectorIndex} {info : Value}

theorem vectorEntry_append {before after : List Value} {entry : Value}
    (hbefore : ∀ v ∈ before, OtherAttribute v) (hentry : isVectorAttribute entry = true) :
    vectorEntry (before ++ entry :: after) = .ok entry := by
  have hnone : before.find? isVectorAttribute = none := by
    refine List.find?_eq_none.mpr fun v hv ↦ ?_
    obtain ⟨es, name, w, hes, hw, hname, hne⟩ := hbefore v hv
    rw [isVectorAttribute, hes.stringAt, hw, Option.bind_some, hname.asString]
    simp [hne]
  rw [vectorEntry, List.find?_append, hnone, List.find?_cons_of_pos hentry]
  rfl

/-- The vector attribute that the checks find is the one of the index. -/
theorem Reports.exists_entry (h : Reports ix info) :
    ∃ entry, vectorAttribute info = .ok entry ∧
      stringAt entry "algorithm" = some ix.algorithm ∧
      stringAt entry "compression" = ix.quantization.map Prod.fst ∧
      stringAt entry "training_threshold" =
        (ix.quantization.map Prod.snd).map fun n ↦ .ofList (digitText n) := by
  obtain ⟨hinfo, hattributes, hentries, hbefore, hentry, hdescribes⟩ := h
  rename_i entry attributes fields es before after
  have hvector : isVectorAttribute entry = true := by
    rw [isVectorAttribute, hentry.stringAt, bind_asString_of_rel hdescribes.identifier]
    decide
  refine ⟨entry, ?_, ?_, ?_, ?_⟩
  · rw [vectorAttribute, hinfo.field, hattributes]
    rcases hentries with rfl | rfl
    · exact vectorEntry_append hbefore hvector
    · exact vectorEntry_append hbefore hvector
  · rw [hentry.stringAt, bind_asString_of_rel hdescribes.algorithm]
  · rw [hentry.stringAt, bind_asString_of_rel hdescribes.compression]
  · rw [hentry.stringAt, bind_asString_of_relNat hdescribes.trainingThreshold]

end ReadReport

/-! ## Labels are honest -/

section Honest

variable {debug : String → String} {info entry : Value} {o : Sq8Options}

theorem vectorAttributeIfAny_eq_ok (h : vectorAttribute info = .ok entry) :
    vectorAttributeIfAny info = .ok (some entry) := by
  rw [vectorAttributeIfAny, h]

theorem checkCreated_eq_ok (h : vectorAttribute info = .ok entry) (when : ReadBack) :
    checkCreated info when = .ok () := by
  cases when with
  | created => rw [checkCreated, h]
  | reused => rfl

theorem checkAlgorithm_eq_ok_iff {algorithm built : String}
    (h : stringAt entry "algorithm" = some built) :
    checkAlgorithm algorithm (some entry) = .ok () ↔ eqIgnoreAsciiCase built algorithm = true := by
  rw [checkAlgorithm, h]
  dsimp only
  split_ifs with heq
  · exact iff_of_true rfl heq
  · refine iff_of_false ?_ heq
    rintro ⟨⟩

/-- With a compression, the read-back compares both options. -/
theorem verifyFtInfo_eq_ok_iff {c : String} (hc : o.compression = some c)
    (h : vectorAttribute info = .ok entry) :
    o.verifyFtInfo debug info = .ok () ↔
      stringAt entry "compression" = o.compression ∧
        ((stringAt entry "training_threshold").bind fun s ↦ parseU64 s.toList) =
          o.effectiveTrainingThreshold := by
  have heffective : o.effectiveTrainingThreshold =
      some (o.trainingThreshold.getD serverDefaultTrainingThreshold) := by
    rw [Sq8Options.effectiveTrainingThreshold, hc, Option.map_some]
  rw [Sq8Options.verifyFtInfo, if_neg (by rw [hc]; simp), h, ok_bind, heffective]
  dsimp only
  split_ifs with hcompression hthreshold
  · refine iff_of_false ?_ fun h ↦ hcompression h.1
    rintro ⟨⟩
  · refine iff_of_false ?_ fun h ↦ hthreshold h.2
    rintro ⟨⟩
  · exact iff_of_true rfl ⟨not_not.mp hcompression, not_not.mp hthreshold⟩

/-- The read-back accepts an index exactly when its quantization is the one of the options. -/
theorem verifyIndexCompression_eq_ok_iff {ix : VectorIndex} (h : vectorAttribute info = .ok entry)
    (hcompression : stringAt entry "compression" = ix.quantization.map Prod.fst)
    (hthreshold : stringAt entry "training_threshold" =
      (ix.quantization.map Prod.snd).map fun n ↦ .ofList (digitText n))
    (hbound : ∀ n ∈ ix.quantization.map Prod.snd, n < 2 ^ 64) :
    o.verifyIndexCompression debug info = .ok () ↔
      ix.quantization.map Prod.fst = o.compression ∧
        ix.quantization.map Prod.snd = o.effectiveTrainingThreshold := by
  have hparse : ((stringAt entry "training_threshold").bind fun s ↦ parseU64 s.toList) =
      ix.quantization.map Prod.snd := by
    rw [hthreshold]
    cases hq : ix.quantization.map Prod.snd with
    | none => rfl
    | some n =>
        rw [Option.map_some, Option.bind_some, String.toList_ofList]
        exact parseU64_digitText (hbound n hq)
  rw [Sq8Options.verifyIndexCompression, vectorAttributeIfAny_eq_ok h, ok_bind]
  dsimp only
  cases hc : o.compression with
  | some c =>
      rw [Option.isSome_some, if_pos rfl, verifyFtInfo_eq_ok_iff hc h, hcompression, hparse, hc]
  | none =>
      rw [if_neg (by simp), hcompression, Sq8Options.effectiveTrainingThreshold, hc]
      cases ix.quantization with
      | none => exact iff_of_true rfl ⟨rfl, rfl⟩
      | some q => 
          refine iff_of_false ?_ ?_
          · rintro ⟨⟩
          · rintro ⟨⟨⟩, -⟩

/-- A run accepts the index that another run built exactly when both record the same options,
and no run accepts an index of another algorithm than its own. -/
theorem verifyVectorFieldCompression_honest {b s : Sq8Inputs} {rb rs : Sq8Resolution}
    (hb : resolve debug b = .ok rb) (hs : resolve debug s = .ok rs)
    (svsCompression : Option String) (when : ReadBack) :
    (∀ {info : Value} {algorithm : String}, Reports rb.options.build info →
      eqIgnoreAsciiCase "HNSW" algorithm = true →
      (verifyVectorFieldCompression debug algorithm rs.options svsCompression info when = .ok () ↔
        rb.options.effectiveRecord = rs.options.effectiveRecord)) ∧
    ∀ {ix : VectorIndex} {info : Value} {algorithm : String}, Reports ix info →
      eqIgnoreAsciiCase ix.algorithm algorithm = false →
      verifyVectorFieldCompression debug algorithm rs.options svsCompression info when ≠
        .ok () := by
  refine ⟨fun {info algorithm} hinfo hhnsw ↦ ?_, fun {ix info algorithm} hinfo hother h ↦ ?_⟩
  · obtain ⟨entry, hentry, halgorithm, hcompression, hthreshold⟩ := hinfo.exists_entry
    have hsvs : eqIgnoreAsciiCase algorithm svsAlgorithm = false := by
      rw [eqIgnoreAsciiCase, decide_eq_true_eq] at hhnsw
      rw [eqIgnoreAsciiCase, ← hhnsw]
      decide
    have hbuilt : (rb.options.build.quantization.map Prod.fst = rb.options.compression) ∧
        rb.options.build.quantization.map Prod.snd = rb.options.effectiveTrainingThreshold := by
      rw [Sq8Options.build, Sq8Options.effectiveTrainingThreshold, Option.map_map, Option.map_map]
      refine ⟨?_, rfl⟩
      cases rb.options.compression <;> rfl
    have hresolved := resolved_of_resolve hb
    rw [verifyVectorFieldCompression, checkCreated_eq_ok hentry, ok_bind,
      vectorAttributeIfAny_eq_ok hentry, ok_bind, (checkAlgorithm_eq_ok_iff halgorithm).mpr hhnsw,
      ok_bind, hsvs, if_neg Bool.false_ne_true,
      verifyIndexCompression_eq_ok_iff hentry hcompression hthreshold ?_, hbuilt.1, hbuilt.2,
      Sq8Options.effectiveRecord_eq_iff hresolved (resolved_of_resolve hs)]
    intro n hn
    rw [hbuilt.2] at hn
    exact (hresolved.lt hn).trans (by decide)
  · obtain ⟨entry, hentry, halgorithm, -, -⟩ := hinfo.exists_entry
    rw [verifyVectorFieldCompression, checkCreated_eq_ok hentry, ok_bind,
      vectorAttributeIfAny_eq_ok hentry, ok_bind] at h
    obtain ⟨_, hcheck, -⟩ := bind_eq_ok.mp h
    rw [checkAlgorithm_eq_ok_iff halgorithm, hother] at hcheck
    cases hcheck

end Honest

/-! ## Examples -/

section Examples

/-- A config without the options, built under `REDIS_HNSW_COMPRESSION`. -/
def envInputs : Sq8Inputs where
  configCompression := none
  configTrainingThreshold := none
  envCompression := some " sq8 "
  envTrainingThreshold := none
  algorithm := "hnsw"
  dataType := "FLOAT32"
  skipVectorIndex := false

/-- A config that gives the server's default itself. -/
def configInputs : Sq8Inputs where
  configCompression := some "SQ8"
  configTrainingThreshold := some 10240
  envCompression := none
  envTrainingThreshold := none
  algorithm := "hnsw"
  dataType := "FLOAT32"
  skipVectorIndex := false

def envResolution : Sq8Resolution := ⟨⟨some "SQ8", none⟩, ["REDIS_HNSW_COMPRESSION"]⟩

def configResolution : Sq8Resolution := ⟨⟨some "SQ8", some 10240⟩, []⟩

def vectorFields : List (String × Value) :=
  [("identifier", .simpleString "vector"), ("algorithm", .simpleString "HNSW"),
    ("compression", .simpleString "SQ8"), ("training_threshold", .int 10240)]

/-- Fields under RESP2. -/
def flat (es : List (String × Value)) : Value :=
  .array (alternating (es.map fun e ↦ (.simpleString e.1, e.2)))

theorem lists_flat (es : List (String × Value)) : Lists es (flat es) := by
  have hkeys : List.Forall₂ (fun e k ↦ Spells e.1 k.1 ∧ k.2 = e.2) es
      (es.map fun e ↦ (Value.simpleString e.1, e.2)) :=
    List.forall₂_map_right_iff.mpr (List.forall₂_same.mpr fun e _ ↦ ⟨.simple e.1, rfl⟩)
  have h : Lists es (.array (alternating (es.map fun e ↦ (.simpleString e.1, e.2)) ++ [])) :=
    .resp2 hkeys (Nat.zero_le 1)
  rwa [List.append_nil] at h

def envInfo : Value := flat [("attributes", .array [flat vectorFields])]

theorem reports_envInfo : Reports envResolution.options.build envInfo := by
  have hbefore : ∀ v ∈ ([] : List Value), OtherAttribute v := fun _ hv ↦ absurd hv List.not_mem_nil
  have hdescribes : Describes envResolution.options.build vectorFields :=
    ⟨.some (.simple _), .some (.simple _), .some (.simple _), .some (.int rfl)⟩
  exact .mk (lists_flat _) rfl (.inl rfl) hbefore (lists_flat _) hdescribes

theorem verifyVectorFieldCompression_honest_default :
    (verifyVectorFieldCompression id "HNSW" configResolution.options none envInfo .reused =
        .ok () ↔
      envResolution.options.effectiveRecord = configResolution.options.effectiveRecord) ∧
    verifyVectorFieldCompression id "FLAT" configResolution.options none envInfo .reused ≠
      .ok () := by
  have henv : resolve id envInputs = .ok envResolution := by decide
  have hconfig : resolve id configInputs = .ok configResolution := by decide
  have hhonest := verifyVectorFieldCompression_honest henv hconfig none .reused
  exact ⟨hhonest.1 reports_envInfo (by decide), hhonest.2 reports_envInfo (by decide)⟩

end Examples

end VectorDbBenchmark.Redis
