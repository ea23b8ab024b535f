import VectorDbBenchmark.Json
import VectorDbBenchmark.Kit.Text

/-!
# Scrubbing what is published

`scrub` and `assert_no_cleartext_secrets` of `effective_config.rs`: what stands below a
credential-named key is replaced by a placeholder, other text by itself or a digest, and a
second walk checks that nothing below such a key is in the clear.  SHA-256 is a parameter.
-/

namespace VectorDbBenchmark.EffectiveConfig

open Kit
open Json (insertEntry)

/-! ## Names -/

def redacted : String := "<redacted:set>"

def redactedDefault : String := "<redacted:default>"

def dropped : String := "<dropped>"

def secretMarkers : List String :=
  ["PASSWORD", "PASSWD", "PASS", "PWD", "API_KEY", "APIKEY", "ACCESS_KEY", "PRIVATE_KEY",
    "SIGNING_KEY", "TOKEN", "AUTH", "BEARER", "SECRET", "CREDENTIAL", "SESSION"]

/-- Whether a text has one of the markers in it. -/
def hasMarker (upper : Text) : Bool := secretMarkers.any fun m ↦ m.toList <:+: upper

def isSecret (name : String) : Bool := hasMarker (name.toList.map Char.toUpper)

def declaredKeyAllowlist : List String :=
  ["hnsw_config", "index_options", "index_params", "index_type", "vectors_config",
    "vectorIndexConfig", "method", "parameters", "payload_index_params", "m", "M", "ef_construct",
    "ef_construction", "EF_CONSTRUCTION", "COMPRESSION", "TRAINING_THRESHOLD",
    "training_threshold", "efConstruction", "maxConnections", "on_disk", "on_disk_payload",
    "payload_m", "inline_storage", "full_scan_threshold", "max_indexing_threads", "algorithm",
    "data_type", "datatype", "distance", "DISTANCE_METRIC", "type", "number_of_shards",
    "is_tenant", "svs-vamana_config", "GRAPH_MAX_DEGREE", "CONSTRUCTION_WINDOW_SIZE",
    "compression", "REDUCE", "quantization_config", "scalar", "product", "binary", "quantile",
    "always_ram", "quant", "optimizers_config", "memmap_threshold", "max_segment_size",
    "default_segment_number", "parallel", "batch_size", "timeout", "a"]

def isPublishableDeclaredKey (key : String) : Bool := declaredKeyAllowlist.contains key

def isPlainToken (value : String) : Bool :=
  value.toList.all fun c ↦ c.isAlphanum || ['.', '_', '+', '-', '/', '~'].contains c

def entryKeyExempt : List String := ["key", "reason"]

/-- Whether the `key` of an object names a credential. -/
def seeds (es : List (String × Json)) : Bool :=
  ((Json.getEntry "key" es).bind Json.asStr).any isSecret

/-- Whether what stands at a key is secret. -/
def secretAt (secretAncestor seed : Bool) (key : String) : Bool :=
  secretAncestor || isSecret key || (seed && !entryKeyExempt.contains key)

/-! ## Maps -/

/-- `collect`. -/
def collect (es : List (String × Json)) : List (String × Json) :=
  es.foldl (fun acc e ↦ insertEntry e.1 e.2 acc) []

theorem mem_of_mem_insertEntry {key : String} {v : Json} {e : String × Json}
    {es : List (String × Json)} (h : e ∈ insertEntry key v es) : e = (key, v) ∨ e ∈ es := by
  induction es with
  | nil => exact .inl (List.mem_singleton.mp h)
  | cons f es ih =>
      obtain ⟨k, w⟩ := f
      rw [insertEntry] at h
      split_ifs at h with hk
      · rcases List.mem_cons.mp h with rfl | h
        · exact .inl rfl
        · exact .inr (List.mem_cons_of_mem _ h)
      · rcases List.mem_cons.mp h with rfl | h
        · exact .inr List.mem_cons_self
        · exact (ih h).imp_right (List.mem_cons_of_mem _)

theorem mem_of_mem_collect {e : String × Json} {es : List (String × Json)} (h : e ∈ collect es) :
    e ∈ es := by
  have hfold : ∀ (fs acc : List (String × Json)),
      e ∈ fs.foldl (fun acc e ↦ insertEntry e.1 e.2 acc) acc → e ∈ fs ∨ e ∈ acc := by
    intro fs
    induction fs with
    | nil => exact fun _ h ↦ .inr h
    | cons f fs ih =>
        intro acc h
        rcases ih _ h with h | h
        · exact .inl (List.mem_cons_of_mem _ h)
        · rcases mem_of_mem_insertEntry h with rfl | h
          · exact .inl List.mem_cons_self
          · exact .inr h
  exact (hfold es [] h).resolve_right List.not_mem_nil

/-! ## The scrub -/

section Scrub

variable (sha256 : String → Text)

def opaqueDigest (value : String) : String :=
  .ofList ("<redacted:opaque sha256=".toList ++ ((sha256 value).take 16 ++ ['>']))

def redactConnectionLike (value : String) : String :=
  if isPlainToken value then value else opaqueDigest sha256 value

/-- What a key becomes: in a declared block, other keys than plain tokens are digested. -/
def scrubKey (declaredMode : Bool) (key : String) : String :=
  if declaredMode && !isPlainToken key then opaqueDigest sha256 key else key

/-- What stands at a declared key that is not on the list. -/
def dropValue (secret : Bool) (v : Json) : Json :=
  if secret then .string redacted
  else
    match v with
    | .number _ | .bool _ | .null => v
    | _ => .string dropped

mutual

def scrub (secretAncestor declaredMode : Bool) : Json → Json
  | .null => .null
  | .object es => .object (collect (scrubEntries secretAncestor declaredMode (seeds es) es))
  | .array vs => .array (scrubEach secretAncestor declaredMode vs)
  | .string s =>
    if secretAncestor then .string redacted else .string (redactConnectionLike sha256 s)
  | v => if secretAncestor then .string redacted else v

def scrubEach (secretAncestor declaredMode : Bool) : List Json → List Json
  | [] => []
  | v :: vs => scrub secretAncestor declaredMode v :: scrubEach secretAncestor declaredMode vs

def scrubEntries (secretAncestor declaredMode seed : Bool) :
    List (String × Json) → List (String × Json)
  | [] => []
  | (k, v) :: es =>
    let secret := secretAt secretAncestor seed k
    let key := scrubKey sha256 declaredMode k
    (key,
      if declaredMode && !isPublishableDeclaredKey key then dropValue secret v
      else scrub secret declaredMode v) ::
      scrubEntries secretAncestor declaredMode seed es

end

def scrubValue (v : Json) (secretAncestor : Bool) : Json := scrub sha256 secretAncestor false v

/-! ## The check -/

variable (display : Json → String)

def assertLeaf (secretAncestor : Bool) (path : String) (leaf : Json) : Except String Unit :=
  if !secretAncestor || leaf.asStr = some redacted || leaf.asStr = some redactedDefault then .ok ()
  else
    .error (s!"refusing to publish `{path}` in the clear: a credential-named key reached the " ++
      s!"artifact carrying {opaqueDigest sha256 (display leaf)}. Every value under such a key " ++
      "must go through `scrub_value`.")

mutual

def assertNoCleartextSecrets (secretAncestor : Bool) (path : String) : Json → Except String Unit
  | .null => .ok ()
  | .object es => assertEntries secretAncestor (seeds es) path es
  | .array vs => assertEach secretAncestor path 0 vs
  | leaf => assertLeaf sha256 display secretAncestor path leaf

def assertEach (secretAncestor : Bool) (path : String) : ℕ → List Json → Except String Unit
  | _, [] => .ok ()
  | i, v :: vs => do
    assertNoCleartextSecrets secretAncestor s!"{path}[{i}]" v
    assertEach secretAncestor path (i + 1) vs

def assertEntries (secretAncestor seed : Bool) (path : String) :
    List (String × Json) → Except String Unit
  | [] => .ok ()
  | (k, v) :: es => do
    assertNoCleartextSecrets (secretAt secretAncestor seed k) s!"{path}.{k}" v
    assertEntries secretAncestor seed path es

end

end Scrub

/-! ## Digests and placeholders name no credential -/

section Digest

/-- A digest is written in hexadecimal. -/
def Hexadecimal (sha256 : String → Text) : Prop :=
  ∀ s, ∀ c ∈ sha256 s, c ∈ "0123456789abcdef".toList

/-- A text that avoids a character stands on one side of it. -/
theorem infix_append_cons {m a b : Text} {c : Char} (hc : c ∉ m) (h : m <:+: a ++ c :: b) :
    m <:+: a ∨ m <:+: b := by
  obtain ⟨s, t, h⟩ := h
  rw [List.append_assoc] at h
  rcases List.append_eq_append_iff.mp h with ⟨u, rfl, hu⟩ | ⟨u, rfl, hu⟩
  · rcases List.append_eq_append_iff.mp hu with ⟨w, rfl, -⟩ | ⟨w, rfl, hw⟩
    · exact .inl (List.infix_append' s m w)
    · cases w with
      | nil =>
          rw [List.append_nil]
          exact .inl List.infix_append_right
      | cons d w =>
          rw [List.cons_append, List.cons.injEq] at hw
          exact absurd (List.mem_append_right u (hw.1 ▸ List.mem_cons_self)) hc
  · cases u with
    | nil =>
        cases m with
        | nil => exact .inl List.nil_infix
        | cons d m =>
            rw [List.nil_append, List.cons_append, List.cons.injEq] at hu
            exact absurd (hu.1 ▸ List.mem_cons_self) hc
    | cons d u =>
        rw [List.cons_append, List.cons.injEq] at hu
        rw [hu.2]
        exact .inr (List.infix_append' u m t)

/-- The characters of a digest, in upper case. -/
def isDigestChar (c : Char) : Bool := "0123456789ABCDEF>".toList.contains c

theorem hasMarker_eq_false {t : Text} (h : ∀ c ∈ t, isDigestChar c = true) :
    hasMarker t = false := by
  have hmarkers : ∀ m ∈ secretMarkers, m.toList.all isDigestChar = false := by decide
  refine List.any_eq_false.mpr fun m hm hinfix ↦ ?_
  obtain ⟨c, hc, hother⟩ := List.all_eq_false.mp (hmarkers m hm)
  exact hother (h c ((of_decide_eq_true hinfix).subset hc))

variable {sha256 : String → Text}

theorem toList_opaqueDigest (value : String) : (opaqueDigest sha256 value).toList =
    "<redacted:opaque sha256=".toList ++ ((sha256 value).take 16 ++ ['>']) :=
  String.toList_ofList

theorem isSecret_opaqueDigest (hhex : Hexadecimal sha256) (value : String) :
    isSecret (opaqueDigest sha256 value) = false := by
  have htext : (opaqueDigest sha256 value).toList.map Char.toUpper =
      "<REDACTED:OPAQUE SHA256".toList ++ '=' ::
        (((sha256 value).take 16).map Char.toUpper ++ ['>']) := by
    have hprefix : "<redacted:opaque sha256=".toList.map Char.toUpper =
        "<REDACTED:OPAQUE SHA256".toList ++ ['='] := by decide
    have hlast : ['>'].map Char.toUpper = ['>'] := by decide
    rw [toList_opaqueDigest, List.map_append, List.map_append, hprefix, hlast,
      List.append_assoc, List.singleton_append]
  have hdigest : ∀ c ∈ ((sha256 value).take 16).map Char.toUpper ++ ['>'],
      isDigestChar c = true := by
    have hupper : ∀ c ∈ "0123456789abcdef".toList, isDigestChar c.toUpper = true :=
      forall_mem_of_all (by decide)
    intro c hc
    rcases List.mem_append.mp hc with hc | hc
    · obtain ⟨d, hd, rfl⟩ := List.mem_map.mp hc
      exact hupper d (hhex value d (List.mem_of_mem_take hd))
    · rw [List.mem_singleton.mp hc]
      decide
  have hfree : ∀ m ∈ secretMarkers, '=' ∉ m.toList := by decide
  have hleft : hasMarker "<REDACTED:OPAQUE SHA256".toList = false := by decide
  rw [isSecret, htext]
  refine List.any_eq_false.mpr fun m hm hinfix ↦ ?_
  rcases infix_append_cons (hfree m hm) (of_decide_eq_true hinfix) with h | h
  · exact List.any_eq_false.mp hleft m hm (decide_eq_true h)
  · exact List.any_eq_false.mp (hasMarker_eq_false hdigest) m hm (decide_eq_true h)

theorem isSecret_redacted : isSecret redacted = false := by decide

theorem isSecret_dropped : isSecret dropped = false := by decide

/-- Text that still names a credential stands for itself. -/
theorem eq_of_isSecret_redact (hhex : Hexadecimal sha256) {s : String}
    (h : isSecret (redactConnectionLike sha256 s) = true) : redactConnectionLike sha256 s = s := by
  rw [redactConnectionLike] at h ⊢
  split_ifs at h ⊢ with hplain
  · rfl
  · rw [isSecret_opaqueDigest hhex] at h
    cases h

end Digest

end VectorDbBenchmark.EffectiveConfig
