import VectorDbBenchmark.EffectiveConfig.Scrub
import VectorDbBenchmark.JsonEq
import VectorDbBenchmark.Kit.Fallible

/-!
# What the scrub leaves

The second walk accepts what the scrub made; what stands below a credential's key has no
part in it; and each text of it is a plain token, a digest or a placeholder.
-/

namespace VectorDbBenchmark.EffectiveConfig

open Kit

variable {sha256 : String → Text} {display : Json → String}

/-! ## Entries one by one -/

section Entries

/-- One entry of an object. -/
def scrubEntry (sha256 : String → Text) (secretAncestor declaredMode seed : Bool)
    (e : String × Json) : String × Json :=
  (scrubKey sha256 declaredMode e.1,
    if declaredMode && !isPublishableDeclaredKey (scrubKey sha256 declaredMode e.1) then
      dropValue (secretAt secretAncestor seed e.1) e.2
    else scrub sha256 (secretAt secretAncestor seed e.1) declaredMode e.2)

theorem scrubEntries_eq_map (c m seed : Bool) (es : List (String × Json)) :
    scrubEntries sha256 c m seed es = es.map (scrubEntry sha256 c m seed) := by
  induction es with
  | nil => rfl
  | cons e es ih => rw [scrubEntries, ih, List.map_cons, scrubEntry]

theorem assertEntries_eq_ok {c seed : Bool} {path : String} {es : List (String × Json)}
    (h : ∀ e ∈ es, ∀ path,
      assertNoCleartextSecrets sha256 display (secretAt c seed e.1) path e.2 = .ok ()) :
    assertEntries sha256 display c seed path es = .ok () := by
  induction es with
  | nil => rfl
  | cons e es ih =>
      rw [List.forall_mem_cons] at h
      rw [assertEntries, h.1, ok_bind, ih h.2]

theorem assertEach_eq_ok {c : Bool} {path : String} {i : ℕ} {vs : List Json}
    (h : ∀ v ∈ vs, ∀ path, assertNoCleartextSecrets sha256 display c path v = .ok ()) :
    assertEach sha256 display c path i vs = .ok () := by
  induction vs generalizing i with
  | nil => rfl
  | cons v vs ih =>
      rw [List.forall_mem_cons] at h
      rw [assertEach, h.1, ok_bind, ih h.2]

end Entries

/-! ## The second walk -/

section Accepted

theorem assert_redacted (c : Bool) (path : String) :
    assertNoCleartextSecrets sha256 display c path (.string redacted) = .ok () := by
  rw [assertNoCleartextSecrets, assertLeaf]
  · exact if_pos (by simp [Json.asStr])
  all_goals simp

/-- Outside of secrets, leaves are accepted. -/
theorem assert_dropValue {c secret : Bool} (hc : c = true → secret = true) (v : Json)
    (path : String) :
    assertNoCleartextSecrets sha256 display c path (dropValue secret v) = .ok () := by
  cases secret with
  | true => exact assert_redacted c path
  | false =>
      have hfalse : c = false := Bool.eq_false_iff.mpr fun h ↦ Bool.false_ne_true (hc h)
      subst hfalse
      cases v <;> rfl

theorem assert_concealed {c c' : Bool} (hc : c = true → c' = true) {w : Json}
    (hw : ∀ path, assertNoCleartextSecrets sha256 display false path w = .ok ()) (path : String) :
    assertNoCleartextSecrets sha256 display c path (if c' then .string redacted else w) =
      .ok () := by
  cases c' with
  | true => exact assert_redacted c path
  | false =>
      have hfalse : c = false := Bool.eq_false_iff.mpr fun h ↦ Bool.false_ne_true (hc h)
      subst hfalse
      exact hw path

theorem secretAt_mono {c c' seed seed' : Bool} (hc : c = true → c' = true)
    (hseed : seed = true → seed' = true) {key : String} (h : secretAt c seed key = true) :
    secretAt c' seed' key = true := by
  simp only [secretAt, Bool.or_eq_true, Bool.and_eq_true] at h ⊢
  exact h.imp (Or.imp_left hc) (And.imp_left hseed)

theorem eq_of_scrubKey_eq {m : Bool} {key plain : String} (h : scrubKey sha256 m key = plain)
    (hplain : plain.toList.head? ≠ some '<') : key = plain := by
  rw [scrubKey] at h
  split_ifs at h
  · refine absurd ?_ hplain
    rw [← h, toList_opaqueDigest]
    rfl
  · exact h

/-- A text that names a credential was not changed. -/
theorem eq_string_of_scrub (hhex : Hexadecimal sha256) {c m : Bool} {v : Json} {s : String}
    (h : scrub sha256 c m v = .string s) (hs : isSecret s = true) : v = .string s := by
  have hredacted : ∀ {w : Json}, (if c = true then .string redacted else w) = .string s →
      w = .string s := by
    intro w h
    split_ifs at h
    · cases h
      rw [isSecret_redacted] at hs
      cases hs
    · exact h
  cases v with
  | null => cases h
  | array _ => cases h
  | object _ => cases h
  | bool b => exact hredacted h
  | number n => exact hredacted h
  | string t =>
      have ht := hredacted h
      rw [Json.string.injEq] at ht
      rw [← ht, eq_of_isSecret_redact hhex (ht ▸ hs)]

theorem isSecret_of_dropValue {secret : Bool} {v : Json} {s : String}
    (h : dropValue secret v = .string s) : isSecret s = false := by
  cases secret with
  | true =>
      cases h
      exact isSecret_redacted
  | false =>
      cases v with
      | number _ => cases h
      | bool _ => cases h
      | null => cases h
      | string _ =>
          cases h
          exact isSecret_dropped
      | array _ =>
          cases h
          exact isSecret_dropped
      | object _ =>
          cases h
          exact isSecret_dropped

theorem seeds_iff {es : List (String × Json)} : seeds es = true ↔
    ∃ s, Json.getEntry "key" es = some (.string s) ∧ isSecret s = true := by
  rw [seeds, Option.any_eq_true]
  refine exists_congr fun s ↦ and_congr_left fun _ ↦ ?_
  rcases Json.getEntry "key" es with _ | v
  · exact iff_of_false (by rintro ⟨⟩) (by rintro ⟨⟩)
  · cases v <;> simp [Json.asStr]

/-- The scrub names no new credential. -/
theorem seeds_of_scrubEntries (hhex : Hexadecimal sha256) {c m seed : Bool}
    {es : List (String × Json)} (hes : (es.map Prod.fst).Nodup)
    (h : seeds (collect (scrubEntries sha256 c m seed es)) = true) : seeds es = true := by
  obtain ⟨s, hget, hs⟩ := seeds_iff.mp h
  have hmem := mem_of_mem_collect (Json.mem_of_getEntry hget)
  rw [scrubEntries_eq_map] at hmem
  obtain ⟨⟨k, v⟩, he, hentry⟩ := List.mem_map.mp hmem
  rw [scrubEntry, Prod.mk.injEq] at hentry
  have hkey : k = "key" := eq_of_scrubKey_eq hentry.1 (by decide)
  subst hkey
  refine seeds_iff.mpr ⟨s, Json.getEntry_of_mem hes ?_, hs⟩
  have hv := hentry.2
  split_ifs at hv
  · -- `key` is on no list: what is left of it is a placeholder.
    rw [isSecret_of_dropValue hv] at hs
    cases hs
  · rwa [show v = .string s from eq_string_of_scrub hhex hv hs] at he

/-- The flag of the second walk at a key is at most the one of the first. -/
theorem secretAt_of_scrubKey (hhex : Hexadecimal sha256) {c c' m seed seed' : Bool}
    (hc : c = true → c' = true) (hseed : seed = true → seed' = true) {key : String}
    (h : secretAt c seed (scrubKey sha256 m key) = true) : secretAt c' seed' key = true := by
  rw [scrubKey] at h
  split_ifs at h with hplain
  · -- A digest names no credential, and the key was none of those that are exempt.
    have hexempt : entryKeyExempt.contains key = false := by
      rw [Bool.and_eq_true, Bool.not_eq_true'] at hplain
      refine Bool.eq_false_iff.mpr fun hmem ↦ ?_
      have hnames : ∀ k ∈ entryKeyExempt, isPlainToken k = true := by decide
      rw [hnames key (List.contains_iff_mem.mp hmem)] at hplain
      cases hplain.2
    simp only [secretAt, isSecret_opaqueDigest hhex, Bool.or_false, Bool.or_eq_true,
      Bool.and_eq_true] at h
    simp only [secretAt, hexempt, Bool.not_false, Bool.and_true, Bool.or_eq_true]
    exact h.imp (fun h ↦ .inl (hc h)) fun h ↦ hseed h.1
  · exact secretAt_mono hc hseed h

mutual

/-- The second walk accepts what the scrub made. -/
theorem assert_scrub (hhex : Hexadecimal sha256) {c c' m : Bool} (hc : c = true → c' = true) :
    ∀ {v : Json}, v.keysDistinct = true → ∀ path,
      assertNoCleartextSecrets sha256 display c path (scrub sha256 c' m v) = .ok ()
  | .null, _, _ => rfl
  | .bool b, _, path => assert_concealed hc (fun _ ↦ rfl) path
  | .number n, _, path => assert_concealed hc (fun _ ↦ rfl) path
  | .string s, _, path => assert_concealed hc (fun _ ↦ rfl) path
  | .array vs, h, path => by
    rw [scrub, assertNoCleartextSecrets]
    exact assertEach_eq_ok (assert_scrubEach hhex hc h)
  | .object es, h, path => by
    rw [scrub, assertNoCleartextSecrets]
    have hes := Json.nodup_of_keysDistinct h
    rw [Json.keysDistinct, Bool.and_eq_true] at h
    exact assertEntries_eq_ok fun e he ↦
      assert_scrubEntries hhex hc (seeds_of_scrubEntries hhex hes) h.2 e (mem_of_mem_collect he)

theorem assert_scrubEach (hhex : Hexadecimal sha256) {c c' m : Bool} (hc : c = true → c' = true) :
    ∀ {vs : List Json}, Json.keysDistinctEach vs = true → ∀ w ∈ scrubEach sha256 c' m vs, ∀ path,
      assertNoCleartextSecrets sha256 display c path w = .ok ()
  | [], _, w, hw, _ => by cases hw
  | v :: vs, h, w, hw, path => by
    rw [Json.keysDistinctEach, Bool.and_eq_true] at h
    rw [scrubEach] at hw
    rcases List.mem_cons.mp hw with rfl | hw
    · exact assert_scrub hhex hc h.1 path
    · exact assert_scrubEach hhex hc h.2 w hw path

theorem assert_scrubEntries (hhex : Hexadecimal sha256) {c c' m seed seed' : Bool}
    (hc : c = true → c' = true) (hseed : seed = true → seed' = true) :
    ∀ {es : List (String × Json)}, Json.keysDistinctIn es = true →
      ∀ e ∈ scrubEntries sha256 c' m seed' es, ∀ path,
        assertNoCleartextSecrets sha256 display (secretAt c seed e.1) path e.2 = .ok ()
  | [], _, e, he, _ => by cases he
  | (k, v) :: es, h, e, he, path => by
    rw [Json.keysDistinctIn, Bool.and_eq_true] at h
    rw [scrubEntries] at he
    rcases List.mem_cons.mp he with rfl | he
    · have hflag : secretAt c seed (scrubKey sha256 m k) = true → secretAt c' seed' k = true :=
        secretAt_of_scrubKey hhex hc hseed
      dsimp only
      split_ifs
      · exact assert_dropValue hflag v path
      · exact assert_scrub hhex hflag h.1 path
    · exact assert_scrubEntries hhex hc hseed h.2 e he path

end

end Accepted

/-! ## What a secret has part in -/

section Hidden

/-- Whether a value is a leaf other than `null`. -/
def isLeaf : Json → Bool
  | .bool _ | .number _ | .string _ => true
  | _ => false

mutual

/-- Values that differ at most in leaves below a credential's key. -/
def SameBut (secretAncestor : Bool) : Json → Json → Prop
  | .null, .null => True
  | .array vs, .array ws => SameButEach secretAncestor vs ws
  | .object es, .object fs => SameButEntries secretAncestor (seeds es) es fs
  | v, w => isLeaf v = true ∧ isLeaf w = true ∧ (secretAncestor = true ∨ v = w)

def SameButEach (secretAncestor : Bool) : List Json → List Json → Prop
  | [], [] => True
  | v :: vs, w :: ws => SameBut secretAncestor v w ∧ SameButEach secretAncestor vs ws
  | _, _ => False

def SameButEntries (secretAncestor seed : Bool) :
    List (String × Json) → List (String × Json) → Prop
  | [], [] => True
  | (k, v) :: es, (k', w) :: fs =>
    k = k' ∧ SameBut (secretAt secretAncestor seed k) v w ∧
      SameButEntries secretAncestor seed es fs
  | _, _ => False

end

theorem isLeaf_eq_true {c : Bool} {v w : Json} (h : SameBut c v w) (hv : isLeaf v = true) :
    isLeaf w = true ∧ (c = true ∨ v = w) := by
  cases v with
  | null => cases hv
  | array _ => cases hv
  | object _ => cases hv
  | bool _ => exact h.2
  | number _ => exact h.2
  | string _ => exact h.2

theorem scrub_secret {m : Bool} {v : Json} (hv : isLeaf v = true) :
    scrub sha256 true m v = .string redacted := by
  cases v with
  | null => cases hv
  | array _ => cases hv
  | object _ => cases hv
  | bool _ => rfl
  | number _ => rfl
  | string _ => rfl

theorem scrub_leaf_eq {c m : Bool} {v w : Json} (h : SameBut c v w) (hv : isLeaf v = true) :
    scrub sha256 c m v = scrub sha256 c m w := by
  obtain ⟨hw, rfl | rfl⟩ := isLeaf_eq_true h hv
  · rw [scrub_secret hv, scrub_secret hw]
  · rfl

theorem asStr_eq_of_sameBut {v w : Json} (h : SameBut false v w) : v.asStr = w.asStr := by
  have hleaf : isLeaf v = true → v.asStr = w.asStr := fun hv ↦
    (isLeaf_eq_true h hv).2.elim (fun h ↦ absurd h Bool.false_ne_true) fun h ↦ by rw [h]
  cases v with
  | bool _ => exact hleaf rfl
  | number _ => exact hleaf rfl
  | string _ => exact hleaf rfl
  | null => 
      cases w with
      | string _ => cases h.1
      | _ => rfl
  | array _ =>
      cases w with
      | string _ => cases h.1
      | _ => rfl
  | object _ => 
      cases w with
      | string _ => cases h.1
      | _ => rfl

theorem seeds_eq_of_sameBut {seed : Bool} {es fs : List (String × Json)}
    (h : SameButEntries false seed es fs) : seeds es = seeds fs := by
  have hkey : secretAt false seed "key" = false := by cases seed <;> decide
  have hget : (Json.getEntry "key" es).bind Json.asStr =
    (Json.getEntry "key" fs).bind Json.asStr := by
    induction es generalizing fs with
    | nil =>
        cases fs with
        | nil => rfl
        | cons f fs => cases h
    | cons e es ih =>
        cases fs with
        | nil => cases h
        | cons f fs =>
            obtain ⟨k, v⟩ := e
            obtain ⟨k', w⟩ := f
            obtain ⟨rfl, hv, hrest⟩ := h
            rw [Json.getEntry, Json.getEntry]
            split_ifs with hk
            · subst hk
              rw [hkey] at hv
              exact asStr_eq_of_sameBut hv
            · exact ih hrest
  rw [seeds, seeds, hget]

theorem dropValue_eq_of_sameBut {secret : Bool} {v w : Json} (h : SameBut secret v w) :
    dropValue secret v = dropValue secret w := by
  cases secret with
  | true => rfl
  | false =>
      have hleaf : isLeaf v = true → dropValue false v = dropValue false w := fun hv ↦
        (isLeaf_eq_true h hv).2.elim (fun h ↦ absurd h Bool.false_ne_true) fun h ↦ by rw [h]
      cases v with
      | bool _ => exact hleaf rfl
      | number _ => exact hleaf rfl
      | string _ => exact hleaf rfl
      | null =>
          cases w with
          | null => rfl
          | _ => cases h.1
      | array _ =>
          cases w with
          | array _ => rfl
          | _ => cases h.1
      | object _ =>
          cases w with
          | object _ => rfl
          | _ => cases h.1

mutual

/-- What stands below a credential's key has no part in the scrub. -/
theorem scrub_eq_of_sameBut {c m : Bool} : ∀ {v w : Json}, SameBut c v w →
    scrub sha256 c m v = scrub sha256 c m w
  | .bool _, _, h => scrub_leaf_eq h rfl
  | .number _, _, h => scrub_leaf_eq h rfl
  | .string _, _, h => scrub_leaf_eq h rfl
  | .null, w, h => by
    cases w with
    | null => rfl
    | _ => cases h.1
  | .array vs, w, h => by
    cases w with
    | array ws =>
        rw [SameBut] at h
        rw [scrub, scrub, scrubEach_eq_of_sameBut h]
    | _ => cases h.1
  | .object es, w, h => by
    cases w with
    | object fs =>
        rw [SameBut] at h
        have hseeds : c = true ∨ seeds es = seeds fs := by
          cases c with
          | true => exact .inl rfl
          | false => exact .inr (seeds_eq_of_sameBut h)
        rw [scrub, scrub, scrubEntries_eq_of_sameBut h hseeds]
    | _ => cases h.1

theorem scrubEach_eq_of_sameBut {c m : Bool} : ∀ {vs ws : List Json}, SameButEach c vs ws →
    scrubEach sha256 c m vs = scrubEach sha256 c m ws
  | [], ws, h => by
    cases ws with
    | nil => rfl
    | cons w ws => cases h
  | v :: vs, ws, h => by
    cases ws with
    | nil => cases h
    | cons w ws => rw [scrubEach, scrubEach, scrub_eq_of_sameBut h.1, scrubEach_eq_of_sameBut h.2]

theorem scrubEntries_eq_of_sameBut {c m seed seed' : Bool} :
    ∀ {es fs : List (String × Json)}, SameButEntries c seed es fs → c = true ∨ seed = seed' →
      scrubEntries sha256 c m seed es = scrubEntries sha256 c m seed' fs
  | [], fs, h, _ => by
    cases fs with
    | nil => rfl
    | cons f fs => cases h
  | (k, v) :: es, fs, h, hseed => by
    cases fs with
    | nil => cases h
    | cons f fs =>
        obtain ⟨k', w⟩ := f
        obtain ⟨rfl, hv, hrest⟩ := h
        have hsecret : secretAt c seed k = secretAt c seed' k := by
          rcases hseed with rfl | rfl
          · rfl
          · rfl
        rw [hsecret] at hv
        rw [scrubEntries, scrubEntries, scrubEntries_eq_of_sameBut hrest hseed, hsecret,
          scrub_eq_of_sameBut hv, dropValue_eq_of_sameBut hv]

end

end Hidden

/-! ## What is published -/

section Published

mutual

/-- The text leaves of a value. -/
def texts : Json → List String
  | .string s => [s]
  | .array vs => textsEach vs
  | .object es => textsIn es
  | _ => []

def textsEach : List Json → List String
  | [] => []
  | v :: vs => texts v ++ textsEach vs

def textsIn : List (String × Json) → List String
  | [] => []
  | (_, v) :: es => texts v ++ textsIn es

end

mutual

/-- The keys of the objects of a value. -/
def keys : Json → List String
  | .array vs => keysEach vs
  | .object es => keysIn es
  | _ => []

def keysEach : List Json → List String
  | [] => []
  | v :: vs => keys v ++ keysEach vs

def keysIn : List (String × Json) → List String
  | [] => []
  | (k, v) :: es => k :: (keys v ++ keysIn es)

end

/-- A text that is fit to publish: a plain token among `ts`, a digest of one of them or a
placeholder. -/
def Published (sha256 : String → Text) (ts : List String) (s : String) : Prop :=
  (isPlainToken s = true ∧ s ∈ ts) ∨ (∃ t ∈ ts, s = opaqueDigest sha256 t) ∨
    s ∈ [redacted, redactedDefault, dropped]

theorem Published.mono {ts us : List String} {s : String} (h : Published sha256 ts s)
    (hsub : ts ⊆ us) : Published sha256 us s :=
  h.imp (And.imp_right fun h ↦ hsub h) (Or.imp_left fun ⟨t, ht, hs⟩ ↦ ⟨t, hsub ht, hs⟩)

theorem published_placeholder {ts : List String} {s : String}
    (h : s ∈ [redacted, redactedDefault, dropped]) : Published sha256 ts s := .inr (.inr h)

theorem published_redact {ts : List String} {s : String} (h : s ∈ ts) :
    Published sha256 ts (redactConnectionLike sha256 s) := by
  rw [redactConnectionLike]
  split_ifs with hplain
  · exact .inl ⟨hplain, h⟩
  · exact .inr (.inl ⟨s, h, rfl⟩)

theorem mem_textsIn {s : String} {es : List (String × Json)} :
    s ∈ textsIn es ↔ ∃ e ∈ es, s ∈ texts e.2 := by
  induction es with
  | nil => simp [textsIn]
  | cons e es ih => rw [textsIn, List.mem_append, ih, List.exists_mem_cons_iff]

theorem mem_textsEach {s : String} {vs : List Json} :
    s ∈ textsEach vs ↔ ∃ v ∈ vs, s ∈ texts v := by
  induction vs with
  | nil => simp [textsEach]
  | cons v vs ih => rw [textsEach, List.mem_append, ih, List.exists_mem_cons_iff]

theorem mem_keysIn {s : String} {es : List (String × Json)} :
    s ∈ keysIn es ↔ ∃ e ∈ es, s = e.1 ∨ s ∈ keys e.2 := by
  induction es with
  | nil => simp [keysIn]
  | cons e es ih =>
      rw [keysIn, List.mem_cons, List.mem_append, ih, List.exists_mem_cons_iff, or_assoc]

theorem published_dropValue {ts : List String} {secret : Bool} {v : Json} {s : String}
    (h : s ∈ texts (dropValue secret v)) : Published sha256 ts s := by
  refine published_placeholder ?_
  cases secret with
  | true =>
      rw [List.mem_singleton.mp h]
      decide
  | false =>
      cases v with
      | null => cases h
      | bool _ => cases h
      | number _ => cases h
      | _ =>
          rw [List.mem_singleton.mp h]
          decide

theorem published_concealed {c : Bool} {w : Json} {ts : List String} {s : String}
    (hw : s ∈ texts w → Published sha256 ts s)
    (h : s ∈ texts (if c then .string redacted else w)) : Published sha256 ts s := by
  cases c with
  | true =>
      rw [List.mem_singleton.mp h]
      exact published_placeholder (by decide)
  | false => exact hw h

mutual

/-- The texts of a scrubbed value are fit to publish. -/
theorem published_scrub {c m : Bool} {s : String} : ∀ {v : Json},
    s ∈ texts (scrub sha256 c m v) → Published sha256 (texts v) s
  | .null, h => by cases h
  | .bool _, h => published_concealed (fun h ↦ by cases h) h
  | .number _, h => published_concealed (fun h ↦ by cases h) h
  | .string t, h => by
    refine published_concealed (fun h ↦ ?_) h
    rw [List.mem_singleton.mp h]
    exact published_redact List.mem_cons_self
  | .array vs, h => by
    rw [scrub, texts] at h
    exact published_scrubEach h
  | .object es, h => by
    rw [scrub, texts, mem_textsIn] at h
    obtain ⟨e, he, hs⟩ := h
    exact published_scrubEntries (mem_textsIn.mpr ⟨e, mem_of_mem_collect he, hs⟩)

theorem published_scrubEach {c m : Bool} {s : String} : ∀ {vs : List Json},
    s ∈ textsEach (scrubEach sha256 c m vs) → Published sha256 (textsEach vs) s
  | [], h => by cases h
  | v :: vs, h => by
    rw [scrubEach, textsEach, List.mem_append] at h
    rcases h with h | h
    · exact (published_scrub h).mono (List.subset_append_left _ _)
    · exact (published_scrubEach h).mono (List.subset_append_right _ _)

theorem published_scrubEntries {c m seed : Bool} {s : String} : ∀ {es : List (String × Json)},
    s ∈ textsIn (scrubEntries sha256 c m seed es) → Published sha256 (textsIn es) s
  | [], h => by cases h
  | (k, v) :: es, h => by
    rw [scrubEntries, textsIn, List.mem_append] at h
    rcases h with h | h
    · split_ifs at h
      · exact published_dropValue h
      · exact (published_scrub h).mono (List.subset_append_left _ _)
    · exact (published_scrubEntries h).mono (List.subset_append_right _ _)

end

theorem keys_dropValue (secret : Bool) (v : Json) : keys (dropValue secret v) = [] := by
  cases secret with
  | true => rfl
  | false => cases v <;> rfl

theorem keys_scrub_leaf {c m : Bool} {v : Json} (hv : isLeaf v = true) :
    keys (scrub sha256 c m v) = [] := by
  cases v with
  | null => cases hv
  | array _ => cases hv
  | object _ => cases hv
  | bool _ => cases c <;> rfl
  | number _ => cases c <;> rfl
  | string _ => cases c <;> rfl

mutual

/-- In a declared block the keys are fit to publish. -/
theorem published_keys_scrub {c : Bool} {s : String} : ∀ {v : Json},
    s ∈ keys (scrub sha256 c true v) → Published sha256 (keys v) s
  | .null, h => by cases h
  | .bool _, h => by
    rw [keys_scrub_leaf rfl] at h
    cases h
  | .number _, h => by
    rw [keys_scrub_leaf rfl] at h
    cases h
  | .string _, h => by
    rw [keys_scrub_leaf rfl] at h
    cases h
  | .array vs, h => by
    rw [scrub, keys] at h
    exact published_keys_scrubEach h
  | .object es, h => by
    rw [scrub, keys, mem_keysIn] at h
    obtain ⟨e, he, hs⟩ := h
    exact published_keys_scrubEntries (mem_keysIn.mpr ⟨e, mem_of_mem_collect he, hs⟩)

theorem published_keys_scrubEach {c : Bool} {s : String} : ∀ {vs : List Json},
    s ∈ keysEach (scrubEach sha256 c true vs) → Published sha256 (keysEach vs) s
  | [], h => by cases h
  | v :: vs, h => by
    rw [scrubEach, keysEach, List.mem_append] at h
    rcases h with h | h
    · exact (published_keys_scrub h).mono (List.subset_append_left _ _)
    · exact (published_keys_scrubEach h).mono (List.subset_append_right _ _)

theorem published_keys_scrubEntries {c seed : Bool} {s : String} :
    ∀ {es : List (String × Json)},
      s ∈ keysIn (scrubEntries sha256 c true seed es) → Published sha256 (keysIn es) s
  | [], h => by cases h
  | (k, v) :: es, h => by
    rw [scrubEntries, keysIn, List.mem_cons, List.mem_append] at h
    rcases h with rfl | h | h
    · have hkey : scrubKey sha256 true k = redactConnectionLike sha256 k := by
        rw [scrubKey, redactConnectionLike]
        cases isPlainToken k <;> rfl
      rw [hkey]
      exact published_redact List.mem_cons_self
    · split_ifs at h
      · rw [keys_dropValue] at h
        cases h
      · exact (published_keys_scrub h).mono fun t ht ↦
          List.mem_cons_of_mem _ (List.mem_append_left _ ht)
    · exact (published_keys_scrubEntries h).mono fun t ht ↦
        List.mem_cons_of_mem _ (List.mem_append_right _ ht)

end

end Published

end VectorDbBenchmark.EffectiveConfig
