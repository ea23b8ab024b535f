import Mathlib.Data.String.Basic
import VectorDbBenchmark.Kit.Ordered
import VectorDbBenchmark.Msmarco.DerivedRow

/-!
# Payloads of passages

`payload_from_passage` of `src/msmarco.rs`: the fields of a record that are kept, with the
derived fields.  It also upgrades payloads that were prepared before there were derived fields,
and leaves those that have them as they are.
-/

namespace VectorDbBenchmark.Msmarco

open Kit Json

def passageFields : List String :=
  ["docid", "url", "title", "headings", "segment", "start_char", "end_char"]

/-- The fields of an object under some names, into a map. -/
def carryFields (names : List String) (obj out : List (String × Json)) : List (String × Json) :=
  names.foldl (fun out name ↦
    match getEntry name obj with
    | some v => insertKey name v out
    | none => out) out

/-- A map as a value: in the order of its keys. -/
def mapValue (out : List (String × Json)) : Json := .object (sortByKey Prod.fst out)

/-- `payload_from_passage`. -/
def payloadFromPassage (env : HybridEnv) (record : Json) : Except String Json :=
  match record.asObject with
  | none => .error "passage record is not a JSON object"
  | some obj =>
    match getEntry "docid" obj with
    | none => .error "passage record has no 'docid' field"
    | some d =>
      match d.asStr with
      | none => .error s!"passage record's 'docid' is not a string: {env.display d}"
      | some docid => do
        let out := carryFields passageFields obj []
        let derived := DerivedFields.fromDocid env docid
        let out := carryFields derivedFields obj out
        let out ← (derived.insertInto env.display out).mapError fun e ↦
          s!"docid {env.debug docid}: {e}"
        pure (mapValue out)

/-- What was prepared before there were derived fields. -/
def plainPayload (record : Json) : Json :=
  mapValue (carryFields passageFields (record.asObject.getD []) [])

/-! ## Maps -/

theorem nodup_carryFields {names : List String} {obj out : List (String × Json)}
    (h : (out.map Prod.fst).Nodup) : ((carryFields names obj out).map Prod.fst).Nodup := by
  induction names generalizing out with
  | nil => exact h
  | cons name names ih =>
      rw [carryFields, List.foldl_cons]
      cases getEntry name obj with
      | none => exact ih h
      | some v => exact ih (nodup_insertKey h)

theorem getEntry_carryFields (names : List String) (obj out : List (String × Json)) (k : String) :
    getEntry k (carryFields names obj out) =
      if k ∈ names then (getEntry k obj).or (getEntry k out) else getEntry k out := by
  induction names generalizing out with
  | nil => rfl
  | cons name names ih =>
      rw [carryFields, List.foldl_cons]
      refine (ih _).trans ?_
      by_cases hname : k = name
      · subst hname
        rw [if_pos List.mem_cons_self]
        cases getEntry k obj with
        | none => exact ite_self _
        | some v => rw [getEntry_insertKey, if_pos rfl, Option.some_or, ite_self, Option.some_or]
      · have hmem : k ∈ name :: names ↔ k ∈ names := by
          rw [List.mem_cons, or_iff_right hname]
        simp only [hmem]
        cases getEntry name obj with
        | none => rfl
        | some v => rw [getEntry_insertKey, if_neg (Ne.symm hname)]

/-- A map is what it gives its keys. -/
theorem mapValue_eq {es fs : List (String × Json)} (hes : (es.map Prod.fst).Nodup)
    (hfs : (fs.map Prod.fst).Nodup) (h : ∀ k, getEntry k es = getEntry k fs) :
    mapValue es = mapValue fs := by
  have hperm : es.Perm fs := by
    refine (List.perm_ext_iff_of_nodup hes.of_map hfs.of_map).mpr fun e ↦ ?_
    constructor
    · exact fun he ↦ mem_of_getEntry ((h e.1).symm.trans (getEntry_of_mem hes he))
    · exact fun he ↦ mem_of_getEntry ((h e.1).trans (getEntry_of_mem hfs he))
  refine congrArg Json.object (sortByKey_eq_of_perm hperm fun e he f hf hkey ↦ ?_)
  exact List.inj_on_of_nodup_map hes he hf hkey

theorem getEntry_sortByKey {es : List (String × Json)} (hes : (es.map Prod.fst).Nodup)
    (k : String) : getEntry k (sortByKey Prod.fst es) = getEntry k es := by
  have hperm := perm_sortByKey Prod.fst es
  have hsorted := (hperm.map Prod.fst).nodup_iff.mpr hes
  refine Option.ext fun v ↦ ⟨fun hv ↦ ?_, fun hv ↦ ?_⟩
  · exact getEntry_of_mem hes (hperm.mem_iff.mp (mem_of_getEntry hv))
  · exact getEntry_of_mem hsorted (hperm.mem_iff.mpr (mem_of_getEntry hv))

/-! ## Insertion -/

/-- The values of an object under the names of derived fields are the derived ones. -/
def DerivedFields.Agrees (d : DerivedFields) (obj : List (String × Json)) : Prop :=
  ∀ field ∈ d.toJsonFields, ∀ v, getEntry field.1 obj = some v → v.eq field.2 = true

theorem insertField_ok_iff {display : Json → String} {payload : List (String × Json)}
    {field : String × Json} : (∃ payload', insertField display payload field = .ok payload') ↔
      ∀ v, getEntry field.1 payload = some v → v.eq field.2 = true := by
  rw [insertField]
  cases getEntry field.1 payload with
  | none => exact iff_of_true ⟨_, rfl⟩ (by rintro v ⟨⟩)
  | some v =>
      dsimp only
      cases heq : v.eq field.2 with
      | true => exact iff_of_true ⟨_, rfl⟩ (by rintro _ ⟨⟩; exact heq)
      | false =>
          refine iff_of_false (by rintro ⟨_, ⟨⟩⟩) fun h ↦ Bool.false_ne_true ?_
          exact heq.symm.trans (h v rfl)

/-- Only other values are refused. -/
theorem insertFields_ok_iff {display : Json → String} {fields payload : List (String × Json)}
    (hnodup : (fields.map Prod.fst).Nodup) :
    (∃ payload', fields.foldlM (insertField display) payload = .ok payload') ↔
      ∀ field ∈ fields, ∀ v, getEntry field.1 payload = some v → v.eq field.2 = true := by
  induction fields generalizing payload with
  | nil => exact iff_of_true ⟨_, rfl⟩ fun field hfield ↦ absurd hfield List.not_mem_nil
  | cons field fields ih =>
      rw [List.map_cons, List.nodup_cons] at hnodup
      rw [List.forall_mem_cons, ← @insertField_ok_iff display]
      have hrest : ∀ f ∈ fields, getEntry f.1 (insertKey field.1 field.2 payload) =
          getEntry f.1 payload := fun f hf ↦ by
        rw [getEntry_insertKey, if_neg fun heq ↦ hnodup.1 (List.mem_map.mpr ⟨f, hf, heq.symm⟩)]
      simp only [List.foldlM_cons, bind_eq_ok]
      constructor
      · rintro ⟨payload', inserted, hfield, h⟩
        refine ⟨⟨inserted, hfield⟩, fun f hf v hv ↦ ?_⟩
        rw [insertField_eq_ok hfield] at h
        exact (ih hnodup.2).mp ⟨payload', h⟩ f hf v ((hrest f hf).trans hv)
      · rintro ⟨⟨inserted, hfield⟩, h⟩
        obtain ⟨payload', hall⟩ := (@ih inserted hnodup.2).mpr fun f hf v hv ↦ by
          rw [insertField_eq_ok hfield, hrest f hf] at hv
          exact h f hf v hv
        exact ⟨payload', inserted, hfield, hall⟩

theorem nodup_insertFields {display : Json → String}
    {fields payload payload' : List (String × Json)} (hpayload : (payload.map Prod.fst).Nodup)
    (h : fields.foldlM (insertField display) payload = .ok payload') :
    (payload'.map Prod.fst).Nodup := by
  induction fields generalizing payload with
  | nil =>
      cases h
      exact hpayload
  | cons field fields ih =>
      rw [List.foldlM_cons] at h
      obtain ⟨inserted, hfield, h⟩ := bind_eq_ok.mp h
      exact ih (insertField_eq_ok hfield ▸ nodup_insertKey hpayload) h

/-! ## The payload -/

section Payload

variable {env : HybridEnv} {d : DerivedFields} {obj out : List (String × Json)}

theorem DerivedFields.nodup_toJsonFields (d : DerivedFields) :
    (d.toJsonFields.map Prod.fst).Nodup := by
  rw [d.keys_toJsonFields]
  decide

theorem DerivedFields.fst_mem (d : DerivedFields) {field : String × Json}
    (h : field ∈ d.toJsonFields) : field.1 ∈ derivedFields :=
  d.keys_toJsonFields ▸ List.mem_map_of_mem h

/-- What the payload gives its keys. -/
def payloadEntry (d : DerivedFields) (obj : List (String × Json)) (k : String) : Option Json :=
  if k ∈ derivedFields then getEntry k d.toJsonFields
  else if k ∈ passageFields then getEntry k obj
  else none

/-- The payload of an object. -/
def payloadOf (d : DerivedFields) (obj : List (String × Json)) : Json :=
  mapValue ((passageFields ++ derivedFields).filterMap fun k ↦
    (payloadEntry d obj k).map fun v ↦ (k, v))

/-- The fields that are there before insertion. -/
def carried (obj : List (String × Json)) : List (String × Json) :=
  carryFields derivedFields obj (carryFields passageFields obj [])

theorem getEntry_carried (k : String) : getEntry k (carried obj) =
    if k ∈ derivedFields ∨ k ∈ passageFields then getEntry k obj else none := by
  rw [carried, getEntry_carryFields, getEntry_carryFields]
  have hnil : getEntry k [] = none := rfl
  rw [hnil, Option.or_none]
  by_cases hd : k ∈ derivedFields
  · rw [if_pos hd, if_pos (Or.inl hd)]
    split_ifs
    · exact Option.or_self
    · exact Option.or_none
  · rw [if_neg hd]
    simp only [hd, false_or]

theorem insertInto_carried_ok_iff (display : Json → String) :
    (∃ out, d.insertInto display (carried obj) = .ok out) ↔ d.Agrees obj := by
  refine (insertFields_ok_iff d.nodup_toJsonFields).trans ?_
  refine forall₂_congr fun field hfield ↦ ?_
  rw [getEntry_carried, if_pos (.inl (d.fst_mem hfield))]

theorem insertInto_carried {display : Json → String}
    (h : d.insertInto display (carried obj) = .ok out) : mapValue out = payloadOf d obj := by
  have hcarried : ((carried obj).map Prod.fst).Nodup :=
    nodup_carryFields (nodup_carryFields List.nodup_nil)
  have hout := nodup_insertFields hcarried h
  obtain ⟨hall, hrest⟩ := getEntry_of_insertFields d.nodup_toJsonFields h
  refine mapValue_eq hout (nodup_keys_filterMap (by decide) _) fun k ↦ ?_
  rw [getEntry_filterMap]
  by_cases hd : k ∈ derivedFields
  · rw [if_pos (List.mem_append_right _ hd), payloadEntry, if_pos hd]
    obtain ⟨field, hfield, rfl⟩ := List.mem_map.mp (d.keys_toJsonFields ▸ hd)
    rw [hall field hfield, getEntry_of_mem d.nodup_toJsonFields hfield]
  · rw [hrest k (d.keys_toJsonFields ▸ hd), getEntry_carried, payloadEntry, if_neg hd]
    simp only [List.mem_append, hd, or_false, false_or]
    split_ifs <;> rfl

/-- The records that have a payload, and their payloads. -/
theorem payloadFromPassage_eq_ok {record p : Json} : payloadFromPassage env record = .ok p ↔
    ∃ obj docid, record.asObject = some obj ∧ getEntry "docid" obj = some (.string docid) ∧
      (DerivedFields.fromDocid env docid).Agrees obj ∧
      p = payloadOf (.fromDocid env docid) obj := by
  rw [payloadFromPassage]
  constructor
  · intro h
    split at h
    · cases h
    · next obj hobj =>
        split at h
        · cases h
        · next v hv =>
            cases v with
            | string docid =>
                obtain ⟨out, hout, h⟩ := bind_eq_ok.mp h
                rw [mapError_eq_ok] at hout
                refine ⟨obj, docid, hobj, hv,
                  (insertInto_carried_ok_iff env.display).mp ⟨out, hout⟩, ?_⟩
                rw [← insertInto_carried hout]
                exact (Except.ok.inj h).symm
            | _ => cases h
  · rintro ⟨obj, docid, hobj, hdocid, hagrees, rfl⟩
    obtain ⟨out, hout⟩ := (insertInto_carried_ok_iff env.display).mpr hagrees
    rw [hobj]
    dsimp only
    rw [hdocid]
    show (_ >>= _) = _
    rw [← insertInto_carried hout]
    exact bind_eq_ok.mpr ⟨out, mapError_eq_ok.mpr hout, rfl⟩

/-! ## The payload of a payload -/

theorem payloadEntry_of_mem (d : DerivedFields) (obj : List (String × Json)) {field : String × Json}
    (h : field ∈ d.toJsonFields) : payloadEntry d obj field.1 = some field.2 := by
  rw [payloadEntry, if_pos (d.fst_mem h), getEntry_of_mem d.nodup_toJsonFields h]

theorem DerivedFields.eq_self {d : DerivedFields} {field : String × Json}
    (h : field ∈ d.toJsonFields) : field.2.eq field.2 = true := by
  refine Json.eq_self ?_
  simp only [DerivedFields.toJsonFields, List.mem_cons, List.not_mem_nil, or_false] at h
  rcases h with rfl | rfl | rfl | rfl <;> rfl

theorem agrees_of_payloadEntry {obj' : List (String × Json)}
    (h : ∀ k ∈ derivedFields, getEntry k obj' = payloadEntry d obj k) : d.Agrees obj' := by
  intro field hfield v hv
  rw [h _ (d.fst_mem hfield), payloadEntry_of_mem d obj hfield, Option.some.injEq] at hv
  exact hv ▸ DerivedFields.eq_self hfield

/-- The payload is that of any object with the same passage fields. -/
theorem payloadOf_congr {obj' : List (String × Json)}
    (h : ∀ k ∈ passageFields, getEntry k obj' = getEntry k obj) :
    payloadOf d obj' = payloadOf d obj := by
  have hentry : payloadEntry d obj' = payloadEntry d obj := by
    funext k
    rw [payloadEntry, payloadEntry]
    split_ifs with hd hk
    · rfl
    · exact h k hk
    · rfl
  rw [payloadOf, payloadOf, hentry]

/-- The entries of the payload. -/
theorem exists_payloadOf (d : DerivedFields) (obj : List (String × Json)) :
    ∃ es, payloadOf d obj = .object es ∧ ∀ k, getEntry k es = payloadEntry d obj k := by
  refine ⟨_, rfl, fun k ↦ ?_⟩
  rw [getEntry_sortByKey (nodup_keys_filterMap (by decide) _), getEntry_filterMap]
  split_ifs with hk
  · rfl
  · rw [List.mem_append, not_or] at hk
    rw [payloadEntry, if_neg hk.2, if_neg hk.1]

theorem payloadEntry_passage (d : DerivedFields) (obj : List (String × Json)) {k : String}
    (hk : k ∈ passageFields) : payloadEntry d obj k = getEntry k obj := by
  have hderived : ∀ k ∈ passageFields, k ∉ derivedFields := by decide
  rw [payloadEntry, if_neg (hderived k hk), if_pos hk]

theorem get_of_asObject {record : Json} (h : record.asObject = some obj) (k : String) :
    record.get k = getEntry k obj := by
  cases record with
  | object es =>
      cases h
      rfl
  | _ => cases h

/-- A payload has the docid of its record. -/
theorem get_docid_payload {record p : Json} (h : payloadFromPassage env record = .ok p) :
    ∃ docid, record.get "docid" = some (.string docid) ∧ p.get "docid" = some (.string docid) := by
  obtain ⟨obj, docid, hobj, hdocid, -, rfl⟩ := payloadFromPassage_eq_ok.mp h
  obtain ⟨es, hes, hget⟩ := exists_payloadOf (.fromDocid env docid) obj
  refine ⟨docid, (get_of_asObject hobj _).trans hdocid, ?_⟩
  rw [hes]
  exact (hget _).trans ((payloadEntry_passage _ obj List.mem_cons_self).trans hdocid)

theorem exists_plainPayload {record : Json} (h : record.asObject = some obj) :
    ∃ es, plainPayload record = .object es ∧
      ∀ k, getEntry k es = if k ∈ passageFields then getEntry k obj else none := by
  refine ⟨sortByKey Prod.fst (carryFields passageFields obj []), ?_, fun k ↦ ?_⟩
  · rw [plainPayload, h, Option.getD_some, mapValue]
  · have hnodup : ((carryFields passageFields obj []).map Prod.fst).Nodup :=
      nodup_carryFields List.nodup_nil
    rw [getEntry_sortByKey hnodup, getEntry_carryFields]
    exact ite_congr rfl (fun _ ↦ Option.or_none) fun _ ↦ rfl

/-! ## Coherence -/

/-- The word of the digest that the category is taken from, modulo the weights. -/
def categoryResidue (env : HybridEnv) (docid : String) : ℕ :=
  ofLe (((env.sha256 (derivationSalt ++ docid.toUTF8.toList)).drop (8 * 0)).take 8).reverse %
    categoryWeightTotal

/-- A residue is in the interval of its bucket. -/
theorem zipfBucket_interval {ws : List ℕ} {r : ℕ} (h : r < ws.sum) :
    (ws.take (zipfBucket ws r)).sum ≤ r ∧ r < (ws.take (zipfBucket ws r + 1)).sum := by
  induction ws generalizing r with
  | nil => exact absurd h (Nat.not_lt_zero r)
  | cons w ws ih =>
      rw [List.sum_cons] at h
      rw [zipfBucket]
      split_ifs with hw
      · obtain ⟨hlow, hhigh⟩ := ih (Nat.sub_lt_left_of_lt_add hw h)
        rw [List.take_succ_cons, List.sum_cons, List.take_succ_cons, List.sum_cons]
        omega
      · rw [List.take_succ_cons, List.sum_cons]
        exact ⟨Nat.zero_le r, by omega⟩

/-- The payload of a record, and the fields derived for it. -/
structure Coherent (env : HybridEnv) (record p : Json) (docid : String) (d : DerivedFields) :
    Prop where
  docid_eq : record.get "docid" = some (.string docid)
  category_lt : d.category.toNat < categoryWeights.length
  category_le : (categoryWeights.take d.category.toNat).sum ≤ categoryResidue env docid
  lt_category : categoryResidue env docid < (categoryWeights.take (d.category.toNat + 1)).sum
  docLen_mem : d.docLen.toNat ∈ Set.Icc docLenMin docLenMax
  tier_lt : d.tier.toNat < tierCount
  randKey_lt : d.randKey.toNat < randKeySpan
  fields : ∀ field ∈ d.toJsonFields, p.get field.1 = some field.2
  check : checkPayload env p = .ok d
  again : payloadFromPassage env p = .ok p
  upgraded : payloadFromPassage env (plainPayload record) = .ok p

theorem toNat_category (docid : String) : (DerivedFields.fromDocid env docid).category.toNat =
    zipfBucket categoryWeights (categoryResidue env docid) := by
  have hlt : zipfBucket categoryWeights (categoryResidue env docid) < 32 :=
    zipfBucket_lt (Nat.mod_lt _ (by decide))
  show (UInt8.ofNat (zipfBucket categoryWeights (categoryResidue env docid))).toNat = _
  rw [UInt8.toNat_ofNat', Nat.mod_eq_of_lt (hlt.trans (by decide))]

theorem coherent_of_ok {record p : Json} (h : payloadFromPassage env record = .ok p) :
    ∃ docid, Coherent env record p docid (.fromDocid env docid) := by
  obtain ⟨obj, docid, hobj, hdocid, hagrees, rfl⟩ := payloadFromPassage_eq_ok.mp h
  have hinterval := @zipfBucket_interval categoryWeights (categoryResidue env docid)
    (Nat.mod_lt _ (by decide))
  obtain ⟨es, hes, hget⟩ := exists_payloadOf (.fromDocid env docid) obj
  obtain ⟨plain, hplain, hgetPlain⟩ := exists_plainPayload hobj
  have hdocid_mem : "docid" ∈ passageFields := List.mem_cons_self
  have hgetDocid : getEntry "docid" es = some (.string docid) := by
    rw [hget, payloadEntry_passage _ obj hdocid_mem, hdocid]
  have hgetPlainDocid : getEntry "docid" plain = some (.string docid) := by
    rw [hgetPlain, if_pos hdocid_mem, hdocid]
  refine ⟨docid, ?_, ?_, ?_, ?_, DerivedFields.docLen_fromDocid_mem env docid,
    DerivedFields.tier_fromDocid_lt env docid, DerivedFields.randKey_fromDocid_lt env docid,
    ?_, ?_, ?_, ?_⟩
  · exact (get_of_asObject hobj _).trans hdocid
  · exact DerivedFields.category_fromDocid_lt env docid
  · exact (toNat_category docid).symm ▸ hinterval.1
  · exact (toNat_category docid).symm ▸ hinterval.2
  · intro field hfield
    rw [hes]
    exact (hget _).trans (payloadEntry_of_mem _ obj hfield)
  · rw [hes, checkPayload, asObject]
    dsimp only
    rw [hgetDocid]
    refine bind_eq_ok.mpr ⟨(), forM_eq_ok.mpr fun field hfield ↦ ?_, rfl⟩
    rw [checkDerived, hget, payloadEntry_of_mem _ obj hfield]
    dsimp only
    rw [DerivedFields.eq_self hfield]
    rfl
  · refine payloadFromPassage_eq_ok.mpr ⟨es, docid, hes ▸ rfl, hgetDocid, ?_, ?_⟩
    · exact agrees_of_payloadEntry fun k _ ↦ hget k
    · exact (payloadOf_congr fun k hk ↦ (hget k).trans (payloadEntry_passage _ obj hk)).symm
  · refine payloadFromPassage_eq_ok.mpr ⟨plain, docid, hplain ▸ rfl, hgetPlainDocid, ?_, ?_⟩
    · intro field hfield v hv
      rw [hgetPlain, if_neg] at hv
      · cases hv
      · have hderived : ∀ k ∈ derivedFields, k ∉ passageFields := by decide
        exact hderived _ (DerivedFields.fst_mem _ hfield)
    · exact (payloadOf_congr fun k hk ↦ (hgetPlain k).trans (if_pos hk)).symm

/-- The payload of a record is coherent, and a record with another derived value has none. -/
theorem payload_from_passage (env : HybridEnv) (record : Json) :
    (∀ p, payloadFromPassage env record = .ok p →
      ∃ docid, Coherent env record p docid (.fromDocid env docid)) ∧
      ∀ docid, record.get "docid" = some (.string docid) →
        (∃ field ∈ (DerivedFields.fromDocid env docid).toJsonFields, ∃ v,
          record.get field.1 = some v ∧ v.eq field.2 = false) →
        ∃ e, payloadFromPassage env record = .error e := by
  refine ⟨fun p h ↦ coherent_of_ok h, ?_⟩
  rintro docid hdocid ⟨field, hfield, v, hv, hne⟩
  cases h : payloadFromPassage env record with
  | error e => exact ⟨e, rfl⟩
  | ok p =>
      obtain ⟨obj, docid', hobj, hdocid', hagrees, -⟩ := payloadFromPassage_eq_ok.mp h
      rw [get_of_asObject hobj] at hdocid hv
      cases hdocid.symm.trans hdocid'
      exact absurd (hne.symm.trans (hagrees field hfield v hv)) Bool.false_ne_true

end Payload

/-- A digest of zeros. -/
def zeroDigestEnv : HybridEnv where
  parse := fun _ ↦ .error "EOF"
  sha256 := fun _ ↦ List.replicate 32 0
  display := fun _ ↦ ""
  debug := id
  debugLeaf := fun _ ↦ ""
  path := ""

example : (payloadFromPassage zeroDigestEnv
    (.object [("docid", .string "D1"), ("category", .string "cat00")])).isOk = true := by decide

example : (payloadFromPassage zeroDigestEnv
    (.object [("docid", .string "D1"), ("category", .string "cat01")])).isOk = false := by decide

end VectorDbBenchmark.Msmarco
