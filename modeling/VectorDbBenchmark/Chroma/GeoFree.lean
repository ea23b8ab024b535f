import VectorDbBenchmark.Chroma.Filter

/-!
# Conditions without geo leaves

A conditions value whose leaves do not mention geo does not mention it at any depth, so that
no builder refuses one of its groups.
-/

namespace VectorDbBenchmark.Chroma

open Kit Redis ConditionTree
open Json (isNumber)

/-- Neither the value nor, when it holds the operations on a field, one of them is geo. -/
def GeoFree (v : Json) : Prop :=
  v.asObject.any (containsKey "geo") = false ∧ conditionsMentionGeo v = false

theorem entriesMentionGeo_eq_false {es : List (String × Json)} :
    entriesMentionGeo es = false ↔ ∀ e ∈ es, GeoFree e.2 := by
  induction es with
  | nil => simp [entriesMentionGeo]
  | cons e es ih =>
      rw [entriesMentionGeo, Bool.or_eq_false_iff, Bool.or_eq_false_iff, ih, List.forall_mem_cons]
      rfl

theorem itemsMentionGeo_eq_false {vs : List Json} :
    itemsMentionGeo vs = false ↔ ∀ v ∈ vs, conditionsMentionGeo v = false := by
  induction vs with
  | nil => simp [itemsMentionGeo]
  | cons v vs ih => rw [itemsMentionGeo, Bool.or_eq_false_iff, ih, List.forall_mem_cons]

theorem geoFree_object {es : List (String × Json)} (hes : ∀ e ∈ es, GeoFree e.2)
    (hkeys : ∀ e ∈ es, e.1 ≠ "geo") : GeoFree (.object es) := by
  constructor
  · show es.any _ = false
    rw [List.any_eq_false]
    intro e he
    simpa using hkeys e he
  · rw [conditionsMentionGeo]
    exact entriesMentionGeo_eq_false.mpr hes

theorem geoFree_array {vs : List Json} (hvs : ∀ v ∈ vs, conditionsMentionGeo v = false) :
    GeoFree (.array vs) := by
  refine ⟨rfl, ?_⟩
  rw [conditionsMentionGeo]
  exact itemsMentionGeo_eq_false.mpr hvs

theorem geoFree_scalar {v : Json} (h : v.asObject = none) (h' : v.asArray = none) : GeoFree v := by
  cases v with
  | object _ => cases h
  | array _ => cases h'
  | null => exact ⟨rfl, by rw [conditionsMentionGeo] <;> simp⟩
  | bool _ => exact ⟨rfl, by rw [conditionsMentionGeo] <;> simp⟩
  | number _ => exact ⟨rfl, by rw [conditionsMentionGeo] <;> simp⟩
  | string _ => exact ⟨rfl, by rw [conditionsMentionGeo] <;> simp⟩

/-- An operation in which geo is not mentioned. -/
def NoGeo (l : Leaf) : Prop := l.op ≠ "geo" ∧ GeoFree l.criteria

theorem geoFree_singleton {key : String} {v : Json} (hkey : key ≠ "geo") (hv : GeoFree v) :
    GeoFree (.object [(key, v)]) := by
  apply geoFree_object
  · intro e he
    rw [List.mem_singleton.mp he]
    exact hv
  · intro e he
    rw [List.mem_singleton.mp he]
    exact hkey

theorem geoFree_of_isString_or {v : Json} (h : isString v || isNumber v || v.asBool.isSome) :
    GeoFree v := by
  cases v with
  | object _ => cases h
  | array _ => cases h
  | null => cases h
  | bool _ => exact geoFree_scalar rfl rfl
  | number _ => exact geoFree_scalar rfl rfl
  | string _ => exact geoFree_scalar rfl rfl

variable {env : NumberEnv}

theorem geoFree_of_bound {v : Json} (h : v = .null ∨ (bound env v).isSome) : GeoFree v := by
  cases v with
  | object _ => rcases h with h | h <;> cases h
  | array _ => rcases h with h | h <;> cases h
  | null => exact geoFree_scalar rfl rfl
  | bool _ => exact geoFree_scalar rfl rfl
  | number _ => exact geoFree_scalar rfl rfl
  | string _ => exact geoFree_scalar rfl rfl

theorem WellFormed.noGeo {l : Leaf} (h : WellFormed env l) : NoGeo l := by
  cases h with
  | any field vs h =>
      refine ⟨by simp, geoFree_singleton (by simp) (geoFree_array fun v hv ↦ ?_)⟩
      apply And.right (geoFree_of_isString_or _)
      rw [h v hv, Bool.true_or]
  | text field text => exact ⟨by simp, geoFree_singleton (by simp) (geoFree_scalar rfl rfl)⟩
  | value field v h => exact ⟨by simp, geoFree_singleton (by simp) (geoFree_of_isString_or h)⟩
  | range field es hkeys hbounds hsome =>
      refine ⟨by simp, geoFree_object (fun e he ↦ geoFree_of_bound (hbounds e he)) ?_⟩
      intro e he hgeo
      have hmem := hkeys e he
      rw [hgeo] at hmem
      simp [boundOps] at hmem

theorem geoFree_fields {obj : List (String × Json)}
    (hfields : ∀ e ∈ obj, e.2.asObject.isSome = true)
    (hleaves : ∀ l ∈ fieldLeaves obj, NoGeo l) :
    conditionsMentionGeo (.object obj) = false := by
  rw [conditionsMentionGeo, entriesMentionGeo_eq_false]
  intro e he
  obtain ⟨field, v⟩ := e
  obtain ⟨ops, hops⟩ := Option.isSome_iff_exists.mp (hfields _ he)
  cases v with
  | object ops' =>
      cases hops
      have hmem : ∀ o ∈ ops, NoGeo ⟨field, o.1, o.2⟩ := by
        intro o ho
        exact hleaves _ (List.mem_flatMap.mpr ⟨_, he, List.mem_map_of_mem ho⟩)
      exact geoFree_object (fun o ho ↦ (hmem o ho).2) fun o ho ↦ (hmem o ho).1
  | null => cases hops
  | bool _ => cases hops
  | number _ => cases hops
  | string _ => cases hops
  | array _ => cases hops

mutual

theorem geoFree_entry {v : Json} {t : BoolTree Leaf} (hkeys : v.keysDistinct = true)
    (ht : ofEntry v = some t) (hP : ∀ l ∈ t.leaves, NoGeo l) :
    conditionsMentionGeo v = false := by
  match v with
  | .object obj =>
      cases hgroup : containsKey "and" obj || containsKey "or" obj with
      | true =>
          obtain ⟨hguard, ts, us, hts, hus, htree⟩ := exists_group_of_ofEntry hgroup ht
          rw [leaves_groupTree htree, List.forall_mem_append] at hP
          have hnodup := Json.nodup_of_keysDistinct hkeys
          rw [Json.keysDistinct, Bool.and_eq_true] at hkeys
          rw [conditionsMentionGeo, entriesMentionGeo_eq_false]
          exact geoFree_arms hnodup hkeys.2 hguard hts hus hP.1 hP.2
      | false =>
          obtain ⟨hfields, -, rfl⟩ := ofEntry_fields hgroup ht
          refine geoFree_fields hfields fun l hl ↦ hP l ?_
          rw [BoolTree.leaves_all, List.flatMap_map]
          exact List.mem_flatMap.mpr ⟨l, hl, by simp⟩
  | .null => cases ht
  | .bool _ => cases ht
  | .number _ => cases ht
  | .string _ => cases ht
  | .array _ => cases ht

theorem geoFree_entries {vs : List Json} {ts : List (BoolTree Leaf)}
    (hkeys : Json.keysDistinctEach vs = true) (hts : ofEntries vs = some ts)
    (hP : ∀ l ∈ ts.flatMap BoolTree.leaves, NoGeo l) :
    ∀ v ∈ vs, conditionsMentionGeo v = false := by
  match vs with
  | [] => exact fun v hv ↦ absurd hv List.not_mem_nil
  | v :: vs =>
      rw [ofEntries] at hts
      obtain ⟨t, ht, hts⟩ := Option.bind_eq_some_iff.mp hts
      obtain ⟨us, hus, hts⟩ := Option.bind_eq_some_iff.mp hts
      cases hts
      rw [List.flatMap_cons, List.forall_mem_append] at hP
      rw [Json.keysDistinctEach, Bool.and_eq_true] at hkeys
      rw [List.forall_mem_cons]
      exact ⟨geoFree_entry hkeys.1 ht hP.1, geoFree_entries hkeys.2 hus hP.2⟩

/-- The entries of a group; each of the two keys stands in one of them. -/
theorem geoFree_arms {es : List (String × Json)} {ts us : Option (List (BoolTree Leaf))}
    (hnodup : (es.map Prod.fst).Nodup) (hkeys : Json.keysDistinctIn es = true)
    (hguard : groupKeys es = true) (hts : ofKey "and" es = some ts) (hus : ofKey "or" es = some us)
    (hP : ∀ l ∈ (ts.getD []).flatMap BoolTree.leaves, NoGeo l)
    (hQ : ∀ l ∈ (us.getD []).flatMap BoolTree.leaves, NoGeo l) :
    ∀ e ∈ es, GeoFree e.2 := by
  match es with
  | [] => exact fun e he ↦ absurd he List.not_mem_nil
  | (k, v) :: es =>
      rw [List.map_cons, List.nodup_cons] at hnodup
      rw [Json.keysDistinctIn, Bool.and_eq_true] at hkeys
      rw [groupKeys, List.all_cons, Bool.and_eq_true] at hguard
      rw [ofKey] at hts hus
      rw [List.forall_mem_cons]
      by_cases hk : k = "and"
      · have hor : ¬k = "or" := by simp [hk]
        rw [if_pos hk] at hts
        rw [if_neg hor] at hus
        obtain ⟨ts', hts', rfl⟩ := Option.map_eq_some_iff.mp hts
        refine ⟨geoFree_ofArray hkeys.1 hts' hP, ?_⟩
        exact geoFree_arms hnodup.2 hkeys.2 hguard.2 (ofKey_eq_none (hk ▸ hnodup.1)) hus
          (fun l hl ↦ absurd hl List.not_mem_nil) hQ
      · have hor : k = "or" := by simpa [hk] using hguard.1
        rw [if_neg hk] at hts
        rw [if_pos hor] at hus
        obtain ⟨us', hus', rfl⟩ := Option.map_eq_some_iff.mp hus
        refine ⟨geoFree_ofArray hkeys.1 hus' hQ, ?_⟩
        exact geoFree_arms hnodup.2 hkeys.2 hguard.2 hts (ofKey_eq_none (hor ▸ hnodup.1)) hP
          (fun l hl ↦ absurd hl List.not_mem_nil)

theorem geoFree_ofArray {v : Json} {ts : List (BoolTree Leaf)} (hkeys : v.keysDistinct = true)
    (hts : ofArray v = some ts) (hP : ∀ l ∈ ts.flatMap BoolTree.leaves, NoGeo l) :
    GeoFree v := by
  match v with
  | .array (w :: ws) =>
      rw [ofArray] at hts
      rw [Json.keysDistinct] at hkeys
      exact geoFree_array (geoFree_entries hkeys hts hP)
  | .array [] => cases hts
  | .null => cases hts
  | .bool _ => cases hts
  | .number _ => cases hts
  | .string _ => cases hts
  | .object _ => cases hts

end

end VectorDbBenchmark.Chroma
