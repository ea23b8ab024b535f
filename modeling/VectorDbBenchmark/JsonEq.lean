import VectorDbBenchmark.Json

/-!
# Equality of JSON values

`==` on `serde_json::Value`: arrays in order, objects by key, whatever the order in which
their maps are iterated.
-/

namespace VectorDbBenchmark

namespace Json

/-- `Value::from(1)`. -/
def one : Json := .number (.posInt 1 (Nat.le_of_ble_eq_true rfl))

mutual

/-- `a == b`. -/
def eq : Json → Json → Bool
  | null, null => true
  | bool a, bool b => a = b
  | number m, number n => m = n
  | string s, string t => s = t
  | array vs, array ws => eqEach vs ws
  | object es, object fs => es.length = fs.length && eqIn es fs
  | _, _ => false

def eqEach : List Json → List Json → Bool
  | [], [] => true
  | v :: vs, w :: ws => eq v w && eqEach vs ws
  | _, _ => false

/-- Every entry has its counterpart among `fs`. -/
def eqIn : List (String × Json) → List (String × Json) → Bool
  | [], _ => true
  | (key, v) :: es, fs =>
    (match getEntry key fs with
      | some w => eq v w
      | none => false) && eqIn es fs

end

theorem eqEach_iff {vs ws : List Json} :
    eqEach vs ws = true ↔ List.Forall₂ (fun v w ↦ v.eq w = true) vs ws := by
  induction vs generalizing ws with
  | nil =>
      cases ws with
      | nil => exact iff_of_true rfl .nil
      | cons w ws => exact iff_of_false Bool.false_ne_true (by rintro ⟨⟩)
  | cons v vs ih =>
      cases ws with
      | nil => exact iff_of_false Bool.false_ne_true (by rintro ⟨⟩)
      | cons w ws => rw [eqEach, Bool.and_eq_true, ih, List.forall₂_cons]

theorem eqIn_iff {es fs : List (String × Json)} :
    eqIn es fs = true ↔ ∀ e ∈ es, ∃ w, getEntry e.1 fs = some w ∧ e.2.eq w = true := by
  induction es with
  | nil => exact iff_of_true rfl fun e he ↦ absurd he List.not_mem_nil
  | cons e es ih =>
      obtain ⟨key, v⟩ := e
      rw [eqIn, Bool.and_eq_true, ih, List.forall_mem_cons]
      refine and_congr_left fun _ ↦ ?_
      cases getEntry key fs with
      | none => simp
      | some w => simp

theorem array_eq_array {vs ws : List Json} : (array vs).eq (array ws) = true ↔
    List.Forall₂ (fun v w ↦ v.eq w = true) vs ws := by
  rw [eq, eqEach_iff]

theorem object_eq_object {es fs : List (String × Json)} :
    (object es).eq (object fs) = true ↔ es.length = fs.length ∧
      ∀ e ∈ es, ∃ w, getEntry e.1 fs = some w ∧ e.2.eq w = true := by
  rw [eq, Bool.and_eq_true, decide_eq_true_eq, eqIn_iff]

theorem eq_array_iff {v : Json} {ws : List Json} : v.eq (array ws) = true ↔
    ∃ vs, v = array vs ∧ List.Forall₂ (fun v w ↦ v.eq w = true) vs ws := by
  cases v with
  | array vs =>
      rw [array_eq_array]
      exact ⟨fun h ↦ ⟨vs, rfl, h⟩, by rintro ⟨_, ⟨⟩, h⟩; exact h⟩
  | _ => exact iff_of_false (by rintro ⟨⟩) (by rintro ⟨_, ⟨⟩, _⟩)

theorem eq_object_iff {v : Json} {fs : List (String × Json)} : v.eq (object fs) = true ↔
    ∃ es, v = object es ∧ es.length = fs.length ∧
      ∀ e ∈ es, ∃ w, getEntry e.1 fs = some w ∧ e.2.eq w = true := by
  cases v with
  | object es =>
      rw [object_eq_object]
      exact ⟨fun h ↦ ⟨es, rfl, h⟩, by rintro ⟨_, ⟨⟩, h⟩; exact h⟩
  | _ => exact iff_of_false (by rintro ⟨⟩) (by rintro ⟨_, ⟨⟩, _⟩)

theorem getEntry_singleton {k key : String} {v w : Json} :
    getEntry k [(key, v)] = some w ↔ key = k ∧ v = w := by
  rw [getEntry, getEntry]
  split_ifs with h
  · simp [h]
  · simp [h]

/-- The values that equal an object of one entry. -/
theorem eq_singleton_iff {v w : Json} {key : String} : v.eq (object [(key, w)]) = true ↔
    ∃ u, v = object [(key, u)] ∧ u.eq w = true := by
  rw [eq_object_iff]
  constructor
  · rintro ⟨es, rfl, hlen, hall⟩
    obtain ⟨⟨k, u⟩, rfl⟩ := List.length_eq_one_iff.mp hlen
    obtain ⟨w', hget, hu⟩ := hall (k, u) List.mem_cons_self
    obtain ⟨rfl, rfl⟩ := getEntry_singleton.mp hget
    exact ⟨u, rfl, hu⟩
  · rintro ⟨u, rfl, hu⟩
    refine ⟨_, rfl, rfl, ?_⟩
    intro e he
    rw [List.mem_singleton.mp he]
    exact ⟨w, getEntry_singleton.mpr ⟨rfl, rfl⟩, hu⟩

/-- An object of one entry against another under its key. -/
theorem singleton_eq_singleton {u w : Json} {key : String} :
    (object [(key, u)]).eq (object [(key, w)]) = true ↔ u.eq w = true := by
  rw [eq_singleton_iff]
  exact ⟨by rintro ⟨_, ⟨⟩, h⟩; exact h, fun h ↦ ⟨u, rfl, h⟩⟩

theorem getEntry_eq_none_iff {key : String} {es : List (String × Json)} :
    getEntry key es = none ↔ key ∉ es.map Prod.fst := by
  induction es with
  | nil => exact iff_of_true rfl List.not_mem_nil
  | cons e es ih =>
      obtain ⟨k, v⟩ := e
      rw [getEntry, List.map_cons, List.mem_cons, not_or]
      split_ifs with hk
      · exact iff_of_false (by rintro ⟨⟩) fun h ↦ h.1 hk.symm
      · rw [ih]
        exact ⟨fun h ↦ ⟨fun h' ↦ hk h'.symm, h⟩, fun h ↦ h.2⟩

theorem getEntry_of_mem {key : String} {es : List (String × Json)} {v : Json}
    (hes : (es.map Prod.fst).Nodup) (h : (key, v) ∈ es) : getEntry key es = some v := by
  induction es with
  | nil => cases h
  | cons e es ih =>
      obtain ⟨k, u⟩ := e
      rw [List.map_cons, List.nodup_cons] at hes
      rw [getEntry]
      rcases List.mem_cons.mp h with heq | hmem
      · cases heq
        exact if_pos rfl
      · rw [if_neg, ih hes.2 hmem]
        rintro rfl
        exact hes.1 (List.mem_map.mpr ⟨_, hmem, rfl⟩)

theorem mem_keys_iff {key : String} {es : List (String × Json)} :
    key ∈ es.map Prod.fst ↔ ∃ v, getEntry key es = some v := by
  rw [← Option.isSome_iff_exists, ← Option.ne_none_iff_isSome, ne_eq, getEntry_eq_none_iff, not_not]

/-- A map built from what a function gives its keys. -/
theorem getEntry_filterMap (h : String → Option Json) (keys : List String) (k : String) :
    getEntry k (keys.filterMap fun k ↦ (h k).map fun v ↦ (k, v)) =
      if k ∈ keys then h k else none := by
  induction keys with
  | nil => rfl
  | cons key keys ih =>
      rw [List.filterMap_cons]
      cases hkey : h key with
      | none =>
          dsimp only [Option.map_none]
          rw [ih]
          by_cases hk : k = key
          · rw [hk, hkey, if_pos List.mem_cons_self, ite_self]
          · simp only [List.mem_cons, hk, false_or]
      | some v =>
          dsimp only [Option.map_some]
          rw [getEntry, ih]
          by_cases hk : key = k
          · rw [if_pos hk, ← hk, if_pos List.mem_cons_self, hkey]
          · rw [if_neg hk]
            simp only [List.mem_cons, Ne.symm hk, false_or]

theorem nodup_keys_filterMap {keys : List String} (hkeys : keys.Nodup)
    (h : String → Option Json) :
    ((keys.filterMap fun k ↦ (h k).map fun v ↦ (k, v)).map Prod.fst).Nodup := by
  refine hkeys.sublist ?_
  induction keys with
  | nil => exact .slnil
  | cons key keys ih =>
      rw [List.filterMap_cons]
      cases h key with
      | none => exact (ih (List.nodup_cons.mp hkeys).2).cons key
      | some v => exact (ih (List.nodup_cons.mp hkeys).2).cons_cons key

/-- Maps are equal when they have the same keys and give them equal values. -/
theorem object_eq_iff {es fs : List (String × Json)} (hes : (es.map Prod.fst).Nodup)
    (hfs : (fs.map Prod.fst).Nodup) : (object es).eq (object fs) = true ↔
      (∀ k ∈ es.map Prod.fst, k ∈ fs.map Prod.fst) ∧
        ∀ e ∈ fs, ∃ v, getEntry e.1 es = some v ∧ v.eq e.2 = true := by
  rw [object_eq_object]
  constructor
  · rintro ⟨hlen, hall⟩
    have hsub : es.map Prod.fst ⊆ fs.map Prod.fst := by
      intro k hk
      obtain ⟨e, he, rfl⟩ := List.mem_map.mp hk
      obtain ⟨w, hw, -⟩ := hall e he
      exact mem_keys_iff.mpr ⟨w, hw⟩
    have hperm : (es.map Prod.fst).Perm (fs.map Prod.fst) := by
      refine (List.subperm_of_subset hes hsub).perm_of_length_le ?_
      rw [List.length_map, List.length_map, hlen]
    refine ⟨hsub, fun e he ↦ ?_⟩
    obtain ⟨v, hv⟩ := mem_keys_iff.mp (hperm.mem_iff.mpr (List.mem_map_of_mem he))
    obtain ⟨w, hw, heq⟩ := hall (e.1, v) (mem_of_getEntry hv)
    rw [getEntry_of_mem hfs he, Option.some.injEq] at hw
    exact ⟨v, hv, hw ▸ heq⟩
  · rintro ⟨hsub, hall⟩
    have hperm : (es.map Prod.fst).Perm (fs.map Prod.fst) := by
      refine (List.perm_ext_iff_of_nodup hes hfs).mpr fun k ↦ ⟨fun hk ↦ hsub k hk, fun hk ↦ ?_⟩
      obtain ⟨e, he, rfl⟩ := List.mem_map.mp hk
      obtain ⟨v, hv, -⟩ := hall e he
      exact mem_keys_iff.mpr ⟨v, hv⟩
    refine ⟨by simpa using hperm.length_eq, fun e he ↦ ?_⟩
    obtain ⟨w, hw⟩ := mem_keys_iff.mp (hsub e.1 (List.mem_map_of_mem he))
    obtain ⟨v, hv, heq⟩ := hall (e.1, w) (mem_of_getEntry hw)
    rw [getEntry_of_mem hes he, Option.some.injEq] at hv
    exact ⟨w, hw, hv ▸ heq⟩

/-! ## Distinct keys -/

theorem keysDistinct_of_mem_array {vs : List Json} (h : (array vs).keysDistinct = true) :
    ∀ v ∈ vs, v.keysDistinct = true := by
  rw [keysDistinct] at h
  induction vs with
  | nil => exact fun v hv ↦ absurd hv List.not_mem_nil
  | cons w vs ih =>
      rw [keysDistinctEach, Bool.and_eq_true] at h
      exact List.forall_mem_cons.mpr ⟨h.1, ih h.2⟩

theorem keysDistinct_of_mem_object {es : List (String × Json)}
    (h : (object es).keysDistinct = true) : ∀ e ∈ es, e.2.keysDistinct = true := by
  rw [keysDistinct, Bool.and_eq_true] at h
  replace h := h.2
  induction es with
  | nil => exact fun e he ↦ absurd he List.not_mem_nil
  | cons e es ih =>
      rw [keysDistinctIn, Bool.and_eq_true] at h
      exact List.forall_mem_cons.mpr ⟨h.1, ih h.2⟩

mutual

/-- A value whose maps have distinct keys equals itself. -/
theorem eq_self {v : Json} (h : v.keysDistinct = true) : v.eq v = true := by
  match v with
  | null => rfl
  | bool b => exact decide_eq_true rfl
  | number n => exact decide_eq_true rfl
  | string s => exact decide_eq_true rfl
  | array vs =>
      rw [keysDistinct] at h
      rw [eq]
      exact eqEach_self h
  | object es =>
      have hes := nodup_of_keysDistinct h
      rw [keysDistinct, Bool.and_eq_true] at h
      refine object_eq_object.mpr ⟨rfl, fun e he ↦ ⟨e.2, getEntry_of_mem hes he, ?_⟩⟩
      exact eq_self_of_mem h.2 e he

theorem eqEach_self {vs : List Json} (h : keysDistinctEach vs = true) : eqEach vs vs = true := by
  match vs with
  | [] => rfl
  | v :: vs =>
      rw [keysDistinctEach, Bool.and_eq_true] at h
      rw [eqEach, eq_self h.1, eqEach_self h.2]
      rfl

theorem eq_self_of_mem {es : List (String × Json)} (h : keysDistinctIn es = true) :
    ∀ e ∈ es, e.2.eq e.2 = true := by
  match es with
  | [] => exact fun e he ↦ absurd he List.not_mem_nil
  | (key, v) :: es =>
      rw [keysDistinctIn, Bool.and_eq_true] at h
      exact List.forall_mem_cons.mpr ⟨eq_self h.1, eq_self_of_mem h.2⟩

end

end Json

end VectorDbBenchmark
