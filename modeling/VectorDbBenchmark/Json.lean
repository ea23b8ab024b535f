import VectorDbBenchmark.F64

/-!
# JSON values

`serde_json::Value` as the modelled code reads it.  Numbers keep the three
representations `serde_json` gives them; an object is its list of entries, in the
order in which its map is iterated.
-/

namespace VectorDbBenchmark

/-- A JSON number: a `u64`, a negative `i64`, or a finite `f64`. -/
inductive Number where
  | posInt (n : ℕ) (h : n < 2 ^ 64)
  | negInt (i : ℤ) (h : -2 ^ 63 ≤ i ∧ i < 0)
  | float (q : ℚ)
deriving DecidableEq, Repr

namespace Number

def asI64 : Number → Option ℤ
  | posInt n _ => if n < 2 ^ 63 then some n else none
  | negInt i _ => some i
  | float _ => none

def asU64 : Number → Option ℕ
  | posInt n _ => some n
  | _ => none

def asF64 : Number → Option F64
  | posInt n _ => some (.ofInt n)
  | negInt i _ => some (.ofInt i)
  | float q => some (.fin q)

/-- The number itself. -/
def value : Number → ℚ
  | posInt n _ => n
  | negInt i _ => i
  | float q => q

end Number

inductive Json where
  | null
  | bool (b : Bool)
  | number (n : Number)
  | string (s : String)
  | array (elems : List Json)
  | object (entries : List (String × Json))
deriving Repr

namespace Json

/-- A machine integer. -/
def ofNat (n : ℕ) : Json := .number (.posInt (n % 2 ^ 64) (Nat.mod_lt n (Nat.two_pow_pos 64)))

def asStr : Json → Option String
  | string s => some s
  | _ => none

def asBool : Json → Option Bool
  | bool b => some b
  | _ => none

def asI64 : Json → Option ℤ
  | number n => n.asI64
  | _ => none

def asU64 : Json → Option ℕ
  | number n => n.asU64
  | _ => none

def asF64 : Json → Option F64
  | number n => n.asF64
  | _ => none

/-- The float a number is compared as, where integers are read by `ofInt`. -/
def asNumber (ofInt : ℤ → F64) (v : Json) : Option F64 :=
  match v.asI64 with
  | some i => some (ofInt i)
  | none => v.asF64

def isNumber : Json → Bool
  | number _ => true
  | _ => false

/-- A string, a number or a boolean. -/
def isScalar : Json → Bool
  | bool _ => true
  | number _ => true
  | string _ => true
  | _ => false

def asArray : Json → Option (List Json)
  | array elems => some elems
  | _ => none

def asObject : Json → Option (List (String × Json))
  | object entries => some entries
  | _ => none

/-- `map.get(key)`. -/
def getEntry (key : String) : List (String × Json) → Option Json
  | [] => none
  | (k, v) :: rest => if k = key then some v else getEntry key rest

/-- `map.insert(key, value)`: a key that is there keeps its place. -/
def insertEntry (key : String) (v : Json) : List (String × Json) → List (String × Json)
  | [] => [(key, v)]
  | (k, w) :: es => if k = key then (key, v) :: es else (k, w) :: insertEntry key v es

/-- `value.get(key)`. -/
def get (key : String) : Json → Option Json
  | object entries => getEntry key entries
  | _ => none

/-! ## Floats -/

mutual

/-- The numbers in a value that are represented as floats. -/
def floats : Json → List ℚ
  | number (.float q) => [q]
  | array vs => floatsEach vs
  | object es => floatsIn es
  | _ => []

def floatsEach : List Json → List ℚ
  | [] => []
  | v :: vs => floats v ++ floatsEach vs

def floatsIn : List (String × Json) → List ℚ
  | [] => []
  | (_, v) :: es => floats v ++ floatsIn es

end

theorem floats_subset_of_mem {es : List (String × Json)} {e : String × Json} (he : e ∈ es) :
    ∀ q ∈ e.2.floats, q ∈ (object es).floats := by
  intro q hq
  rw [floats]
  induction es with
  | nil => cases he
  | cons e' es ih =>
      rw [floatsIn, List.mem_append]
      rcases List.mem_cons.mp he with rfl | he
      · exact .inl hq
      · exact .inr (ih he)

theorem floats_subset_of_elem {vs : List Json} {v : Json} (hv : v ∈ vs) :
    v.floats ⊆ (array vs).floats := by
  intro q hq
  rw [floats]
  induction vs with
  | nil => cases hv
  | cons v' vs ih =>
      rw [floatsEach, List.mem_append]
      rcases List.mem_cons.mp hv with rfl | hv
      · exact .inl hq
      · exact .inr (ih hv)

theorem mem_floats_of_mem_array {vs : List Json} {q : ℚ} (h : q ∈ (array vs).floats) :
    ∃ v ∈ vs, q ∈ v.floats := by
  rw [floats] at h
  induction vs with
  | nil => cases h
  | cons v vs ih =>
      rw [floatsEach, List.mem_append] at h
      rcases h with h | h
      · exact ⟨v, List.mem_cons_self, h⟩
      · obtain ⟨w, hw, hq⟩ := ih h
        exact ⟨w, List.mem_cons_of_mem _ hw, hq⟩

theorem mem_of_getEntry {key : String} {es : List (String × Json)} {v : Json}
    (h : getEntry key es = some v) : (key, v) ∈ es := by
  induction es with
  | nil => cases h
  | cons e es ih =>
      obtain ⟨k, w⟩ := e
      rw [getEntry] at h
      split_ifs at h with hk
      · cases h
        rw [hk]
        exact List.mem_cons_self
      · exact List.mem_cons_of_mem _ (ih h)

theorem getEntry_eq_lookup (key : String) (es : List (String × Json)) :
    getEntry key es = es.lookup key := by
  induction es with
  | nil => rfl
  | cons e es ih =>
      obtain ⟨k, v⟩ := e
      rw [getEntry, List.lookup_cons, ih]
      split_ifs with hk
      · rw [beq_iff_eq.mpr hk.symm]
      · rw [beq_eq_false_iff_ne.mpr (Ne.symm hk)]

theorem get_of_asObject {v : Json} {obj : List (String × Json)} (h : v.asObject = some obj)
    (k : String) : v.get k = getEntry k obj := by
  cases v with
  | object es => cases h; rfl
  | null => cases h
  | bool _ => cases h
  | number _ => cases h
  | string _ => cases h
  | array _ => cases h

/-- The floats of an entry are floats of the object. -/
theorem floats_subset_of_get {key : String} {v w : Json} (h : v.get key = some w) :
    w.floats ⊆ v.floats := by
  cases v with
  | object es =>
      exact floats_subset_of_mem (mem_of_getEntry h)
  | null => cases h
  | bool _ => cases h
  | number _ => cases h
  | string _ => cases h
  | array _ => cases h

/-! ## Distinct keys -/

mutual

/-- No object has two entries with one key. -/
def keysDistinct : Json → Bool
  | array vs => keysDistinctEach vs
  | object es => decide (es.map Prod.fst).Nodup && keysDistinctIn es
  | _ => true

def keysDistinctEach : List Json → Bool
  | [] => true
  | v :: vs => keysDistinct v && keysDistinctEach vs

/-- The same of the values of an object. -/
def keysDistinctIn : List (String × Json) → Bool
  | [] => true
  | (_, v) :: es => keysDistinct v && keysDistinctIn es

end

theorem nodup_of_keysDistinct {es : List (String × Json)}
    (h : (object es).keysDistinct = true) : (es.map Prod.fst).Nodup := by
  rw [keysDistinct, Bool.and_eq_true] at h
  exact of_decide_eq_true h.1

theorem keysDistinct_of_singleton {key : String} {v : Json}
    (h : (object [(key, v)]).keysDistinct = true) : v.keysDistinct = true := by
  rw [keysDistinct, Bool.and_eq_true, keysDistinctIn, Bool.and_eq_true] at h
  exact h.2.1

end Json

end VectorDbBenchmark
