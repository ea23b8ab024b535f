import VectorDbBenchmark.F64Text
import VectorDbBenchmark.Json
import VectorDbBenchmark.Kit.Text

/-!
# Records as JSON objects

What `serde` derives for a record: an object with one entry for each field, from which an
optional field may be missing, and the reading of such an object field by field.  The text
form of JSON values is a parameter, with what is known of the library that provides it.
-/

namespace VectorDbBenchmark

open Kit

namespace Json

/-! ## Fields -/

/-- The entries of the fields that are there. -/
def present (fields : List (String × Option Json)) : List (String × Json) :=
  fields.filterMap fun f ↦ f.2.map (f.1, ·)

/-- The value of a field; no field may occur twice. -/
def field (key : String) (es : List (String × Json)) : Option (Option Json) :=
  match es.filter (·.1 = key) with
  | [] => some none
  | [e] => some (some e.2)
  | _ => none

/-- A field that must be there. -/
def required {α : Type} (read : Json → Option α) (key : String) (es : List (String × Json)) :
    Option α := do
  let v ← field key es
  let v ← v
  read v

/-- A field that may be missing, or `null`. -/
def optional {α : Type} (read : Json → Option α) (key : String) (es : List (String × Json)) :
    Option (Option α) := do
  let v ← field key es
  match v with
  | none | some .null => some none
  | some v => (read v).map some

section Present

variable {fields : List (String × Option Json)} {key : String} {v : Option Json}

@[simp] theorem present_none (k : String) (fields : List (String × Option Json)) :
    present ((k, none) :: fields) = present fields := rfl

@[simp] theorem present_some (k : String) (w : Json) (fields : List (String × Option Json)) :
    present ((k, some w) :: fields) = (k, w) :: present fields := rfl

theorem filter_present_of_not_mem (h : key ∉ fields.map Prod.fst) :
    (present fields).filter (·.1 = key) = [] := by
  induction fields with
  | nil => rfl
  | cons f fields ih =>
      obtain ⟨k, w⟩ := f
      rw [List.map_cons, List.mem_cons, not_or] at h
      cases w with
      | none => exact ih h.2
      | some w =>
          have hk : decide (k = key) = false := decide_eq_false (Ne.symm h.1)
          rw [present_some, List.filter_cons, hk]
          exact ih h.2

theorem filter_present (hfields : (fields.map Prod.fst).Nodup) (hv : (key, v) ∈ fields) :
    (present fields).filter (·.1 = key) = (v.map (key, ·)).toList := by
  induction fields with
  | nil => cases hv
  | cons f fields ih =>
      obtain ⟨k, w⟩ := f
      rw [List.map_cons, List.nodup_cons] at hfields
      rcases List.mem_cons.mp hv with heq | hmem
      · cases heq
        have hrest := filter_present_of_not_mem hfields.1
        cases v with
        | none => exact hrest
        | some v =>
            have hkey : decide (key = key) = true := decide_eq_true rfl
            rw [present_some, List.filter_cons, hkey, if_pos rfl, hrest]
            rfl
      · have hne : k ≠ key := by
          rintro rfl
          exact hfields.1 (List.mem_map.mpr ⟨_, hmem, rfl⟩)
        cases w with
        | none => exact ih hfields.2 hmem
        | some w =>
            rw [present_some, List.filter_cons, decide_eq_false hne]
            exact ih hfields.2 hmem

theorem field_present (hfields : (fields.map Prod.fst).Nodup) (hv : (key, v) ∈ fields) :
    field key (present fields) = some v := by
  rw [field, filter_present hfields hv]
  cases v with
  | none => rfl
  | some v => rfl

variable {α : Type} {read : Json → Option α}

theorem required_present (w : Json) (hfields : (fields.map Prod.fst).Nodup)
    (hw : (key, some w) ∈ fields) : required read key (present fields) = read w := by
  rw [required, field_present hfields hw]
  rfl

/-- An optional field is read as what is written for it, which is not `null`. -/
theorem optional_present (x : Option α) (write : α → Json)
    (hfields : (fields.map Prod.fst).Nodup) (hx : (key, x.map write) ∈ fields)
    (hwrite : ∀ a, write a ≠ .null) :
    optional read key (present fields) =
      x.elim (some none) fun a ↦ (read (write a)).map some := by
  rw [optional, field_present hfields hx, Option.bind_eq_bind, Option.bind_some]
  cases x with
  | none => rfl
  | some a =>
      cases h : write a with
      | null => exact absurd h (hwrite a)
      | bool b => simp [h]
      | number n => simp [h]
      | string s => simp [h]
      | array vs => simp [h]
      | object es => simp [h]

theorem mem_floats_present {q : ℚ} (h : q ∈ (object (present fields)).floats) :
    ∃ f ∈ fields, ∃ w, f.2 = some w ∧ q ∈ w.floats := by
  rw [floats] at h
  induction fields with
  | nil => cases h
  | cons f fields ih =>
      obtain ⟨k, w⟩ := f
      have hrest : q ∈ floatsIn (present fields) → ∃ f ∈ (k, w) :: fields, ∃ w', f.2 = some w' ∧
          q ∈ w'.floats := by
        intro h
        obtain ⟨f, hf, w', hw', hq⟩ := ih h
        exact ⟨f, List.mem_cons_of_mem _ hf, w', hw', hq⟩
      cases w with
      | none => exact hrest h
      | some w =>
          rw [present_some, floatsIn, List.mem_append] at h
          rcases h with h | h
          · exact ⟨_, List.mem_cons_self, w, rfl, h⟩
          · exact hrest h

end Present

/-! ## Scalars and lists -/

theorem asU64_ofNat {n : ℕ} (h : n < 2 ^ 64) : (ofNat n).asU64 = some n :=
  congrArg some (Nat.mod_eq_of_lt h)

/-- A float; what is no number is written as `null`. -/
def ofF64 : F64 → Json
  | .fin q => .number (.float q)
  | _ => .null

theorem asF64_ofF64 (x : F64) : (ofF64 x).asF64 = if x.isFinite then some x else none := by
  cases x <;> rfl

/-- `Number::from(i)` of a machine integer. -/
def ofI64 (i : ℤ) : Json :=
  if h : -2 ^ 63 ≤ i ∧ i < 0 then .number (.negInt i h) else .ofNat i.toNat

theorem exists_ofI64 {i : ℤ} (h : -2 ^ 63 ≤ i ∧ i < 2 ^ 63) :
    ∃ n, ofI64 i = .number n ∧ n.value = i := by
  rw [ofI64]
  split_ifs with hneg
  · exact ⟨_, rfl, rfl⟩
  · refine ⟨_, rfl, ?_⟩
    have hmod : i.toNat % 2 ^ 64 = i.toNat := Nat.mod_eq_of_lt (by omega)
    have hcast : (i.toNat : ℤ) = i := Int.toNat_of_nonneg (by omega)
    rw [Number.value, hmod, ← hcast]
    rfl

def ofStrings (ss : List String) : Json := .array (ss.map .string)

/-- A list of which each element is read. -/
def readList {α : Type} (read : Json → Option α) (v : Json) : Option (List α) :=
  v.asArray.bind fun vs ↦ vs.mapM read

theorem readList_ofStrings (ss : List String) : readList asStr (ofStrings ss) = some ss := by
  show (ss.map string).mapM asStr = some ss
  induction ss with
  | nil => rfl
  | cons s ss ih =>
      rw [List.map_cons, List.mapM_cons, ih]
      rfl

def ofFloats (xs : List F64) : Json := .array (xs.map ofF64)

/-- Floats are read back when all are finite. -/
theorem readList_ofFloats (xs : List F64) :
    readList asF64 (ofFloats xs) = if xs.all F64.isFinite then some xs else none := by
  show (xs.map ofF64).mapM asF64 = _
  induction xs with
  | nil => rfl
  | cons x xs ih =>
      rw [List.map_cons, List.mapM_cons, ih, asF64_ofF64, List.all_cons]
      cases x.isFinite <;> cases xs.all F64.isFinite <;> rfl

theorem mem_floats_ofF64 {x : F64} {q : ℚ} (h : q ∈ (ofF64 x).floats) : x = .fin q := by
  cases x with
  | fin p =>
      rw [ofF64, floats, List.mem_singleton] at h
      rw [h]
  | nan => cases h
  | negInf => cases h
  | posInf => cases h

end Json

/-! ## Text -/

/-- The text form of JSON values. -/
structure JsonCodec where
  write : Json → Text
  read : Text → Option Json

/-- What the library promises of a value, which is an object: finite numbers are read back,
control characters are escaped, and a brace comes first. -/
structure JsonCodec.Lawful (codec : JsonCodec) (v : Json) : Prop where
  readsBack : (∀ q ∈ v.floats, F64.IsValue q) → codec.read (codec.write v) = some v
  escapes : ∀ c ∈ codec.write v, 32 ≤ c.toNat
  brace : (codec.write v).head? = some '\x7b'

end VectorDbBenchmark
