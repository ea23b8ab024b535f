import VectorDbBenchmark.Weaviate.Filter

/-!
# gRPC filters

`where_json_to_grpc_filters` translates a where tree into the filter message of the gRPC
transport.  The message has the groups of the tree and its comparisons, with values of the
types their keys say, or there is no message.
-/

namespace VectorDbBenchmark.Weaviate

open Kit Redis BoolTree

/-! ## Messages -/

/-- `filters::Operator`, as far as it is used. -/
inductive Operator where
  | and
  | or
  | equal
  | notEqual
  | lessThan
  | lessThanEqual
  | greaterThan
  | greaterThanEqual
  | withinGeoRange
deriving DecidableEq, Repr

inductive TestValue where
  | valueText (s : String)
  | valueInt (i : ℤ)
  | valueNumber (x : F64)
  | valueBoolean (b : Bool)
  | valueGeo (latitude longitude distance : F64)
deriving DecidableEq, Repr

/-- The message, with the property that is its target. -/
inductive Filters where
  | mk (operator : Operator) (filters : List Filters) (target : Option String)
    (testValue : Option TestValue)

def groupOperator : String → Option Operator
  | "And" => some .and
  | "Or" => some .or
  | _ => none

def comparisonOperator : String → Option Operator
  | "Equal" => some .equal
  | "NotEqual" => some .notEqual
  | "LessThan" => some .lessThan
  | "LessThanEqual" => some .lessThanEqual
  | "GreaterThan" => some .greaterThan
  | "GreaterThanEqual" => some .greaterThanEqual
  | _ => none

/-- The value under the first of the typed keys. -/
def testValueOf (obj : List (String × Json)) : Option TestValue :=
  match Json.getEntry "valueText" obj with
  | some v => v.asStr.map .valueText
  | none =>
    match Json.getEntry "valueInt" obj with
    | some v => v.asI64.map .valueInt
    | none =>
      match Json.getEntry "valueNumber" obj with
      | some v => v.asF64.map .valueNumber
      | none => ((Json.getEntry "valueBoolean" obj).bind Json.asBool).map .valueBoolean

section Translation

-- `as f32`
variable (asF32 : F64 → F64)

def geoValueOf (obj : List (String × Json)) : Option TestValue := do
  let range ← Json.getEntry "valueGeoRange" obj
  let coords ← range.get "geoCoordinates"
  let lat ← (coords.get "latitude").bind Json.asF64
  let lon ← (coords.get "longitude").bind Json.asF64
  let dist ← ((range.get "distance").bind (Json.get "max")).bind Json.asF64
  some (.valueGeo (asF32 lat) (asF32 lon) (asF32 dist))

/-- A comparison of one property. -/
def leafFilters (operator : String) (obj : List (String × Json)) : Option Filters := do
  let path ← (Json.getEntry "path" obj).bind Json.asArray
  let field ← path.head?.bind Json.asStr
  if operator = "WithinGeoRange" then do
    let value ← geoValueOf asF32 obj
    some (.mk .withinGeoRange [] (some field) (some value))
  else do
    let op ← comparisonOperator operator
    let value ← testValueOf obj
    some (.mk op [] (some field) (some value))

mutual

def whereJsonToGrpcFilters : Json → Option Filters
  | .object obj => do
    let operator ← (Json.getEntry "operator" obj).bind Json.asStr
    match childrenAt obj with
    | some children => do
      let op ← groupOperator operator
      let fs ← children
      some (.mk op fs none none)
    | none => leafFilters asF32 operator obj
  | _ => none

/-- The messages of the array under `operands`, if there is one. -/
def childrenAt : List (String × Json) → Option (Option (List Filters))
  | [] => none
  | (k, v) :: es => if k = "operands" then childrenIn v else childrenAt es

def childrenIn : Json → Option (Option (List Filters))
  | .array operands => some (childrenOf operands)
  | _ => none

def childrenOf : List Json → Option (List Filters)
  | [] => some []
  | operand :: operands => do
    let f ← whereJsonToGrpcFilters operand
    let fs ← childrenOf operands
    some (f :: fs)

end

end Translation

/-! ## What a message says -/

/-- A property compared with a value of a type. -/
structure Comparison where
  property : String
  operator : Operator
  value : TestValue
deriving DecidableEq, Repr

mutual

/-- The tree of comparisons that a message is. -/
def readMessage : Filters → Option (BoolTree Comparison)
  | .mk .and fs none none => (readMessages fs).map .all
  | .mk .or fs none none => (readMessages fs).map .any
  | .mk op [] (some property) (some value) =>
    if op = .and || op = .or then none else some (.leaf ⟨property, op, value⟩)
  | _ => none

def readMessages : List Filters → Option (List (BoolTree Comparison))
  | [] => some []
  | f :: fs => do
    let t ← readMessage f
    let ts ← readMessages fs
    some (t :: ts)

end

/-- The value under a typed key. -/
def typedValue (key : String) (v : Json) : Option TestValue :=
  match key with
  | "valueText" => v.asStr.map .valueText
  | "valueInt" => v.asI64.map .valueInt
  | "valueNumber" => v.asF64.map .valueNumber
  | "valueBoolean" => v.asBool.map .valueBoolean
  | _ => none

/-- What a node of a where tree says, if its value has the type its key says. -/
def Node.comparison (n : Node) : Option Comparison := do
  let op ← comparisonOperator n.operator
  let value ← typedValue n.key n.value
  some ⟨n.field, op, value⟩

/-- The groups of a where tree, over the comparisons its nodes are. -/
abbrev Carries : BoolTree Node → BoolTree Comparison → Prop :=
  Aligned fun n u ↦ ∃ c, n.comparison = some c ∧ u = .leaf c

/-! ## Nodes that are built -/

/-- A node with a comparison and a typed key. -/
structure Node.Known (n : Node) : Prop where
  operator : (comparisonOperator n.operator).isSome = true
  key : n.key ∈ ["valueText", "valueInt", "valueNumber", "valueBoolean"]

theorem valueKey_mem (v : Json) :
    valueKey v ∈ ["valueText", "valueInt", "valueNumber", "valueBoolean"] := by
  cases v with
  | number n =>
      rw [valueKey]
      split_ifs <;> simp
  | null => simp [valueKey]
  | bool _ => simp [valueKey]
  | string _ => simp [valueKey]
  | array _ => simp [valueKey]
  | object _ => simp [valueKey]

theorem boundKey_mem (v : Json) :
    boundKey v ∈ ["valueText", "valueInt", "valueNumber", "valueBoolean"] := by
  cases v with
  | number n =>
      rw [boundKey]
      split_ifs <;> simp
  | null => simp [boundKey]
  | bool _ => simp [boundKey]
  | string _ => simp [boundKey]
  | array _ => simp [boundKey]
  | object _ => simp [boundKey]

theorem known_text (field text : String) : Node.Known ⟨field, "Equal", "valueText", .string text⟩ :=
  ⟨rfl, by simp⟩

theorem known_value (field : String) (v : Json) : Node.Known ⟨field, "Equal", valueKey v, v⟩ :=
  ⟨rfl, valueKey_mem v⟩

theorem operator_of_mem_givenBounds {obj : List (String × Json)} {b : String × Json}
    (h : b ∈ givenBounds obj) : (comparisonOperator b.1).isSome = true := by
  obtain ⟨k, hk, hb⟩ := List.mem_filterMap.mp h
  have hop : (comparisonOperator k.2).isSome = true := by
    have hall : ∀ k ∈ boundOps, (comparisonOperator k.2).isSome = true := by
      simp [boundOps, comparisonOperator]
    exact hall k hk
  split at hb
  · cases hb
  · cases hb
  · cases hb
    exact hop

theorem known_of_mem_leafNodes {l : Leaf} {n : Node} (h : n ∈ leafNodes l) : n.Known := by
  unfold leafNodes at h
  split at h
  · split at h
    · rw [List.mem_cons, List.mem_singleton] at h
      rcases h with rfl | rfl
      · exact known_text _ _
      · exact ⟨rfl, by simp⟩
    · obtain ⟨v, -, rfl⟩ := List.mem_map.mp h
      exact known_value _ v
    · split at h
      · rw [List.mem_singleton] at h
        rw [h]
        exact known_text _ _
      · split at h
        · split_ifs at h
          · rw [List.mem_singleton] at h
            rw [h]
            exact known_value _ _
          · cases h
        · cases h
  · obtain ⟨b, hb, rfl⟩ := List.mem_map.mp h
    refine ⟨?_, boundKey_mem b.2⟩
    rcases hobj : l.criteria.asObject with _ | obj
    · rw [hobj] at hb
      cases hb
    · rw [hobj] at hb
      exact operator_of_mem_givenBounds hb
  · cases h

/-! ## The translation -/

section Carried

variable (asF32 : F64 → F64)

theorem readMessage_comparison {op : Operator} {operator : String}
    (h : comparisonOperator operator = some op) (property : String) (value : TestValue) :
    readMessage (.mk op [] (some property) (some value)) = some (.leaf ⟨property, op, value⟩) := by
  unfold comparisonOperator at h
  split at h <;> cases h <;> rfl

theorem testValueOf_json {field operator key : String} {v : Json}
    (hkey : key ∈ ["valueText", "valueInt", "valueNumber", "valueBoolean"]) :
    testValueOf [("path", .array [.string field]), ("operator", .string operator), (key, v)] =
      typedValue key v := by
  simp only [List.mem_cons, List.not_mem_nil, or_false] at hkey
  rcases hkey with rfl | rfl | rfl | rfl
  · simp [testValueOf, Json.getEntry, typedValue]
  · simp [testValueOf, Json.getEntry, typedValue]
  · simp [testValueOf, Json.getEntry, typedValue]
  · simp [testValueOf, Json.getEntry, typedValue]

/-- The message of a node is its comparison. -/
theorem whereJsonToGrpcFilters_node {n : Node} (h : n.Known) :
    whereJsonToGrpcFilters asF32 n.json =
      n.comparison.map fun c ↦ .mk c.operator [] (some c.property) (some c.value) := by
  obtain ⟨field, operator, key, v⟩ := n
  obtain ⟨hop, hkey⟩ := h
  obtain ⟨op, hop⟩ := Option.isSome_iff_exists.mp hop
  have hgeo : operator ≠ "WithinGeoRange" := by
    rintro rfl
    cases hop
  have hchildren : childrenAt asF32
      [("path", .array [.string field]), ("operator", .string operator), (key, v)] = none := by
    have hoperands : key ≠ "operands" := by
      rintro rfl
      simp at hkey
    simp [childrenAt, hoperands]
  have hmessage : whereJsonToGrpcFilters asF32 (comparisonJson field operator key v) =
      leafFilters asF32 operator
        [("path", .array [.string field]), ("operator", .string operator), (key, v)] := by
    rw [comparisonJson, whereJsonToGrpcFilters, hchildren]
    simp [Json.getEntry, Json.asStr]
  refine hmessage.trans ?_
  simp only [leafFilters, testValueOf_json hkey, Json.getEntry, if_true, Option.bind_some,
    Json.asArray, List.head?_cons, Json.asStr, Option.bind_eq_bind, if_neg hgeo, Node.comparison]
  rw [hop]
  cases typedValue key v <;> rfl

theorem whereJsonToGrpcFilters_group {operator : String} {op : Operator}
    (hop : groupOperator operator = some op) (ds : List Json) :
    whereJsonToGrpcFilters asF32 (groupJson operator ds) =
      (childrenOf asF32 ds).map fun fs ↦ .mk op fs none none := by
  have hchildren : childrenAt asF32 [("operator", .string operator), ("operands", .array ds)] =
      some (childrenOf asF32 ds) := by
    simp [childrenAt, childrenIn]
  rw [groupJson, whereJsonToGrpcFilters, hchildren]
  simp only [Json.getEntry, if_true, Option.bind_some, Json.asStr, Option.bind_eq_bind, hop]
  cases childrenOf asF32 ds <;> rfl

/-- There is a message that carries the tree, or there is none and a node is no comparison. -/
def Translates (t : BoolTree Node) : Prop :=
  (∃ f u, whereJsonToGrpcFilters asF32 (render t) = some f ∧ readMessage f = some u ∧
      Carries t u ∧ ∀ n ∈ t.leaves, n.comparison.isSome = true) ∨
    whereJsonToGrpcFilters asF32 (render t) = none ∧ ∃ n ∈ t.leaves, n.comparison = none

variable {asF32}

theorem translates_each {ts : List (BoolTree Node)} (h : ∀ t ∈ ts, Translates asF32 t) :
    (∃ fs us, childrenOf asF32 (ts.map render) = some fs ∧ readMessages fs = some us ∧
        List.Forall₂ Carries ts us ∧
        ∀ n ∈ ts.flatMap BoolTree.leaves, n.comparison.isSome = true) ∨
      childrenOf asF32 (ts.map render) = none ∧
        ∃ n ∈ ts.flatMap BoolTree.leaves, n.comparison = none := by
  induction ts with
  | nil => exact .inl ⟨[], [], rfl, rfl, .nil, List.forall_mem_nil _⟩
  | cons t ts ih =>
      rw [List.forall_mem_cons] at h
      rw [List.map_cons, childrenOf, List.flatMap_cons]
      rcases h.1 with ⟨f, u, hf, hu, htu, hleaves⟩ | ⟨hnone, n, hn, hcomparison⟩
      · rcases ih h.2 with ⟨fs, us, hfs, hus, htus, hleaves'⟩ | ⟨hnone, n, hn, hcomparison⟩
        · refine .inl ⟨f :: fs, u :: us, ?_, ?_, .cons htu htus, ?_⟩
          · rw [hf, hfs]
            rfl
          · rw [readMessages, hu, hus]
            rfl
          · rw [List.forall_mem_append]
            exact ⟨hleaves, hleaves'⟩
        · refine .inr ⟨?_, n, List.mem_append_right _ hn, hcomparison⟩
          rw [hf, hnone]
          rfl
      · refine .inr ⟨?_, n, List.mem_append_left _ hn, hcomparison⟩
        rw [hnone]
        rfl

variable (asF32) in
theorem translates {t : BoolTree Node} (h : ∀ n ∈ t.leaves, n.Known) : Translates asF32 t := by
  induction t with
  | leaf n =>
      rw [leaves_leaf, List.forall_mem_singleton] at h
      rw [Translates, leaves_leaf, render, whereJsonToGrpcFilters_node asF32 h]
      cases hn : n.comparison with
      | none => exact .inr ⟨rfl, n, List.mem_singleton_self n, hn⟩
      | some c =>
          obtain ⟨op, hop, hc⟩ := Option.bind_eq_some_iff.mp hn
          obtain ⟨v, hv, hc⟩ := Option.bind_eq_some_iff.mp hc
          cases hc
          refine .inl ⟨_, .leaf ⟨n.field, op, v⟩, rfl, ?_, .leaf ⟨_, hn, rfl⟩, ?_⟩
          · exact readMessage_comparison hop n.field v
          · rw [List.forall_mem_singleton, hn]
            rfl
  | all ts ih =>
      rw [leaves_all, List.forall_mem_flatMap] at h
      rw [Translates, leaves_all, render, renderEach_eq,
        whereJsonToGrpcFilters_group asF32 (rfl : groupOperator "And" = some .and)]
      rcases translates_each fun t ht ↦ ih t ht (h t ht) with
        ⟨fs, us, hfs, hus, htus, hleaves⟩ | ⟨hnone, hn⟩
      · refine .inl ⟨_, .all us, by rw [hfs]; rfl, ?_, .all htus, hleaves⟩
        rw [readMessage, hus]
        rfl
      · exact .inr ⟨by rw [hnone]; rfl, hn⟩
  | any ts ih =>
      rw [leaves_any, List.forall_mem_flatMap] at h
      rw [Translates, leaves_any, render, renderEach_eq,
        whereJsonToGrpcFilters_group asF32 (rfl : groupOperator "Or" = some .or)]
      rcases translates_each fun t ht ↦ ih t ht (h t ht) with
        ⟨fs, us, hfs, hus, htus, hleaves⟩ | ⟨hnone, hn⟩
      · refine .inl ⟨_, .any us, by rw [hfs]; rfl, ?_, .any htus, hleaves⟩
        rw [readMessage, hus]
        rfl
      · exact .inr ⟨by rw [hnone]; rfl, hn⟩

end Carried

end VectorDbBenchmark.Weaviate
