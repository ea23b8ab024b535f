import VectorDbBenchmark.ConditionParts
import VectorDbBenchmark.JsonFields

/-!
# Where trees

`parse_weaviate_conditions` builds the `where` filter of a conditions value as a JSON tree
of `And` and `Or` nodes over comparisons of one property with one value.
-/

namespace VectorDbBenchmark.Weaviate

open Kit Redis ConditionTree

/-! ## The filter builder -/

/-- `{"operator": operator, "operands": operands}`. -/
def groupJson (operator : String) (operands : List Json) : Json :=
  .object [("operator", .string operator), ("operands", .array operands)]

/-- `{"path": [field], "operator": operator, key: value}`. -/
def comparisonJson (field operator key : String) (value : Json) : Json :=
  .object [("path", .array [.string field]), ("operator", .string operator), (key, value)]

/-- Several filters in a group, a single one as it is. -/
def combine (operator : String) : List Json → Option Json
  | [] => none
  | [f] => some f
  | fs => some (groupJson operator fs)

/-- `value_key` of exact matches. -/
def valueKey : Json → String
  | .string _ => "valueText"
  | .number n => if n.asI64.isSome then "valueInt" else "valueNumber"
  | .bool _ => "valueBoolean"
  | _ => "valueText"

/-- `value_key` of bounds. -/
def boundKey : Json → String
  | .number n => if n.asI64.isSome then "valueInt" else "valueNumber"
  | .string _ => "valueText"
  | _ => "valueNumber"

/-- `NEVER`. -/
def never : String := "__match_any_never_match__"

def isScalarValue : Json → Bool
  | .string _ | .number _ | .bool _ => true
  | _ => false

def buildMatch (field : String) (criteria : Json) : Option Json :=
  match (criteria.get "any").bind Json.asArray with
  | some any =>
    match any.map fun v ↦ comparisonJson field "Equal" (valueKey v) v with
    | [] =>
      some (groupJson "And" [comparisonJson field "Equal" "valueText" (.string never),
        comparisonJson field "NotEqual" "valueText" (.string never)])
    | [f] => some f
    | operands => some (groupJson "Or" operands)
  | none =>
    match (criteria.get "text").bind Json.asStr with
    | some text => some (comparisonJson field "Equal" "valueText" (.string text))
    | none =>
      match criteria.get "value" with
      | some value =>
        if isScalarValue value then some (comparisonJson field "Equal" (valueKey value) value)
        else none
      | none => none

def boundOps : List (String × String) :=
  [("lt", "LessThan"), ("gt", "GreaterThan"), ("lte", "LessThanEqual"),
    ("gte", "GreaterThanEqual")]

/-- The bounds that are there and are not null. -/
def givenBounds (obj : List (String × Json)) : List (String × Json) :=
  boundOps.filterMap fun k ↦
    match Json.getEntry k.1 obj with
    | none | some .null => none
    | some v => some (k.2, v)

def buildRange (field : String) (criteria : Json) : Option Json :=
  match criteria.asObject with
  | none => none
  | some obj =>
    combine "And" ((givenBounds obj).map fun b ↦ comparisonJson field b.1 (boundKey b.2) b.2)

def buildGeo (field : String) (criteria : Json) : Option Json := do
  let lat ← (criteria.get "lat").bind Json.asF64
  let lon ← (criteria.get "lon").bind Json.asF64
  let radius := ((criteria.get "radius").bind Json.asF64).getD (.fin 1000)
  some (.object [("path", .array [.string field]), ("operator", .string "WithinGeoRange"),
    ("valueGeoRange", .object
      [("geoCoordinates", .object [("latitude", .ofF64 lat), ("longitude", .ofF64 lon)]),
        ("distance", .object [("max", .ofF64 radius)])])])

def buildWeaviateFilter (field conditionType : String) (criteria : Json) : Option Json :=
  match conditionType with
  | "match" => buildMatch field criteria
  | "range" => buildRange field criteria
  | "geo" => buildGeo field criteria
  | _ => none

/-- The filter of a group from what is built of its arrays. -/
def groupFilter (ands ors : Option (List Json)) : Option Json :=
  combine "And" ((combine "And" (ands.getD [])).toList ++ (combine "Or" (ors.getD [])).toList)

/-- `build_weaviate_entry_filter`. -/
def weaviateBuilder : GroupBuilder Id Json where
  isGroup obj := containsKey "and" obj || containsKey "or" obj
  other _ := []
  leaf obj :=
    (combine "And" ((fieldLeaves obj).filterMap fun l ↦
      buildWeaviateFilter l.field l.op l.criteria)).toList
  enter _ _ := ⟨⟩
  leave _ _ := ⟨⟩
  group _ ands ors := (groupFilter ands ors).toList

def parseWeaviateConditions (conditions : Json) : Option Json :=
  match conditions.asObject with
  | none => none
  | some obj =>
    if obj.isEmpty then none
    else groupFilter (weaviateBuilder.arrayAt "and" obj) (weaviateBuilder.arrayAt "or" obj)

/-! ## Where trees -/

/-- A comparison in a where tree, and the key its value stands under. -/
structure Node where
  field : String
  operator : String
  key : String
  value : Json

def Node.json (n : Node) : Json := comparisonJson n.field n.operator n.key n.value

mutual

/-- The JSON of a where tree. -/
def render : BoolTree Node → Json
  | .leaf n => n.json
  | .all ts => groupJson "And" (renderEach ts)
  | .any ts => groupJson "Or" (renderEach ts)

def renderEach : List (BoolTree Node) → List Json
  | [] => []
  | t :: ts => render t :: renderEach ts

end

theorem renderEach_eq (ts : List (BoolTree Node)) : renderEach ts = ts.map render := by
  induction ts with
  | nil => rfl
  | cons t ts ih => rw [renderEach, List.map_cons, ih]

/-- The comparisons a leaf asks for; a list without values asks for what nothing is. -/
def leafNodes (l : Leaf) : List Node :=
  match l.op with
  | "match" =>
    match (l.criteria.get "any").bind Json.asArray with
    | some [] => [⟨l.field, "Equal", "valueText", .string never⟩,
        ⟨l.field, "NotEqual", "valueText", .string never⟩]
    | some any => any.map fun v ↦ ⟨l.field, "Equal", valueKey v, v⟩
    | none =>
      match (l.criteria.get "text").bind Json.asStr with
      | some text => [⟨l.field, "Equal", "valueText", .string text⟩]
      | none =>
        match l.criteria.get "value" with
        | some v => if isScalarValue v then [⟨l.field, "Equal", valueKey v, v⟩] else []
        | none => []
  | "range" =>
    ((l.criteria.asObject).elim [] givenBounds).map fun b ↦ ⟨l.field, b.1, boundKey b.2, b.2⟩
  | _ => []

/-- The trees are rendered as the filters and have these comparisons. -/
def RenderedAs (ds : List Json) (ns : List Node) : Prop :=
  ∃ ts : List (BoolTree Node), ds = ts.map render ∧ ts.flatMap BoolTree.leaves = ns

theorem RenderedAs.append {ds es : List Json} {ns ms : List Node} (h : RenderedAs ds ns)
    (h' : RenderedAs es ms) : RenderedAs (ds ++ es) (ns ++ ms) := by
  obtain ⟨ts, rfl, rfl⟩ := h
  obtain ⟨us, rfl, rfl⟩ := h'
  exact ⟨ts ++ us, (List.map_append ..).symm, List.flatMap_append⟩

theorem renderedAs_leaf (n : Node) : RenderedAs [n.json] [n] := by
  refine ⟨[.leaf n], rfl, ?_⟩
  rw [List.flatMap_singleton, BoolTree.leaves_leaf]

theorem renderedAs_map {α : Type} (f : α → Node) (xs : List α) :
    RenderedAs (xs.map fun x ↦ (f x).json) (xs.map f) := by
  refine ⟨xs.map fun x ↦ .leaf (f x), ?_, ?_⟩
  · rw [List.map_map]
    rfl
  · rw [List.flatMap_map]
    simp only [BoolTree.leaves_leaf]
    exact List.flatMap_pure_eq_map f xs

/-- The operator of a group. -/
inductive IsGroupOperator : String → (List (BoolTree Node) → BoolTree Node) → Prop
  | and : IsGroupOperator "And" .all
  | or : IsGroupOperator "Or" .any

theorem renderedAs_group {operator : String} {mk : List (BoolTree Node) → BoolTree Node}
    (hop : IsGroupOperator operator mk) {ds : List Json} {ns : List Node}
    (h : RenderedAs ds ns) : RenderedAs [groupJson operator ds] ns := by
  obtain ⟨ts, rfl, rfl⟩ := h
  cases hop with
  | and =>
      refine ⟨[.all ts], ?_, ?_⟩
      · rw [List.map_singleton, render, renderEach_eq]
      · rw [List.flatMap_singleton, BoolTree.leaves_all]
  | or =>
      refine ⟨[.any ts], ?_, ?_⟩
      · rw [List.map_singleton, render, renderEach_eq]
      · rw [List.flatMap_singleton, BoolTree.leaves_any]

theorem renderedAs_combine {operator : String} {mk : List (BoolTree Node) → BoolTree Node}
    (hop : IsGroupOperator operator mk) {ds : List Json} {ns : List Node}
    (h : RenderedAs ds ns) : RenderedAs (combine operator ds).toList ns := by
  rcases ds with _ | ⟨d, _ | ⟨d', ds⟩⟩
  · exact h
  · exact h
  · exact renderedAs_group hop h

theorem renderedAs_groupFilter {ands ors : Option (List Json)} {ns ms : List Node}
    (hand : RenderedAs (ands.getD []) ns) (hor : RenderedAs (ors.getD []) ms) :
    RenderedAs (groupFilter ands ors).toList (ns ++ ms) :=
  renderedAs_combine .and
    ((renderedAs_combine .and hand).append (renderedAs_combine .or hor))

theorem renderedAs_buildMatch (field : String) (criteria : Json) :
    RenderedAs (buildMatch field criteria).toList (leafNodes ⟨field, "match", criteria⟩) := by
  simp only [leafNodes, buildMatch]
  cases (criteria.get "any").bind Json.asArray with
  | some any =>
      rcases any with _ | ⟨v, _ | ⟨v', vs⟩⟩
      · exact renderedAs_group .and (renderedAs_map id
          [⟨field, "Equal", "valueText", .string never⟩,
            ⟨field, "NotEqual", "valueText", .string never⟩])
      · exact renderedAs_leaf ⟨field, "Equal", valueKey v, v⟩
      · exact renderedAs_group .or
          (renderedAs_map (fun v ↦ ⟨field, "Equal", valueKey v, v⟩) (v :: v' :: vs))
  | none =>
      cases (criteria.get "text").bind Json.asStr with
      | some text => exact renderedAs_leaf ⟨field, "Equal", "valueText", .string text⟩
      | none =>
          cases criteria.get "value" with
          | none => exact ⟨[], rfl, rfl⟩
          | some v =>
              dsimp only
              split_ifs
              · exact renderedAs_leaf ⟨field, "Equal", valueKey v, v⟩
              · exact ⟨[], rfl, rfl⟩

theorem renderedAs_buildRange (field : String) (criteria : Json) :
    RenderedAs (buildRange field criteria).toList (leafNodes ⟨field, "range", criteria⟩) := by
  simp only [leafNodes, buildRange]
  cases criteria.asObject with
  | none => exact ⟨[], rfl, rfl⟩
  | some obj =>
      exact renderedAs_combine .and (renderedAs_map
        (fun b : String × Json ↦ ⟨field, b.1, boundKey b.2, b.2⟩) (givenBounds obj))

/-- The filter of a leaf compares what the leaf asks for. -/
theorem renderedAs_buildWeaviateFilter {l : Leaf} (h : l.op ≠ "geo") :
    RenderedAs (buildWeaviateFilter l.field l.op l.criteria).toList (leafNodes l) := by
  obtain ⟨field, op, criteria⟩ := l
  by_cases hmatch : op = "match"
  · subst hmatch
    exact renderedAs_buildMatch field criteria
  · by_cases hrange : op = "range"
    · subst hrange
      exact renderedAs_buildRange field criteria
    · simp only [buildWeaviateFilter, leafNodes]
      exact ⟨[], rfl, rfl⟩

theorem leafNodes_stray (field : String) (v : Json) : leafNodes ⟨field, "", v⟩ = [] := rfl

theorem renderedAs_leaves {ls : List Leaf} (h : ∀ l ∈ ls, l.op ≠ "geo") :
    RenderedAs (ls.filterMap fun l ↦ buildWeaviateFilter l.field l.op l.criteria)
      (ls.flatMap leafNodes) := by
  induction ls with
  | nil => exact ⟨[], rfl, rfl⟩
  | cons l ls ih =>
      rw [List.forall_mem_cons] at h
      have hcons : (l :: ls).filterMap (fun l ↦ buildWeaviateFilter l.field l.op l.criteria) =
          (buildWeaviateFilter l.field l.op l.criteria).toList ++
            ls.filterMap fun l ↦ buildWeaviateFilter l.field l.op l.criteria := by
        rw [List.filterMap_cons]
        cases buildWeaviateFilter l.field l.op l.criteria <;> rfl
      rw [hcons, List.flatMap_cons]
      exact (renderedAs_buildWeaviateFilter h.1).append (ih h.2)

/-- A field that is no object asks for nothing. -/
theorem flatMap_fieldParts (obj : List (String × Json)) :
    (fieldParts obj).flatMap leafNodes = (fieldLeaves obj).flatMap leafNodes := by
  rw [fieldParts, fieldLeaves, List.flatMap_assoc, List.flatMap_assoc]
  refine congrArg obj.flatMap (funext fun e ↦ ?_)
  obtain ⟨field, v⟩ := e
  cases v with
  | object ops => rfl
  | null => rfl
  | bool _ => rfl
  | number _ => rfl
  | string _ => rfl
  | array _ => rfl

theorem fieldLeaves_subset (obj : List (String × Json)) : fieldLeaves obj ⊆ fieldParts obj := by
  intro l hl
  rw [fieldLeaves, List.mem_flatMap] at hl
  obtain ⟨⟨field, v⟩, he, hl⟩ := hl
  refine List.mem_flatMap.mpr ⟨(field, v), he, ?_⟩
  cases v with
  | object ops => exact hl
  | null => cases hl
  | bool _ => cases hl
  | number _ => cases hl
  | string _ => cases hl
  | array _ => cases hl

theorem flatMap_strays (obj : List (String × Json)) :
    ((strays obj).flatMap BoolTree.leaves).flatMap leafNodes = [] := by
  rw [List.flatMap_eq_nil_iff]
  intro l hl
  obtain ⟨t, ht, hl⟩ := List.mem_flatMap.mp hl
  obtain ⟨e, -, rfl⟩ := List.mem_map.mp ht
  rw [stray, BoolTree.leaves_leaf, List.mem_singleton] at hl
  rw [hl, leafNodes_stray]

/-- What is built of a value compares what its leaves ask for. -/
theorem simulates_weaviateBuilder :
    GroupBuilder.Simulates weaviateBuilder treeBuilder
      (fun ds ts ↦ (∀ l ∈ ts.run.flatMap BoolTree.leaves, l.op ≠ "geo") →
        RenderedAs ds.run ((ts.run.flatMap BoolTree.leaves).flatMap leafNodes))
      (fun ds ts ↦ (∀ l ∈ (ts.run.getD []).flatMap BoolTree.leaves, l.op ≠ "geo") →
        RenderedAs (ds.run.getD [])
          (((ts.run.getD []).flatMap BoolTree.leaves).flatMap leafNodes)) where
  isGroup _ := rfl
  other v _ := by
    have hleaves : (treeBuilder.other v).run.flatMap BoolTree.leaves = [⟨"", "", v⟩] := by
      show ([stray "" v].flatMap BoolTree.leaves) = _
      rw [List.flatMap_singleton, stray, BoolTree.leaves_leaf]
    rw [hleaves]
    exact ⟨[], rfl, rfl⟩
  leaf obj hP := by
    have hleaves : (treeBuilder.leaf obj).run.flatMap BoolTree.leaves = fieldParts obj := by
      show (if (fieldParts obj).isEmpty then [] else
        [BoolTree.all ((fieldParts obj).map .leaf)]).flatMap BoolTree.leaves = _
      split_ifs with hempty
      · rw [List.isEmpty_iff.mp hempty, List.flatMap_nil]
      · rw [List.flatMap_singleton, BoolTree.leaves_all, List.flatMap_map]
        simp
    rw [hleaves] at hP ⊢
    rw [flatMap_fieldParts]
    exact renderedAs_combine .and
      (renderedAs_leaves fun l hl ↦ hP l (fieldLeaves_subset obj hl))
  nil _ := ⟨[], rfl, rfl⟩
  cons {x x' y y'} h h' hP := by
    have happ : ∀ l ∈ (y.run ++ y'.run).flatMap BoolTree.leaves, l.op ≠ "geo" := hP
    show RenderedAs (x.run ++ x'.run)
      (((y.run ++ y'.run).flatMap BoolTree.leaves).flatMap leafNodes)
    rw [List.flatMap_append, List.forall_mem_append] at happ
    rw [List.flatMap_append, List.flatMap_append]
    exact (h happ.1).append (h' happ.2)
  absent _ := ⟨[], rfl, rfl⟩
  array h hP := h hP
  notArray _ _ := ⟨[], rfl, rfl⟩
  group {obj x x' y y'} h h' hP := by
    have hleaves : (treeBuilder.group obj y.run y'.run).run.flatMap BoolTree.leaves =
        (y.run.getD []).flatMap BoolTree.leaves ++ (y'.run.getD []).flatMap BoolTree.leaves ++
          (strays obj).flatMap BoolTree.leaves := by
      show (groupParts (armParts .all y.run ++ armParts .any y'.run ++ strays obj)).flatMap _ = _
      rw [leaves_groupParts, List.flatMap_append, List.flatMap_append,
        leaves_armParts BoolTree.leaves_all, leaves_armParts BoolTree.leaves_any]
    have hparts : ∀ l ∈ (treeBuilder.group obj y.run y'.run).run.flatMap BoolTree.leaves,
        l.op ≠ "geo" := hP
    show RenderedAs (groupFilter x.run x'.run).toList
      (((treeBuilder.group obj y.run y'.run).run.flatMap BoolTree.leaves).flatMap leafNodes)
    rw [hleaves, List.forall_mem_append, List.forall_mem_append] at hparts
    rw [hleaves, List.flatMap_append, flatMap_strays, List.append_nil, List.flatMap_append]
    exact renderedAs_groupFilter (h hparts.1.1) (h' hparts.1.2)

/-- The leaves of a conditions value. -/
def conditionLeaves (conditions : Json) : List Leaf :=
  (treeOf conditions).elim [] BoolTree.leaves

theorem conditionLeaves_object (obj : List (String × Json)) :
    conditionLeaves (.object obj) = (treeBuilder.group obj (treeBuilder.arrayAt "and" obj)
      (treeBuilder.arrayAt "or" obj)).run.flatMap BoolTree.leaves := by
  cases ht : treeOf (.object obj) with
  | some t =>
      obtain ⟨obj', hobj, -, hgroup⟩ := exists_object_of_treeOf ht
      cases hobj
      rw [conditionLeaves, ht, hgroup, List.flatMap_singleton]
      rfl
  | none =>
      have hnil := List.head?_eq_none_iff.mp ht
      rw [conditionLeaves, ht, hnil]
      rfl

/-- The filter of a conditions value is a where tree with what its leaves ask for. -/
theorem exists_where {conditions w : Json} (hw : parseWeaviateConditions conditions = some w)
    (hgeo : ∀ l ∈ conditionLeaves conditions, l.op ≠ "geo") :
    ∃ t : BoolTree Node, w = render t ∧
      t.leaves = (conditionLeaves conditions).flatMap leafNodes := by
  cases conditions with
  | object obj =>
      have hfilter : groupFilter (weaviateBuilder.arrayAt "and" obj)
          (weaviateBuilder.arrayAt "or" obj) = some w := by
        rw [parseWeaviateConditions, Json.asObject] at hw
        dsimp only at hw
        split_ifs at hw
        exact hw
      rw [conditionLeaves_object] at hgeo ⊢
      have hrendered := simulates_weaviateBuilder.group
        (simulates_weaviateBuilder.arrayAt "and" obj)
        (simulates_weaviateBuilder.arrayAt "or" obj) hgeo
      have hsingle : RenderedAs [w] _ :=
        (congrArg (fun o : Option Json ↦ RenderedAs o.toList _) hfilter).mp hrendered
      obtain ⟨ts, hts, hleaves⟩ := hsingle
      obtain ⟨t, rfl, rfl⟩ := List.map_eq_singleton_iff.mp hts.symm
      exact ⟨t, rfl, (List.flatMap_singleton _ _).symm.trans hleaves⟩
  | null => cases hw
  | bool _ => cases hw
  | number _ => cases hw
  | string _ => cases hw
  | array _ => cases hw

end VectorDbBenchmark.Weaviate
