import VectorDbBenchmark.Weaviate.Graphql
import VectorDbBenchmark.Weaviate.Grpc

/-!
# The two transports

A where tree is sent as a GraphQL literal and as a gRPC message.  The message has the groups
and the comparisons of the tree or there is none; the literal denotes the tree exactly if no
text in it holds a line terminator and the keys of objects among its values are names.
-/

namespace VectorDbBenchmark.Weaviate

open Kit Redis BoolTree

/-- Both transports send the tree: the literal denotes it, a message carries it, and there is
no message exactly if a node has no comparison. -/
structure SendsSame (numberText : Number → Text) (asF32 : F64 → F64) (w : Json)
    (t : BoolTree Node) : Prop where
  renders : w = render t
  literal : Literal.parse graphql (jsonToGraphqlLiteral numberText w) = some (literal w)
  message : ∀ f, whereJsonToGrpcFilters asF32 w = some f →
    ∃ u, readMessage f = some u ∧ Carries t u
  refused : whereJsonToGrpcFilters asF32 w = none ↔ ∃ n ∈ t.leaves, n.comparison = none

/-- The property and the value of a node can be written in a literal. -/
def Node.Writable (n : Node) : Prop :=
  isWritable (.string n.field) = true ∧ isWritable n.value = true

/-! ## Writing where trees -/

theorem isWritableEach_eq (vs : List Json) : isWritableEach vs = vs.all isWritable := by
  induction vs with
  | nil => rfl
  | cons v vs ih => rw [isWritableEach, List.all_cons, ih]

theorem isWritable_group {operator : String} (h : isEnumName operator.toList = true)
    (ds : List Json) : isWritable (groupJson operator ds) = ds.all isWritable := by
  have hoperator : isName "operator".toList = true := by decide
  have hoperands : isName "operands".toList = true := by decide
  rw [groupJson, isWritable, isWritableIn, if_pos rfl, Json.asStr, Option.getD_some, h, hoperator,
    isWritableIn, hoperands, if_neg (by decide), isWritable, isWritableEach_eq, isWritableIn,
    Bool.and_true, Bool.and_true, Bool.true_and, Bool.true_and]

theorem isEnumName_of_comparisonOperator {operator : String}
    (h : (comparisonOperator operator).isSome = true) : isEnumName operator.toList = true := by
  unfold comparisonOperator at h
  split at h
  · decide
  · decide
  · decide
  · decide
  · decide
  · decide
  · cases h

theorem isName_of_mem_keys {key : String}
    (h : key ∈ ["valueText", "valueInt", "valueNumber", "valueBoolean"]) :
    isName key.toList = true ∧ key ≠ "operator" := by
  simp only [List.mem_cons, List.not_mem_nil, or_false] at h
  rcases h with rfl | rfl | rfl | rfl
  · exact ⟨by decide, by decide⟩
  · exact ⟨by decide, by decide⟩
  · exact ⟨by decide, by decide⟩
  · exact ⟨by decide, by decide⟩

theorem isWritable_node {n : Node} (h : n.Known) : isWritable n.json = true ↔ n.Writable := by
  have hpath : isName "path".toList = true := by decide
  have hoperator : isName "operator".toList = true := by decide
  obtain ⟨hkey, hne⟩ := isName_of_mem_keys h.key
  rw [Node.json, comparisonJson, isWritable, isWritableIn, hpath, if_neg (by decide), isWritable,
    isWritableEach, isWritableEach, isWritableIn, if_pos rfl, Json.asStr, Option.getD_some,
    isEnumName_of_comparisonOperator h.operator, hoperator, isWritableIn, hkey, if_neg hne,
    isWritableIn, Node.Writable]
  simp

/-- A tree can be written if its nodes can be. -/
theorem isWritable_render {t : BoolTree Node} (h : ∀ n ∈ t.leaves, n.Known) :
    isWritable (render t) = true ↔ ∀ n ∈ t.leaves, n.Writable := by
  have heach : ∀ {ts : List (BoolTree Node)}, (∀ t ∈ ts, isWritable (render t) = true ↔
      ∀ n ∈ t.leaves, n.Writable) → ((ts.map render).all isWritable = true ↔
        ∀ n ∈ ts.flatMap BoolTree.leaves, n.Writable) := by
    intro ts hts
    rw [List.all_map, List.all_eq_true, List.forall_mem_flatMap]
    exact forall₂_congr hts
  induction t with
  | leaf n =>
      rw [leaves_leaf, List.forall_mem_singleton] at h
      rw [leaves_leaf, List.forall_mem_singleton, render]
      exact isWritable_node h
  | all ts ih =>
      rw [leaves_all, List.forall_mem_flatMap] at h
      rw [leaves_all, render, renderEach_eq, isWritable_group (by decide)]
      exact heach fun t ht ↦ ih t ht (h t ht)
  | any ts ih =>
      rw [leaves_any, List.forall_mem_flatMap] at h
      rw [leaves_any, render, renderEach_eq, isWritable_group (by decide)]
      exact heach fun t ht ↦ ih t ht (h t ht)

/-! ## Numbers in where trees -/

theorem mem_floats_group {operator : String} {ds : List Json} {q : ℚ}
    (h : q ∈ (groupJson operator ds).floats) : ∃ d ∈ ds, q ∈ d.floats := by
  refine Json.mem_floats_of_mem_array ?_
  simpa [groupJson, Json.floats, Json.floatsIn] using h

/-- The floats of a where tree are those of its values. -/
theorem mem_floats_render {t : BoolTree Node} {q : ℚ} (h : q ∈ (render t).floats) :
    ∃ n ∈ t.leaves, q ∈ n.value.floats := by
  have heach : ∀ {ts : List (BoolTree Node)}, (∀ t ∈ ts, q ∈ (render t).floats →
      ∃ n ∈ t.leaves, q ∈ n.value.floats) → (∃ d ∈ ts.map render, q ∈ d.floats) →
        ∃ n ∈ ts.flatMap BoolTree.leaves, q ∈ n.value.floats := by
    rintro ts hts ⟨d, hd, hq⟩
    obtain ⟨t, ht, rfl⟩ := List.mem_map.mp hd
    obtain ⟨n, hn, hq⟩ := hts t ht hq
    exact ⟨n, List.mem_flatMap.mpr ⟨t, ht, hn⟩, hq⟩
  induction t with
  | leaf n =>
      refine ⟨n, by rw [leaves_leaf]; exact List.mem_singleton_self n, ?_⟩
      simpa [render, Node.json, comparisonJson, Json.floats, Json.floatsIn, Json.floatsEach] using h
  | all ts ih =>
      rw [render, renderEach_eq] at h
      rw [leaves_all]
      exact heach (fun t ht ↦ ih t ht) (mem_floats_group h)
  | any ts ih =>
      rw [render, renderEach_eq] at h
      rw [leaves_any]
      exact heach (fun t ht ↦ ih t ht) (mem_floats_group h)

/-- The values of the nodes of a leaf stand in its criteria. -/
theorem floats_subset_of_mem_leafNodes {l : Leaf} {n : Node} (hn : n ∈ leafNodes l) :
    n.value.floats ⊆ l.criteria.floats := by
  have hstring : ∀ s : String, (Json.string s).floats ⊆ l.criteria.floats :=
    fun s ↦ List.nil_subset _
  unfold leafNodes at hn
  split at hn
  · split at hn
    · rw [List.mem_cons, List.mem_singleton] at hn
      rcases hn with rfl | rfl
      · exact hstring never
      · exact hstring never
    · next any hany =>
        obtain ⟨v, hv, rfl⟩ := List.mem_map.mp hn
        obtain ⟨w, hw, hw'⟩ := Option.bind_eq_some_iff.mp hany
        cases w with
        | array vs =>
            cases hw'
            exact fun q hq ↦ Json.floats_subset_of_get hw (Json.floats_subset_of_elem hv hq)
        | null => cases hw'
        | bool _ => cases hw'
        | number _ => cases hw'
        | string _ => cases hw'
        | object _ => cases hw'
    · split at hn
      · rw [List.mem_singleton] at hn
        rw [hn]
        exact hstring _
      · split at hn
        · next v hv =>
            split_ifs at hn
            · rw [List.mem_singleton] at hn
              rw [hn]
              exact Json.floats_subset_of_get hv
            · cases hn
        · cases hn
  · obtain ⟨b, hb, rfl⟩ := List.mem_map.mp hn
    cases hcriteria : l.criteria with
    | object obj =>
        rw [hcriteria] at hb
        obtain ⟨k, -, hk⟩ := List.mem_filterMap.mp hb
        split at hk
        · cases hk
        · cases hk
        · next v _ hv =>
            cases hk
            exact Json.floats_subset_of_get (v := .object obj) hv
    | null => rw [hcriteria] at hb; cases hb
    | bool _ => rw [hcriteria] at hb; cases hb
    | number _ => rw [hcriteria] at hb; cases hb
    | string _ => rw [hcriteria] at hb; cases hb
    | array _ => rw [hcriteria] at hb; cases hb
  · cases hn

/-! ## The transports -/

/-- The filter of conditions without geo leaves is sent alike by both transports if and only
if the properties and the values their leaves compare can be written in a literal. -/
theorem sendsSame_iff {numberText : Number → Text} (hprint : Prints numberText)
    (asF32 : F64 → F64) {conditions w : Json} (hw : parseWeaviateConditions conditions = some w)
    (hgeo : ∀ l ∈ conditionLeaves conditions, l.op ≠ "geo")
    (hfloats : ∀ l ∈ conditionLeaves conditions, ∀ q ∈ l.criteria.floats, F64.IsValue q) :
    (∃ t, SendsSame numberText asF32 w t) ↔
      ∀ l ∈ conditionLeaves conditions, ∀ n ∈ leafNodes l, n.Writable := by
  obtain ⟨t, rfl, hleaves⟩ := exists_where hw hgeo
  have hknown : ∀ n ∈ t.leaves, n.Known := by
    intro n hn
    rw [hleaves] at hn
    obtain ⟨l, -, hn⟩ := List.mem_flatMap.mp hn
    exact known_of_mem_leafNodes hn
  have hvalues : ∀ q ∈ (render t).floats, F64.IsValue q := by
    intro q hq
    obtain ⟨n, hn, hq⟩ := mem_floats_render hq
    rw [hleaves] at hn
    obtain ⟨l, hl, hn⟩ := List.mem_flatMap.mp hn
    exact hfloats l hl q (floats_subset_of_mem_leafNodes hn hq)
  have hliteral := parse_jsonToGraphqlLiteral_iff hprint hvalues
  rw [isWritable_render hknown, hleaves, List.forall_mem_flatMap] at hliteral
  constructor
  · rintro ⟨u, hsends⟩
    exact hliteral.mp hsends.literal
  · intro hwritable
    refine ⟨t, rfl, hliteral.mpr hwritable, ?_, ?_⟩
    · rintro f hf
      rcases translates asF32 hknown with ⟨f', u, hf', hu, hcarries, -⟩ | ⟨hnone, -⟩
      · obtain rfl : f' = f := Option.some.inj (hf'.symm.trans hf)
        exact ⟨u, hu, hcarries⟩
      · rw [hnone] at hf
        cases hf
    · rcases translates asF32 hknown with ⟨f', u, hf', -, -, hsome⟩ | ⟨hnone, hn⟩
      · rw [hf']
        refine iff_of_false (fun h ↦ by cases h) ?_
        rintro ⟨n, hn, hcomparison⟩
        have hisSome := hsome n hn
        rw [hcomparison] at hisSome
        cases hisSome
      · exact iff_of_true hnone hn

/-! ## Examples -/

section Examples

/-- `{"or": [{field: {"match": {"value": value}}}, {"n": {"range": {"gte": 2}}}]}`. -/
def valueOrLarge (field value : String) : Json :=
  .object [("or", .array
    [.object [(field, .object [("match", .object [("value", .string value)])])],
    .object [("n", .object [("range", .object [("gte", .ofNat 2)])])]])]

theorem sendsSame_valueOrLarge :
    ∃ w, parseWeaviateConditions (valueOrLarge "a" "x\"\\") = some w ∧
      ((∃ t, SendsSame printNumber id w t) ↔ ∀ l ∈ conditionLeaves (valueOrLarge "a" "x\"\\"),
        ∀ n ∈ leafNodes l, n.Writable) := by
  have hleaves : conditionLeaves (valueOrLarge "a" "x\"\\") =
      [⟨"a", "match", .object [("value", .string "x\"\\")]⟩,
        ⟨"n", "range", .object [("gte", .ofNat 2)]⟩] := rfl
  refine ⟨_, rfl, sendsSame_iff prints_printNumber id rfl ?_ ?_⟩
  · rw [hleaves, List.forall_mem_cons, List.forall_mem_singleton]
    exact ⟨by decide, by decide⟩
  · rw [hleaves, List.forall_mem_cons, List.forall_mem_singleton]
    exact ⟨List.forall_mem_nil _, List.forall_mem_nil _⟩

/-- A line feed in a value ends the literal. -/
theorem not_sendsSame_lineFeed :
    ∃ w, parseWeaviateConditions (valueOrLarge "a" "x\ny") = some w ∧
      Literal.parse graphql (jsonToGraphqlLiteral printNumber w) = none ∧
      ¬∃ t, SendsSame printNumber id w t := by
  have hparse : parseWeaviateConditions (valueOrLarge "a" "x\ny") =
      some (groupJson "Or" [comparisonJson "a" "Equal" "valueText" (.string "x\ny"),
        comparisonJson "n" "GreaterThanEqual" "valueInt" (.ofNat 2)]) := rfl
  have hnone : Literal.parse graphql (jsonToGraphqlLiteral printNumber
      (groupJson "Or" [comparisonJson "a" "Equal" "valueText" (.string "x\ny"),
        comparisonJson "n" "GreaterThanEqual" "valueInt" (.ofNat 2)])) = none := by
    rfl
  refine ⟨_, hparse, hnone, ?_⟩
  rintro ⟨t, hsends⟩
  rw [hsends.literal] at hnone
  cases hnone

end Examples

end VectorDbBenchmark.Weaviate
