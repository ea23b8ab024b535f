import VectorDbBenchmark.Turbopuffer.Filter

/-!
# What a Turbopuffer filter keeps

Of an entry of a group the filter has the first operation on the first field, of nested groups
nothing, and of the two keys of an object the first one.  The part of a condition tree that is
kept is read back from the filter, as comparisons of the stored attributes.
-/

namespace VectorDbBenchmark.Turbopuffer

open Kit Redis ConditionTree

/-! ## Leaves -/

/-- The values one of which a field is to have. -/
def matchOperands (criteria : Json) : List Json :=
  match (criteria.get "any").bind Json.asArray with
  | some any => any
  | none =>
    match criteria.get "value" with
    | some (.array vs) => vs
    | some v => [v]
    | none => []

def bounds : List (String × Comparison) := [("gt", .gt), ("gte", .gte), ("lt", .lt), ("lte", .lte)]

/-- The truth of a leaf for a field that is a value and stands to bounds as given. -/
def leafTruth (isValue : Json → Bool) (orders : Comparison → Json → Bool) (l : Leaf) : Bool :=
  match l.op with
  | "match" => (matchOperands l.criteria).any isValue
  | "range" => bounds.all fun k ↦ (l.criteria.get k.1).all (orders k.2)
  | _ => false

abbrev Document := String → Option Readers.MetadataValue

def attributes (env : NumberEnv) (d : Document) (field : String) : Option Json :=
  (d field).map (metadataValueToJson env)

/-- The truth of a leaf by typed comparison of the attribute that is stored. -/
def storedHolds (env : NumberEnv) (d : Document) (l : Leaf) : Bool :=
  (attributes env d l.field).any fun v ↦ leafTruth (typedEq v) (fun c ↦ c.typedOrders v) l

def isBound : Json → Bool
  | .number _ => true
  | .string _ => true
  | _ => false

/-- A match with a scalar or a list of scalars, or a range with a bound. -/
inductive WellFormed : Leaf → Prop
  | any (field : String) (criteria : Json) (vs : List Json) (hvs : vs.all Json.isScalar = true)
    (hany : criteria.get "any" = some (.array vs)) : WellFormed ⟨field, "match", criteria⟩
  | values (field : String) (criteria : Json) (vs : List Json) (hvs : vs.all Json.isScalar = true)
    (hany : criteria.get "any" = none) (hvalue : criteria.get "value" = some (.array vs)) :
    WellFormed ⟨field, "match", criteria⟩
  | value (field : String) (criteria v : Json) (hv : Json.isScalar v = true)
    (hany : criteria.get "any" = none) (hvalue : criteria.get "value" = some v) :
    WellFormed ⟨field, "match", criteria⟩
  | range (field : String) (obj : List (String × Json))
    (hbounds : ∀ k ∈ bounds, ∀ b, Json.getEntry k.1 obj = some b → isBound b = true)
    (hone : ∃ k ∈ bounds, (Json.getEntry k.1 obj).isSome = true) :
    WellFormed ⟨field, "range", .object obj⟩

/-! ## The part that is kept -/

/-- The first operation on the first field of an entry that is no group. -/
def firstLeaf : Json → Option Leaf
  | .object obj =>
    if containsKey "and" obj || containsKey "or" obj then none else (fieldLeaves obj).head?
  | _ => none

def keptGroup (group : List (BoolTree Leaf) → BoolTree Leaf) (v : Json) :
    Option (BoolTree Leaf) :=
  match (v.asArray.getD []).filterMap firstLeaf with
  | [] => none
  | ls => some (group (ls.map .leaf))

/-- What is left of conditions: their first group, of entries without nested groups. -/
def kept : Json → Option (BoolTree Leaf)
  | .object ((key, v) :: es) =>
    if Chroma.conditionsMentionGeo (.object ((key, v) :: es)) then none
    else if key = "and" then keptGroup .all v
    else if key = "or" then keptGroup .any v
    else (firstLeaf (.object ((key, v) :: es))).map .leaf
  | _ => none

/-! ## Filters of leaves -/

section Says

/-- A filter that says of the attributes of a document what `f` does. -/
def Says (f : NumberEnv → Document → Bool) (j : Json) : Prop :=
  ∃ w, readFilter j = some w ∧ ∀ env d, w.eval (atomHolds (attributes env d)) = f env d

variable {f : NumberEnv → Document → Bool} {fs : List (NumberEnv → Document → Bool)} {j : Json}
  {js : List Json}

theorem says_clause {field op : String} {operand : Json} {c : Comparison}
    (hop : comparison op = some c)
    (hf : ∀ env d, atomHolds (attributes env d) ⟨field, c, operand⟩ = f env d) :
    Says f (clause field op operand) := by
  refine ⟨.leaf ⟨field, c, operand⟩, ?_, fun env d ↦ ?_⟩
  · rw [readFilter_clause, hop]
    rfl
  · rw [BoolTree.eval_leaf, hf]

theorem exists_readFilters (h : List.Forall₂ Says fs js) :
    ∃ ws, readFilters js = some ws ∧ ∀ env d,
      ws.map (BoolTree.eval (atomHolds (attributes env d))) = fs.map fun f ↦ f env d := by
  induction h with
  | nil => exact ⟨[], rfl, fun env d ↦ rfl⟩
  | cons hj _ ih =>
      obtain ⟨w, hw, heval⟩ := hj
      obtain ⟨ws, hws, hevals⟩ := ih
      refine ⟨w :: ws, ?_, fun env d ↦ ?_⟩
      · rw [readFilters, hw, hws]
        rfl
      · rw [List.map_cons, List.map_cons, heval, hevals]

theorem says_and (h : List.Forall₂ Says fs js) :
    Says (fun env d ↦ fs.all fun f ↦ f env d) (groupJson "And" js) := by
  obtain ⟨ws, hws, hevals⟩ := exists_readFilters h
  refine ⟨.all ws, ?_, fun env d ↦ ?_⟩
  · rw [readFilter_and, hws]
    rfl
  · have heval := congrArg (List.all · id) (hevals env d)
    rw [List.all_map, List.all_map] at heval
    rw [BoolTree.eval_all]
    exact heval

theorem says_or (h : List.Forall₂ Says fs js) :
    Says (fun env d ↦ fs.any fun f ↦ f env d) (groupJson "Or" js) := by
  obtain ⟨ws, hws, hevals⟩ := exists_readFilters h
  refine ⟨.any ws, ?_, fun env d ↦ ?_⟩
  · rw [readFilter_or, hws]
    rfl
  · have heval := congrArg (List.any · id) (hevals env d)
    rw [List.any_map, List.any_map] at heval
    rw [BoolTree.eval_any]
    exact heval

theorem Says.congr {g : NumberEnv → Document → Bool} (h : Says f j)
    (hfg : ∀ env d, f env d = g env d) : Says g j := by
  obtain ⟨w, hw, heval⟩ := h
  exact ⟨w, hw, fun env d ↦ (heval env d).trans (hfg env d)⟩

end Says

/-- The clause of an `In` list. -/
theorem says_in (field : String) (vs : List Json) :
    Says (fun env d ↦ (attributes env d field).any fun v ↦ vs.any (typedEq v))
      (clause field "In" (.array vs)) := by
  apply says_clause (c := .isIn) rfl
  intro env d
  rfl

/-- An empty list is a contradiction. -/
theorem says_never (field : String) :
    Says (fun _ _ ↦ false)
      (groupJson "And" [clause field "Eq" sentinel, clause field "NotEq" sentinel]) := by
  have heq : Says (fun env d ↦ (attributes env d field).any (typedEq · sentinel))
      (clause field "Eq" sentinel) := says_clause (c := .eq) rfl fun env d ↦ rfl
  have hne : Says (fun env d ↦ !(attributes env d field).any (typedEq · sentinel))
      (clause field "NotEq" sentinel) := says_clause (c := .notEq) rfl fun env d ↦ rfl
  apply (says_and (.cons heq (.cons hne .nil))).congr
  intro env d
  simp

/-- The filter of an operation. -/
def SaysLeaf (l : Leaf) (j : Json) : Prop := Says (fun env d ↦ storedHolds env d l) j

theorem exists_matchClause {l : Leaf} (h : WellFormed l) (hop : l.op = "match") :
    ∃ j, matchClause l.field l.criteria = some j ∧ SaysLeaf l j := by
  cases h with
  | any field criteria vs hvs hany =>
      have htold : ∀ env d, storedHolds env d ⟨field, "match", criteria⟩ =
          (attributes env d field).any fun v ↦ vs.any (typedEq v) := by
        intro env d
        simp only [storedHolds, leafTruth, matchOperands, hany, Option.bind_some, Json.asArray]
      cases vs with
      | nil =>
          refine ⟨groupJson "And" [clause field "Eq" sentinel, clause field "NotEq" sentinel],
            ?_, (says_never field).congr fun env d ↦ ?_⟩
          · simp only [matchClause, hany, Option.bind_some, Json.asArray]
          · rw [htold]
            simp
      | cons v vs =>
          refine ⟨clause field "In" (.array (v :: vs)), ?_, (says_in field _).congr fun env d ↦ ?_⟩
          · simp only [matchClause, hany, Option.bind_some, Json.asArray]
          · exact (htold env d).symm
  | values field criteria vs hvs hany hvalue =>
      refine ⟨clause field "In" (.array vs), ?_, (says_in field vs).congr fun env d ↦ ?_⟩
      · simp only [matchClause, hany, hvalue, Option.bind_none]
      · simp only [storedHolds, leafTruth, matchOperands, hany, hvalue, Option.bind_none]
  | value field criteria v hv hany hvalue =>
      refine ⟨clause field "Eq" v, ?_, says_clause (c := .eq) rfl fun env d ↦ ?_⟩
      · cases v with
        | array _ => cases hv
        | null => cases hv
        | object _ => cases hv
        | bool _ => simp only [matchClause, hany, hvalue, Option.bind_none]
        | number _ => simp only [matchClause, hany, hvalue, Option.bind_none]
        | string _ => simp only [matchClause, hany, hvalue, Option.bind_none]
      · have hoperands : matchOperands criteria = [v] := by
          cases v with
          | array _ => cases hv
          | null => cases hv
          | object _ => cases hv
          | bool _ => simp only [matchOperands, hany, hvalue, Option.bind_none]
          | number _ => simp only [matchOperands, hany, hvalue, Option.bind_none]
          | string _ => simp only [matchOperands, hany, hvalue, Option.bind_none]
        simp [atomHolds, storedHolds, leafTruth, hoperands]
  | range field obj hbounds hone => exact absurd hop (by simp)

/-! ### Ranges -/

/-- The keys of bounds, their operators and what these compare. -/
def rangeKeys : List (String × String × Comparison) :=
  [("gt", "Gt", .gt), ("gte", "Gte", .gte), ("lt", "Lt", .lt), ("lte", "Lte", .lte)]

/-- What a bound that is given says. -/
def boundSays (field : String) (obj : List (String × Json)) (k : String × String × Comparison) :
    Option (NumberEnv → Document → Bool) :=
  (Json.getEntry k.1 obj).map fun b env d ↦ (attributes env d field).any (k.2.2.typedOrders · b)

theorem says_boundClause {k : String × String × Comparison} (hk : k ∈ rangeKeys)
    (field : String) (b : Json) :
    Says (fun env d ↦ (attributes env d field).any (k.2.2.typedOrders · b))
      (clause field k.2.1 b) := by
  simp only [rangeKeys, List.mem_cons, List.not_mem_nil, or_false] at hk
  rcases hk with rfl | rfl | rfl | rfl
  · exact says_clause (c := .gt) rfl fun env d ↦ rfl
  · exact says_clause (c := .gte) rfl fun env d ↦ rfl
  · exact says_clause (c := .lt) rfl fun env d ↦ rfl
  · exact says_clause (c := .lte) rfl fun env d ↦ rfl

theorem says_rangeClauses (field : String) (obj : List (String × Json)) :
    List.Forall₂ Says (rangeKeys.filterMap (boundSays field obj)) (rangeClauses field obj) := by
  have hmap : rangeOps = rangeKeys.map fun k ↦ (k.1, k.2.1) := rfl
  rw [rangeClauses, hmap, List.filterMap_map]
  have hself : List.Forall₂ (fun k k' ↦ k ∈ rangeKeys ∧ k = k') rangeKeys rangeKeys :=
    List.forall₂_same.mpr fun k hk ↦ ⟨hk, rfl⟩
  apply forall₂_filterMap hself
  rintro k _ ⟨hk, rfl⟩
  rw [boundSays, Function.comp_apply]
  rcases Json.getEntry k.1 obj with _ | b
  · exact .none
  · exact .some (says_boundClause hk field b)

/-- All bounds together say what the range does. -/
theorem all_boundSays (field : String) {obj : List (String × Json)}
    (hone : ∃ k ∈ bounds, (Json.getEntry k.1 obj).isSome = true) (env : NumberEnv)
    (d : Document) :
    ((rangeKeys.filterMap (boundSays field obj)).all fun f ↦ f env d) =
      storedHolds env d ⟨field, "range", .object obj⟩ := by
  have hmap : bounds = rangeKeys.map fun k ↦ (k.1, k.2.2) := rfl
  have htold : storedHolds env d ⟨field, "range", .object obj⟩ =
      (attributes env d field).any fun v ↦
        bounds.all fun k ↦ (Json.getEntry k.1 obj).all (k.2.typedOrders v) := rfl
  rw [hmap] at hone htold
  rw [htold, List.all_filterMap]
  rcases hv : attributes env d field with _ | v
  · obtain ⟨k', hk', hgiven⟩ := hone
    obtain ⟨k, hk, rfl⟩ := List.mem_map.mp hk'
    obtain ⟨b, hb⟩ := Option.isSome_iff_exists.mp hgiven
    rw [Option.any_none, List.all_eq_false]
    refine ⟨k, hk, ?_⟩
    simp [boundSays, hb, hv]
  · rw [Option.any_some, List.all_map]
    apply all_congr_of_mem
    intro k hk
    rw [boundSays, Function.comp_apply]
    rcases Json.getEntry k.1 obj with _ | b
    · rfl
    · simp [hv]

theorem exists_rangeResult {l : Leaf} (h : WellFormed l) (hop : l.op = "range") :
    ∃ j, operationResult l.field "range" l.criteria = some (some j) ∧ SaysLeaf l j := by
  cases h with
  | range field obj hbounds hone =>
      have hclauses := says_rangeClauses field obj
      have hall := all_boundSays field hone
      simp only [operationResult, Json.asObject]
      rcases hjs : rangeClauses field obj with _ | ⟨c, _ | ⟨c', cs⟩⟩
      · rw [hjs, List.forall₂_nil_right_iff] at hclauses
        exfalso
        obtain ⟨k', hk', hgiven⟩ := hone
        have hmap : bounds = rangeKeys.map fun k ↦ (k.1, k.2.2) := rfl
        rw [hmap] at hk'
        obtain ⟨k, hk, rfl⟩ := List.mem_map.mp hk'
        obtain ⟨b, hb⟩ := Option.isSome_iff_exists.mp hgiven
        have hnone := List.filterMap_eq_nil_iff.mp hclauses k hk
        rw [boundSays, hb] at hnone
        cases hnone
      · rw [hjs] at hclauses
        cases hfs : rangeKeys.filterMap (boundSays field obj) with
        | nil => rw [hfs] at hclauses; cases hclauses
        | cons f fs =>
            rw [hfs] at hclauses hall
            obtain ⟨hc, hnil⟩ := List.forall₂_cons.mp hclauses
            obtain rfl := List.forall₂_nil_right_iff.mp hnil
            refine ⟨c, rfl, hc.congr fun env d ↦ ?_⟩
            rw [← hall]
            simp
      · rw [hjs] at hclauses
        exact ⟨_, rfl, (says_and hclauses).congr hall⟩
  | any field criteria vs hvs hany => exact absurd hop (by simp)
  | values field criteria vs hvs hany hvalue => exact absurd hop (by simp)
  | value field criteria v hv hany hvalue => exact absurd hop (by simp)

theorem WellFormed.op_eq {l : Leaf} (h : WellFormed l) : l.op = "match" ∨ l.op = "range" := by
  cases h with
  | any => exact .inl rfl
  | values => exact .inl rfl
  | value => exact .inl rfl
  | range => exact .inr rfl

/-- An operation always has a filter. -/
theorem exists_operationResult {l : Leaf} (h : WellFormed l) :
    ∃ j, operationResult l.field l.op l.criteria = some (some j) ∧ SaysLeaf l j := by
  rcases h.op_eq with hop | hop
  · obtain ⟨j, hj, htold⟩ := exists_matchClause h hop
    refine ⟨j, ?_, htold⟩
    simp only [operationResult, hop, hj, Option.map_some]
  · rw [hop]
    exact exists_rangeResult h hop

/-! ## Entries -/

/-- The filter of an entry that is no group is that of its first operation. -/
theorem exists_conditionResult {obj : List (String × Json)}
    (hfields : ∀ e ∈ obj, e.2.asObject.isSome = true) {l : Leaf} {ls : List Leaf}
    (hleaves : fieldLeaves obj = l :: ls) (h : WellFormed l) :
    ∃ j, conditionResult obj = some j ∧ SaysLeaf l j := by
  induction obj with
  | nil => cases hleaves
  | cons e obj ih =>
      obtain ⟨field, v⟩ := e
      rw [List.forall_mem_cons] at hfields
      obtain ⟨ops, hops⟩ := Option.isSome_iff_exists.mp hfields.1
      cases v with
      | object ops' =>
          cases hops
          rw [conditionResult]
          cases ops with
          | nil =>
              exact ih hfields.2 hleaves
          | cons o ops =>
              obtain ⟨op, operand⟩ := o
              have hl : l = ⟨field, op, operand⟩ := by
                have hhead := congrArg List.head? hleaves
                exact (Option.some.inj hhead).symm
              subst hl
              obtain ⟨j, hj, htold⟩ := exists_operationResult h
              refine ⟨j, ?_, htold⟩
              simp only [Json.asObject, constraintResult, hj]
      | null => cases hops
      | bool _ => cases hops
      | number _ => cases hops
      | string _ => cases hops
      | array _ => cases hops

/-- A group has no operation on a field. -/
theorem conditionResult_group {obj : List (String × Json)} {t : BoolTree Leaf}
    (hgroup : (containsKey "and" obj || containsKey "or" obj) = true)
    (ht : ofEntry (.object obj) = some t) : conditionResult obj = none := by
  obtain ⟨hkeys, ts, us, hts, hus, -⟩ := exists_group_of_ofEntry hgroup ht
  cases obj with
  | nil => rfl
  | cons e obj =>
      obtain ⟨key, v⟩ := e
      have harray : v.asObject = none := by
        rw [groupKeys, List.all_cons, Bool.and_eq_true] at hkeys
        have hkey : key = "and" ∨ key = "or" := by simpa using hkeys.1
        have hof : ∀ {k : String} {ws : Option (List (BoolTree Leaf))}, key = k →
            ofKey k ((key, v) :: obj) = some ws → v.asObject = none := by
          intro k ws hk h
          rw [ofKey, if_pos hk] at h
          obtain ⟨ws', hws, -⟩ := Option.map_eq_some_iff.mp h
          cases v with
          | object _ => cases hws
          | null => rfl
          | bool _ => rfl
          | number _ => rfl
          | string _ => rfl
          | array _ => rfl
        rcases hkey with hkey | hkey
        · exact hof hkey hts
        · exact hof hkey hus
      rw [conditionResult, harray]

/-- The filter of an entry is that of the operation that is kept of it. -/
theorem says_parseSingleCondition {v : Json} {t : BoolTree Leaf} (ht : ofEntry v = some t)
    (h : ∀ l ∈ t.leaves, WellFormed l) :
    Option.Rel SaysLeaf (firstLeaf v) (parseSingleCondition v) := by
  cases v with
  | object obj =>
      rw [firstLeaf]
      show Option.Rel SaysLeaf _ (conditionResult obj)
      split_ifs with hgroup
      · rw [conditionResult_group hgroup ht]
        exact .none
      · obtain ⟨hfields, hne, rfl⟩ := ofEntry_fields (Bool.eq_false_iff.mpr hgroup) ht
        obtain ⟨l, ls, hleaves⟩ := List.exists_cons_of_ne_nil hne
        have hl : WellFormed l := by
          apply h
          rw [BoolTree.leaves_all, hleaves, List.flatMap_map]
          simp
        obtain ⟨j, hj, htold⟩ := exists_conditionResult hfields hleaves hl
        rw [hj, hleaves]
        exact .some htold
  | null => cases ht
  | bool _ => cases ht
  | number _ => cases ht
  | string _ => cases ht
  | array _ => cases ht

/-! ## Conditions -/

/-- A filter that says of the stored attributes what a tree does. -/
def SaysTree (t : BoolTree Leaf) (j : Json) : Prop :=
  Says (fun env d ↦ t.eval (storedHolds env d)) j

theorem says_entries {vs : List Json} {ts : List (BoolTree Leaf)} (hts : ofEntries vs = some ts)
    (h : ∀ l ∈ ts.flatMap BoolTree.leaves, WellFormed l) :
    List.Forall₂ (fun l j ↦ Option.Rel SaysLeaf (firstLeaf l) (parseSingleCondition j)) vs vs := by
  induction vs generalizing ts with
  | nil => exact .nil
  | cons v vs ih =>
      rw [ofEntries] at hts
      obtain ⟨t, ht, hts⟩ := Option.bind_eq_some_iff.mp hts
      obtain ⟨us, hus, hts⟩ := Option.bind_eq_some_iff.mp hts
      cases hts
      rw [List.flatMap_cons, List.forall_mem_append] at h
      exact .cons (says_parseSingleCondition ht h.1) (ih hus h.2)

/-- The filter of a group is that of the operations that are kept of its entries. -/
theorem says_groupFilter {name : String} {group : List (BoolTree Leaf) → BoolTree Leaf}
    (hgroup : ∀ {ls : List Leaf} {js : List Json}, List.Forall₂ SaysLeaf ls js →
      SaysTree (group (ls.map .leaf)) (groupJson name js))
    {v : Json} {ts : List (BoolTree Leaf)} (hts : ofArray v = some ts)
    (h : ∀ l ∈ ts.flatMap BoolTree.leaves, WellFormed l) :
    Option.Rel SaysTree (keptGroup group v) (groupFilter name v) := by
  have hentries : ∃ vs, v.asArray = some vs ∧ ofEntries vs = some ts := by
    cases v with
    | array vs =>
        cases vs with
        | nil => cases hts
        | cons v vs => exact ⟨v :: vs, rfl, hts⟩
    | null => cases hts
    | bool _ => cases hts
    | number _ => cases hts
    | string _ => cases hts
    | object _ => cases hts
  obtain ⟨vs, hvs, hts⟩ := hentries
  have hleaves := forall₂_filterMap (says_entries hts h) fun _ _ hrel ↦ hrel
  simp only [keptGroup, groupFilter, hvs, Option.getD_some]
  generalize vs.filterMap firstLeaf = ls at hleaves ⊢
  generalize vs.filterMap parseSingleCondition = js at hleaves ⊢
  cases hleaves with
  | nil => exact .none
  | cons hl hls => exact .some (hgroup (.cons hl hls))

theorem saysTree_all {ls : List Leaf} {js : List Json} (h : List.Forall₂ SaysLeaf ls js) :
    SaysTree (.all (ls.map .leaf)) (groupJson "And" js) := by
  have hfs : List.Forall₂ Says (ls.map fun l env d ↦ storedHolds env d l) js :=
    List.forall₂_map_left_iff.mpr h
  apply (says_and hfs).congr
  intro env d
  rw [BoolTree.eval_all, List.all_map, List.all_map]
  apply all_congr_of_mem
  intro l _
  exact (BoolTree.eval_leaf l).symm

theorem saysTree_any {ls : List Leaf} {js : List Json} (h : List.Forall₂ SaysLeaf ls js) :
    SaysTree (.any (ls.map .leaf)) (groupJson "Or" js) := by
  have hfs : List.Forall₂ Says (ls.map fun l env d ↦ storedHolds env d l) js :=
    List.forall₂_map_left_iff.mpr h
  apply (says_or hfs).congr
  intro env d
  rw [BoolTree.eval_any, List.any_map, List.any_map]
  apply any_congr_of_mem
  intro l _
  exact (BoolTree.eval_leaf l).symm

/-- The filter of conditions is that of the part that is kept of them. -/
theorem says_parseTurbopufferFilter {v : Json} {t : BoolTree Leaf} (ht : ofEntry v = some t)
    (h : ∀ l ∈ t.leaves, WellFormed l) :
    Option.Rel SaysTree (kept v) (parseTurbopufferFilter v) := by
  cases v with
  | object obj =>
      obtain ⟨⟨key, v⟩, es, rfl⟩ := List.exists_cons_of_ne_nil (ne_nil_of_ofEntry ht)
      have hsingle := says_parseSingleCondition ht h
      show Option.Rel SaysTree _ (if Chroma.conditionsMentionGeo _ then none else _)
      rw [kept]
      split_ifs with hgeo hand hor
      · exact .none
      · subst hand
        obtain ⟨-, ts, us, hts, -, htree⟩ := exists_group_of_ofEntry rfl ht
        rw [ofKey, if_pos rfl] at hts
        obtain ⟨ts', hts', rfl⟩ := Option.map_eq_some_iff.mp hts
        rw [leaves_groupTree htree, List.forall_mem_append] at h
        rw [topResult, if_pos rfl]
        exact says_groupFilter saysTree_all hts' h.1
      · subst hor
        have hgroup : (containsKey "and" (("or", v) :: es) || containsKey "or" (("or", v) :: es)) =
            true := Bool.or_true _
        obtain ⟨-, ts, us, -, hus, htree⟩ := exists_group_of_ofEntry hgroup ht
        rw [ofKey, if_pos rfl] at hus
        obtain ⟨us', hus', rfl⟩ := Option.map_eq_some_iff.mp hus
        rw [leaves_groupTree htree, List.forall_mem_append] at h
        rw [topResult, if_neg hand, if_pos rfl]
        exact says_groupFilter saysTree_any hus' h.2
      · have hfields : (containsKey "and" ((key, v) :: es) || containsKey "or" ((key, v) :: es)) =
            false := by
          by_contra hgroup
          obtain ⟨hkeys, -⟩ := exists_group_of_ofEntry (Bool.eq_true_of_not_eq_false hgroup) ht
          rw [groupKeys, List.all_cons, Bool.and_eq_true] at hkeys
          simp [hand, hor] at hkeys
        obtain ⟨-, hne, -⟩ := ofEntry_fields hfields ht
        obtain ⟨l, ls, hleaves⟩ := List.exists_cons_of_ne_nil hne
        have hfirst : firstLeaf (.object ((key, v) :: es)) = some l := by
          rw [firstLeaf, hfields, if_neg Bool.false_ne_true, hleaves]
          rfl
        rw [hfirst] at hsingle ⊢
        cases hparse : parseSingleCondition (.object ((key, v) :: es)) with
        | none =>
            rw [hparse] at hsingle
            cases hsingle
        | some j =>
            rw [hparse] at hsingle
            rw [topResult, if_neg hand, if_neg hor, hparse]
            cases hsingle with
            | some htold =>
                apply Option.Rel.some
                apply htold.congr
                intro env d
                exact (BoolTree.eval_leaf l).symm
  | null => cases ht
  | bool _ => cases ht
  | number _ => cases ht
  | string _ => cases ht
  | array _ => cases ht

end VectorDbBenchmark.Turbopuffer
