import VectorDbBenchmark.JsonEq

/-!
# The OpenSearch filter builder

`parse_os_conditions` of the OpenSearch engine: a conditions object becomes a `bool` query.
In filter context such a query asks for all of `must` and `filter`, none of `must_not`, and of
`should` at least the minimum; its clauses are arrays.  How an `f64` prints and what a leaf query
says of a document are parameters.
-/

namespace VectorDbBenchmark.OpenSearch

open Json

/-- `map.contains_key(key)`. -/
def containsKey (key : String) (obj : List (String × Json)) : Bool := (getEntry key obj).isSome

theorem containsKey_eq_any (key : String) (obj : List (String × Json)) :
    containsKey key obj = obj.any fun e ↦ e.1 = key := by
  induction obj with
  | nil => rfl
  | cons e obj ih =>
      rw [containsKey, getEntry, List.any_cons, ← ih]
      split_ifs with h
      · rw [h, decide_eq_true rfl]
        rfl
      · rw [decide_eq_false h]
        rfl

-- What `{}` prints of an `f64`.
section Build

variable (displayF64 : F64 → String)

def buildMatch (field : String) (criteria : Json) : Option Json :=
  match (criteria.get "any").bind asArray, criteria.get "text", criteria.get "value" with
  | some any, _, _ => some (.object [("terms", .object [(field, .array any)])])
  | none, some text, _ => some (.object [("match", .object [(field, text)])])
  | none, none, some (.string s) => some (.object [("match", .object [(field, .string s)])])
  | none, none, some (.number n) => some (.object [("match", .object [(field, .number n)])])
  | none, none, some (.bool b) => some (.object [("match", .object [(field, .bool b)])])
  | none, none, _ => none

/-- The bounds of a range leaf that are given, in the order in which they are inserted. -/
def rangeEntries (criteria : List (String × Json)) : List (String × Json) :=
  ["lt", "gt", "lte", "gte"].filterMap fun key ↦
    (match getEntry key criteria with
      | some .null => none
      | v => v).map fun v ↦ (key, v)

def buildRange (field : String) (criteria : Json) : Option Json :=
  criteria.asObject.map fun es ↦
    .object [("range", .object [(field, .object (rangeEntries es))])]

def buildGeo (field : String) (criteria : Json) : Option Json := do
  let lat ← criteria.get "lat"
  let lon ← criteria.get "lon"
  let radius := ((criteria.get "radius").bind asF64).getD (.fin 1000)
  some (.object [("geo_distance", .object (insertEntry field
    (.object [("lat", lat), ("lon", lon)])
    [("distance", .string s!"{displayF64 radius}m")]))])

def buildFilter (field conditionType : String) (criteria : Json) : Option Json :=
  if conditionType = "match" then buildMatch field criteria
  else if conditionType = "range" then buildRange field criteria
  else if conditionType = "geo" then buildGeo displayF64 field criteria
  else none

/-- The filters of an entry that is no group: every operation of every field. -/
def buildLeaves (entry : List (String × Json)) : List Json :=
  entry.flatMap fun (field, fieldFilters) ↦
    match fieldFilters with
    | .object ops => ops.filterMap fun (conditionType, criteria) ↦
        buildFilter displayF64 field conditionType criteria
    | _ => []

/-- The `bool` query of a group, when it has filters. -/
def boolQuery (andFilters orFilters : Option (List Json)) : Option Json :=
  match andFilters, orFilters with
  | none, none => none
  | some must, none => some (.object [("bool", .object [("must", .array must)])])
  | none, some should => some (.object [("bool", .object
      [("should", .array should), ("minimum_should_match", one)])])
  | some must, some should => some (.object [("bool", .object
      [("must", .array must), ("should", .array should), ("minimum_should_match", one)])])

mutual

/-- One round of `build_subfilters`; a nested group is built as `build_group` does. -/
def buildEntry : Json → List Json
  | .object obj =>
    if containsKey "and" obj || containsKey "or" obj then
      (boolQuery (filtersAt "and" obj) (filtersAt "or" obj)).toList
    else buildLeaves displayF64 obj
  | _ => []

def buildSubfilters : List Json → List Json
  | [] => []
  | entry :: entries => buildEntry entry ++ buildSubfilters entries

/-- The filters under a key, when there are some. -/
def filtersAt (key : String) : List (String × Json) → Option (List Json)
  | [] => none
  | (k, v) :: entries => if k = key then arrayFilters v else filtersAt key entries

def arrayFilters : Json → Option (List Json)
  | .array entries =>
    let fs := buildSubfilters entries
    if fs.isEmpty then none else some fs
  | _ => none

end

def buildGroup (obj : List (String × Json)) : Option Json :=
  boolQuery (filtersAt displayF64 "and" obj) (filtersAt displayF64 "or" obj)

/-- The filter of a conditions value, when it has one. -/
def parseOsConditions (conditions : Json) : Option Json :=
  match conditions with
  | .object obj => if obj.isEmpty then none else buildGroup displayF64 obj
  | _ => none

end Build

/-! ## What a query says -/

-- A leaf query by its name, its field and what it asks of the field.
variable (leafHolds : String → String → Json → Bool)

/-- The least number of `should` clauses; without a number it is one when nothing else must
match. -/
def minimumShouldMatch (clauses : List (String × Json)) : ℕ :=
  match (getEntry "minimum_should_match" clauses).bind asI64 with
  | some k => k.toNat
  | none =>
    if (getEntry "must" clauses).isNone && (getEntry "filter" clauses).isNone &&
      (getEntry "should" clauses).isSome then 1 else 0

/-- A `bool` query, by the truth of the queries in each of its clauses. -/
def combine (clauses : List (String × Json)) (results : List (String × List Bool)) : Bool :=
  let under (name : String) : List Bool := (results.lookup name).getD []
  (under "must").all id && (under "filter").all id && (under "must_not").all not &&
    minimumShouldMatch clauses ≤ (under "should").count true

mutual

/-- Whether a document satisfies a query. -/
def holds : Json → Bool
  | .object [(name, body)] => if name = "bool" then boolHolds body else fieldHolds name body
  | _ => false

def boolHolds : Json → Bool
  | .object clauses => combine clauses (clauseResults clauses)
  | _ => false

def clauseResults : List (String × Json) → List (String × List Bool)
  | [] => []
  | (name, v) :: clauses => (name, arrayResults v) :: clauseResults clauses

def arrayResults : Json → List Bool
  | .array qs => holdsEach qs
  | _ => []

def holdsEach : List Json → List Bool
  | [] => []
  | q :: qs => holds q :: holdsEach qs

/-- A leaf query. -/
def fieldHolds (name : String) : Json → Bool
  | .object [(field, v)] => leafHolds name field v
  | _ => false

end

theorem holdsEach_eq (qs : List Json) : holdsEach leafHolds qs = qs.map (holds leafHolds) := by
  induction qs with
  | nil => rw [holdsEach, List.map_nil]
  | cons q qs ih => rw [holdsEach, ih, List.map_cons]

theorem one_le_count_true (bs : List Bool) : decide (1 ≤ bs.count true) = bs.any id := by
  rw [Bool.eq_iff_iff, decide_eq_true_eq, List.one_le_count_iff, List.any_eq_true]
  simp

variable (qs us : List Json)

theorem holds_bool (clauses : List (String × Json)) :
    holds leafHolds (.object [("bool", .object clauses)]) =
      combine clauses (clauseResults leafHolds clauses) := by
  rw [holds, if_pos rfl, boolHolds]

theorem clauseResults_array (name : String) (clauses : List (String × Json)) :
    clauseResults leafHolds ((name, .array qs) :: clauses) =
      (name, qs.map (holds leafHolds)) :: clauseResults leafHolds clauses := by
  rw [clauseResults, arrayResults, holdsEach_eq]

/-- All of them. -/
@[simp] theorem holds_must : holds leafHolds (.object [("bool", .object [("must", .array qs)])]) =
    qs.all (holds leafHolds) := by
  have hcombine : ∀ bs : List Bool, combine [("must", .array qs)] [("must", bs)] =
      (bs.all id && true && true && true) := fun bs ↦ rfl
  rw [holds_bool, clauseResults_array, clauseResults, hcombine, List.all_map]
  simp

/-- All of them, in the clause that does not score. -/
@[simp] theorem holds_filter :
    holds leafHolds (.object [("bool", .object [("filter", .array qs)])]) =
      qs.all (holds leafHolds) := by
  have hcombine : ∀ bs : List Bool, combine [("filter", .array qs)] [("filter", bs)] =
      (true && bs.all id && true && true) := fun bs ↦ rfl
  rw [holds_bool, clauseResults_array, clauseResults, hcombine, List.all_map]
  simp

/-- None of them. -/
@[simp] theorem holds_must_not : holds leafHolds
    (.object [("bool", .object [("must_not", .array qs)])]) =
      qs.all fun q ↦ !holds leafHolds q := by
  have hcombine : ∀ bs : List Bool, combine [("must_not", .array qs)] [("must_not", bs)] =
      (true && true && bs.all not && true) := fun bs ↦ rfl
  rw [holds_bool, clauseResults_array, clauseResults, hcombine, List.all_map]
  simp
  rfl

/-- At least one of them. -/
@[simp] theorem holds_should : holds leafHolds (.object [("bool", .object
    [("should", .array us), ("minimum_should_match", one)])]) = us.any (holds leafHolds) := by
  have hcombine : ∀ bs : List Bool, combine [("should", .array us), ("minimum_should_match", one)]
      [("should", bs), ("minimum_should_match", [])] =
      (true && true && true && decide (1 ≤ bs.count true)) := fun bs ↦ rfl
  rw [holds_bool, clauseResults_array, clauseResults, clauseResults, one, arrayResults, ← one,
    hcombine, one_le_count_true, List.any_map]
  · simp
  · rintro _ ⟨⟩

/-- All of some, and at least one of others. -/
@[simp] theorem holds_must_should : holds leafHolds (.object [("bool", .object
    [("must", .array qs), ("should", .array us), ("minimum_should_match", one)])]) =
      (qs.all (holds leafHolds) && us.any (holds leafHolds)) := by
  have hcombine : ∀ bs cs : List Bool,
      combine [("must", .array qs), ("should", .array us), ("minimum_should_match", one)]
        [("must", bs), ("should", cs), ("minimum_should_match", [])] =
      (bs.all id && true && true && decide (1 ≤ cs.count true)) := fun bs cs ↦ rfl
  rw [holds_bool, clauseResults_array, clauseResults_array, clauseResults, clauseResults, one,
    arrayResults, ← one, hcombine, one_le_count_true, List.any_map, List.all_map]
  · simp
  · rintro _ ⟨⟩

/-- A leaf query. -/
theorem holds_leaf {name : String} (h : name ≠ "bool") (field : String) (v : Json) :
    holds leafHolds (.object [(name, .object [(field, v)])]) = leafHolds name field v := by
  rw [holds, if_neg h, fieldHolds]

end VectorDbBenchmark.OpenSearch
