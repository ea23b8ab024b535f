import VectorDbBenchmark.Json
import VectorDbBenchmark.Redis.Query

/-!
# The Redis filter builder

`parse_conditions` of the Redis engine: a conditions object becomes a RediSearch prefilter
and its parameters.  The counter that keeps parameter names apart is passed along;
`chrono`'s datetime parser and the float parser are parameters.
-/

namespace VectorDbBenchmark.Redis

open Kit

/-- The conversions from strings to numbers. -/
structure NumberEnv where
  /-- `datetime_to_epoch_secs(s)`, cast to `i64`. -/
  datetimeToEpochSecs : String → Option ℤ
  /-- `s.parse::<f64>()`. -/
  parseF64 : String → Option F64

/-- No string is a datetime or a number. -/
def noNumbers : NumberEnv := ⟨fun _ ↦ none, fun _ ↦ none⟩

/-- The parameter a JSON number, a datetime or a numeric string is bound as. -/
def toNumber (env : NumberEnv) (value : Json) : Option FilterParamValue :=
  match value.asI64 with
  | some i => some (.int i)
  | none =>
    match value.asF64 with
    | some f => some (.float f)
    | none =>
      match value.asStr with
      | none => none
      | some s =>
        match env.datetimeToEpochSecs s with
        | some epoch => some (.int epoch)
        | none =>
          match parseI64 s.toList with
          | some i => some (.int i)
          | none => (env.parseF64 s).map .float

/-- `insert_number_param`: a value that is no number is not bound. -/
def insertNumberParam (env : NumberEnv) (params : Params) (name : String) (value : Json) : Params :=
  match toNumber env value with
  | some v => params.insert name v
  | none => params

/-! ## Leaves -/

/-- `format!("{}_{}", field_name, counter)`. -/
def paramName (field : String) (counter : ℕ) : String := field ++ "_" ++ counter.repr

/-- Each value with its own parameter name, the counter going up by one. -/
def numbered {α : Type} (field : String) (counter : ℕ) (xs : List α) : List (String × α) :=
  (xs.zipIdx counter).map fun (x, n) ↦ (paramName field n, x)

/-- `@f:{…}`. -/
def tagClause (field : String) (value : Query) : Query :=
  [.lit "@", .lit field, .lit ":\x7b"] ++ value ++ [.lit "\x7d"]

/-- `@f:[$p $p]`. -/
def pointClause (field p : String) : Query :=
  [.lit "@", .lit field, .lit ":[", .ref p, .lit " ", .ref p, .lit "]"]

/-- `@f:($p)`. -/
def textClause (field p : String) : Query := [.lit "@", .lit field, .lit ":(", .ref p, .lit ")"]

/-- `@f:[$lon $lat $radius m]`. -/
def geoClause (field lon lat radius : String) : Query :=
  [.lit "@", .lit field, .lit ":[", .ref lon, .lit " ", .ref lat, .lit " ", .ref radius,
    .lit " m]"]

/-- A clause and its negation, which no document meets. -/
def neverClause (clause : Query) : Query :=
  [.lit "("] ++ clause ++ [.lit " -"] ++ clause ++ [.lit ")"]

def buildMatchAnyFilter (field : String) (any : List Json) (counter : ℕ) : ParsedFilter × ℕ :=
  if !any.isEmpty && any.all (fun v ↦ v.asI64.isSome) then
    let ints := numbered field counter (any.filterMap Json.asI64)
    let params := ints.foldl (fun ps (p, i) ↦ Params.insert ps p (.int i)) []
    let clauses := ints.map fun (p, _) ↦ pointClause field p
    (([.lit "("] ++ Query.join " | " clauses ++ [.lit ")"], params), counter + ints.length)
  else
    let strings := numbered field counter ((any.filterMap Json.asStr).filter fun s ↦ !s.isEmpty)
    let params := strings.foldl (fun ps (p, s) ↦ Params.insert ps p (.str s)) []
    let tokens := strings.map fun (p, _) ↦ [Piece.ref p]
    if tokens.isEmpty then
      let p := paramName field counter
      ((neverClause (tagClause field [.ref p]), [(p, .str "__match_any_never_match__")]),
        counter + 1)
    else ((tagClause field (Query.join " | " tokens), params), counter + strings.length)

def buildExactMatchFilter (field : String) (criteria : Json) (counter : ℕ) :
    Option ParsedFilter × ℕ :=
  match criteria.get "value" with
  | none => (none, counter)
  | some value =>
    let p := paramName field counter
    let filter : Option ParsedFilter :=
      match value.asBool with
      | some b => some (tagClause field [.ref p], [(p, .str (if b then "true" else "false"))])
      | none =>
        match value.asStr with
        | some s => some (tagClause field [.ref p], [(p, .str s)])
        | none =>
          match value.asI64 with
          | some i => some (pointClause field p, [(p, .int i)])
          | none => value.asF64.map fun f ↦ (pointClause field p, [(p, .float f)])
    (filter, counter + 1)

def buildTextFilter (field text : String) (counter : ℕ) : ParsedFilter × ℕ :=
  let p := paramName field counter
  let trimmed := trim text.toList
  if trimmed.isEmpty then
    ((neverClause (textClause field p), [(p, .str "__text_never_match__")]), counter + 1)
  else ((textClause field p, [(p, .str (String.ofList trimmed))]), counter + 1)

/-- The bounds of a range leaf in the order in which they are converted. -/
def rangeKeys : List (String × Operator) :=
  [("lt", .lt), ("gt", .gt), ("lte", .lte), ("gte", .gte)]

/-- The bounds that convert, with the parameters they are bound as. -/
def rangeBounds (env : NumberEnv) (paramPrefix : String) (criteria : Json) :
    List (Bound × FilterParamValue) :=
  rangeKeys.filterMap fun (key, operator) ↦ do
    let v ← criteria.get key
    let value ← toNumber env v
    pure (⟨paramPrefix ++ "_" ++ key, operator⟩, value)

def buildRangeFilter (env : NumberEnv) (field : String) (criteria : Json) (counter : ℕ) :
    Option ParsedFilter × ℕ :=
  let bounds := rangeBounds env (paramName field counter) criteria
  let params := bounds.foldl (fun ps (b, v) ↦ Params.insert ps b.parameter v) []
  ((render field (bounds.map Prod.fst)).map fun query ↦ (query, params), counter + 1)

def buildGeoFilter (env : NumberEnv) (field : String) (criteria : Json) (counter : ℕ) :
    Option ParsedFilter × ℕ :=
  let paramPrefix := paramName field counter
  let lonName := paramPrefix ++ "_lon"
  let latName := paramPrefix ++ "_lat"
  let radiusName := paramPrefix ++ "_radius"
  let filter : Option ParsedFilter := do
    let lon ← criteria.get "lon"
    let lat ← criteria.get "lat"
    let radius ← criteria.get "radius"
    let params := insertNumberParam env [] lonName lon
    let params := insertNumberParam env params latName lat
    let params := insertNumberParam env params radiusName radius
    pure (geoClause field lonName latName radiusName, params)
  (filter, counter + 1)

def buildFilter (env : NumberEnv) (field conditionType : String) (criteria : Json) (counter : ℕ) :
    Option ParsedFilter × ℕ :=
  match conditionType with
  | "match" =>
    match (criteria.get "any").bind Json.asArray with
    | some any =>
      let (f, counter) := buildMatchAnyFilter field any counter
      (some f, counter)
    | none =>
      match (criteria.get "text").bind Json.asStr with
      | some text =>
        let (f, counter) := buildTextFilter field text counter
        (some f, counter)
      | none => buildExactMatchFilter field criteria counter
  | "range" => buildRangeFilter env field criteria counter
  | "geo" => buildGeoFilter env field criteria counter
  | _ => (none, counter)

/-! ## Groups -/

/-- The clauses of one kind of group, when there is one. -/
def groupClause (sep : String) (filters : Option (List ParsedFilter)) : List Query :=
  match filters with
  | some (f :: fs) => [[.lit "("] ++ Query.join sep ((f :: fs).map Prod.fst) ++ [.lit ")"]]
  | _ => []

/-- `build_condition`: blanks between `and` clauses, bars between `or` clauses. -/
def buildCondition (andSubfilters orSubfilters : Option (List ParsedFilter)) :
    Option ParsedFilter :=
  let clauseParts := groupClause " " andSubfilters ++ groupClause " | " orSubfilters
  let allParams := ((andSubfilters.getD [] ++ orSubfilters.getD []).map Prod.snd).foldl
    Params.extend []
  if clauseParts.isEmpty then none else some (Query.join " " clauseParts, allParams)

/-- The filters of a list of parts, the counter passed from each to the next. -/
def collect {α : Type} (f : α → ℕ → List ParsedFilter × ℕ) : List α → ℕ → List ParsedFilter × ℕ
  | [], counter => ([], counter)
  | x :: xs, counter =>
    let (fs, counter) := f x counter
    let (gs, counter) := collect f xs counter
    (fs ++ gs, counter)

/-- The leaves of an entry that is no group: every operation of every field. -/
def buildLeaves (env : NumberEnv) : List (String × Json) → ℕ → List ParsedFilter × ℕ :=
  collect fun (field, fieldFilters) counter ↦
    match fieldFilters with
    | .object ops =>
      collect (fun (conditionType, criteria) counter ↦
        let (f, counter) := buildFilter env field conditionType criteria counter
        (f.toList, counter)) ops counter
    | _ => ([], counter)

/-- `map.contains_key(key)`. -/
def containsKey (key : String) (obj : List (String × Json)) : Bool := obj.any fun e ↦ e.1 = key

mutual

/-- One round of `build_subfilters`; a nested group is built as `build_group` does. -/
def buildEntry (env : NumberEnv) : Json → ℕ → List ParsedFilter × ℕ
  | .object obj, counter =>
    if containsKey "and" obj || containsKey "or" obj then
      let (andFilters, counter) := buildArrayAt env "and" obj counter
      let (orFilters, counter) := buildArrayAt env "or" obj counter
      ((buildCondition andFilters orFilters).toList, counter)
    else buildLeaves env obj counter
  | _, counter => ([], counter)

def buildSubfilters (env : NumberEnv) : List Json → ℕ → List ParsedFilter × ℕ
  | [], counter => ([], counter)
  | entry :: entries, counter =>
    let (fs, counter) := buildEntry env entry counter
    let (gs, counter) := buildSubfilters env entries counter
    (fs ++ gs, counter)

/-- `obj.get(key)` as an array, built. -/
def buildArrayAt (env : NumberEnv) (key : String) :
    List (String × Json) → ℕ → Option (List ParsedFilter) × ℕ
  | [], counter => (none, counter)
  | (k, v) :: entries, counter =>
    if k = key then buildArray env v counter else buildArrayAt env key entries counter

def buildArray (env : NumberEnv) : Json → ℕ → Option (List ParsedFilter) × ℕ
  | .array entries, counter =>
    let (fs, counter) := buildSubfilters env entries counter
    (some fs, counter)
  | _, counter => (none, counter)

end

def buildGroup (env : NumberEnv) (obj : List (String × Json)) (counter : ℕ) :
    Option ParsedFilter × ℕ :=
  let (andFilters, counter) := buildArrayAt env "and" obj counter
  let (orFilters, counter) := buildArrayAt env "or" obj counter
  (buildCondition andFilters orFilters, counter)

/-- The prefilter of a conditions value, when it has one. -/
def parseConditions (env : NumberEnv) (conditions : Json) : Option ParsedFilter :=
  match conditions with
  | .object obj => if obj.isEmpty then none else (buildGroup env obj 0).1
  | _ => none

/-! ## The command -/

def isSvs (algorithm : String) : Bool := containsSub "SVS".toList algorithm.toUpper.toList

/-- The names `build_ft_search_cmd` binds: those of the KNN clause, and the filter's. -/
def ftSearchParamNames (algorithm hybridPolicy : String) (filter : Option ParsedFilter) :
    List String :=
  let bindsEf := (algorithm.toUpper = "HNSW" || isSvs algorithm) && hybridPolicy ≠ "ADHOC_BF"
  ["vec_param", "K"] ++ (if bindsEf then ["EF"] else []) ++
    (filter.map fun f ↦ f.2.names).getD []

end VectorDbBenchmark.Redis
