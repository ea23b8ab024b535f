import VectorDbBenchmark.ConditionParts
import VectorDbBenchmark.ConditionTree
import VectorDbBenchmark.F64Text
import VectorDbBenchmark.Kit.Splicing

/-!
# The Qdrant filter builder

`parse_qdrant_conditions` of the Qdrant engine: a conditions value becomes a filter, or an
error when a part of it cannot be built.  The server reads a filter as an and/or tree of
conditions on the values under a field, and some leaves of a conditions value have no condition
that means the same.  The datetime and float parsers and the text of JSON values are parameters.
-/

namespace VectorDbBenchmark.Qdrant

open Kit Redis ConditionTree

/-- Seconds since the epoch, and nanoseconds. -/
structure Timestamp where
  seconds : ℤ
  nanos : ℤ
deriving DecidableEq

structure Env where
  numbers : NumberEnv
  /-- `chrono`'s parser of RFC 3339 timestamps. -/
  rfc3339 : String → Option Timestamp
  /-- `Display` of a JSON value. -/
  display : Json → String
  /-- `x as f32`. -/
  asF32 : F64 → F64

/-! ## Filters -/

inductive MatchValue where
  | keyword (s : String)
  | integer (i : ℤ)
  | text (s : String)
  | keywords (ss : List String)
  | integers (is : List ℤ)

/-- Bounds, by the names of their keys. -/
structure Bounds (α : Type) where
  lt : Option α
  gt : Option α
  gte : Option α
  lte : Option α

inductive FieldCondition where
  | matches (field : String) (value : MatchValue)
  | range (field : String) (bounds : Bounds F64)
  | datetimeRange (field : String) (bounds : Bounds Timestamp)
  | geoRadius (field : String) (lat lon radius : F64)

inductive Condition where
  | field (c : FieldCondition)
  | filter (must should : List Condition)

structure Filter where
  must : List Condition
  should : List Condition

/-- Why something cannot be expressed. -/
def unrepresentable (what detail : String) : String :=
  s!"Qdrant cannot express {what}: {detail}. Running it would search with fewer constraints " ++
    "than the config asked for while the recall is scored against filtered ground truth " ++
    "(#219) — fix the dataset/config instead."

/-! ## Timestamps -/

/-- A fraction of a second in nanoseconds, as computed with floats. -/
def fractionNanos (fraction : ℚ) : ℤ :=
  match F64.ofRat fraction with
  | .fin x =>
    match F64.ofRat (x * 1000000000) with
    | .fin y => max 0 (min 999999999 ⌊y + 1 / 2⌋)
    | _ => 999999999
  | _ => 0

def parseRfc3339Timestamp (env : Env) (s : String) : Option Timestamp :=
  match env.rfc3339 s with
  | some t => some t
  | none =>
    match env.numbers.datetimeToEpochSecs s with
    | some secs => some ⟨secs, 0⟩
    | none =>
      match parseI64 s.toList with
      | some n => some ⟨n, 0⟩
      | none =>
        match env.numbers.parseF64 s with
        | some (.fin q) => some ⟨max (-2 ^ 63) (min (2 ^ 63 - 1) ⌊q⌋), fractionNanos (q - ⌊q⌋)⟩
        | _ => none

/-! ## Leaves -/

section Leaves

variable (env : Env) (field conditionType : String)

/-- What a leaf is, for error messages. -/
def what : String := s!"`{conditionType}` on field `{field}`"

/-- A leaf that cannot be expressed. -/
def refuse {α : Type} (detail : String) : Except String α :=
  .error (unrepresentable (what field conditionType) detail)

def matchKeys : List String := ["any", "text", "value"]

def boundNames : List String := ["lt", "gt", "lte", "gte"]

def boolToken (v : Json) : String := if v.asBool = some true then "true" else "false"

/-- The value of a list of alternatives, which are all of one kind. -/
def matchAny (criteria any : Json) : Except String MatchValue :=
  match any.asArray with
  | none => refuse field conditionType s!"`any` must be a list, got {env.display any}"
  | some vs =>
    if !vs.isEmpty && vs.all (fun v ↦ v.asI64.isSome) then .ok (.integers (vs.filterMap Json.asI64))
    else if !vs.isEmpty && vs.all (fun v ↦ v.asBool.isSome) then .ok (.keywords (vs.map boolToken))
    else if !vs.all (fun v ↦ v.asStr.isSome) then
      refuse field conditionType ("`any` must be a homogeneous list of strings, integers or " ++
        s!"booleans; got {env.display criteria}. Qdrant's MatchValue has no float variant and " ++
        "its list variants are homogeneous, so this list cannot be sent as one MatchAny")
    else .ok (.keywords (vs.filterMap Json.asStr))

def matchText (text : Json) : Except String MatchValue :=
  match text.asStr with
  | none => refuse field conditionType s!"`text` must be a string, got {env.display text}"
  | some s => .ok (.text s)

def matchExact (value : Json) : Except String MatchValue :=
  match value with
  | .string s => .ok (.keyword s)
  | .bool _ => .ok (.keyword (boolToken value))
  | value =>
    match value.asI64 with
    | some n => .ok (.integer n)
    | none =>
      refuse field conditionType ("`value` must be a string, integer or bool — Qdrant's " ++
        s!"MatchValue has no float or array variant; got {env.display value}")

/-- The first key that is not expected. -/
def unknownKey (known : List String) (obj : List (String × Json)) : Option (String × Json) :=
  obj.find? fun e ↦ !known.contains e.1

def buildMatch (criteria : Json) : Except String MatchValue :=
  match criteria.asObject with
  | none =>
    refuse field conditionType ("expected an object (\x7b\"value\": …\x7d / \x7b\"any\": " ++
      "[...]\x7d / \x7b\"text\": …\x7d), got " ++ env.display criteria)
  | some obj =>
    match unknownKey matchKeys obj with
    | some (k, _) =>
      refuse field conditionType s!"unknown match key `{k}` (expected any / text / value)"
    | none =>
      match Json.getEntry "any" obj with
      | some any => matchAny env field conditionType criteria any
      | none =>
        match Json.getEntry "text" obj with
        | some text => matchText env field conditionType text
        | none =>
          match Json.getEntry "value" obj with
          | some value => matchExact env field conditionType value
          | none =>
            refuse field conditionType s!"no any / text / value key in {env.display criteria}"

/-- A bound that may be missing or `null`, and is read otherwise. -/
def optionalBound {α : Type} (read : String → Json → Except String α)
    (obj : List (String × Json)) (k : String) : Except String (Option α) :=
  match Json.getEntry k obj with
  | none | some .null => .ok none
  | some v => (read k v).map some

def numberBound (k : String) (v : Json) : Except String F64 :=
  match v.asF64 with
  | some x => .ok x
  | none => refuse field conditionType s!"bound `{k}` is not a number: {env.display v}"

def datetimeBound (k : String) (v : Json) : Except String Timestamp :=
  match v.asStr.bind (parseRfc3339Timestamp env) with
  | some t => .ok t
  | none =>
    .error (s!"Qdrant datetime range on field `{field}` has an unparseable `{k}` bound: " ++
      s!"{env.display v}. Expected an RFC-3339 timestamp (e.g. 2023-01-01T00:00:00Z); emitting " ++
      "the range without it would match everything.")

/-- Whether a bound is a string, so that the range is one of datetimes. -/
def isDatetime (obj : List (String × Json)) : Bool :=
  boundNames.any fun k ↦ ((Json.getEntry k obj).bind Json.asStr).isSome

def datetimeBounds (obj : List (String × Json)) : Except String (Bounds Timestamp) := do
  let lt ← optionalBound (datetimeBound env field) obj "lt"
  let gt ← optionalBound (datetimeBound env field) obj "gt"
  let gte ← optionalBound (datetimeBound env field) obj "gte"
  let lte ← optionalBound (datetimeBound env field) obj "lte"
  .ok ⟨lt, gt, gte, lte⟩

def numericBounds (obj : List (String × Json)) : Except String (Bounds F64) := do
  let lt ← optionalBound (numberBound env field conditionType) obj "lt"
  let gt ← optionalBound (numberBound env field conditionType) obj "gt"
  let lte ← optionalBound (numberBound env field conditionType) obj "lte"
  let gte ← optionalBound (numberBound env field conditionType) obj "gte"
  .ok ⟨lt, gt, gte, lte⟩

def buildRange (criteria : Json) : Except String FieldCondition :=
  match criteria.asObject with
  | none =>
    refuse field conditionType
      s!"expected an object of lt/gt/lte/gte bounds, got {env.display criteria}"
  | some obj =>
    match unknownKey boundNames obj with
    | some (k, _) =>
      refuse field conditionType s!"unknown range operator `{k}` (expected lt / gt / lte / gte)"
    | none =>
      if isDatetime obj then (datetimeBounds env field obj).map (.datetimeRange field)
      else do
        let range ← numericBounds env field conditionType obj
        if range.lt.isNone && range.gt.isNone && range.lte.isNone && range.gte.isNone then
          refuse field conditionType
            s!"no bound at all in {env.display criteria} — an empty Range matches everything"
        else .ok (.range field range)

def buildGeo (criteria : Json) : Except String FieldCondition :=
  match (criteria.get "lat").bind Json.asF64, (criteria.get "lon").bind Json.asF64 with
  | some lat, some lon =>
    let radius := ((criteria.get "radius").bind Json.asF64).getD (.fin 1000)
    .ok (.geoRadius field lat lon (env.asF32 radius))
  | _, _ =>
    refuse field conditionType s!"requires numeric `lat` and `lon`, got {env.display criteria}"

def buildQdrantFilter (criteria : Json) : Except String FieldCondition :=
  match conditionType with
  | "match" => (buildMatch env field conditionType criteria).map (.matches field)
  | "range" => buildRange env field conditionType criteria
  | "geo" => buildGeo env field conditionType criteria
  | _ =>
    refuse field conditionType "unsupported operator (Qdrant supports match / range / geo)"

end Leaves

/-! ## Groups -/

section Groups

variable (env : Env)

/-- The conditions of the operations on a field. -/
def buildOps (field : String) : List (String × Json) → Except String (List Condition)
  | [] => .ok []
  | (condType, criteria) :: ops => do
    let c ← buildQdrantFilter env field condType criteria
    let cs ← buildOps field ops
    .ok (.field c :: cs)

def buildFields : List (String × Json) → Except String (List Condition)
  | [] => .ok []
  | (field, fieldFilters) :: es =>
    match fieldFilters.asObject with
    | none =>
      .error (unrepresentable s!"filter on field `{field}`"
        ("expected \x7bop: criteria\x7d (e.g. \x7b\"match\": \x7b\"value\": …\x7d\x7d), got " ++
          env.display fieldFilters))
    | some ops =>
      if ops.isEmpty then
        .error (unrepresentable s!"filter on field `{field}`" "it names no operator")
      else do
        let cs ← buildOps env field ops
        let rest ← buildFields es
        .ok (cs ++ rest)

def checkArm (key : String) (v : Json) : Except String PUnit :=
  match v.asArray with
  | none =>
    .error (unrepresentable s!"`{key}` group {env.display v}" "expected an array of clauses")
  | some entries =>
    if entries.isEmpty then
      .error (unrepresentable s!"`{key}` group" "it is empty, so the arm constrains nothing")
    else .ok ⟨⟩

def checkConditions (key : String) (conds : List Condition) : Except String PUnit :=
  if conds.isEmpty then .error (unrepresentable s!"`{key}` group" "it produced no condition")
  else .ok ⟨⟩

/-- The filter of the two arms, of which there must be one. -/
def filterOfArms (must should : Option (List Condition)) : Option Filter :=
  if must.isNone && should.isNone then none else some ⟨must.getD [], should.getD []⟩

/-- `build_qdrant_subfilters`. -/
def qdrantBuilder : GroupBuilder (Except String) Condition where
  isGroup obj := containsKey "and" obj || containsKey "or" obj
  other entry :=
    .error (unrepresentable s!"filter clause {env.display entry}"
      "expected an object like \x7b\"field\": \x7b\"op\": criteria\x7d\x7d")
  leaf obj :=
    if obj.isEmpty then
      .error (unrepresentable "an empty filter clause \x7b\x7d" "it names no field")
    else buildFields env obj
  enter key v := checkArm env key v
  leave key conds := checkConditions key conds
  group obj must should :=
    match filterOfArms must should with
    | some f => .ok [.filter f.must f.should]
    | none =>
      .error (unrepresentable s!"nested filter group {env.display (.object obj)}"
        "it produced no condition")

def parseQdrantConditions (conditions : Json) : Except String (Option Filter) :=
  match conditions.asObject with
  | none => .ok none
  | some obj =>
    if obj.isEmpty then .ok none
    else do
      let must ← (qdrantBuilder env).arrayAt "and" obj
      let should ← (qdrantBuilder env).arrayAt "or" obj
      .ok (filterOfArms must should)

end Groups

/-! ## Payloads -/

inductive PayloadValue where
  | string (s : String)
  | integer (i : ℤ)
  | float (x : F64)
deriving DecidableEq

/-- The values under each field: its own, or the elements of its array. -/
abbrev Payload := String → List PayloadValue

/-- What the server finds in strings, and whether a field holds a point near another. -/
structure Server where
  hasText : String → String → Bool
  instant : String → Option Timestamp
  near : F64 → F64 → F64 → List PayloadValue → Bool

def Timestamp.lt (a b : Timestamp) : Bool :=
  a.seconds < b.seconds || (a.seconds = b.seconds && a.nanos < b.nanos)

def Timestamp.le (a b : Timestamp) : Bool :=
  a.seconds < b.seconds || (a.seconds = b.seconds && a.nanos ≤ b.nanos)

namespace PayloadValue

def number : PayloadValue → Option F64
  | string _ => none
  | integer i => some (.fin i)
  | float x => some x

def text : PayloadValue → Option String
  | string s => some s
  | _ => none

end PayloadValue

/-! ## Filters -/

def MatchValue.key : MatchValue → String
  | keyword _ | integer _ => "value"
  | text _ => "text"
  | keywords _ | integers _ => "any"

def MatchValue.holds (S : Server) (x : PayloadValue) : MatchValue → Bool
  | keyword s => x = .string s
  | integer i => x = .integer i
  | text t => x.text.any (S.hasText t)
  | keywords ss => ss.any fun s ↦ x = .string s
  | integers is => is.any fun i ↦ x = .integer i

namespace Bounds

variable {α : Type} (b : Bounds α)

def get (key : String) : Option α :=
  match key with
  | "lt" => b.lt
  | "gt" => b.gt
  | "gte" => b.gte
  | "lte" => b.lte
  | _ => none

def keys : List String := boundNames.filter fun k ↦ (b.get k).isSome

end Bounds

/-- Whether a value is on the right side of a bound. -/
def within {α : Type} (lt le : α → α → Bool) (x : α) (key : String) (bound : α) : Bool :=
  match key with
  | "lt" => lt x bound
  | "gt" => lt bound x
  | "gte" => le bound x
  | "lte" => le x bound
  | _ => false

/-- Whether a value satisfies all bounds. -/
def Bounds.holds {α : Type} (lt le : α → α → Bool) (b : Bounds α) (x : α) : Bool :=
  boundNames.all fun k ↦ (b.get k).all (within lt le x k)

namespace FieldCondition

def fieldName : FieldCondition → String
  | .matches field _ | range field _ | datetimeRange field _ | geoRadius field _ _ _ => field

def op : FieldCondition → String
  | .matches _ _ => "match"
  | range _ _ | datetimeRange _ _ => "range"
  | geoRadius _ _ _ _ => "geo"

def keys : FieldCondition → List String
  | .matches _ value => [value.key]
  | range _ bounds => bounds.keys
  | datetimeRange _ bounds => bounds.keys
  | geoRadius _ _ _ _ => ["lat", "lon", "radius"]

def holds (S : Server) (p : Payload) : FieldCondition → Bool
  | .matches field value => (p field).any fun x ↦ value.holds S x
  | range field bounds => (p field).any fun x ↦ x.number.any (bounds.holds F64.lt F64.le)
  | datetimeRange field bounds =>
    (p field).any fun x ↦ (x.text.bind S.instant).any (bounds.holds Timestamp.lt Timestamp.le)
  | geoRadius field lat lon radius => S.near lat lon radius (p field)

end FieldCondition

/-- At least one of the alternatives, if there are any. -/
def alternatives {L : Type} (ts : List (BoolTree L)) : List (BoolTree L) :=
  if ts.isEmpty then [] else [.any ts]

mutual

/-- A filter holds when all of `must` and, if there are any, one of `should` hold. -/
def Condition.tree : Condition → BoolTree FieldCondition
  | .field c => .leaf c
  | .filter must should => .all (conditionTrees must ++ alternatives (conditionTrees should))

def conditionTrees : List Condition → List (BoolTree FieldCondition)
  | [] => []
  | c :: cs => c.tree :: conditionTrees cs

end

def Filter.tree (f : Filter) : BoolTree FieldCondition := (Condition.filter f.must f.should).tree

/-! ## What the leaves mean -/

/-- The payload value that a scalar is stored as; booleans are texts. -/
def payloadValue : Json → Option PayloadValue
  | .string s => some (.string s)
  | .bool b => some (.string (if b then "true" else "false"))
  | .number n => (n.asI64.map .integer).or (n.asF64.map .float)
  | _ => none

/-- Whether one of the values under a field satisfies a criterion of a match. -/
def criterionHolds (S : Server) (xs : List PayloadValue) (key : String) (v : Json) : Bool :=
  match key with
  | "any" => xs.any fun x ↦ v.asArray.any fun vs ↦ vs.any fun e ↦ payloadValue e = some x
  | "text" => xs.any fun x ↦ v.asStr.any fun t ↦ x.text.any (S.hasText t)
  | "value" => xs.any fun x ↦ payloadValue v = some x
  | _ => false

/-- A bound that is there and is not `null`. -/
def given (obj : List (String × Json)) (key : String) : Option Json :=
  match Json.getEntry key obj with
  | some .null => none
  | v => v

/-- Whether a value satisfies all bounds that are given. -/
def boundsHold {α : Type} (read : Json → Option α) (lt le : α → α → Bool)
    (obj : List (String × Json)) (x : α) : Bool :=
  boundNames.all fun k ↦ (given obj k).all fun v ↦ (read v).any (within lt le x k)

def exactNumber : Json → Option F64
  | .number n => some (.fin n.value)
  | _ => none

def rangeHolds (env : Env) (S : Server) (xs : List PayloadValue) (obj : List (String × Json)) :
    Bool :=
  if isDatetime obj then
    xs.any fun x ↦ (x.text.bind S.instant).any
      (boundsHold (fun v ↦ v.asStr.bind (parseRfc3339Timestamp env)) Timestamp.lt Timestamp.le obj)
  else xs.any fun x ↦ x.number.any (boundsHold exactNumber F64.lt F64.le obj)

/-- The truth of a leaf. -/
def leafHolds (env : Env) (S : Server) (p : Payload) (l : Leaf) : Bool :=
  l.criteria.asObject.any fun obj ↦
    match l.op with
    | "match" => obj.all fun e ↦ criterionHolds S (p l.field) e.1 e.2
    | "range" => rangeHolds env S (p l.field) obj
    | _ => false

/-- The keys of a leaf's criteria that ask for something: those of a match, the bounds that
are given, and whatever is no bound. -/
def leafKeys (l : Leaf) : List String :=
  match l.criteria.asObject with
  | none => []
  | some obj =>
    if l.op = "range" then
      boundNames.filter (fun k ↦ (given obj k).isSome) ++
        (obj.map Prod.fst).filter fun k ↦ !boundNames.contains k
    else obj.map Prod.fst

/-- A condition has a place for every part of a leaf. -/
structure Represents (c : FieldCondition) (l : Leaf) : Prop where
  field : c.fieldName = l.field
  op : c.op = l.op
  keys : c.keys = leafKeys l

/-- A leaf without a circle, with bounds that are floats. -/
structure Plain (l : Leaf) : Prop where
  notGeo : l.op ≠ "geo"
  exactBounds : ∀ k ∈ boundNames, ∀ n, l.criteria.get k = some (.number n) →
    n.asF64 = some (.fin n.value)

/-- A match with one criterion, or a range. -/
def Whole (l : Leaf) : Prop :=
  (l.op = "match" ∧ ∃ key v, l.criteria = .object [(key, v)]) ∨ l.op = "range"

end VectorDbBenchmark.Qdrant
