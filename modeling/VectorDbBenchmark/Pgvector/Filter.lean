import VectorDbBenchmark.F64Text
import VectorDbBenchmark.TreeTruth
import VectorDbBenchmark.Kit.Numbering
import VectorDbBenchmark.Readers.Metadata

/-!
# The pgvector filter builder

`parse_pg_conditions` renders a conditions value as an SQL template and the values its
placeholders stand for.  The builder's `next_param` counts on from the first placeholder with
each value that is bound; the text of other JSON values is a parameter.
-/

namespace VectorDbBenchmark.Pgvector

open Kit Redis ConditionTree
open Json (isNumber)
open Readers (isMultivaluedKeywordField)

/-- A value that is bound. -/
inductive PgValue where
  | text (s : String)
  | int (i : ℤ)
  | float (f : F64)
  | bool (b : Bool)
  | textArray (ss : List String)
  | intArray (is : List ℤ)
  | floatArray (fs : List F64)
deriving DecidableEq

/-- `FilterBuilder`: what is built is given the number of its first placeholder. -/
abbrev FilterBuilder := Numbering PgValue

/-- `$n`. -/
def placeholder (n : ℕ) : Text := '$' :: digitText n

/-- `bind`. -/
def bindValue (v : PgValue) : FilterBuilder Text := do
  let n ← Numbering.next v
  pure (placeholder n)

/-! ## Texts -/

/-- `"f"`. -/
def columnText (field : String) : Text := '"' :: (field.toList ++ ['"'])

/-- `"f" op operand`. -/
def binaryText (field op : String) (operand : Text) : Text :=
  columnText field ++ ' ' :: (op.toList ++ ' ' :: operand)

/-- `"f" = ANY($n::type[])`. -/
def anyText (field type : String) (ph : Text) : Text :=
  columnText field ++ " = ANY(".toList ++ ph ++ "::".toList ++ type.toList ++ "[])".toList

/-- `string_to_array("f", ';')`. -/
def splitText (field : String) : Text :=
  "string_to_array(".toList ++ columnText field ++ ", ';')".toList

/-- `'…'::timestamptz`. -/
def timestampText (s : String) : Text :=
  '\'' :: (replaceChar '\'' ['\'', '\''] s.toList ++ '\'' :: "::timestamptz".toList)

/-! ## Leaves -/

/-- `u as i64`. -/
def wrapI64 (u : ℕ) : ℤ := (BitVec.ofNat 64 u).toInt

def jsonAsI64 (v : Json) : ℤ := (v.asI64.orElse fun _ ↦ v.asU64.map wrapI64).getD 0

/-- `is_i64() || is_u64()`. -/
def isInteger (v : Json) : Bool := v.asI64.isSome || v.asU64.isSome

def isNull : Json → Bool
  | .null => true
  | _ => false

def buildMatchAny (field : String) (any : List Json) : FilterBuilder Text :=
  if !any.isEmpty && any.all isNumber then
    if any.all isInteger then do
      let ph ← bindValue (.intArray (any.map jsonAsI64))
      pure (anyText field "bigint" ph)
    else do
      let ph ← bindValue (.floatArray (any.map fun v ↦ v.asF64.getD (.fin 0)))
      pure (anyText field "double precision" ph)
  else
    let elems := any.filterMap Json.asStr
    if elems.isEmpty then pure "false".toList
    else do
      let ph ← bindValue (.textArray elems)
      pure (splitText field ++ " && ".toList ++ ph ++ "::text[]".toList)

/-- The value that is bound for a scalar; none is bound for another value. -/
def scalarValue (v : Json) : Option PgValue :=
  match v.asStr with
  | some s => some (.text s)
  | none =>
    match v.asBool with
    | some b => some (.bool b)
    | none => if isInteger v then some (.int (jsonAsI64 v)) else v.asF64.map .float

def buildMatchValue (field : String) (value : Json) : FilterBuilder (List Text) :=
  match scalarValue value with
  | none => pure []
  | some v => do
    let ph ← bindValue v
    if value.asStr.isSome && isMultivaluedKeywordField field then
      pure [ph ++ " = ANY(".toList ++ splitText field ++ [')']]
    else pure [binaryText field "=" ph]

def buildMatch (field : String) (criteria : Json) : FilterBuilder (List Text) :=
  match (criteria.get "any").bind Json.asArray with
  | some any => do
    let clause ← buildMatchAny field any
    pure [clause]
  | none =>
    match criteria.get "value" with
    | some value => buildMatchValue field value
    | none =>
      match (criteria.get "text").bind Json.asStr with
      | none => pure []
      | some text => do
        let ph ← bindValue (.text text)
        pure ["to_tsvector('english', ".toList ++ columnText field ++
          ") @@ plainto_tsquery('english', ".toList ++ ph ++ [')']]

def sqlOp (op : String) : Option String :=
  match op with
  | "lt" => some "<"
  | "gt" => some ">"
  | "lte" => some "<="
  | "gte" => some ">="
  | _ => none

section Leaves

-- `to_string()` of a JSON value.
variable (jsonText : Json → Text)

/-- The clause of a bound that is not null. -/
def buildBound (field op : String) (val : Json) : FilterBuilder Text :=
  match scalarValue val with
  | some (.text s) => pure (binaryText field op (timestampText s))
  | some (.bool _) => pure (binaryText field op (jsonText val))
  | some v => do
    let ph ← bindValue v
    pure (binaryText field op ph)
  | none => pure (binaryText field op (jsonText val))

def buildBounds (field : String) : List (String × Json) → FilterBuilder (List Text)
  | [] => pure []
  | (key, val) :: es =>
    match sqlOp key with
    | none => buildBounds field es
    | some op =>
      if isNull val then buildBounds field es
      else do
        let clause ← buildBound jsonText field op val
        let clauses ← buildBounds field es
        pure (clause :: clauses)

def buildGeo (field : String) (criteria : Json) : List Text :=
  match (criteria.get "lat").bind Json.asF64, (criteria.get "lon").bind Json.asF64,
    (criteria.get "radius").bind Json.asF64 with
  | some lat, some lon, some radius =>
    ["earth_distance(ll_to_earth(split_part(".toList ++ columnText field ++
      ", ',', 1)::float8, split_part(".toList ++ columnText field ++
      ", ',', 2)::float8), ll_to_earth(".toList ++ lat.display ++ ", ".toList ++ lon.display ++
      ")) <= ".toList ++ radius.display]
  | _, _, _ => []

/-- The clauses of one condition on a field. -/
def buildCondition (field conditionType : String) (criteria : Json) : FilterBuilder (List Text) :=
  match conditionType with
  | "match" => buildMatch field criteria
  | "range" =>
    match criteria.asObject with
    | some co => buildBounds jsonText field co
    | none => pure []
  | "geo" => pure (buildGeo field criteria)
  | _ => pure []

def buildConditions (field : String) : List (String × Json) → FilterBuilder (List Text)
  | [] => pure []
  | (conditionType, criteria) :: es => do
    let parts ← buildCondition jsonText field conditionType criteria
    let more ← buildConditions field es
    pure (parts ++ more)

/-- The clauses of an entry, none at all behind a field without an object. -/
def buildFields : List (String × Json) → FilterBuilder (Option (List Text))
  | [] => pure (some [])
  | (field, fieldFilters) :: es =>
    match fieldFilters.asObject with
    | none => pure none
    | some filterObj => do
      let parts ← buildConditions jsonText field filterObj
      let more ← buildFields es
      pure (more.map fun more ↦ parts ++ more)

/-! ## Groups -/

/-- `(clause AND clause)`. -/
def parensAnd (clauses : List Text) : Text :=
  '(' :: (" AND ".toList.intercalate clauses ++ [')'])

/-- `(clause OR clause)`. -/
def parensOr (clauses : List Text) : Text := '(' :: (" OR ".toList.intercalate clauses ++ [')'])

/-- `build_pg_group`, from the clauses of both arrays. -/
def buildPgGroup (ands ors : Option (List Text)) : Option Text :=
  groupText " AND ".toList parensAnd parensOr ands ors

/-- `build_pg_entry`. -/
def pgBuilder : GroupBuilder FilterBuilder Text where
  isGroup obj := containsKey "and" obj || containsKey "or" obj
  other _ := pure []
  leaf obj := do
    let parts ← buildFields jsonText obj
    pure (armText (" AND ".toList.intercalate) parts)
  enter _ _ := pure ()
  leave _ _ := pure ()
  group _ ands ors :=
    pure ((buildPgGroup ands ors).map fun group ↦ '(' :: (group ++ [')'])).toList

def parsePgConditions (conditions : Json) (firstParam : ℕ) : Option (Text × List PgValue) :=
  match conditions.asObject with
  | none => none
  | some obj =>
    if obj.isEmpty then none
    else
      let built := (do
        let ands ← (pgBuilder jsonText).arrayAt "and" obj
        let ors ← (pgBuilder jsonText).arrayAt "or" obj
        pure (buildPgGroup ands ors) : FilterBuilder (Option Text)) firstParam
      built.1.map fun template ↦ (template, built.2)

end Leaves

end VectorDbBenchmark.Pgvector
