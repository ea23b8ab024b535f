import VectorDbBenchmark.Chroma.Filter
import VectorDbBenchmark.TreeTruth
import VectorDbBenchmark.Kit.LastWins
import VectorDbBenchmark.Milvus.Filter
import VectorDbBenchmark.Readers.Metadata

/-!
# The VectorSets filter builder

`build_filter_expression` renders a conditions value as a VSIM filter, and
`metadata_to_attr_json` makes the attributes the filter is evaluated on.  The parsers of
datetimes and floats and the trigonometry of geo points are parameters.
-/

namespace VectorDbBenchmark.Vectorsets

open Kit Redis ConditionTree
open Readers (MetadataItem MetadataValue)

/-- The trigonometry of geo points. -/
structure Sphere where
  /-- `unit_vector(lat, lon)`. -/
  unitVector : F64 → F64 → F64 × F64 × F64
  /-- `cos_central_angle(radius)`. -/
  cosCentralAngle : F64 → F64

/-- `component_field`. -/
def componentField (field axis : String) : String := field ++ "__geo_" ++ axis

/-- The components of a vector, each with its axis. -/
def components (u : F64 × F64 × F64) : List (String × F64) :=
  [("x", u.1), ("y", u.2.1), ("z", u.2.2)]

/-! ## Attributes -/

section Attributes

variable (env : NumberEnv) (sphere : Sphere)

/-- A datetime is stored as its seconds. -/
def encodeStringAttr (value : String) : Json :=
  match env.datetimeToEpochSecs value with
  | some epoch => Json.ofI64 epoch
  | none => .string value

/-- The attributes of a field, three for a geo point. -/
def fieldAttrs (k : String) : MetadataValue → List (String × Json)
  | .geo lon lat =>
    (components (sphere.unitVector lat lon)).map fun c ↦ (componentField k c.1, .ofF64 c.2)
  | .string s => [(k, encodeStringAttr env s)]
  | .int n => [(k, Json.ofI64 n)]
  | .float f => [(k, .ofF64 f)]
  | .labels labels => [(k, .ofStrings labels)]

/-- The attributes of all fields, of which the last of a name stays. -/
def attributes (fields : List (String × MetadataValue)) : List (String × Json) :=
  (fields.flatMap fun e ↦ fieldAttrs env sphere e.1 e.2).foldl (fun m e ↦ insertKey e.1 e.2 m) []

/-- The value that is printed as the attributes of a document. -/
def metadataToAttrJson (item : MetadataItem) : Option Json :=
  if item.fields.isEmpty then none
  else
    let map := attributes env sphere item.fields
    if map.isEmpty then none else some (.object map)

end Attributes

/-! ## Texts -/

/-- `.f`. -/
def selector (field : String) : Text := '.' :: field.toList

def escapeStr (s : Text) : Text := replaceQuote '"' s

/-- `"s"`. -/
def quoted (s : Text) : Text := '"' :: (escapeStr s ++ ['"'])

/-- `.f op operand`. -/
def binaryText (field op : String) (operand : Text) : Text :=
  selector field ++ ' ' :: (op.toList ++ ' ' :: operand)

/-- `"s" in .f`. -/
def memberText (s : Text) (field : String) : Text :=
  quoted s ++ ' ' :: ("in".toList ++ ' ' :: selector field)

/-- `(clause and clause)`. -/
def parensAnd (clauses : List Text) : Text := '(' :: (" and ".toList.intercalate clauses ++ [')'])

/-- `(clause or clause)`. -/
def parensOr (clauses : List Text) : Text := '(' :: (" or ".toList.intercalate clauses ++ [')'])

/-! ## Leaves -/

section Leaves

variable (env : NumberEnv)

def equalityClause (field value : String) : Text :=
  match env.datetimeToEpochSecs value with
  | some epoch => binaryText field "==" (intText epoch)
  | none => binaryText field "==" (quoted value.toList)

def neverMatchClause (field : String) : Text :=
  let operand := quoted "__never_match__".toList
  parensAnd [binaryText field "==" operand, binaryText field "!=" operand]

/-- The equality with a number, if the value is one. -/
def numberClause (field : String) (v : Json) : Option Text :=
  match v.asI64 with
  | some i => some (binaryText field "==" (intText i))
  | none => v.asF64.map fun f ↦ binaryText field "==" f.display

/-- The clause of an item of a list. -/
def anyClause (field : String) (v : Json) : Option Text :=
  match v.asStr with
  | some s =>
    if s.isEmpty then none
    else if field = "labels" then some (memberText s.toList field)
    else some (equalityClause env field s)
  | none => numberClause field v

def buildMatchAnyClause (field : String) (any : List Json) : Text :=
  match any.filterMap (anyClause env field) with
  | [] => neverMatchClause field
  | [clause] => clause
  | clauses => parensOr clauses

/-- The clause of a scalar. -/
def valueClause (field : String) (value : Json) : Option Text :=
  match value.asBool with
  | some b => some (binaryText field "==" (quoted (if b then "true" else "false").toList))
  | none =>
    match value.asStr with
    | some s => some (equalityClause env field s)
    | none => numberClause field value

def buildMatchClause (field : String) (criteria : Json) : Option Text :=
  match (criteria.get "any").bind Json.asArray with
  | some any => some (buildMatchAnyClause env field any)
  | none =>
    match (criteria.get "text").bind Json.asStr with
    | some text =>
      let trimmed := trim text.toList
      if trimmed.isEmpty then some (neverMatchClause field) else some (memberText trimmed field)
    | none => (criteria.get "value").bind (valueClause env field)

def finiteLiteral (f : F64) : Option Text := if f.isFinite then some f.display else none

def numberLiteral (value : Json) : Option Text :=
  match value.asI64 with
  | some i => some (intText i)
  | none =>
    match value.asF64 with
    | some f => finiteLiteral f
    | none =>
      match value.asStr with
      | none => none
      | some s =>
        match env.datetimeToEpochSecs s with
        | some epoch => some (intText epoch)
        | none =>
          match parseI64 s.toList with
          | some i => some (intText i)
          | none => (env.parseF64 s).bind finiteLiteral

def boundOps : List (String × String) := [("gt", ">"), ("gte", ">="), ("lt", "<"), ("lte", "<=")]

/-- The clauses of the bounds that have a literal. -/
def boundClauses (field : String) (criteria : Json) : List Text :=
  boundOps.filterMap fun k ↦
    ((criteria.get k.1).bind (numberLiteral env)).map (binaryText field k.2)

def buildRangeClause (field : String) (criteria : Json) : Option Text :=
  match boundClauses env field criteria with
  | [] => none
  | [clause] => some clause
  | clauses => some (parensAnd clauses)

variable (sphere : Sphere)

/-- `query_terms`. -/
def queryTerms (criteria : Json) : Option ((F64 × F64 × F64) × F64) :=
  let num k := ((criteria.get k).bind Json.asF64).filter F64.isFinite
  match num "lat", num "lon", num "radius" with
  | some lat, some lon, some radius =>
    if radius.lt (.fin 0) then none
    else some (sphere.unitVector lat lon, sphere.cosCentralAngle radius)
  | _, _, _ => none

/-- `plain_decimal`. -/
def plainDecimal : F64 → Text
  | .fin q => Milvus.plainDecimal q
  | f => f.display

/-- `cap_expression`, with the components as attributes. -/
def capExpression (field : String) (criteria : Json) : Option Text :=
  (queryTerms sphere criteria).map fun (q, cosTheta) ↦
    let terms := (components q).map fun c ↦
      selector (componentField field c.1) ++ " * ".toList ++ plainDecimal c.2
    '(' :: (" + ".toList.intercalate terms ++ ") >= ".toList ++ plainDecimal cosTheta)

def buildClause (field conditionType : String) (criteria : Json) : Option Text :=
  match conditionType with
  | "match" => buildMatchClause env field criteria
  | "range" => buildRangeClause env field criteria
  | "geo" => capExpression sphere field criteria
  | _ => none

/-! ## Groups -/

/-- An array under `and` or `or`. -/
def isGroupKey (e : String × Json) : Bool :=
  (e.1 = "and" || e.1 = "or") && e.2.asArray.isSome

/-- The clauses of the operations on fields, all but the arrays of a group. -/
def fieldClauses (obj : List (String × Json)) : List Text :=
  (fieldLeaves (obj.filter fun e ↦ !isGroupKey e)).filterMap fun l ↦
    buildClause env sphere l.field l.op l.criteria

/-- `build_group`, from the clauses of both arrays. -/
def buildGroup (ands ors : Option (List Text)) : Option Text :=
  groupText " and ".toList (" and ".toList.intercalate) parensOr ands ors

/-- `build_clauses`. -/
def clauseBuilder : GroupBuilder Id Text where
  isGroup obj := obj.any isGroupKey
  other _ := []
  leaf obj := fieldClauses env sphere obj
  enter _ _ := ⟨⟩
  leave _ _ := ⟨⟩
  group obj ands ors :=
    ((buildGroup ands ors).map fun expr ↦ '(' :: (expr ++ [')'])).toList ++
      fieldClauses env sphere obj

def buildFilterExpression (conditions : Json) : Option Text :=
  match conditions.asObject with
  | none => none
  | some obj =>
    if obj.isEmpty then none
    else
      buildGroup ((clauseBuilder env sphere).arrayAt "and" obj)
        ((clauseBuilder env sphere).arrayAt "or" obj)

end Leaves

end VectorDbBenchmark.Vectorsets
