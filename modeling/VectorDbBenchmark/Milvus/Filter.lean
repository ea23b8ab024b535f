import VectorDbBenchmark.ConditionTree
import VectorDbBenchmark.F64Text
import VectorDbBenchmark.Readers.Metadata

/-!
# The Milvus filter builder

`parse_milvus_conditions` renders a conditions value as a boolean expression with inlined
operands.  The datetime parser and the text of JSON numbers are parameters.
-/

namespace VectorDbBenchmark.Milvus

open Kit Redis ConditionTree
open Readers (isMultivaluedKeywordField)

/-- What the builder takes from elsewhere. -/
structure Env where
  /-- `datetime_to_epoch_secs(s)`, cast to `i64`. -/
  datetimeToEpochSecs : String → Option ℤ
  /-- `to_string()` of a JSON number. -/
  numberText : Number → Text

/-! ## Texts -/

def quoteMilvusString (s : String) : Text := quoteWith '"' s.toList

/-- `field op operand`. -/
def binaryText (field op : String) (operand : Text) : Text :=
  field.toList ++ ' ' :: (op.toList ++ ' ' :: operand)

/-- `function(field, argument)`. -/
def callText (function field : String) (argument : Text) : Text :=
  function.toList ++ '(' :: (field.toList ++ ',' :: ' ' :: (argument ++ [')']))

/-- `[item, item]`. -/
def listText (items : List Text) : Text := '[' :: ([',', ' '].intercalate items ++ [']'])

/-- `(clause && clause)`. -/
def parensAnd (clauses : List Text) : Text :=
  '(' :: (" && ".toList.intercalate clauses ++ [')'])

/-- `(clause || clause)`. -/
def parensOr (clauses : List Text) : Text := '(' :: (" || ".toList.intercalate clauses ++ [')'])

/-! ## Leaves -/

section Leaves

variable (env : Env)

/-- An item of an IN-list; what is neither a string nor a number is skipped. -/
def anyItem : Json → Option Text
  | .string s => some (quoteMilvusString s)
  | .number n => some (env.numberText n)
  | _ => none

/-- The literal of a bound: a number, or a datetime as seconds. -/
def boundLiteral : Json → Option Text
  | .number n => some (env.numberText n)
  | .string s => (env.datetimeToEpochSecs s).map intText
  | _ => none

def boundOps : List (String × String) := [("lt", "<"), ("gt", ">"), ("lte", "<="), ("gte", ">=")]

def buildMatch (field : String) (criteria : Json) : Option Text :=
  let multivalued := isMultivaluedKeywordField field
  match (criteria.get "any").bind Json.asArray with
  | some any =>
    let items := any.filterMap (anyItem env)
    if multivalued then some (callText "array_contains_any" field (listText items))
    else some (binaryText field "in" (listText items))
  | none =>
    match (criteria.get "text").bind Json.asStr with
    | some text => some (callText "TEXT_MATCH" field (quoteMilvusString text))
    | none =>
      match criteria.get "value" with
      | some (.string s) =>
        if multivalued then some (callText "array_contains" field (quoteMilvusString s))
        else some (binaryText field "==" (quoteMilvusString s))
      | some (.number n) =>
        if multivalued then none else some (binaryText field "==" (env.numberText n))
      | some (.bool b) =>
        if multivalued then none
        else some (binaryText field "==" (if b then "true" else "false").toList)
      | _ => none

/-- The clauses of the bounds that are given and have a literal. -/
def boundClauses (field : String) (obj : List (String × Json)) : List Text :=
  boundOps.filterMap fun k ↦
    ((Json.getEntry k.1 obj).bind (boundLiteral env)).map (binaryText field k.2)

def buildRange (field : String) (criteria : Json) : Option Text :=
  match criteria.asObject with
  | none => none
  | some obj =>
    let clauses := boundClauses env field obj
    if clauses.isEmpty then none else some (parensAnd clauses)

/-- `format!("{v:.p$}")`. -/
def fixedText (q : ℚ) (p : ℕ) : Text :=
  let magnitude := magnitudeText (roundEven (|q| * 10 ^ p)).toNat p
  if q < 0 then '-' :: magnitude else magnitude

/-- `geo::plain_decimal`: as few decimals as are read back as the number. -/
def plainDecimal (q : ℚ) : Text :=
  if q = 0 then "0.0".toList
  else
    (((List.range 340).map fun p ↦ fixedText q (p + 1)).find? fun t ↦
      F64.parse t = some (.fin q)).getD (fixedText q 340)

def buildGeo (field : String) (criteria : Json) : Option Text :=
  match (criteria.get "lon").bind Json.asF64, (criteria.get "lat").bind Json.asF64,
    (criteria.get "radius").bind Json.asF64 with
  | some (.fin lon), some (.fin lat), some (.fin radius) =>
    if radius < 0 then none
    else
      some ("ST_DWITHIN(".toList ++ field.toList ++ ", 'POINT(".toList ++ plainDecimal lon ++
        ' ' :: plainDecimal lat ++ ")', ".toList ++ plainDecimal radius ++ [')'])
  | _, _, _ => none

def buildMilvusFilter (field conditionType : String) (criteria : Json) : Option Text :=
  match conditionType with
  | "match" => buildMatch env field criteria
  | "range" => buildRange env field criteria
  | "geo" => buildGeo field criteria
  | _ => none

end Leaves

/-! ## Groups -/

/-- Clauses that must all hold. -/
def joinAnd (clauses : List Text) : Option Text :=
  if clauses.isEmpty then none else some (" && ".toList.intercalate clauses)

/-- The group of a conditions value from what is built of its arrays. -/
def groupText (ands ors : Option (List Text)) : Option Text :=
  let andFilters := ands.getD []
  let orFilters := ors.getD []
  joinAnd ((if andFilters.isEmpty then [] else [parensAnd andFilters]) ++
    if orFilters.isEmpty then [] else [parensOr orFilters])

/-- `build_milvus_entry_filter`. -/
def milvusBuilder (env : Env) : GroupBuilder Id Text where
  isGroup obj := containsKey "and" obj || containsKey "or" obj
  other _ := []
  leaf obj :=
    (joinAnd ((fieldLeaves obj).filterMap fun l ↦
      buildMilvusFilter env l.field l.op l.criteria)).toList
  enter _ _ := ⟨⟩
  leave _ _ := ⟨⟩
  group _ ands ors := ((groupText ands ors).map fun f ↦ '(' :: (f ++ [')'])).toList

def parseMilvusConditions (env : Env) (conditions : Json) : Option Text :=
  match conditions.asObject with
  | none => none
  | some obj =>
    if obj.isEmpty then none
    else groupText ((milvusBuilder env).arrayAt "and" obj) ((milvusBuilder env).arrayAt "or" obj)

end VectorDbBenchmark.Milvus
