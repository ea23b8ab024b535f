import VectorDbBenchmark.ConditionTree
import VectorDbBenchmark.JsonFields

/-!
# The Chroma filter builders

`build_chroma_where` and `build_chroma_where_document` of the Chroma engine: the same
conditions value becomes a metadata filter and a full-text filter.  The datetime parser is a
parameter.
-/

namespace VectorDbBenchmark.Chroma

open Kit Redis ConditionTree
open Json (isNumber)

/-! ## Geo leaves -/

mutual

/-- `conditions_mention_geo`: whether a field has a `geo` operation, at any depth. -/
def conditionsMentionGeo : Json → Bool
  | .object obj => entriesMentionGeo obj
  | .array items => itemsMentionGeo items
  | _ => false

def entriesMentionGeo : List (String × Json) → Bool
  | [] => false
  | (_, v) :: es =>
    v.asObject.any (containsKey "geo") || conditionsMentionGeo v || entriesMentionGeo es

def itemsMentionGeo : List Json → Bool
  | [] => false
  | v :: vs => conditionsMentionGeo v || itemsMentionGeo vs

end

/-! ## Groups -/

/-- `combine`: operands under `$and` or `$or`, a single one bare. -/
def combine (ops : List Json) (key : String) : Option Json :=
  match ops with
  | [] => none
  | [op] => some op
  | ops => some (.object [(key, .array ops)])

/-- The operands of the two groups, which are combined with `$and` again. -/
def combineGroups (andOps orOps : Option (List Json)) : Option Json :=
  combine ((andOps.bind (combine · "$and")).toList ++ (orOps.bind (combine · "$or")).toList) "$and"

/-! ## Leaves -/

/-- `{field: {op: operand}}`. -/
def clause (field op : String) (operand : Json) : Json := .object [(field, .object [(op, operand)])]

def isString (v : Json) : Bool := v.asStr.isSome

section Where

variable (env : NumberEnv)

/-- The literal of a bound: a number, or a datetime as seconds. -/
def bound : Json → Option Json
  | .number n => some (.number n)
  | .string s => (env.datetimeToEpochSecs s).map Json.ofI64
  | _ => none

/-- The keys of bounds and their operators. -/
def boundOps : List (String × String) :=
  [("lt", "$lt"), ("gt", "$gt"), ("lte", "$lte"), ("gte", "$gte")]

/-- The clause of a bound, which may be missing or `null`. -/
def boundClause (field : String) (obj : List (String × Json)) (k : String × String) : Option Json :=
  match Json.getEntry k.1 obj with
  | none | some .null => none
  | some b => (bound env b).map (clause field k.2)

def buildChromaLeaf (field condType : String) (criteria : Json) : Option Json :=
  match condType with
  | "match" =>
    match (criteria.get "any").bind Json.asArray with
    | some any =>
      some (clause field "$in" (.array (any.filter fun v ↦ isString v || isNumber v)))
    | none =>
      if (criteria.get "text").isSome then none
      else
        match criteria.get "value" with
        | none => none
        | some value =>
          if isString value || isNumber value || value.asBool.isSome then
            some (clause field "$eq" value)
          else none
  | "range" =>
    match criteria.asObject with
    | none => none
    | some obj => combine (boundOps.filterMap (boundClause env field obj)) "$and"
  | "geo" => none
  | _ => none

/-- The group of a conditions value from what is built of its arrays. -/
def whereGroup (obj : List (String × Json)) (andOps orOps : Option (List Json)) : Option Json :=
  if obj.isEmpty then none
  else if conditionsMentionGeo (.object obj) then none
  else combineGroups andOps orOps

/-- `build_chroma_entry`. -/
def whereBuilder : GroupBuilder Id Json where
  isGroup obj := containsKey "and" obj || containsKey "or" obj
  other _ := []
  leaf obj :=
    let ops := (fieldLeaves obj).filterMap fun l ↦ buildChromaLeaf env l.field l.op l.criteria
    (combine ops "$and").toList
  enter _ _ := ⟨⟩
  leave _ _ := ⟨⟩
  group obj andOps orOps := (whereGroup obj andOps orOps).toList

def buildChromaWhere (conditions : Json) : Option Json :=
  match conditions.asObject with
  | none => none
  | some obj =>
    whereGroup obj ((whereBuilder env).arrayAt "and" obj) ((whereBuilder env).arrayAt "or" obj)

end Where

/-- `{"$contains": text}` of the text match on a field. -/
def containsClause : Json → Option Json
  | .object fo => do
    let m ← Json.getEntry "match" fo
    let t ← m.get "text"
    let text ← t.asStr
    some (.object [("$contains", .string text)])
  | _ => none

def whereDocumentGroup (obj : List (String × Json)) (andOps orOps : Option (List Json)) :
    Option Json :=
  if conditionsMentionGeo (.object obj) then none else combineGroups andOps orOps

/-- `where_document_entry`. -/
def whereDocumentBuilder : GroupBuilder Id Json where
  isGroup obj := containsKey "and" obj || containsKey "or" obj
  other _ := []
  leaf obj := (combine (obj.filterMap fun e ↦ containsClause e.2) "$and").toList
  enter _ _ := ⟨⟩
  leave _ _ := ⟨⟩
  group obj andOps orOps := (whereDocumentGroup obj andOps orOps).toList

def buildChromaWhereDocument (conditions : Json) : Option Json :=
  match conditions.asObject with
  | none => none
  | some obj =>
    whereDocumentGroup obj (whereDocumentBuilder.arrayAt "and" obj)
      (whereDocumentBuilder.arrayAt "or" obj)

/-! ## What the server reads -/

section Read

variable {α : Type} (atom : List (String × Json) → Option α)

mutual

/-- A filter: operands under `$and` or `$or`, or an atom. -/
def readFilter : Json → Option (BoolTree α)
  | .object es => readEntries es
  | _ => none

def readEntries : List (String × Json) → Option (BoolTree α)
  | [(key, v)] => readEntry key v
  | es => (atom es).map .leaf

def readEntry (key : String) : Json → Option (BoolTree α)
  | .array vs =>
    if key = "$and" then (readFilters vs).map .all
    else if key = "$or" then (readFilters vs).map .any
    else (atom [(key, .array vs)]).map .leaf
  | v => (atom [(key, v)]).map .leaf

def readFilters : List Json → Option (List (BoolTree α))
  | [] => some []
  | v :: vs => do
    let t ← readFilter v
    let ts ← readFilters vs
    some (t :: ts)

end

end Read

/-- A comparison with the metadata under a field. -/
structure Comparison where
  field : String
  op : String
  operand : Json

def readComparison : List (String × Json) → Option Comparison
  | [(field, .object [(op, operand)])] => some ⟨field, op, operand⟩
  | _ => none

/-- The text that a document has to contain. -/
def readContains : List (String × Json) → Option String
  | [(key, .string text)] => if key = "$contains" then some text else none
  | _ => none

/-- What is true of a document: what its text contains, and how the metadata under a field
compares, by an operator, with a value. -/
structure Document where
  contains : String → Bool
  compares : String → String → Json → Bool

/-- One of several values is equal to the metadata. -/
def Document.isOneOf (d : Document) (field : String) (vs : List Json) : Bool :=
  vs.any (d.compares field "$eq")

def comparisonHolds (d : Document) (c : Comparison) : Bool :=
  match c.op, c.operand with
  | "$in", .array vs => d.isOneOf c.field vs
  | op, operand => d.compares c.field op operand

/-! ## What the leaves mean -/

/-- Whether a leaf asks for a text. -/
def isText (l : Leaf) : Bool := l.op = "match" && (l.criteria.get "text").isSome

/-- The bound of a range, which asks for nothing when it is missing or `null`. -/
def boundHolds (env : NumberEnv) (d : Document) (field : String) (criteria : Json)
    (k : String × String) : Bool :=
  match criteria.get k.1 with
  | none | some .null => true
  | some b => (bound env b).any (d.compares field k.2)

/-- The truth of a leaf. -/
def leafHolds (env : NumberEnv) (d : Document) (l : Leaf) : Bool :=
  if l.op = "range" then boundOps.all (boundHolds env d l.field l.criteria)
  else
    match (l.criteria.get "any").bind Json.asArray, (l.criteria.get "text").bind Json.asStr,
      l.criteria.get "value" with
    | some vs, _, _ => d.isOneOf l.field vs
    | none, some text, _ => d.contains text
    | none, none, some v => d.compares l.field "$eq" v
    | none, none, none => false

/-- A match of one kind with operands of its kind, or a range with a bound. -/
inductive WellFormed (env : NumberEnv) : Leaf → Prop
  | any (field : String) (vs : List Json) (h : ∀ v ∈ vs, isString v || isNumber v) :
    WellFormed env ⟨field, "match", .object [("any", .array vs)]⟩
  | text (field text : String) : WellFormed env ⟨field, "match", .object [("text", .string text)]⟩
  | value (field : String) (v : Json) (h : isString v || isNumber v || v.asBool.isSome) :
    WellFormed env ⟨field, "match", .object [("value", v)]⟩
  | range (field : String) (es : List (String × Json))
    (hkeys : ∀ e ∈ es, e.1 ∈ boundOps.map Prod.fst)
    (hbounds : ∀ e ∈ es, e.2 = .null ∨ (bound env e.2).isSome)
    (hsome : ∃ k ∈ boundOps, ((Json.getEntry k.1 es).bind (bound env)).isSome) :
    WellFormed env ⟨field, "range", .object es⟩

end VectorDbBenchmark.Chroma
