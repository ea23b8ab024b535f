import VectorDbBenchmark.ConditionTree
import VectorDbBenchmark.F64Text
import VectorDbBenchmark.Kit.LastWins

/-!
# The MongoDB filter builders

`parse_mongo_conditions` builds an MQL filter, in which the clauses of an entry are collected
by field, and `parse_mongo_search_conditions` a tree of search operators, in which they are
listed.  The server reads both as and/or trees of comparisons with the values under a field, of
which there are several when it holds an array.
-/

namespace VectorDbBenchmark.Mongo

open Kit Redis ConditionTree

/-! ## Documents -/

inductive Bson where
  | null
  | int32 (i : ℤ)
  | int64 (i : ℤ)
  | double (f : F64)
  | string (s : String)
  | array (elems : List Bson)
  | document (entries : List (String × Bson))

abbrev Document := List (String × Bson)

def numberToBson (n : Number) : Bson :=
  match n.asI64 with
  | some i => .int64 i
  | none =>
    match n.asF64 with
    | some f => .double f
    | none => .null

mutual

def jsonToBson : Json → Bson
  | .null => .null
  | .bool b => .string (if b then "true" else "false")
  | .number n => numberToBson n
  | .string s => .string s
  | .array arr => .array (jsonsToBson arr)
  | .object obj => .document (entriesToBson [] obj)

def jsonsToBson : List Json → List Bson
  | [] => []
  | v :: vs => jsonToBson v :: jsonsToBson vs

def entriesToBson (doc : Document) : List (String × Json) → Document
  | [] => doc
  | (k, v) :: es => entriesToBson (insertKey k (jsonToBson v) doc) es

end

/-! ## Leaves -/

/-- A value that is there and is not `null`. -/
def given (criteria : Json) (key : String) : Option Json :=
  match criteria.get key with
  | some .null => none
  | v => v

/-- The bounds that are given, each under its operator. -/
def boundDoc (criteria : Json) (keys : List (String × String)) : Document :=
  keys.filterMap fun k ↦ (given criteria k.1).map fun b ↦ (k.2, jsonToBson b)

def earthRadius : ℚ := 6371000

/-- The center and the radius of a circle, all finite. -/
def circle (criteria : Json) : Option (ℚ × ℚ × ℚ) :=
  match (criteria.get "lon").bind Json.asF64, (criteria.get "lat").bind Json.asF64,
    (criteria.get "radius").bind Json.asF64 with
  | some (.fin lon), some (.fin lat), some (.fin radius) =>
    if 0 ≤ radius then some (lon, lat, radius) else none
  | _, _, _ => none

/-! ## MQL -/

section Mql

def mqlBounds : List (String × String) :=
  [("gt", "$gt"), ("lt", "$lt"), ("gte", "$gte"), ("lte", "$lte")]

/-- What a field is matched with. -/
def matchClause (criteria : Json) : Option Bson :=
  match (criteria.get "any").bind Json.asArray with
  | some any => some (.document [("$in", .array (any.map jsonToBson))])
  | none => (criteria.get "value").map jsonToBson

def rangeClause (criteria : Json) : Option Bson :=
  let rangeDoc := boundDoc criteria mqlBounds
  if rangeDoc.isEmpty then none else some (.document rangeDoc)

def geoClause (criteria : Json) : Option Bson :=
  (circle criteria).map fun (lon, lat, radius) ↦
    .document [("$geoWithin", .document [("$centerSphere",
      .array [.array [.double (.fin lon), .double (.fin lat)],
        .double (.ofRat (radius / earthRadius))])])]

/-- The clauses with the one of an operation; a geo clause that cannot be built gives up the
whole entry. -/
def addClause (field : String) (clauses : Document) (op : String × Json) : Option Document :=
  match op.1 with
  | "match" => some ((matchClause op.2).elim clauses fun b ↦ insertKey field b clauses)
  | "range" => some ((rangeClause op.2).elim clauses fun b ↦ insertKey field b clauses)
  | "geo" => (geoClause op.2).map fun b ↦ insertKey field b clauses
  | _ => some clauses

def addFields (clauses : Document) : List (String × Json) → Option Document
  | [] => some clauses
  | (field, v) :: es =>
    match v.asObject with
    | none => none
    | some ops => do
      let clauses ← ops.foldlM (addClause field) clauses
      addFields clauses es

/-- `build_mongo_filter_entry` of an entry that is no group. -/
def buildMongoFields (obj : List (String × Json)) : Option Document :=
  match addFields [] obj with
  | none => none
  | some clauses => if clauses.isEmpty then none else some clauses

/-- The clause of an `or` group that has members. -/
def orClause : Option (List Document) → List Document
  | some (d :: ds) => [[("$or", .array ((d :: ds).map .document))]]
  | _ => []

/-- All of several clauses; a single one is left as it is. -/
def andClause : List Document → Option Document
  | [] => none
  | [d] => some d
  | ds => some [("$and", .array (ds.map .document))]

def buildMongoGroup (ands ors : Option (List Document)) : Option Document :=
  andClause (ands.getD [] ++ orClause ors)

/-- `build_mongo_filter_entry`. -/
def mongoBuilder : GroupBuilder Id Document where
  isGroup obj := containsKey "and" obj || containsKey "or" obj
  other _ := []
  leaf obj := (buildMongoFields obj).toList
  enter _ _ := ⟨⟩
  leave _ _ := ⟨⟩
  group _ ands ors := (buildMongoGroup ands ors).toList

def parseMongoConditions (conditions : Json) : Option Document :=
  match conditions.asObject with
  | none => none
  | some obj =>
    if obj.isEmpty then none
    else buildMongoGroup (mongoBuilder.arrayAt "and" obj) (mongoBuilder.arrayAt "or" obj)

end Mql

/-! ## Search operators -/

section Search

def searchBounds : List (String × String) :=
  [("gt", "gt"), ("gte", "gte"), ("lt", "lt"), ("lte", "lte")]

def searchMatch (field : String) (criteria : Json) : Option Document :=
  match (criteria.get "any").bind Json.asArray with
  | some any =>
    some [("in", .document [("path", .string field), ("value", .array (any.map jsonToBson))])]
  | none => (criteria.get "value").map fun v ↦
    [("equals", .document [("path", .string field), ("value", jsonToBson v)])]

def searchRange (field : String) (criteria : Json) : Option Document :=
  let r := ("path", .string field) :: boundDoc criteria searchBounds
  if r.length = 1 then none else some [("range", .document r)]

def searchGeo (field : String) (criteria : Json) : Option Document :=
  (circle criteria).map fun (lon, lat, radius) ↦
    [("geoWithin", .document [("path", .string field), ("circle", .document
      [("center", .document [("type", .string "Point"),
        ("coordinates", .array [.double (.fin lon), .double (.fin lat)])]),
        ("radius", .double (.fin radius))])])]

/-- The operator of a condition; without one the entry is given up. -/
def searchOperator (field op : String) (criteria : Json) : Except String (Option Document) :=
  match op with
  | "geo" => .ok (searchGeo field criteria)
  | "match" => .ok (searchMatch field criteria)
  | "range" => .ok (searchRange field criteria)
  | other =>
    .error (s!"MongoDB: the `$search` pre-filter dialect (used for geo-carrying datasets) has " ++
      s!"no mapping for condition type `{other}` on field `{field}`. Refusing rather than " ++
      "dropping the clause (issue #223).")

def searchOps (field : String) : List (String × Json) → Except String (Option (List Document))
  | [] => .ok (some [])
  | (op, criteria) :: ops => do
    match ← searchOperator field op criteria with
    | none => .ok none
    | some clause =>
      let rest ← searchOps field ops
      .ok (rest.map (clause :: ·))

def searchFields : List (String × Json) → Except String (Option (List Document))
  | [] => .ok (some [])
  | (field, spec) :: es =>
    match spec.asObject with
    | none => .ok none
    | some ops => do
      match ← searchOps field ops with
      | none => .ok none
      | some clauses =>
        let rest ← searchFields es
        .ok (rest.map (clauses ++ ·))

/-- All of several clauses; a single one needs no wrapper. -/
def filterClause : List Document → Option Document
  | [] => none
  | [d] => some d
  | ds => some [("compound", .document [("filter", .array (ds.map .document))])]

def shouldClause : Option (List Document) → List Document
  | some (d :: ds) =>
    [[("compound", .document [("should", .array ((d :: ds).map .document)),
      ("minimumShouldMatch", .int32 1)])]]
  | _ => []

def buildSearchGroup (ands ors : Option (List Document)) : Option Document :=
  filterClause (ands.getD [] ++ shouldClause ors)

/-- `build_search_entry`. -/
def searchBuilder : GroupBuilder (Except String) Document where
  isGroup obj := containsKey "and" obj || containsKey "or" obj
  other _ := .ok []
  leaf obj := (searchFields obj).map fun clauses ↦ (clauses.bind filterClause).toList
  enter _ _ := .ok ⟨⟩
  leave _ _ := .ok ⟨⟩
  group _ ands ors := .ok (buildSearchGroup ands ors).toList

def parseMongoSearchConditions (conditions : Json) : Except String (Option Document) :=
  match conditions.asObject with
  | none => .ok none
  | some obj =>
    if obj.isEmpty then .ok none
    else do
      let ands ← searchBuilder.arrayAt "and" obj
      let ors ← searchBuilder.arrayAt "or" obj
      .ok (buildSearchGroup ands ors)

end Search

/-! ## Comparisons -/

inductive Comparison where
  | eq
  | isIn
  | gt
  | gte
  | lt
  | lte
deriving DecidableEq

structure Atom where
  field : String
  op : Comparison
  operand : Bson

/-- A value that is compared with others: a number, whatever its width, or a text. -/
inductive Scalar where
  | number (x : F64)
  | text (s : String)
deriving DecidableEq

def Comparison.holds : Comparison → Scalar → Scalar → Bool
  | .eq, x, y => x = y
  | .gt, .number x, .number y => y.lt x
  | .gte, .number x, .number y => y.le x
  | .lt, .number x, .number y => x.lt y
  | .lte, .number x, .number y => x.le y
  | .gt, .text x, .text y => y < x
  | .gte, .text x, .text y => y ≤ x
  | .lt, .text x, .text y => x < y
  | .lte, .text x, .text y => x ≤ y
  | _, _, _ => false

def Bson.scalar : Bson → Option Scalar
  | .int32 i => some (.number (.fin i))
  | .int64 i => some (.number (.fin i))
  | .double f => some (.number f)
  | .string s => some (.text s)
  | _ => none

/-- The values under each field: its own, or the elements of its array. -/
abbrev Record := String → List Scalar

def Record.compares (d : Record) (field : String) (op : Comparison) (operand : Option Scalar) :
    Bool :=
  (d field).any fun x ↦ operand.any (op.holds x)

def atomHolds (d : Record) (a : Atom) : Bool :=
  match a.op, a.operand with
  | .isIn, .array vs => vs.any fun v ↦ d.compares a.field .eq v.scalar
  | .isIn, _ => false
  | op, v => d.compares a.field op v.scalar

/-! ## MQL -/

def mqlComparison (op : String) : Option Comparison :=
  if op = "$in" then some .isIn
  else if op = "$gt" then some .gt
  else if op = "$gte" then some .gte
  else if op = "$lt" then some .lt
  else if op = "$lte" then some .lte
  else none

/-- The comparisons of a document of operators. -/
def readOps (comparison : String → Option Comparison) (field : String) :
    Document → Option (List Atom)
  | [] => some []
  | (op, v) :: es => do
    let c ← comparison op
    let atoms ← readOps comparison field es
    some (⟨field, c, v⟩ :: atoms)

mutual

/-- A filter document, which is the conjunction of its entries. -/
def readMql : Bson → Option (BoolTree Atom)
  | .document es => (readMqlEntries es).map .all
  | _ => none

def readMqlEntries : List (String × Bson) → Option (List (BoolTree Atom))
  | [] => some []
  | (key, v) :: es => do
    let t ← readMqlEntry key v
    let ts ← readMqlEntries es
    some (t :: ts)

/-- An entry: a group that is not empty, operators on a field, or a value it is equal to. -/
def readMqlEntry (key : String) : Bson → Option (BoolTree Atom)
  | .array vs =>
    if key = "$and" then if vs.isEmpty then none else (readMqls vs).map .all
    else if key = "$or" then if vs.isEmpty then none else (readMqls vs).map .any
    else some (.leaf ⟨key, .eq, .array vs⟩)
  | .document ops => (readOps mqlComparison key ops).map fun atoms ↦ .all (atoms.map .leaf)
  | v => some (.leaf ⟨key, .eq, v⟩)

def readMqls : List Bson → Option (List (BoolTree Atom))
  | [] => some []
  | v :: vs => do
    let t ← readMql v
    let ts ← readMqls vs
    some (t :: ts)

end

/-! ## Search operators -/

def searchComparison (op : String) : Option Comparison :=
  if op = "gt" then some .gt
  else if op = "gte" then some .gte
  else if op = "lt" then some .lt
  else if op = "lte" then some .lte
  else none

/-- The comparison of an operator with a value. -/
def readValue (key field : String) : Document → Option (List Atom)
  | [("value", v)] =>
    if key = "equals" then some [⟨field, .eq, v⟩]
    else if key = "in" then some [⟨field, .isIn, v⟩]
    else none
  | _ => none

/-- The comparisons of an operator on the field of its path. -/
def readOperator (key : String) : Bson → Option (List Atom)
  | .document (("path", .string field) :: es) =>
    if key = "range" then readOps searchComparison field es else readValue key field es
  | _ => none

mutual

/-- An operator, or a compound of operators. -/
def readSearch : Bson → Option (BoolTree (List Atom))
  | .document es => readSearchEntries es
  | _ => none

def readSearchEntries : List (String × Bson) → Option (BoolTree (List Atom))
  | [(key, v)] => if key = "compound" then readCompound v else (readOperator key v).map .leaf
  | _ => none

def readCompound : Bson → Option (BoolTree (List Atom))
  | .document es => readClauses es
  | _ => none

/-- `filter` asks for all of its operators, `should` for as many as there must be, one here. -/
def readClauses : List (String × Bson) → Option (BoolTree (List Atom))
  | [(key, v)] => if key = "filter" then (readOperators v).map .all else none
  | [(key, v), (key', .int32 1)] =>
    if key = "should" && key' = "minimumShouldMatch" then (readOperators v).map .any else none
  | _ => none

def readOperators : Bson → Option (List (BoolTree (List Atom)))
  | .array vs => readSearches vs
  | _ => none

def readSearches : List Bson → Option (List (BoolTree (List Atom)))
  | [] => some []
  | v :: vs => do
    let t ← readSearch v
    let ts ← readSearches vs
    some (t :: ts)

end

def operatorHolds (d : Record) (atoms : List Atom) : Bool := atoms.all (atomHolds d)

/-! ## What the leaves mean -/

/-- The bounds of a range and the comparisons they ask for. -/
def comparisons : List (String × Comparison) :=
  [("gt", .gt), ("gte", .gte), ("lt", .lt), ("lte", .lte)]

def boundAtoms (field : String) (criteria : Json) : List Atom :=
  comparisons.filterMap fun k ↦ (given criteria k.1).map fun b ↦ ⟨field, k.2, jsonToBson b⟩

/-- The comparisons a leaf asks for, if it is an operation these filters have. -/
def leafAtoms (l : Leaf) : Option (List Atom) :=
  match l.op with
  | "match" =>
    match (l.criteria.get "any").bind Json.asArray with
    | some any => some [⟨l.field, .isIn, .array (any.map jsonToBson)⟩]
    | none => (l.criteria.get "value").map fun v ↦ [⟨l.field, .eq, jsonToBson v⟩]
  | "range" =>
    if (boundAtoms l.field l.criteria).isEmpty then none
    else some (boundAtoms l.field l.criteria)
  | _ => none

/-- Whether the comparisons of a leaf hold. -/
def leafSays (d : Record) (l : Leaf) : Bool := (leafAtoms l).all (operatorHolds d)

/-- The value an operand stands for; booleans are texts. -/
def scalar : Json → Option Scalar
  | .bool b => some (.text (if b then "true" else "false"))
  | .number n => (n.asI64.map fun i ↦ F64.fin i).or n.asF64 |>.map .number
  | .string s => some (.text s)
  | _ => none

/-- The truth of a leaf. -/
def leafHolds (d : Record) (l : Leaf) : Bool :=
  if l.op = "range" then
    comparisons.all fun k ↦
      (given l.criteria k.1).all fun b ↦ d.compares l.field k.2 (scalar b)
  else
    match (l.criteria.get "any").bind Json.asArray, l.criteria.get "value" with
    | some vs, _ => vs.any fun v ↦ d.compares l.field .eq (scalar v)
    | none, some v => d.compares l.field .eq (scalar v)
    | none, none => false

/-- A match with scalars, or a range with a bound and scalars as bounds. -/
inductive WellFormed : Leaf → Prop
  | any (field : String) (vs : List Json) (h : ∀ v ∈ vs, (scalar v).isSome) :
    WellFormed ⟨field, "match", .object [("any", .array vs)]⟩
  | value (field : String) (v : Json) (h : (scalar v).isSome) :
    WellFormed ⟨field, "match", .object [("value", v)]⟩
  | range (field : String) (criteria : Json)
    (hbounds : ∀ k ∈ comparisons, ∀ b, given criteria k.1 = some b → (scalar b).isSome)
    (hsome : ∃ k ∈ comparisons, (given criteria k.1).isSome) :
    WellFormed ⟨field, "range", criteria⟩

end VectorDbBenchmark.Mongo
