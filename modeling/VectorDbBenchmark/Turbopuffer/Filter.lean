import Mathlib.Data.String.Basic
import VectorDbBenchmark.Chroma.Filter
import VectorDbBenchmark.Kit.BoolTree
import VectorDbBenchmark.Readers.Metadata

/-!
# The Turbopuffer filter builder

`parse_turbopuffer_filter`, which goes through the keys of an object and returns at the first
it can handle, and `metadata_value_to_json`, by which the attributes of a document are
stored.  The server reads a filter as an and/or tree of typed comparisons of attributes: values
of different kinds are not equal and not in order.  The reading of floats is a parameter.
-/

namespace VectorDbBenchmark.Turbopuffer

open Kit Redis

/-! ## Attributes -/

def metadataValueToJson (env : NumberEnv) : Readers.MetadataValue → Json
  | .string s =>
    match parseI64 s.toList with
    | some n => Json.ofI64 n
    | none =>
      match env.parseF64 s with
      | some f => .ofF64 f
      | none => .string s
  | .int n => Json.ofI64 n
  | .float f => .ofF64 f
  | .labels labels => .ofStrings labels
  | .geo lon lat => .object [("lon", .ofF64 lon), ("lat", .ofF64 lat)]

/-! ## Clauses -/

/-- `[field, op, operand]`. -/
def clause (field op : String) (operand : Json) : Json :=
  .array [.string field, .string op, operand]

/-- `[name, clauses]`. -/
def groupJson (name : String) (clauses : List Json) : Json := .array [.string name, .array clauses]

def sentinel : Json := .string "__match_any_never_match__"

def matchClause (field : String) (operand : Json) : Option Json :=
  match (operand.get "any").bind Json.asArray with
  | some [] => some (groupJson "And" [clause field "Eq" sentinel, clause field "NotEq" sentinel])
  | some any => some (clause field "In" (.array any))
  | none =>
    match operand.get "value" with
    | some (.array arr) => some (clause field "In" (.array arr))
    | some v => some (clause field "Eq" v)
    | none => none

def rangeOps : List (String × String) :=
  [("gt", "Gt"), ("gte", "Gte"), ("lt", "Lt"), ("lte", "Lte")]

def rangeClauses (field : String) (obj : List (String × Json)) : List Json :=
  rangeOps.filterMap fun k ↦ (Json.getEntry k.1 obj).map (clause field k.2)

/-! ## A single condition -/

/-- What an operation returns; nothing if the next one is looked at. -/
def operationResult (field op : String) (operand : Json) : Option (Option Json) :=
  match op with
  | "match" => (matchClause field operand).map some
  | "range" =>
    match operand.asObject with
    | none => some none
    | some obj =>
      match rangeClauses field obj with
      | [] => none
      | [c] => some (some c)
      | cs => some (some (groupJson "And" cs))
  | "geo" => some none
  | _ => none

def constraintResult (field : String) : List (String × Json) → Option (Option Json)
  | [] => none
  | (op, operand) :: ops =>
    match operationResult field op operand with
    | some result => some result
    | none => constraintResult field ops

def conditionResult : List (String × Json) → Option Json
  | [] => none
  | (field, constraint) :: es =>
    match constraint.asObject with
    | none => none
    | some ops =>
      match constraintResult field ops with
      | some result => result
      | none => conditionResult es

def parseSingleCondition (condition : Json) : Option Json :=
  condition.asObject.bind conditionResult

/-! ## Groups -/

def groupFilter (name : String) (value : Json) : Option Json :=
  match value.asArray with
  | none => none
  | some clauses =>
    match clauses.filterMap parseSingleCondition with
    | [] => none
    | fs => some (groupJson name fs)

/-- The result of the first key that has one. -/
def topResult (conditions : Json) : List (String × Json) → Option Json
  | [] => none
  | (key, value) :: es =>
    if key = "and" then groupFilter "And" value
    else if key = "or" then groupFilter "Or" value
    else
      match parseSingleCondition conditions with
      | some f => some f
      | none => topResult conditions es

def parseTurbopufferFilter (conditions : Json) : Option Json :=
  match conditions.asObject with
  | none => none
  | some obj => if Chroma.conditionsMentionGeo conditions then none else topResult conditions obj

/-! ## Comparisons -/

inductive Comparison where
  | eq
  | notEq
  | isIn
  | gt
  | gte
  | lt
  | lte
deriving DecidableEq, Repr

def comparison : String → Option Comparison
  | "Eq" => some .eq
  | "NotEq" => some .notEq
  | "In" => some .isIn
  | "Gt" => some .gt
  | "Gte" => some .gte
  | "Lt" => some .lt
  | "Lte" => some .lte
  | _ => none

structure Atom where
  field : String
  op : Comparison
  operand : Json

/-- Whether two values are of one kind and equal. -/
def typedEq : Json → Json → Bool
  | .bool b, .bool b' => b = b'
  | .number n, .number n' => n.value = n'.value
  | .string s, .string s' => s = s'
  | _, _ => false

/-- Whether a value stands to a bound as an order comparison says. -/
def Comparison.orders {α : Type} [LinearOrder α] : Comparison → α → α → Bool
  | .gt, x, b => b < x
  | .gte, x, b => b ≤ x
  | .lt, x, b => x < b
  | .lte, x, b => x ≤ b
  | _, _, _ => false

def Comparison.typedOrders (c : Comparison) : Json → Json → Bool
  | .number n, .number b => c.orders n.value b.value
  | .string s, .string b => c.orders s b
  | _, _ => false

/-- The truth of a comparison for an attribute, which may be missing. -/
def atomHolds (stored : String → Option Json) (a : Atom) : Bool :=
  match a.op with
  | .eq => (stored a.field).any (typedEq · a.operand)
  | .notEq => !(stored a.field).any (typedEq · a.operand)
  | .isIn => (stored a.field).any fun v ↦ (a.operand.asArray.getD []).any (typedEq v)
  | c => (stored a.field).any (c.typedOrders · a.operand)

/-! ## Filters -/

mutual

def readFilter : Json → Option (BoolTree Atom)
  | .array (.string name :: rest) => readClause name rest
  | _ => none

/-- What follows a name: the filters of a group, or an operator and its operand. -/
def readClause (name : String) : List Json → Option (BoolTree Atom)
  | [.array fs] =>
    if name = "And" then (readFilters fs).map .all
    else if name = "Or" then (readFilters fs).map .any
    else none
  | [.string op, operand] => (comparison op).map fun c ↦ .leaf ⟨name, c, operand⟩
  | _ => none

def readFilters : List Json → Option (List (BoolTree Atom))
  | [] => some []
  | f :: fs => do
    let w ← readFilter f
    let ws ← readFilters fs
    some (w :: ws)

end

theorem readFilter_clause (field op : String) (operand : Json) :
    readFilter (clause field op operand) =
      (comparison op).map fun c ↦ .leaf ⟨field, c, operand⟩ := by
  rw [clause, readFilter, readClause]

theorem readFilter_and (fs : List Json) :
    readFilter (groupJson "And" fs) = (readFilters fs).map .all := by
  rw [groupJson, readFilter, readClause, if_pos rfl]

theorem readFilter_or (fs : List Json) :
    readFilter (groupJson "Or" fs) = (readFilters fs).map .any := by
  rw [groupJson, readFilter, readClause, if_neg (by simp), if_pos rfl]

end VectorDbBenchmark.Turbopuffer
