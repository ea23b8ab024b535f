import VectorDbBenchmark.Json
import VectorDbBenchmark.Kit.Text

/-!
# Payload metadata

`readers/metadata.rs`: the typed fields a payload object becomes.
-/

namespace VectorDbBenchmark.Readers

inductive MetadataValue where
  | string (s : String)
  | int (i : ℤ)
  | float (f : F64)
  | labels (labels : List String)
  | geo (lon lat : F64)
deriving DecidableEq, Repr

structure MetadataItem where
  fields : List (String × MetadataValue)
deriving DecidableEq, Repr

def isMultivaluedKeywordField (field : String) : Bool := field = "labels"

/-- A number keeps its type; a `u64` above `i64::MAX` has no lossless one and keeps
its digits. -/
def numberMetadata (n : Number) : MetadataValue :=
  match n.asI64, n with
  | some i, _ => .int i
  | none, .posInt u _ => .string u.repr
  | none, .negInt i _ => .int i
  | none, .float q => .float (.fin q)

/-- The value of one field, when the field is kept. -/
def metadataValue (key : String) : Json → Option MetadataValue
  | .string s => some (.string s)
  | .number n => some (numberMetadata n)
  | .array elems => if key = "labels" then some (.labels (elems.filterMap Json.asStr)) else none
  | .object obj =>
    match (Json.getEntry "lon" obj).bind Json.asF64, (Json.getEntry "lat" obj).bind Json.asF64 with
    | some lon, some lat => some (.geo lon lat)
    | _, _ => none
  | .bool b => some (.string (if b then "true" else "false"))
  | .null => none

def parseMetadataFromJson : Json → Option MetadataItem
  | .object map =>
    some ⟨map.filterMap fun (key, value) ↦ (metadataValue key value).map fun v ↦ (key, v)⟩
  | _ => none

end VectorDbBenchmark.Readers
