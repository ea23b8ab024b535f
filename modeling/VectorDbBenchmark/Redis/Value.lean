import VectorDbBenchmark.F64
import VectorDbBenchmark.Kit.Bytes

/-!
# Replies of the server

`redis::Value`, the value of a RESP2 or RESP3 reply, with the kinds that the decoders look
into; the other kinds are one here.
-/

namespace VectorDbBenchmark.Redis

open Kit

inductive Value where
  | nil
  | int (n : Int64)
  | bulkString (b : Bytes)
  | array (vs : List Value)
  | simpleString (s : String)
  | map (es : List (Value × Value))
  | set (vs : List Value)
  | double (d : F64)
  | verbatimString (text : String)
  | other

/-- `str::from_utf8`. -/
def fromUtf8 (b : Bytes) : Option String := String.fromUTF8? ⟨b.toArray⟩

/-- The bytes of a string. -/
def utf8Bytes (s : String) : Bytes := s.toUTF8.data.toList

@[simp] theorem fromUtf8_utf8Bytes (s : String) : fromUtf8 (utf8Bytes s) = some s := by
  rw [fromUtf8, utf8Bytes, Array.toArray_toList, String.fromUTF8?]
  exact dif_pos s.isValidUTF8

/-- Keys and values that alternate in one array; a last one alone is dropped. -/
def twoByTwo : List Value → List (Value × Value)
  | k :: v :: vs => (k, v) :: twoByTwo vs
  | _ => []

/-- Entries as one array in which keys and values alternate. -/
def alternating (es : List (Value × Value)) : List Value := es.flatMap fun e ↦ [e.1, e.2]

theorem length_alternating (es : List (Value × Value)) :
    (alternating es).length = es.length * 2 :=
  length_flatMap_const (k := 2) (f := fun e : Value × Value ↦ [e.1, e.2]) (fun _ ↦ rfl) es

theorem twoByTwo_alternating (es : List (Value × Value)) : twoByTwo (alternating es) = es := by
  induction es with
  | nil => rfl
  | cons e es ih => exact congrArg (e :: ·) ih

end VectorDbBenchmark.Redis
