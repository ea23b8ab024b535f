import VectorDbBenchmark.F64Order
import VectorDbBenchmark.Kit.Projection
import VectorDbBenchmark.Pgvector.Reading

/-!
# Templates are true where their tree is

The template of a condition tree of scalars, lists and ranges, read with the values of its
placeholders, is true of exactly the rows the tree is true of with the numbers that are bound
for its own.  An integer from `2 ^ 63` on is bound as a negative one, and a number beside floats
as the nearest `f64`; a column with a suitable number tells the difference.
-/

namespace VectorDbBenchmark.Pgvector

open Kit Redis ConditionTree GroupBuilder InfixSyntax
open Json (isNumber)
open Readers (isMultivaluedKeywordField)

/-! ## What an operation means -/

section Meaning

def Cell.is : Cell → Json → Bool
  | .number x, .number n => x = n.value
  | .text s, .string t => s = t.toList
  | .bool b, .bool b' => b = b'
  | _, _ => false

/-- A text that is one of those between semicolons. -/
def Cell.has (t : String) : Cell → Bool
  | .text s => (stringToArray s).contains t.toList
  | _ => false

-- A row and a field.
variable (row : Row) (field : String)

def valueHolds (v : Json) : Bool := (row field.toList).any (Cell.is · v)

/-- An item of a list, a text as an element of the column. -/
def itemHolds : Json → Bool
  | .string t => (row field.toList).any (Cell.has t)
  | v => valueHolds row field v

/-- A scalar, in a column of several keywords one of them. -/
def scalarHolds (v : Json) : Bool :=
  if isMultivaluedKeywordField field then itemHolds row field v else valueHolds row field v

def matchHolds (criteria : Json) : Bool :=
  match (criteria.get "any").bind Json.asArray with
  | some any => any.any (itemHolds row field)
  | none => (criteria.get "value").any (scalarHolds row field)

def comparisonOf (key : String) : Option Comparison :=
  match key with
  | "lt" => some .lt
  | "gt" => some .gt
  | "lte" => some .le
  | "gte" => some .ge
  | _ => none

-- The instant a timestamp stands for.
variable (instant : Text → Option ℚ)

/-- A column against a bound, which is no bound when it is null. -/
def Cell.within (op : Comparison) : Json → Cell → Bool
  | .number n, .number x => op.holds x n.value
  | .string s, .timestamp x => (instant s.toList).any (op.holds x)
  | _, _ => false

def boundHolds (e : String × Json) : Bool :=
  match comparisonOf e.1 with
  | none => true
  | some op => isNull e.2 || (row field.toList).any (Cell.within instant op e.2)

def rangeHolds (criteria : Json) : Bool :=
  criteria.asObject.any fun obj ↦ obj.all (boundHolds row field instant)

/-- The truth of an operation. -/
def leafHolds (l : Leaf) : Bool :=
  match l.op with
  | "match" => matchHolds row l.field l.criteria
  | "range" => rangeHolds row l.field instant l.criteria
  | _ => false

end Meaning

/-! ## Well-formed operations -/

def isString : Json → Bool
  | .string _ => true
  | _ => false

/-- A bound that is null, a number or a timestamp. -/
def isBound : Json → Bool
  | .null => true
  | .string _ => true
  | .number _ => true
  | _ => false

/-- A match with a scalar or with a list of numbers or of strings, or a range with a number. -/
inductive WellFormed : Leaf → Prop
  | value (field : String) {v : Json} (h : Json.isScalar v = true) :
    WellFormed ⟨field, "match", .object [("value", v)]⟩
  | any (field : String) {vs : List Json} (h : (vs.all isNumber || vs.all isString) = true) :
    WellFormed ⟨field, "match", .object [("any", .array vs)]⟩
  | range (field : String) {obj : List (String × Json)}
    (h : ∀ e ∈ obj, (sqlOp e.1).isSome = true → isBound e.2 = true)
    (hone : ∃ e ∈ obj, (sqlOp e.1).isSome = true ∧ isNumber e.2 = true) :
    WellFormed ⟨field, "range", .object obj⟩

/-- A well-formed leaf whose column has no quote in its name. -/
def Readable (l : Leaf) : Prop := WellFormed l ∧ '"' ∉ l.field.toList

/-! ### Numbers that are bound as they are -/

/-- A number that is no integer from `2 ^ 63` on. -/
def Number.fits : Number → Bool
  | .posInt n _ => n < 2 ^ 63
  | _ => true

def fits : Json → Bool
  | .number n => Number.fits n
  | _ => true

/-- A number that an `f64` holds. -/
def isExact : Json → Bool
  | .number n => n.asF64 = some (.fin n.value)
  | _ => true

/-- A list of integers that fit, or of numbers that `f64`s hold. -/
def fitsItems (vs : List Json) : Bool := if vs.all isInteger then vs.all fits else vs.all isExact

def fitsOperand : Json → Bool
  | .array vs => fitsItems vs
  | v => fits v

/-- The operands of an operation, which for a range are its bounds. -/
def operands (l : Leaf) : List (String × Json) :=
  let es := l.criteria.asObject.getD []
  if l.op = "range" then es.filter fun e ↦ (sqlOp e.1).isSome else es

/-- Every number of an operation is bound as it is. -/
def Fits (l : Leaf) : Prop := ∀ e ∈ operands l, fitsOperand e.2 = true

instance (l : Leaf) : Decidable (Fits l) :=
  inferInstanceAs (Decidable (∀ e ∈ operands l, fitsOperand e.2 = true))

/-! ### The numbers that are bound -/

theorem wrapI64_of_le {n : ℕ} (h : n < 2 ^ 64) (hle : 2 ^ 63 ≤ n) : wrapI64 n = n - 2 ^ 64 := by
  rw [wrapI64, BitVec.toInt_eq_toNat_cond, BitVec.toNat_ofNat, Nat.mod_eq_of_lt h,
    if_neg (by omega)]
  rfl

/-- The integer that is bound for an integer. -/
def Number.wrapped : Number → Number
  | .posInt n h =>
    if hn : n < 2 ^ 63 then .posInt n h
    else .negInt (wrapI64 n) (by rw [wrapI64_of_le h (by omega)]; omega)
  | n => n

/-- The `f64` that is bound for a number beside floats. -/
def Number.rounded (n : Number) : Number :=
  match n.asF64 with
  | some (.fin q) => .float q
  | _ => n

def wrapped : Json → Json
  | .number n => .number (Number.wrapped n)
  | v => v

def rounded : Json → Json
  | .number n => .number (Number.rounded n)
  | v => v

def boundItems (vs : List Json) : List Json :=
  if vs.all isInteger then vs.map wrapped else vs.map rounded

def boundOperand : Json → Json
  | .array vs => .array (boundItems vs)
  | v => wrapped v

/-- The operation with the numbers that are bound for its own. -/
def boundLeaf (l : Leaf) : Leaf :=
  { l with criteria := match l.criteria with
    | .object es => .object (es.map fun e ↦ (e.1, boundOperand e.2))
    | v => v }

section Bound

variable {n : Number} {v : Json} {vs : List Json} {field : String}

theorem wrapped_eq_self (h : fits v = true) : wrapped v = v := by
  cases v with
  | number n =>
      cases n with
      | posInt n hn => exact congrArg Json.number (dif_pos (of_decide_eq_true h))
      | negInt i hi => rfl
      | float q => rfl
  | _ => rfl

/-- An integer that does not fit, and the one that is bound for it. -/
theorem exists_of_not_fits (h : fits v = false) : ∃ n hn hw, 2 ^ 63 ≤ n ∧
    v = .number (.posInt n hn) ∧ wrapped v = .number (.negInt (n - 2 ^ 64) hw) := by
  cases v with
  | number n =>
      cases n with
      | posInt n hn =>
          have hle : 2 ^ 63 ≤ n := not_lt.mp (of_decide_eq_false h)
          have hw : -2 ^ 63 ≤ (n : ℤ) - 2 ^ 64 ∧ (n : ℤ) - 2 ^ 64 < 0 := by omega
          refine ⟨n, hn, hw, hle, rfl, congrArg Json.number ?_⟩
          rw [Number.wrapped, dif_neg (by omega)]
          congr 1
          exact wrapI64_of_le hn hle
      | negInt i hi => cases h
      | float q => cases h
  | _ => cases h

theorem fits_wrapped (v : Json) : fits (wrapped v) = true := by
  cases h : fits v with
  | true => rw [wrapped_eq_self h, h]
  | false =>
      obtain ⟨n, hn, hw, -, rfl, hwrapped⟩ := exists_of_not_fits h
      rw [hwrapped]
      rfl

/-- What is bound for a scalar is bound for what is bound for it. -/
theorem scalarValue_wrapped (v : Json) : scalarValue (wrapped v) = scalarValue v := by
  cases h : fits v with
  | true => rw [wrapped_eq_self h]
  | false =>
      obtain ⟨n, hn, hw, hle, rfl, hwrapped⟩ := exists_of_not_fits h
      have hlarge : ¬n < 9223372036854775808 := by omega
      rw [hwrapped]
      simp [scalarValue, Json.asStr, Json.asBool, isInteger, jsonAsI64, hlarge, Json.asU64,
        Number.asU64, Json.asI64, Number.asI64, wrapI64_of_le hn hle]

theorem isInteger_wrapped (h : isInteger v = true) : isInteger (wrapped v) = true := by
  cases hfits : fits v with
  | true => rwa [wrapped_eq_self hfits]
  | false =>
      obtain ⟨n, hn, hw, -, rfl, hwrapped⟩ := exists_of_not_fits hfits
      rw [hwrapped]
      rfl

theorem jsonAsI64_wrapped (h : isInteger v = true) : jsonAsI64 (wrapped v) = jsonAsI64 v := by
  have hvalue : ∀ {w : Json}, isInteger w = true → scalarValue w = some (.int (jsonAsI64 w)) := by
    intro w hw
    cases w with
    | number n => simp [scalarValue, Json.asStr, Json.asBool, hw]
    | _ => cases hw
  have heq := scalarValue_wrapped v
  rw [hvalue h, hvalue (isInteger_wrapped h)] at heq
  exact PgValue.int.inj (Option.some.inj heq)

/-- A number beside floats becomes a float, and is converted as before. -/
theorem exists_rounded (n : Number) :
    ∃ q, Number.rounded n = .float q ∧ n.asF64 = some (.fin q) := by
  cases n with
  | posInt n hn => exact ⟨_, rfl, rfl⟩
  | negInt i hi => exact ⟨_, rfl, rfl⟩
  | float q => exact ⟨q, rfl, rfl⟩

theorem asF64_rounded (v : Json) : (rounded v).asF64 = v.asF64 := by
  cases v with
  | number n =>
      obtain ⟨q, hq, hn⟩ := exists_rounded n
      rw [rounded, hq]
      exact hn.symm
  | _ => rfl

theorem isExact_rounded (v : Json) : isExact (rounded v) = true := by
  cases v with
  | number n =>
      obtain ⟨q, hq, -⟩ := exists_rounded n
      rw [rounded, hq]
      exact decide_eq_true rfl
  | _ => rfl

theorem isInteger_rounded (v : Json) : isInteger (rounded v) = false := by
  cases v with
  | number n =>
      obtain ⟨q, hq, -⟩ := exists_rounded n
      rw [rounded, hq]
      rfl
  | _ => rfl

/-! ### What is built of them -/

/-- Numbers that are all integers, or none of which is. -/
theorem buildMatchAny_numbers {vs : List Json} (hne : vs ≠ []) (h : vs.all isNumber = true) :
    buildMatchAny field vs =
      if vs.all isInteger then (do
        let ph ← bindValue (.intArray (vs.map jsonAsI64))
        pure (anyText field "bigint" ph))
      else (do
        let ph ← bindValue (.floatArray (vs.map fun v ↦ v.asF64.getD (.fin 0)))
        pure (anyText field "double precision" ph)) := by
  rw [buildMatchAny, if_pos]
  rw [h, Bool.and_true, Bool.not_eq_true', List.isEmpty_eq_false_iff]
  exact hne

theorem buildMatchAny_strings {vs : List Json} (hne : vs ≠ []) (h : vs.all isString = true) :
    buildMatchAny field vs = (do
      let ph ← bindValue (.textArray (vs.filterMap Json.asStr))
      pure (splitText field ++ " && ".toList ++ ph ++ "::text[]".toList)) := by
  obtain ⟨v, vs, rfl⟩ := List.exists_cons_of_ne_nil hne
  rw [List.all_cons, Bool.and_eq_true] at h
  cases v with
  | string s => rfl
  | _ => cases h.1

/-- Strings are bound as they are. -/
theorem boundItems_strings (h : vs.all isString = true) : boundItems vs = vs := by
  rw [List.all_eq_true] at h
  have hself : ∀ v ∈ vs, wrapped v = v ∧ rounded v = v := by
    intro v hv
    cases v with
    | string s => exact ⟨rfl, rfl⟩
    | _ => cases h _ hv
  rw [boundItems]
  split_ifs
  · exact (List.map_congr_left fun v hv ↦ (hself v hv).1).trans (List.map_id vs)
  · exact (List.map_congr_left fun v hv ↦ (hself v hv).2).trans (List.map_id vs)

theorem all_isNumber_boundItems (h : vs.all isNumber = true) :
    (boundItems vs).all isNumber = true := by
  have hkind : ∀ v, isNumber (wrapped v) = isNumber v ∧ isNumber (rounded v) = isNumber v := by
    intro v
    cases v <;> exact ⟨rfl, rfl⟩
  rw [boundItems]
  split_ifs
  · rw [List.all_map, ← h]
    exact all_congr_of_mem fun v _ ↦ (hkind v).1
  · rw [List.all_map, ← h]
    exact all_congr_of_mem fun v _ ↦ (hkind v).2

theorem all_isInteger_boundItems (vs : List Json) :
    (boundItems vs).all isInteger = vs.all isInteger := by
  rw [boundItems]
  split_ifs with h
  · rw [h, List.all_map, List.all_eq_true]
    exact fun v hv ↦ isInteger_wrapped (List.all_eq_true.mp h v hv)
  · rw [Bool.not_eq_true] at h
    obtain ⟨v, hv, -⟩ := List.all_eq_false.mp h
    rw [h, List.all_map, List.all_eq_false]
    exact ⟨v, hv, Bool.eq_false_iff.mp (isInteger_rounded v)⟩

/-- A list is built as the list that is bound for it. -/
theorem buildMatchAny_boundItems (h : (vs.all isNumber || vs.all isString) = true) :
    buildMatchAny field (boundItems vs) = buildMatchAny field vs := by
  by_cases hne : vs = []
  · rw [hne]
    rfl
  rcases Bool.or_eq_true_iff.mp h with h | h
  · have hbound := all_isNumber_boundItems h
    have hne' : boundItems vs ≠ [] := by
      rw [boundItems]
      split_ifs <;> exact mt List.map_eq_nil_iff.mp hne
    rw [buildMatchAny_numbers hne' hbound, buildMatchAny_numbers hne h, all_isInteger_boundItems,
      boundItems]
    split_ifs with hints
    · have hvalues : (vs.map wrapped).map jsonAsI64 = vs.map jsonAsI64 := by
        rw [List.map_map]
        exact List.map_congr_left fun v hv ↦ jsonAsI64_wrapped (List.all_eq_true.mp hints v hv)
      rw [hvalues]
    · have hvalues : ((vs.map rounded).map fun v ↦ v.asF64.getD (.fin 0)) =
          vs.map fun v ↦ v.asF64.getD (.fin 0) := by
        rw [List.map_map]
        exact List.map_congr_left fun v _ ↦ congrArg (Option.getD · _) (asF64_rounded v)
      rw [hvalues]
  · rw [boundItems_strings h]

theorem asArray_of_isScalar (h : Json.isScalar v = true) : v.asArray = none := by
  cases v with
  | array vs => cases h
  | _ => rfl

theorem asArray_of_isBound (h : isBound v = true) : v.asArray = none := by
  cases v with
  | array vs => cases h
  | _ => rfl

theorem boundOperand_of_asArray (h : v.asArray = none) : boundOperand v = wrapped v := by
  cases v with
  | array vs => cases h
  | _ => rfl

theorem boundOperand_eq_self (h : v.asArray = none) (hfits : fitsOperand v = true) :
    boundOperand v = v := by
  rw [boundOperand_of_asArray h, wrapped_eq_self]
  cases v with
  | array vs => cases h
  | _ => exact hfits

theorem buildMatchValue_wrapped (v : Json) :
    buildMatchValue field (wrapped v) = buildMatchValue field v := by
  have hstring : (wrapped v).asStr = v.asStr := by cases v <;> rfl
  rw [buildMatchValue, buildMatchValue, scalarValue_wrapped, hstring]

variable (jsonText : Json → Text)

theorem buildBound_wrapped (op : String) (v : Json) :
    buildBound jsonText field op (wrapped v) = buildBound jsonText field op v := by
  cases hfits : fits v with
  | true => rw [wrapped_eq_self hfits]
  | false =>
      have heq := scalarValue_wrapped v
      obtain ⟨n, hn, hw, -, rfl, hwrapped⟩ := exists_of_not_fits hfits
      have hvalue : scalarValue (.number (.posInt n hn)) =
          some (.int (jsonAsI64 (.number (.posInt n hn)))) := by
        simp [scalarValue, Json.asStr, Json.asBool, isInteger, Json.asU64, Number.asU64]
      rw [hvalue] at heq
      rw [buildBound, buildBound, heq, hvalue]

theorem buildBounds_bound {obj : List (String × Json)}
    (h : ∀ e ∈ obj, (sqlOp e.1).isSome = true → isBound e.2 = true) :
    buildBounds jsonText field (obj.map fun e ↦ (e.1, boundOperand e.2)) =
      buildBounds jsonText field obj := by
  induction obj with
  | nil => rfl
  | cons e obj ih =>
      obtain ⟨key, v⟩ := e
      rw [List.forall_mem_cons] at h
      rw [List.map_cons, buildBounds, buildBounds, ih h.2]
      cases hop : sqlOp key with
      | none => rfl
      | some op =>
          have harray := asArray_of_isBound (h.1 (by rw [hop]; rfl))
          have hnull : isNull (wrapped v) = isNull v := by cases v <;> rfl
          dsimp only
          rw [boundOperand_of_asArray harray, hnull, buildBound_wrapped]

/-- An operation is built as the one with the numbers that are bound for its own. -/
theorem buildCondition_boundLeaf {l : Leaf} (h : WellFormed l) :
    buildCondition jsonText l.field l.op (boundLeaf l).criteria =
      buildCondition jsonText l.field l.op l.criteria := by
  cases h with
  | @value field v hv =>
      show buildMatchValue field (boundOperand v) = buildMatchValue field v
      rw [boundOperand_of_asArray (asArray_of_isScalar hv), buildMatchValue_wrapped]
  | @any field vs hvs =>
      show (do let clause ← buildMatchAny field (boundItems vs); pure [clause]) =
        (do let clause ← buildMatchAny field vs; pure [clause])
      rw [buildMatchAny_boundItems hvs]
  | @range field obj hobj hone => exact buildBounds_bound jsonText hobj

theorem boundLeaf_value (hv : Json.isScalar v = true) :
    boundLeaf ⟨field, "match", .object [("value", v)]⟩ =
      ⟨field, "match", .object [("value", wrapped v)]⟩ := by
  rw [← boundOperand_of_asArray (asArray_of_isScalar hv)]
  rfl

theorem boundLeaf_any : boundLeaf ⟨field, "match", .object [("any", .array vs)]⟩ =
    ⟨field, "match", .object [("any", .array (boundItems vs))]⟩ := rfl

theorem boundLeaf_bound (key : String) : boundLeaf ⟨field, "range", .object [(key, .number n)]⟩ =
    ⟨field, "range", .object [(key, wrapped (.number n))]⟩ := rfl

theorem WellFormed.boundLeaf {l : Leaf} (h : WellFormed l) : WellFormed (boundLeaf l) := by
  cases h with
  | @value field v hv =>
      refine .value field ?_
      cases v with
      | array vs => cases hv
      | _ => exact hv
  | @any field vs hvs =>
      refine .any field ?_
      rw [Bool.or_eq_true] at hvs ⊢
      rcases hvs with hvs | hvs
      · exact .inl (all_isNumber_boundItems hvs)
      · exact .inr ((boundItems_strings hvs).symm ▸ hvs)
  | @range field obj hobj hone =>
      refine .range field ?_ ?_
      · rw [List.forall_mem_map]
        intro e he hop
        have hbound := hobj e he hop
        obtain ⟨key, v⟩ := e
        cases v with
        | array vs => cases hbound
        | _ => exact hbound
      · obtain ⟨⟨key, v⟩, he, hop, hnumber⟩ := hone
        refine ⟨(key, boundOperand v), List.mem_map_of_mem he, hop, ?_⟩
        cases v with
        | number n => rfl
        | _ => cases hnumber

theorem fitsOperand_boundOperand (v : Json) : fitsOperand (boundOperand v) = true := by
  cases v with
  | array vs =>
      show fitsItems (boundItems vs) = true
      rw [fitsItems, all_isInteger_boundItems, boundItems]
      split_ifs
      · rw [List.all_map]
        exact List.all_eq_true.mpr fun v _ ↦ fits_wrapped v
      · rw [List.all_map]
        exact List.all_eq_true.mpr fun v _ ↦ isExact_rounded v
  | number n => exact fits_wrapped (.number n)
  | _ => rfl

theorem WellFormed.fits_boundLeaf {l : Leaf} (h : WellFormed l) : Fits (Pgvector.boundLeaf l) := by
  have hoperands : ∀ (es : List (String × Json)) {e : String × Json},
      e ∈ es.map (fun e ↦ (e.1, boundOperand e.2)) → fitsOperand e.2 = true := by
    intro es e he
    obtain ⟨e', -, rfl⟩ := List.mem_map.mp he
    exact fitsOperand_boundOperand e'.2
  intro e he
  cases h with
  | value field hv => exact hoperands [("value", _)] he
  | any field hvs => exact hoperands [("any", .array _)] he
  | range field hobj hone => exact hoperands _ (List.mem_filter.mp he).1

end Bound

/-! ## What the clauses of an operation say -/

/-- What holds of the result of a computation when its values are found at their numbers. -/
def outcome (b : ℕ → Option PgValue) : Outcome FilterBuilder where
  Holds p x := ∀ n, Numbering.Agrees b n (x n).2 → p (x n).1
  pure h _ _ := h
  bind hx hf n hn := by
    obtain ⟨hvs, hws⟩ := Numbering.agrees_append.mp hn
    exact hf _ (hx n hvs) _ hws

section Clauses

variable {instant : Text → Option ℚ} {b : ℕ → Option PgValue} {field : String}

/-- A value that is bound is found at its placeholder. -/
theorem holds_bindValue (v : PgValue) :
    (outcome b).Holds (fun ph ↦ ∃ n, ph = placeholder n ∧ b n = some v) (bindValue v) := by
  intro n hn
  refine ⟨n, rfl, ?_⟩
  exact Numbering.agrees_singleton.mp (Numbering.agrees_append.mp hn).1

/-- Clauses with the truth of an operation. -/
def SaysParts (instant : Text → Option ℚ) (b : ℕ → Option PgValue) (truth : Row → Bool)
    (parts : List Text) : Prop :=
  ∃ truths : List (Row → Bool), List.Forall₂ (SaysRow instant b) truths parts ∧
    ∀ row, truths.all (· row) = truth row

theorem saysParts_nil : SaysParts instant b (fun _ ↦ true) [] := ⟨[], .nil, fun _ ↦ rfl⟩

theorem SaysParts.append {truth truth' : Row → Bool} {ps qs : List Text}
    (h : SaysParts instant b truth ps) (h' : SaysParts instant b truth' qs) :
    SaysParts instant b (fun row ↦ truth row && truth' row) (ps ++ qs) := by
  obtain ⟨truths, hps, hall⟩ := h
  obtain ⟨truths', hqs, hall'⟩ := h'
  refine ⟨truths ++ truths', List.rel_append hps hqs, fun row ↦ ?_⟩
  rw [List.all_append, hall, hall']

theorem saysParts_singleton {truth : Row → Bool} {t : Text} (h : SaysRow instant b truth t) :
    SaysParts instant b truth [t] :=
  ⟨[truth], .cons h .nil, fun _ ↦ Bool.and_true _⟩

theorem SaysParts.congr {truth truth' : Row → Bool} {ps : List Text}
    (h : SaysParts instant b truth ps) (heq : ∀ row, truth row = truth' row) :
    SaysParts instant b truth' ps := by
  obtain ⟨truths, hps, hall⟩ := h
  exact ⟨truths, hps, fun row ↦ (hall row).trans (heq row)⟩

/-! ### Scalars -/

/-- An integer that fits is bound as it is. -/
theorem jsonAsI64_of_fits {n : Number} (h : Number.fits n = true)
    (hint : isInteger (.number n) = true) : (jsonAsI64 (.number n) : ℚ) = n.value := by
  cases n with
  | posInt n hn =>
      have hint : (Json.number (.posInt n hn)).asI64 = some (n : ℤ) :=
        if_pos (of_decide_eq_true h)
      rw [jsonAsI64, hint]
      exact Int.cast_natCast n
  | negInt i hi => rfl
  | float q => cases hint

/-- The value that is bound for a number is this number. -/
theorem exists_numberValue {n : Number} (h : Number.fits n = true) :
    ∃ w, scalarValue (.number n) = some w ∧ w.number = some n.value := by
  cases hint : isInteger (.number n) with
  | true =>
      refine ⟨.int (jsonAsI64 (.number n)), ?_, congrArg some (jsonAsI64_of_fits h hint)⟩
      simp [scalarValue, Json.asStr, Json.asBool, hint]
  | false =>
      cases n with
      | float q =>
          refine ⟨.float (.fin q), ?_, rfl⟩
          simp [scalarValue, Json.asStr, Json.asBool, hint, Json.asF64, Number.asF64]
      | posInt n hn => simp [isInteger, Json.asU64, Number.asU64] at hint
      | negInt i hi => cases hint

/-- A column against a bound number. -/
theorem compares_number {w : PgValue} {q : ℚ} (hw : w.number = some q) (op : Comparison)
    (c : Cell) :
    c.compares op w = match c with
      | .number x => op.holds x q
      | _ => false := by
  cases w with
  | int i => cases c <;> simp [Cell.compares, hw]
  | float f => cases c <;> simp [Cell.compares, hw]
  | text s => cases hw
  | bool x => cases hw
  | textArray ss => cases hw
  | intArray is => cases hw
  | floatArray fs => cases hw

/-- The value that is bound for a scalar compares as the scalar does. -/
theorem exists_scalarValue {v : Json} (h : Json.isScalar v = true) (hfits : fits v = true) :
    ∃ w, scalarValue v = some w ∧ ∀ c : Cell, c.compares .eq w = c.is v := by
  cases v with
  | string s =>
      refine ⟨.text s, rfl, fun c ↦ ?_⟩
      cases c <;> simp [Cell.compares, Cell.is, PgValue.number]
  | bool x =>
      refine ⟨.bool x, rfl, fun c ↦ ?_⟩
      cases c <;> simp [Cell.compares, Cell.is, PgValue.number]
  | number n =>
      obtain ⟨w, hw, hnumber⟩ := exists_numberValue hfits
      refine ⟨w, hw, fun c ↦ (compares_number hnumber .eq c).trans ?_⟩
      cases c with
      | number x => exact decide_eq_decide.mpr Iff.rfl
      | text _ => rfl
      | bool _ => rfl
      | timestamp _ => rfl
  | null => cases h
  | array _ => cases h
  | object _ => cases h

theorem scalarHolds_of_not_labels {v : Json} (row : Row)
    (h : (v.asStr.isSome && isMultivaluedKeywordField field) = false) :
    scalarHolds row field v = valueHolds row field v := by
  rw [scalarHolds]
  split_ifs with hmulti
  · rw [hmulti, Bool.and_true] at h
    cases v with
    | string s => cases h
    | _ => rfl
  · rfl

theorem holds_value (hfield : '"' ∉ field.toList) {v : Json} (h : Json.isScalar v = true)
    (hfits : fits v = true) :
    (outcome b).Holds (fun parts ↦ parts ≠ [] ∧
      SaysParts instant b (fun row ↦ scalarHolds row field v) parts) (buildMatchValue field v) := by
  obtain ⟨w, hw, hcompares⟩ := exists_scalarValue h hfits
  rw [buildMatchValue, hw]
  refine (outcome b).bind (holds_bindValue w) ?_
  rintro _ ⟨n, rfl, hn⟩
  cases hlabels : v.asStr.isSome && isMultivaluedKeywordField field with
  | true =>
      obtain ⟨hstring, hmulti⟩ := Bool.and_eq_true_iff.mp hlabels
      refine (outcome b).pure ⟨List.cons_ne_nil _ _, saysParts_singleton ?_⟩
      refine (says_hasElement hfield hn).congr fun a _ ↦ ?_
      cases v with
      | string s =>
          cases hw
          dsimp only
          rw [scalarHolds, if_pos hmulti, itemHolds]
          congr 1
          funext c
          cases c <;> simp [Cell.has, PgValue.texts]
      | _ => cases hstring
  | false =>
      refine (outcome b).pure ⟨List.cons_ne_nil _ _, saysParts_singleton ?_⟩
      refine (says_binaryText hfield rfl rfl hn).congr fun a _ ↦ ?_
      dsimp only
      rw [scalarHolds_of_not_labels a.2 hlabels, valueHolds]
      congr 1
      funext c
      exact hcompares c

/-! ### Lists -/

/-- A list of items that each say something about the column. -/
theorem any_itemHolds (row : Row) {vs : List Json} {p : Json → Cell → Bool}
    (h : ∀ v ∈ vs, itemHolds row field v = (row field.toList).any (p v)) :
    vs.any (itemHolds row field) = (row field.toList).any fun c ↦ vs.any (p · c) := by
  rw [any_congr_of_mem h]
  cases row field.toList with
  | none => exact List.any_eq_false.mpr fun _ _ ↦ Bool.false_ne_true
  | some c => rfl

/-- The numbers of a list. -/
theorem any_is_number {vs : List Json} {num : Json → ℚ} (x : ℚ)
    (h : ∀ v ∈ vs, ∃ n, v = .number n ∧ num v = n.value) :
    vs.any (Cell.number x).is = (vs.map num).contains x := by
  rw [← List.any_beq, List.any_map]
  refine any_congr_of_mem fun v hv ↦ ?_
  obtain ⟨n, rfl, hn⟩ := h v hv
  show decide (x = n.value) = (x == num (.number n))
  rw [hn]
  rfl

theorem holds_numbers (hfield : '"' ∉ field.toList) {type : String}
    (htype : type = "bigint" ∨ type = "double precision") {vs : List Json} {w : PgValue}
    {num : Json → ℚ} (h : ∀ v ∈ vs, ∃ n, v = .number n ∧ num v = n.value)
    (hw : w.numbers = vs.map num) :
    (outcome b).Holds (fun t ↦ SaysRow instant b (fun row ↦ vs.any (itemHolds row field)) t)
      (do
        let ph ← bindValue w
        pure (anyText field type ph)) := by
  refine (outcome b).bind (holds_bindValue w) ?_
  rintro _ ⟨n, rfl, hn⟩
  refine (outcome b).pure ((says_anyText hfield htype hn).congr fun a _ ↦ ?_)
  have hitems : ∀ v ∈ vs, itemHolds a.2 field v = (a.2 field.toList).any (Cell.is · v) := by
    intro v hv
    obtain ⟨n, rfl, -⟩ := h v hv
    rfl
  dsimp only
  rw [any_itemHolds a.2 hitems, hw]
  congr 1
  funext c
  cases c with
  | number x => exact (any_is_number x h).symm
  | _ =>
      refine (List.any_eq_false.mpr fun v hv ↦ ?_).symm
      obtain ⟨n, rfl, -⟩ := h v hv
      exact Bool.false_ne_true

theorem holds_strings (hfield : '"' ∉ field.toList) {vs : List Json} (h : vs.all isString = true) :
    (outcome b).Holds (fun t ↦ SaysRow instant b (fun row ↦ vs.any (itemHolds row field)) t)
      (do
        let ph ← bindValue (.textArray (vs.filterMap Json.asStr))
        pure (splitText field ++ " && ".toList ++ ph ++ "::text[]".toList)) := by
  refine (outcome b).bind (holds_bindValue _) ?_
  rintro _ ⟨n, rfl, hn⟩
  refine (outcome b).pure ((says_overlaps hfield hn).congr fun a _ ↦ ?_)
  have hitems : ∀ v ∈ vs, itemHolds a.2 field v =
      (a.2 field.toList).any fun c ↦ v.asStr.any (Cell.has · c) := by
    intro v hv
    cases v with
    | string t => rfl
    | _ => cases List.all_eq_true.mp h _ hv
  dsimp only
  rw [any_itemHolds a.2 hitems]
  congr 1
  funext c
  have hany : (vs.any fun v ↦ v.asStr.any (Cell.has · c)) =
      (vs.filterMap Json.asStr).any (Cell.has · c) := by
    rw [List.any_filterMap]
    refine any_congr_of_mem fun v _ ↦ ?_
    cases v.asStr <;> rfl
  rw [hany]
  cases c with
  | text t => simp only [PgValue.texts, List.any_map, Function.comp_def, Cell.has]
  | _ => exact (List.any_eq_false.mpr fun _ _ ↦ Bool.false_ne_true).symm

variable (instant) in
theorem holds_matchAny (hfield : '"' ∉ field.toList) {vs : List Json}
    (h : (vs.all isNumber || vs.all isString) = true) (hfits : fitsItems vs = true) :
    (outcome b).Holds (fun t ↦ SaysRow instant b (fun row ↦ vs.any (itemHolds row field)) t)
      (buildMatchAny field vs) := by
  by_cases hne : vs = []
  · subst hne
    exact (outcome b).pure says_false
  rw [Bool.or_eq_true] at h
  rw [fitsItems] at hfits
  rcases h with h | h
  · rw [buildMatchAny_numbers hne h]
    rw [List.all_eq_true] at h
    split_ifs at hfits ⊢ with hints
    · rw [List.all_eq_true] at hints hfits
      have hnumbers : ∀ v ∈ vs, ∃ n, v = .number n ∧ (jsonAsI64 v : ℚ) = n.value := by
        intro v hv
        cases v with
        | number n => exact ⟨n, rfl, jsonAsI64_of_fits (hfits _ hv) (hints _ hv)⟩
        | _ => cases hints _ hv
      refine holds_numbers hfield (.inl rfl) hnumbers ?_
      rw [PgValue.numbers, List.map_map]
      rfl
    · rw [List.all_eq_true] at hfits
      have hnumbers : ∀ v ∈ vs, ∃ n, v = .number n ∧ n.asF64 = some (.fin n.value) := by
        intro v hv
        cases v with
        | number n => exact ⟨n, rfl, of_decide_eq_true (hfits _ hv)⟩
        | _ => cases h _ hv
      have hvalues : ∀ v ∈ vs, ∃ n, v = .number n ∧
          ((v.asF64.bind fun f ↦ (PgValue.float f).number).getD 0 : ℚ) = n.value := by
        intro v hv
        obtain ⟨n, rfl, hn⟩ := hnumbers v hv
        refine ⟨n, rfl, ?_⟩
        rw [Json.asF64, hn]
        rfl
      refine holds_numbers hfield (.inr rfl) hvalues ?_
      rw [PgValue.numbers, List.filterMap_map, ← List.filterMap_eq_map]
      refine List.filterMap_congr fun v hv ↦ ?_
      obtain ⟨n, rfl, hn⟩ := hnumbers v hv
      show (PgValue.float (n.asF64.getD (.fin 0))).number =
        some ((n.asF64.bind fun f ↦ (PgValue.float f).number).getD 0)
      rw [hn]
      rfl
  · rw [buildMatchAny_strings hne h]
    exact holds_strings hfield h

/-! ### Ranges -/

/-- The key of a bound has an operator, which is read as its comparison. -/
theorem sqlOp_cases (key : String) :
    (sqlOp key = none ∧ comparisonOf key = none) ∨
      ∃ op cmp, sqlOp key = some op ∧ comparisonOf key = some cmp ∧
        Lexer.lex spelling op.toList = some [.symbol op.toList] ∧
        readComparison op.toList = some cmp := by
  by_cases hlt : key = "lt"
  · subst hlt
    exact .inr ⟨_, _, rfl, rfl, rfl, rfl⟩
  by_cases hgt : key = "gt"
  · subst hgt
    exact .inr ⟨_, _, rfl, rfl, rfl, rfl⟩
  by_cases hlte : key = "lte"
  · subst hlte
    exact .inr ⟨_, _, rfl, rfl, rfl, rfl⟩
  by_cases hgte : key = "gte"
  · subst hgte
    exact .inr ⟨_, _, rfl, rfl, rfl, rfl⟩
  · exact .inl ⟨sqlOp.eq_5 key hlt hgt hlte hgte, comparisonOf.eq_5 key hlt hgt hlte hgte⟩

variable (jsonText : Json → Text)

variable (instant) in
/-- A bound that is a number or a timestamp. -/
theorem holds_bound (hfield : '"' ∉ field.toList) {op : String} {cmp : Comparison}
    (hlex : Lexer.lex spelling op.toList = some [.symbol op.toList])
    (hop : readComparison op.toList = some cmp) {v : Json} (h : isBound v = true)
    (hfits : fitsOperand v = true) (hnull : isNull v = false) :
    (outcome b).Holds (SaysRow instant b fun row ↦
        (row field.toList).any (Cell.within instant cmp v))
      (buildBound jsonText field op v) := by
  cases v with
  | number n =>
      obtain ⟨w, hw, hnumber⟩ := exists_numberValue hfits
      have hbuild : buildBound jsonText field op (.number n) = (do
          let ph ← bindValue w
          pure (binaryText field op ph)) := by
        rw [buildBound, hw]
        cases w with
        | int i => rfl
        | float f => rfl
        | _ => cases hnumber
      rw [hbuild]
      refine (outcome b).bind (holds_bindValue w) ?_
      rintro _ ⟨n', rfl, hn⟩
      refine (outcome b).pure ((says_binaryText hfield hlex hop hn).congr fun a _ ↦ ?_)
      dsimp only
      congr 1
      funext c
      rw [compares_number hnumber]
      cases c <;> rfl
  | string s =>
      refine (outcome b).pure ((says_timestamp hfield hlex hop s).congr fun a _ ↦ ?_)
      dsimp only
      congr 1
      funext c
      cases c <;> rfl
  | null => cases hnull
  | bool _ => cases h
  | array _ => cases h
  | object _ => cases h

theorem holds_bounds (hfield : '"' ∉ field.toList) {obj : List (String × Json)}
    (h : ∀ e ∈ obj, (sqlOp e.1).isSome = true → isBound e.2 = true ∧ fitsOperand e.2 = true) :
    (outcome b).Holds (fun parts ↦
        SaysParts instant b (fun row ↦ obj.all (boundHolds row field instant)) parts ∧
        ((∃ e ∈ obj, (sqlOp e.1).isSome = true ∧ isNumber e.2 = true) → parts ≠ []))
      (buildBounds jsonText field obj) := by
  induction obj with
  | nil =>
      refine (outcome b).pure ⟨saysParts_nil, ?_⟩
      rintro ⟨e, he, -⟩
      cases he
  | cons e obj ih =>
      obtain ⟨key, v⟩ := e
      rw [List.forall_mem_cons] at h
      rw [buildBounds]
      rcases sqlOp_cases key with ⟨hop, hcmp⟩ | ⟨op, cmp, hop, hcmp, hlex, hread⟩
      · rw [hop]
        intro n hn
        obtain ⟨hparts, hne⟩ := ih h.2 n hn
        refine ⟨hparts.congr fun row ↦ ?_, ?_⟩
        · rw [List.all_cons, boundHolds, hcmp]
          rfl
        · rintro ⟨e, he, hsome, hnumber⟩
          rcases List.mem_cons.mp he with rfl | he
          · rw [hop] at hsome
            cases hsome
          · exact hne ⟨e, he, hsome, hnumber⟩
      · rw [hop]
        dsimp only
        cases hnull : isNull v with
        | true =>
            rw [if_pos rfl]
            intro n hn
            obtain ⟨hparts, hne⟩ := ih h.2 n hn
            refine ⟨hparts.congr fun row ↦ ?_, ?_⟩
            · rw [List.all_cons, boundHolds, hcmp]
              dsimp only
              rw [hnull]
              rfl
            · rintro ⟨e, he, hsome, hnumber⟩
              rcases List.mem_cons.mp he with rfl | he
              · cases v with
                | null => cases hnumber
                | _ => cases hnull
              · exact hne ⟨e, he, hsome, hnumber⟩
        | false =>
            rw [if_neg Bool.false_ne_true]
            obtain ⟨hbound, hfits⟩ := h.1 (by rw [hop]; rfl)
            refine (outcome b).bind
              (holds_bound instant jsonText hfield hlex hread hbound hfits hnull)
              fun clause hclause ↦ ?_
            refine (outcome b).bind (ih h.2) fun clauses hclauses ↦ ?_
            refine (outcome b).pure ⟨?_, fun _ ↦ List.cons_ne_nil _ _⟩
            refine ((saysParts_singleton hclause).append hclauses.1).congr fun row ↦ ?_
            rw [List.all_cons, boundHolds, hcmp]
            dsimp only
            rw [hnull]
            rfl

/-! ### Entries -/

variable (instant) in
theorem holds_condition_of_fits {l : Leaf} (h : Readable l) (hfits : Fits l) :
    (outcome b).Holds (fun parts ↦ parts ≠ [] ∧
        SaysParts instant b (fun row ↦ leafHolds row instant l) parts)
      (buildCondition jsonText l.field l.op l.criteria) := by
  obtain ⟨hwell, hfield⟩ := h
  cases hwell with
  | @value field v hv =>
      refine holds_value hfield hv ?_
      have hoperand := hfits ("value", v) List.mem_cons_self
      cases v with
      | array vs => cases hv
      | _ => exact hoperand
  | @any field vs hvs =>
      have hitems := hfits ("any", .array vs) List.mem_cons_self
      refine (outcome b).bind (holds_matchAny instant hfield hvs hitems) fun clause hclause ↦ ?_
      exact (outcome b).pure ⟨List.cons_ne_nil _ _, saysParts_singleton hclause⟩
  | @range field obj hobj hone =>
      intro n hn
      have hbounds : ∀ e ∈ obj, (sqlOp e.1).isSome = true →
          isBound e.2 = true ∧ fitsOperand e.2 = true :=
        fun e he hop ↦ ⟨hobj e he hop, hfits e (List.mem_filter.mpr ⟨he, hop⟩)⟩
      obtain ⟨hparts, hne⟩ := holds_bounds jsonText hfield hbounds n hn
      exact ⟨hne hone, hparts⟩

variable (instant) in
theorem holds_condition {l : Leaf} (h : Readable l) :
    (outcome b).Holds (fun parts ↦ parts ≠ [] ∧
        SaysParts instant b (fun row ↦ leafHolds row instant (boundLeaf l)) parts)
      (buildCondition jsonText l.field l.op l.criteria) := by
  rw [← buildCondition_boundLeaf jsonText h.1]
  exact holds_condition_of_fits instant jsonText ⟨h.1.boundLeaf, h.2⟩ h.1.fits_boundLeaf

variable (instant) in
/-- The operations on a field. -/
theorem holds_conditions {field : String} {ops : List (String × Json)}
    (h : ∀ e ∈ ops, Readable ⟨field, e.1, e.2⟩) :
    (outcome b).Holds (fun parts ↦ (ops ≠ [] → parts ≠ []) ∧
        SaysParts instant b
          (fun row ↦ ops.all fun e ↦ leafHolds row instant (boundLeaf ⟨field, e.1, e.2⟩)) parts)
      (buildConditions jsonText field ops) := by
  induction ops with
  | nil => exact (outcome b).pure ⟨fun hne ↦ absurd rfl hne, saysParts_nil⟩
  | cons e ops ih =>
      rw [List.forall_mem_cons] at h
      refine (outcome b).bind (holds_condition instant jsonText h.1) fun parts hparts ↦ ?_
      refine (outcome b).bind (ih h.2) fun more hmore ↦ ?_
      refine (outcome b).pure ⟨fun _ hnil ↦ hparts.1 (List.append_eq_nil_iff.mp hnil).1, ?_⟩
      refine (hparts.2.append hmore.2).congr fun row ↦ ?_
      rw [List.all_cons]

variable (instant) in
/-- The operations of an entry. -/
theorem holds_fields {obj : List (String × Json)} (hobjects : ∀ e ∈ obj, e.2.asObject.isSome = true)
    (h : ∀ l ∈ fieldLeaves obj, Readable l) :
    (outcome b).Holds (fun r ↦ ∃ parts, r = some parts ∧ (fieldLeaves obj ≠ [] → parts ≠ []) ∧
        SaysParts instant b
          (fun row ↦ (fieldLeaves obj).all fun l ↦ leafHolds row instant (boundLeaf l)) parts)
      (buildFields jsonText obj) := by
  induction obj with
  | nil => exact (outcome b).pure ⟨[], rfl, fun hne ↦ absurd rfl hne, saysParts_nil⟩
  | cons e obj ih =>
      obtain ⟨field, filters⟩ := e
      rw [List.forall_mem_cons] at hobjects
      cases filters with
      | object ops =>
          have hleaves : fieldLeaves ((field, .object ops) :: obj) =
              ops.map (fun e ↦ ⟨field, e.1, e.2⟩) ++ fieldLeaves obj := rfl
          rw [hleaves, List.forall_mem_append, List.forall_mem_map] at h
          rw [hleaves]
          refine (outcome b).bind (holds_conditions instant jsonText h.1) fun parts hparts ↦ ?_
          refine (outcome b).bind (ih hobjects.2 h.2) ?_
          rintro _ ⟨more, rfl, hmore⟩
          refine (outcome b).pure ⟨_, rfl, fun hne hnil ↦ ?_, ?_⟩
          · obtain ⟨hnone, hnone'⟩ := List.append_eq_nil_iff.mp hnil
            apply hne
            rw [not_imp_not.mp hparts.1 hnone, not_imp_not.mp hmore.1 hnone']
            rfl
          · refine (hparts.2.append hmore.2).congr fun row ↦ ?_
            rw [List.all_append, List.all_map]
            rfl
      | null => cases hobjects.1
      | bool _ => cases hobjects.1
      | number _ => cases hobjects.1
      | string _ => cases hobjects.1
      | array _ => cases hobjects.1

end Clauses

/-! ## Trees -/

section Trees

variable {jsonText : Json → Text} {instant : Text → Option ℚ} {b : ℕ → Option PgValue}

theorem toList_and : " AND ".toList = ' ' :: ("AND".toList ++ [' ']) := rfl

theorem toList_or : " OR ".toList = ' ' :: ("OR".toList ++ [' ']) := rfl

/-- Clauses with conjunctions between them. -/
theorem SaysParts.join {truth : Row → Bool} {parts : List Text}
    (h : SaysParts instant b truth parts) (hne : parts ≠ []) :
    SaysRow instant b truth (" AND ".toList.intercalate parts) := by
  obtain ⟨truths, hparts, hall⟩ := h
  rw [toList_and]
  exact (says_conj standard spells_and hparts hne).congr fun a _ ↦ hall a.2

/-- The values of the placeholders, and a row. -/
abbrev Bound := (ℕ → Option PgValue) × Row

/-- A text with this truth, where `b` are the values of the placeholders. -/
abbrev SaysBound (instant : Text → Option ℚ) (b : ℕ → Option PgValue) :
    (Bound → Bool) → Text → Prop :=
  Says language (Atom.holds instant) (fun a ↦ a.1 = b)

theorem says_pgGroup {fs gs : Option (List (Bound → Bool))} {ands ors : Option (List Text)}
    (hsome : (fs.isSome || gs.isSome) = true) (hands : Arm (SaysBound instant b) fs ands)
    (hors : Arm (SaysBound instant b) gs ors) :
    ∃ t, buildPgGroup ands ors = some t ∧ SaysBound instant b (groupTruth fs gs) t := by
  refine says_groupText standard spells_and ?_ ?_ hsome hands hors
  · intro fs bs h hne
    rw [parensAnd, toList_and]
    exact (says_conj standard spells_and h hne).parens standard
  · intro fs bs h hne
    rw [parensOr, toList_or]
    exact says_disj standard spells_or h hne

variable (jsonText instant b) in
theorem conjoins_pgBuilder :
    (pgBuilder jsonText).Conjoins (outcome b) Readable
    (fun a l ↦ leafHolds a.2 instant (boundLeaf l))
      (SaysBound instant b) where
  isGroup _ := rfl
  enter _ _ := (outcome b).pure trivial
  leave _ _ := (outcome b).pure trivial
  group _ hsome hands hors := by
    obtain ⟨t, ht, htold⟩ := says_pgGroup hsome hands hors
    show (outcome b).Holds _ (pure ((buildPgGroup _ _).map _).toList)
    rw [ht]
    exact (outcome b).pure (.cons (htold.parens standard) .nil)
  leaf {obj} _ hobjects hne hP := by
    show (outcome b).Holds _ (buildFields jsonText obj >>= fun parts ↦ pure _)
    refine (outcome b).bind (holds_fields instant jsonText hobjects hP) ?_
    rintro _ ⟨parts, rfl, hparts, htold⟩
    cases parts with
    | nil => exact absurd rfl (hparts hne)
    | cons t ts => exact (outcome b).pure (.cons (htold.join (List.cons_ne_nil t ts)) .nil)

/-- The group of a conditions value. -/
def conditionsGroup (jsonText : Json → Text) (obj : List (String × Json)) :
    FilterBuilder (Option Text) := do
  let ands ← (pgBuilder jsonText).arrayAt "and" obj
  let ors ← (pgBuilder jsonText).arrayAt "or" obj
  pure (buildPgGroup ands ors)

theorem parsePgConditions_object {obj : List (String × Json)} (hne : obj ≠ []) (n : ℕ) :
    parsePgConditions jsonText (.object obj) n =
      (conditionsGroup jsonText obj n).1.map fun t ↦ (t, (conditionsGroup jsonText obj n).2) := by
  rw [parsePgConditions, Json.asObject]
  dsimp only
  rw [if_neg (mt List.isEmpty_iff.mp hne)]
  rfl

/-- The template of a condition tree is read as a condition that is true of exactly the rows
the tree is true of with the numbers that are bound, when its values are found at its
placeholders. -/
theorem parsePgConditions_holds (jsonText : Json → Text) (instant : Text → Option ℚ)
    {conditions : Json} {t : BoolTree Leaf} (hkeys : conditions.keysDistinct = true)
    (ht : ofConditions conditions = some t) (hleaves : ∀ l ∈ t.leaves, Readable l) (n : ℕ) :
    ∃ template values F, parsePgConditions jsonText conditions n = some (template, values) ∧
      parse language template = some F ∧
      ∀ row, F.eval (Atom.holds instant (Numbering.placed n values, row)) =
        t.eval fun l ↦ leafHolds row instant (boundLeaf l) := by
  obtain ⟨obj, rfl, -, -⟩ := exists_object_of_ofConditions ht
  obtain ⟨b, hb⟩ : ∃ b, b = Numbering.placed n (conditionsGroup jsonText obj n).2 := ⟨_, rfl⟩
  obtain ⟨obj', ts, us, hobj, hg, hand, hor⟩ :=
    (conjoins_pgBuilder jsonText instant b).follows.arms hkeys ht hleaves
  cases hobj
  have hsome : ((ts.map
    (verdicts fun (a : Bound) l ↦ leafHolds a.2 instant (boundLeaf l))).isSome ||
      (us.map (verdicts fun (a : Bound) l ↦ leafHolds a.2 instant (boundLeaf l))).isSome) =
        true := by
    rw [Option.isSome_map, Option.isSome_map]
    exact isSome_of_groupTree hg.tree
  have hgroup : (outcome b).Holds (fun r ↦ ∃ s, r = some s ∧
      SaysBound instant b (fun a ↦ t.eval fun l ↦ leafHolds a.2 instant (boundLeaf l)) s)
      (conditionsGroup jsonText obj) := by
    refine (outcome b).bind hand fun ands hands ↦ (outcome b).bind hor fun ors hors ↦ ?_
    obtain ⟨s, hs, htold⟩ := says_pgGroup hsome hands hors
    refine (outcome b).pure ⟨s, hs, htold.congr fun a _ ↦ ?_⟩
    exact congrFun (groupTruth_verdicts _ hg.tree) a
  obtain ⟨s, hs, htold⟩ := hgroup n (hb ▸ Numbering.agrees_placed n _)
  obtain ⟨F, hF, heval⟩ := htold.parse
  refine ⟨s, (conditionsGroup jsonText obj n).2, F, ?_, hF, fun row ↦ ?_⟩
  · rw [parsePgConditions_object (ne_nil_of_ofEntry hg.entry), hs]
    rfl
  · exact hb ▸ heval (b, row) rfl

end Trees

/-! ## Rows that tell what is bound from what is asked for -/

section Telling

variable {row : Row} {instant : Text → Option ℚ} {field : String} {l : Leaf} {vs : List Json}

theorem itemHolds_number {n m : Number} (h : n.value = m.value) :
    itemHolds row field (.number n) = itemHolds row field (.number m) := by
  show (row field.toList).any (Cell.is · (.number n)) =
    (row field.toList).any (Cell.is · (.number m))
  congr 1
  funext c
  cases c with
  | number x =>
      show decide (x = n.value) = decide (x = m.value)
      rw [h]
  | _ => rfl

theorem itemHolds_rounded {v : Json} (h : isExact v = true) :
    itemHolds row field (rounded v) = itemHolds row field v := by
  cases v with
  | number n =>
      obtain ⟨q, hq, hn⟩ := exists_rounded n
      have hvalue : some (F64.fin q) = some (.fin n.value) := hn.symm.trans (of_decide_eq_true h)
      rw [rounded, hq]
      exact itemHolds_number (F64.fin.inj (Option.some.inj hvalue))
  | _ => rfl

theorem leafHolds_any : leafHolds row instant ⟨field, "match", .object [("any", .array vs)]⟩ =
    vs.any (itemHolds row field) := rfl

theorem leafHolds_value {v : Json} :
    leafHolds row instant ⟨field, "match", .object [("value", v)]⟩ = scalarHolds row field v := rfl

theorem leafHolds_range {obj : List (String × Json)} :
    leafHolds row instant ⟨field, "range", .object obj⟩ = obj.all (boundHolds row field instant) :=
  rfl

/-- With numbers that fit an operation is true where it is true with what is bound. -/
theorem leafHolds_boundLeaf (h : WellFormed l) (hfits : Fits l) :
    leafHolds row instant (boundLeaf l) = leafHolds row instant l := by
  cases h with
  | @value field v hv =>
      have hoperand : fitsOperand v = true := hfits ("value", v) List.mem_cons_self
      show scalarHolds row field (boundOperand v) = _
      rw [boundOperand_eq_self (asArray_of_isScalar hv) hoperand, leafHolds_value]
  | @any field vs hvs =>
      have hitems : fitsItems vs = true := hfits ("any", .array vs) List.mem_cons_self
      show (boundItems vs).any (itemHolds row field) = _
      rw [leafHolds_any, boundItems]
      rw [fitsItems] at hitems
      split_ifs at hitems ⊢
      · rw [List.any_map]
        refine any_congr_of_mem fun v hv ↦ ?_
        rw [Function.comp_apply, wrapped_eq_self (List.all_eq_true.mp hitems v hv)]
      · rw [List.any_map]
        exact any_congr_of_mem fun v hv ↦ itemHolds_rounded (List.all_eq_true.mp hitems v hv)
  | @range field obj hobj hone =>
      show (obj.map fun e ↦ (e.1, boundOperand e.2)).all (boundHolds row field instant) = _
      rw [leafHolds_range, List.all_map]
      refine all_congr_of_mem fun e he ↦ ?_
      obtain ⟨key, v⟩ := e
      rw [Function.comp_apply, boundHolds, boundHolds]
      rcases sqlOp_cases key with ⟨-, hcmp⟩ | ⟨op, cmp, hop, hcmp, -⟩
      · rw [hcmp]
      · have hsome : (sqlOp key).isSome = true := by rw [hop]; rfl
        have hoperand : fitsOperand v = true := hfits (key, v) (List.mem_filter.mpr ⟨he, hsome⟩)
        dsimp only
        rw [boundOperand_eq_self (asArray_of_isBound (hobj (key, v) he hsome)) hoperand]

/-- Nothing is true of a column without a value. -/
theorem leafHolds_none (h : WellFormed l) : leafHolds (fun _ ↦ none) instant l = false := by
  cases h with
  | @value field v hv =>
      rw [leafHolds_value, scalarHolds]
      split_ifs
      · cases v <;> rfl
      · rfl
  | @any field vs hvs =>
      rw [leafHolds_any, List.any_eq_false]
      intro v _
      cases v <;> exact Bool.false_ne_true
  | @range field obj hobj hone =>
      obtain ⟨⟨key, v⟩, he, hop, hnumber⟩ := hone
      rw [leafHolds_range, List.all_eq_false]
      refine ⟨(key, v), he, ?_⟩
      rcases sqlOp_cases key with ⟨hnone, -⟩ | ⟨op, cmp, -, hcmp, -⟩
      · rw [hnone] at hop
        cases hop
      · rw [boundHolds, hcmp]
        cases v with
        | number n => exact Bool.false_ne_true
        | _ => cases hnumber

/-! ### Columns with a number -/

theorem is_number (n : Number) : (Cell.number n.value).is (.number n) = true := decide_eq_true rfl

theorem scalarHolds_number (c : Cell) (n : Number) :
    scalarHolds (fun _ ↦ some c) field (.number n) = c.is (.number n) := by
  rw [scalarHolds]
  split_ifs <;> rfl

theorem Comparison.exists_holds (cmp : Comparison) (q : ℚ) : ∃ x, cmp.holds x q = true := by
  cases cmp with
  | eq => exact ⟨q, decide_eq_true rfl⟩
  | lt => exact ⟨q - 1, decide_eq_true (sub_one_lt q)⟩
  | gt => exact ⟨q + 1, decide_eq_true (lt_add_one q)⟩
  | le => exact ⟨q, decide_eq_true le_rfl⟩
  | ge => exact ⟨q, decide_eq_true le_rfl⟩

/-- Between two bounds a comparison tells one from the other. -/
theorem Comparison.holds_ne {cmp : Comparison} (hne : cmp ≠ .eq) {x p q : ℚ} (hp : p < x)
    (hq : x < q) : cmp.holds x q ≠ cmp.holds x p := by
  cases cmp with
  | eq => exact absurd rfl hne
  | lt => simp [holds, hq, hp.le]
  | gt => simp [holds, hp, hq.le]
  | le => simp [holds, hq.le, hp]
  | ge => simp [holds, hp.le, hq]

/-- An operation of one operand that is true of some value, with floats as `f64`s are. -/
structure Telling (instant : Text → Option ℚ) (l : Leaf) : Prop where
  single : (l.criteria.asObject.getD []).length = 1
  floats : ∀ q ∈ l.criteria.floats, F64.IsValue q
  satisfiable : ∃ c, leafHolds (fun _ ↦ some c) instant l = true

theorem comparisonOf_ne_eq {key : String} {cmp : Comparison} (h : comparisonOf key = some cmp) :
    cmp ≠ .eq := by
  rintro rfl
  unfold comparisonOf at h
  split at h <;> cases h

/-- The bound of a range of one bound. -/
theorem Telling.exists_bound {obj : List (String × Json)}
    (ht : Telling instant ⟨field, "range", .object obj⟩)
    (hone : ∃ e ∈ obj, (sqlOp e.1).isSome = true ∧ isNumber e.2 = true) :
    ∃ key n cmp, obj = [(key, .number n)] ∧ comparisonOf key = some cmp ∧ cmp ≠ .eq ∧
      operands ⟨field, "range", .object obj⟩ = [(key, .number n)] := by
  obtain ⟨e, rfl⟩ := List.length_eq_one_iff.mp ht.single
  obtain ⟨⟨key, v⟩, he, hop, hnumber⟩ := hone
  rw [List.mem_singleton] at he
  subst he
  cases v with
  | number n =>
      have hoperands : operands ⟨field, "range", .object [(key, .number n)]⟩ =
          [(key, .number n)] := List.filter_eq_self.mpr (List.forall_mem_singleton.mpr hop)
      rcases sqlOp_cases key with ⟨hnone, -⟩ | ⟨op, cmp, -, hcmp, -⟩
      · rw [hnone] at hop
        cases hop
      · exact ⟨key, n, cmp, rfl, hcmp, comparisonOf_ne_eq hcmp, hoperands⟩
  | _ => cases hnumber

theorem leafHolds_bound {key : String} {cmp : Comparison} (hcmp : comparisonOf key = some cmp)
    (n : Number) (x : ℚ) :
    leafHolds (fun _ ↦ some (.number x)) instant ⟨field, "range", .object [(key, .number n)]⟩ =
      cmp.holds x n.value := by
  rw [leafHolds_range, List.all_cons, List.all_nil, Bool.and_true, boundHolds, hcmp]
  rfl

/-- What is bound for an operation is true of some value, too. -/
theorem Telling.exists_cell_bound (ht : Telling instant l) (h : WellFormed l) :
    ∃ c, leafHolds (fun _ ↦ some c) instant (boundLeaf l) = true := by
  by_cases hfits : Fits l
  · obtain ⟨c, hc⟩ := ht.satisfiable
    exact ⟨c, (leafHolds_boundLeaf h hfits).trans hc⟩
  cases h with
  | @value field v hv =>
      cases v with
      | number n =>
          refine ⟨.number (Number.wrapped n).value, ?_⟩
          rw [boundLeaf_value rfl, leafHolds_value, wrapped, scalarHolds_number, is_number]
      | array vs => cases hv
      | null => cases hv
      | object es => cases hv
      | string s => exact ht.satisfiable
      | bool b => exact ht.satisfiable
  | @any field vs hvs =>
      obtain ⟨c, hc⟩ := ht.satisfiable
      rw [leafHolds_any, List.any_eq_true] at hc
      obtain ⟨v, hv, hholds⟩ := hc
      rcases Bool.or_eq_true_iff.mp hvs with hvs | hvs
      · have hne : boundItems vs ≠ [] := by
          rw [boundItems]
          split_ifs <;> exact mt List.map_eq_nil_iff.mp (List.ne_nil_of_mem hv)
        obtain ⟨w, hw⟩ := List.exists_mem_of_ne_nil _ hne
        have hnumber := List.all_eq_true.mp (all_isNumber_boundItems hvs) w hw
        cases w with
        | number n => exact ⟨.number n.value, List.any_eq_true.mpr ⟨_, hw, is_number n⟩⟩
        | _ => cases hnumber
      · refine ⟨c, List.any_eq_true.mpr ⟨v, ?_, hholds⟩⟩
        rwa [boundItems_strings hvs]
  | @range field obj hobj hone =>
      obtain ⟨key, n, cmp, rfl, hcmp, -, -⟩ := ht.exists_bound hone
      obtain ⟨x, hx⟩ := cmp.exists_holds (Number.wrapped n).value
      exact ⟨.number x, (leafHolds_bound hcmp _ x).trans hx⟩

/-- An integer that is bound is an `i64`. -/
theorem exists_lt_of_wrapped {v : Json} (h : isInteger v = true) :
    ∃ n, wrapped v = .number n ∧ n.value < 2 ^ 63 := by
  have hfits := fits_wrapped v
  have hint := isInteger_wrapped h
  cases hw : wrapped v with
  | number n =>
      rw [hw] at hfits hint
      refine ⟨n, rfl, ?_⟩
      cases n with
      | posInt k hk =>
          have hlt : k < 2 ^ 63 := of_decide_eq_true hfits
          show (k : ℚ) < 2 ^ 63
          exact_mod_cast hlt
      | negInt i hi =>
          have hneg : ((i : ℤ) : ℚ) < 0 := by exact_mod_cast hi.2
          exact hneg.trans (by norm_num)
      | float q => cases hint
  | _ =>
      rw [hw] at hint
      cases hint

/-- A number beside floats that is none of an `f64`'s is not among those that are bound. -/
theorem not_is_rounded {n : Number} (hn : isExact (.number n) = false) {v : Json}
    (hv : isNumber v = true) (hfloats : ∀ q ∈ v.floats, F64.IsValue q) :
    (Cell.number n.value).is (rounded v) = false := by
  cases v with
  | number m =>
      obtain ⟨q, hq, hm⟩ := exists_rounded m
      rw [rounded, hq]
      refine decide_eq_false fun heq ↦ ?_
      have hvalue : F64.IsValue q := by
        cases m with
        | posInt k hk =>
            have hvalid := F64.valid_ofInt (i := k) (by simpa using hk)
            cases hm
            exact hvalid
        | negInt i hi =>
            have hvalid := F64.valid_ofInt (i := i) (by omega)
            cases hm
            exact hvalid
        | float q' =>
            cases hm
            exact hfloats q (List.mem_singleton_self q)
      obtain rfl : n.value = q := heq
      refine Bool.false_ne_true (hn.symm.trans (decide_eq_true ?_))
      cases n with
      | posInt k hk =>
          exact congrArg some (F64.ofInt_of_isValue (i := k) (by exact_mod_cast hvalue))
      | negInt i hi => exact congrArg some (F64.ofInt_of_isValue hvalue)
      | float q => rfl
  | _ => cases hv

/-- A number that is not bound as it is shows for some value. -/
theorem Telling.exists_cell_ne (ht : Telling instant l) (h : WellFormed l) (hfits : ¬Fits l) :
    ∃ c, leafHolds (fun _ ↦ some c) instant l ≠ leafHolds (fun _ ↦ some c) instant
      (boundLeaf l) := by
  cases h with
  | @value field v hv =>
      have hnot : fits v = false := by
        by_contra hfit
        refine hfits (List.forall_mem_singleton.mpr ?_)
        cases v with
        | array vs => cases hv
        | _ => exact Bool.eq_true_of_not_eq_false hfit
      obtain ⟨n, hn, hw, hle, rfl, hwrapped⟩ := exists_of_not_fits hnot
      refine ⟨.number n, ?_⟩
      rw [boundLeaf_value rfl, hwrapped, leafHolds_value, leafHolds_value, scalarHolds_number,
        scalarHolds_number]
      have htrue : (Cell.number n).is (.number (.posInt n hn)) = true := decide_eq_true rfl
      have hfalse : (Cell.number n).is (.number (.negInt (n - 2 ^ 64) hw)) = false := by
        have hlt : ((n - 2 ^ 64 : ℤ) : ℚ) < n := by
          push_cast
          linarith
        exact decide_eq_false hlt.ne'
      rw [htrue, hfalse]
      exact Bool.true_eq_false.mp
  | @any field vs hvs =>
      have hnot : fitsItems vs = false := by
        by_contra hfit
        exact hfits (List.forall_mem_singleton.mpr (Bool.eq_true_of_not_eq_false hfit))
      rw [fitsItems] at hnot
      have hbound : ∀ {c : Cell} {v : Json}, v ∈ vs → itemHolds (fun _ ↦ some c) field v = true →
          (∀ w ∈ boundItems vs, itemHolds (fun _ ↦ some c) field w = false) →
          leafHolds (fun _ ↦ some c) instant ⟨field, "match", .object [("any", .array vs)]⟩ ≠
            leafHolds (fun _ ↦ some c) instant
              (boundLeaf ⟨field, "match", .object [("any", .array vs)]⟩) := by
        intro c v hv htrue hfalse
        have hany : vs.any (itemHolds (fun _ ↦ some c) field) = true :=
          List.any_eq_true.mpr ⟨v, hv, htrue⟩
        have hnone : (boundItems vs).any (itemHolds (fun _ ↦ some c) field) = false :=
          List.any_eq_false.mpr fun w hw ↦ Bool.eq_false_iff.mp (hfalse w hw)
        rw [boundLeaf_any, leafHolds_any, leafHolds_any, hany, hnone]
        exact Bool.true_eq_false.mp
      split_ifs at hnot with hints
      · obtain ⟨v, hv, hfit⟩ := List.all_eq_false.mp hnot
        obtain ⟨n, hn, hw, hle, rfl, -⟩ := exists_of_not_fits (Bool.not_eq_true _ |>.mp hfit)
        refine ⟨.number n, hbound hv (decide_eq_true rfl) ?_⟩
        rw [boundItems, if_pos hints, List.forall_mem_map]
        intro w hw
        obtain ⟨m, hm, hlt⟩ := exists_lt_of_wrapped (List.all_eq_true.mp hints w hw)
        rw [hm]
        refine decide_eq_false fun heq ↦ ?_
        rw [← heq] at hlt
        have hlt : n < 2 ^ 63 := by exact_mod_cast hlt
        omega
      · obtain ⟨v, hv, hfit⟩ := List.all_eq_false.mp hnot
        rw [Bool.not_eq_true] at hfit
        cases v with
        | number n =>
            refine ⟨.number n.value, hbound hv (is_number n) ?_⟩
            rw [boundItems, if_neg hints, List.forall_mem_map]
            intro w hw
            have hnumbers : vs.all isNumber = true := by
              rcases Bool.or_eq_true_iff.mp hvs with hvs | hvs
              · exact hvs
              · cases List.all_eq_true.mp hvs _ hv
            have hnumber := List.all_eq_true.mp hnumbers w hw
            have hitem := not_is_rounded hfit hnumber fun q hq ↦
              ht.floats q (Json.floats_subset_of_mem (List.mem_singleton_self _) q
                (Json.floats_subset_of_elem hw hq))
            cases w with
            | number m => exact hitem
            | _ => cases hnumber
        | _ => cases hfit
  | @range field obj hobj hone =>
      obtain ⟨key, m, cmp, rfl, hcmp, hne, hoperands⟩ := ht.exists_bound hone
      have hnot : fits (.number m) = false := by
        by_contra hfit
        refine hfits ?_
        rw [Fits, hoperands]
        exact List.forall_mem_singleton.mpr (Bool.eq_true_of_not_eq_false hfit)
      obtain ⟨n, hn, hw, hle, heq, hwrapped⟩ := exists_of_not_fits hnot
      cases heq
      refine ⟨.number (n - 1), ?_⟩
      rw [boundLeaf_bound, hwrapped, leafHolds_bound hcmp, leafHolds_bound hcmp]
      have habove : ((n - 2 ^ 64 : ℤ) : ℚ) < n - 1 := by
        push_cast
        linarith
      exact Comparison.holds_ne hne habove (sub_one_lt _)

end Telling

end VectorDbBenchmark.Pgvector
