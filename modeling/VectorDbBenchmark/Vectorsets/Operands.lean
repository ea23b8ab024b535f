import VectorDbBenchmark.ConditionTree
import VectorDbBenchmark.Vectorsets.Stored

/-!
# Operands of VSIM filters

What a condition tree asks of a document by an operand is what the attributes say of its
literal, for operands and values of kinds that are not stored alike.
-/

namespace VectorDbBenchmark.Vectorsets

open Kit Redis
open Readers (MetadataItem MetadataValue)

/-! ## Well-formed operations -/

/-- An integer that an `i64` holds, or a float that is printed as it is. -/
def fits : Number → Bool
  | .posInt n _ => n < 2 ^ 63
  | .negInt _ _ => true
  | .float q => |q| < 2 ^ 53

def isScalar : Json → Bool
  | .string _ | .bool _ => true
  | .number n => fits n
  | _ => false

/-- A string that is not empty, or a number. -/
def isItem : Json → Bool
  | .string s => !s.isEmpty
  | .number n => fits n
  | _ => false

/-- A value that nothing is equal to. -/
def isIdle : Json → Bool
  | .null | .array _ | .object _ => true
  | _ => false

section WellFormed

variable (instant : String → Option ℚ)

def isBound : Json → Bool
  | .string s => (instant s).isSome
  | .number n => fits n
  | _ => false

/-- A match with a scalar, which is no string for labels, with a list that has an item, or a
range with a bound. -/
inductive WellFormed : Leaf → Prop
  | value (field : String) {v : Json} (h : isScalar v = true)
    (hlabels : field = "labels" → v.asStr = none) :
    WellFormed ⟨field, "match", .object [("value", v)]⟩
  | any (field : String) {vs : List Json} (h : ∀ v ∈ vs, (isItem v || isIdle v) = true)
    (hone : vs.any isItem = true) : WellFormed ⟨field, "match", .object [("any", .array vs)]⟩
  | range (field : String) {obj : List (String × Json)}
    (h : ∀ b ∈ bounds (.object obj), isBound instant b.2 = true)
    (hone : bounds (.object obj) ≠ []) : WellFormed ⟨field, "range", .object obj⟩

/-- What is asked of a leaf: its field can be selected, its floats are doubles, its datetimes
have no fractions and do not stand beside numbers. -/
structure Readable (l : Leaf) : Prop where
  wellFormed : WellFormed instant l
  field : isSelector l.field.toList = true
  floats : ∀ q ∈ l.criteria.floats, F64.IsValue q
  whole : ∀ s, .string s ∈ operands l → WholeSeconds instant s
  unmixed : ¬(Kind.number ∈ kinds instant l ∧ Kind.instant ∈ kinds instant l)

end WellFormed

/-! ## Attributes and literals -/

section Literals

variable {env : NumberEnv} {instant : String → Option ℚ} {v : MetadataValue} {a b : Json}
  {lit : Literal} {k k' : Kind}

variable (env) in
/-- The literal of a string, a number if it is a datetime. -/
def stringLiteral (s : String) : Literal :=
  match env.datetimeToEpochSecs s with
  | some epoch => .number epoch
  | none => .text s.toList

variable (env) in
/-- The literal of an operand. -/
def literalOf : Json → Option Literal
  | .string s => some (stringLiteral env s)
  | .number n => some (.number n.value)
  | .bool b => some (.text (token b).toList)
  | _ => none

/-- Numbers and datetimes, which are stored alike. -/
def Kind.confused : Kind → Kind → Bool
  | .number, .instant | .instant, .number => true
  | _, _ => false

/-- A string is stored as its seconds or as it is. -/
theorem encodeStringAttr_cases (henv : ReadsInstants env instant) (s : String) :
    (instant s = none ∧ encodeStringAttr env s = .string s ∧ stringLiteral env s = .text s.toList) ∨
      ∃ q n, instant s = some q ∧ encodeStringAttr env s = .number n ∧ n.value = ⌊q⌋ ∧
        stringLiteral env s = .number ⌊q⌋ := by
  have hseconds := henv.seconds s
  cases hs : instant s with
  | none =>
      rw [hs] at hseconds
      rw [encodeStringAttr, stringLiteral, hseconds]
      exact .inl ⟨rfl, rfl, rfl⟩
  | some q =>
      rw [hs] at hseconds
      obtain ⟨n, hn, hvalue⟩ := Json.exists_ofI64 (henv.range s q hs)
      rw [encodeStringAttr, stringLiteral, hseconds]
      exact .inr ⟨q, n, rfl, hn, hvalue, rfl⟩

theorem toList_eq_toList (s t : String) : decide (s.toList = t.toList) = decide (s = t) :=
  decide_eq_decide.mpr String.toList_inj

/-- An attribute is equal to a literal where the value is the operand. -/
theorem equals_attr (henv : ReadsInstants env instant) (ha : attrOf env v = some a)
    (hv : Whole instant v) (hlit : literalOf env b = some lit)
    (hb : ∀ s, b = .string s → WholeSeconds instant s) (hk : kindOf instant v = some k)
    (hk' : boundKind instant b = some k') (hkinds : k.confused k' = false)
    (hlabels : b.asStr.isSome = true → k ≠ .labels) :
    equals a lit = metadataIs instant v b := by
  cases v with
  | string s =>
      cases ha
      rcases encodeStringAttr_cases henv s with ⟨hs, hattr, -⟩ | ⟨x, n, hs, hattr, hn, -⟩
      · rw [hattr]
        cases b with
        | string t =>
            cases hlit
            rcases encodeStringAttr_cases henv t with ⟨ht, -, htext⟩ | ⟨y, m, ht, -, -, hnumber⟩
            · rw [htext, metadataIs, textIs, hs]
              exact toList_eq_toList s t
            · rw [hnumber, metadataIs, textIs, hs]
              refine (decide_eq_false ?_).symm
              rintro rfl
              rw [hs] at ht
              cases ht
        | number n =>
            cases hlit
            rfl
        | bool b =>
            cases hlit
            exact toList_eq_toList s (token b)
        | _ => cases hlit
      · rw [hattr]
        have hinstant : k = .instant := by
          rw [kindOf, textKind, hs] at hk
          exact (Option.some.inj hk).symm
        cases b with
        | string t =>
            cases hlit
            rcases encodeStringAttr_cases henv t with ⟨ht, -, htext⟩ | ⟨y, m, ht, -, -, hnumber⟩
            · rw [htext, metadataIs, textIs, hs, ht]
              refine (decide_eq_false ?_).symm
              rintro rfl
              rw [hs] at ht
              cases ht
            · rw [hnumber, metadataIs, textIs, hs, ht, equals, hn, hv x hs, hb t rfl y ht]
        | number n =>
            cases hk'
            rw [hinstant] at hkinds
            cases hkinds
        | bool b =>
            cases hlit
            refine (decide_eq_false ?_).symm
            rintro rfl
            rw [henv.plain b] at hs
            cases hs
        | _ => cases hlit
  | int i =>
      cases ha
      cases hk
      obtain ⟨n, hn, hvalue⟩ := Json.exists_ofI64 hv
      rw [hn]
      cases b with
      | string t =>
          cases hlit
          rcases encodeStringAttr_cases henv t with ⟨-, -, htext⟩ | ⟨y, m, ht, -, -, -⟩
          · rw [htext]
            rfl
          · rw [boundKind, textKind, ht] at hk'
            cases hk'
            cases hkinds
      | number m =>
          cases hlit
          rw [equals, metadataIs, hvalue]
      | bool b =>
          cases hlit
          rfl
      | _ => cases hlit
  | float f =>
      cases ha
      cases hk
      cases b with
      | string t =>
          cases hlit
          rcases encodeStringAttr_cases henv t with ⟨-, -, htext⟩ | ⟨y, m, ht, -, -, -⟩
          · rw [htext]
            cases f <;> rfl
          · rw [boundKind, textKind, ht] at hk'
            cases hk'
            cases hkinds
      | number m =>
          cases hlit
          cases f with
          | fin q =>
              rw [metadataIs]
              exact decide_eq_decide.mpr (by rw [F64.fin.injEq]; rfl)
          | _ => rfl
      | bool b =>
          cases hlit
          cases f <;> rfl
      | _ => cases hlit
  | labels ls =>
      cases ha
      cases hk
      cases b with
      | string t => exact absurd rfl (hlabels rfl)
      | number m =>
          cases hlit
          rfl
      | bool b =>
          cases hlit
          rfl
      | _ => cases hlit
  | geo _ _ => cases ha

/-- Labels are stored as an array, which contains them. -/
theorem contains_attr (ha : attrOf env v = some a) (s : String)
    (hv : ∀ t, v ≠ .string t) : contains s.toList a = metadataIs instant v (.string s) := by
  cases v with
  | string t => exact absurd rfl (hv t)
  | int i =>
      cases ha
      rw [Json.ofI64]
      split_ifs <;> rfl
  | float f =>
      cases ha
      cases f <;> rfl
  | labels ls =>
      cases ha
      rw [metadataIs, Json.ofStrings, contains, List.any_map, ← List.any_beq]
      refine any_congr_of_mem fun t _ ↦ ?_
      show decide (t.toList = s.toList) = _
      rw [toList_eq_toList, Bool.eq_iff_iff, decide_eq_true_eq, beq_iff_eq, eq_comm]
  | geo _ _ => cases ha

/-- An attribute is ordered with a literal as the value is with the bound. -/
theorem holds_attr (henv : ReadsInstants env instant) {op : Comparison} (hop : op ≠ .eq ∧ op ≠ .ne)
    (ha : attrOf env v = some a) (hv : Whole instant v) (hlit : literalOf env b = some lit)
    (hb : ∀ s, b = .string s → WholeSeconds instant s) (hbound : isBound instant b = true)
    (hk : kindOf instant v = some k) (hk' : boundKind instant b = some k')
    (hkinds : k.confused k' = false) : op.holds a lit = metadataOrders instant op v b := by
  have hfalse : ∀ {a l}, (∀ n q, ¬(a = Json.number n ∧ l = Literal.number q)) →
      op.holds a l = false := by
    intro a l h
    cases op with
    | eq => exact absurd rfl hop.1
    | ne => exact absurd rfl hop.2
    | _ =>
        cases a with
        | number n =>
            cases l with
            | number q => exact absurd ⟨rfl, rfl⟩ (h n q)
            | text _ => rfl
        | _ => rfl
  have hnumbers : ∀ n q, op.holds (.number n) (.number q) = op.orders n.value q := by
    intro n q
    cases op with
    | eq => exact absurd rfl hop.1
    | ne => exact absurd rfl hop.2
    | _ => rfl
  have hdatetime : ∀ t, b = .string t →
      ∃ y, instant t = some y ∧ lit = .number y ∧ k' = .instant := by
    rintro t rfl
    cases hlit
    rcases encodeStringAttr_cases henv t with ⟨ht, -, -⟩ | ⟨y, m, ht, -, -, hnumber⟩
    · rw [isBound, ht] at hbound
      cases hbound
    · refine ⟨y, ht, ?_, ?_⟩
      · rw [hnumber, hb t rfl y ht]
      · rw [boundKind, textKind, ht] at hk'
        exact (Option.some.inj hk').symm
  cases v with
  | string s =>
      cases ha
      rcases encodeStringAttr_cases henv s with ⟨hs, hattr, -⟩ | ⟨x, n, hs, hattr, hn, -⟩
      · rw [hattr, hfalse fun _ _ h ↦ Json.noConfusion h.1]
        cases b with
        | string t =>
            rw [metadataOrders, hs]
            rfl
        | _ => rfl
      · cases b with
        | string t =>
            obtain ⟨y, ht, rfl, -⟩ := hdatetime t rfl
            rw [hattr, hnumbers, hn, hv x hs, metadataOrders, hs, ht]
            rfl
        | number m =>
            rw [kindOf, textKind, hs] at hk
            cases hk
            cases hk'
            cases hkinds
        | _ => cases hbound
  | int i =>
      cases ha
      cases hk
      obtain ⟨n, hn, hvalue⟩ := Json.exists_ofI64 hv
      cases b with
      | string t =>
          obtain ⟨-, -, -, rfl⟩ := hdatetime t rfl
          cases hkinds
      | number m =>
          cases hlit
          rw [hn, hnumbers, metadataOrders, hvalue]
      | _ => cases hbound
  | float f =>
      cases ha
      cases hk
      cases b with
      | string t =>
          obtain ⟨-, -, -, rfl⟩ := hdatetime t rfl
          cases hkinds
      | number m =>
          cases hlit
          cases f with
          | fin q => exact hnumbers (.float q) m.value
          | _ => exact hfalse fun _ _ h ↦ Json.noConfusion h.1
      | _ => cases hbound
  | labels ls =>
      cases ha
      rw [hfalse fun _ _ h ↦ Json.noConfusion h.1]
      rfl
  | geo _ _ => cases ha

end Literals

/-! ## What a document holds of an operand -/

section Operands

variable {env : NumberEnv} {sphere : Sphere} {instant : String → Option ℚ} {item : MetadataItem}
  {l : Leaf} {b : Json} {lit : Literal}

variable (instant) in
/-- Whether the value of a field is an operand. -/
def operandHolds (field : String) (b : Json) (item : MetadataItem) : Bool :=
  (valueOf item field).any fun v ↦ metadataIs instant v b

variable (env sphere) in
/-- The value of a leaf's field and its attribute. -/
theorem exists_attr (h : Carries instant item l) : ∃ v k a, valueOf item l.field = some v ∧
    kindOf instant v = some k ∧ k ∈ kinds instant l ∧ Whole instant v ∧ attrOf env v = some a ∧
    (attrsOf env sphere item).get l.field = some a := by
  obtain ⟨v, k, hv, hk, hkinds, hwhole⟩ := h.value
  obtain ⟨a, ha⟩ : ∃ a, attrOf env v = some a := by
    cases v with
    | geo _ _ => cases hk
    | _ => exact ⟨_, rfl⟩
  exact ⟨v, k, a, hv, hk, hkinds, hwhole, ha, getEntry_attributes hv ha h.component⟩

theorem confused_eq_false (hl : Readable instant l) {k k' : Kind} (hk : k ∈ kinds instant l)
    (hk' : k' ∈ kinds instant l) : k.confused k' = false := by
  rw [← Bool.not_eq_true]
  intro hconfused
  cases k <;> cases k' <;> cases hconfused
  · exact hl.unmixed ⟨hk, hk'⟩
  · exact hl.unmixed ⟨hk', hk⟩

theorem mem_kinds {k : Kind} :
    k ∈ kinds instant l ↔ ∃ b ∈ operands l, operandKind instant l b = some k := List.mem_filterMap

variable (instant) in
theorem boundKind_of_literalOf (h : literalOf env b = some lit) :
    ∃ k, boundKind instant b = some k := by
  cases b with
  | string _ => exact ⟨_, rfl⟩
  | number _ => exact ⟨_, rfl⟩
  | bool _ => exact ⟨_, rfl⟩
  | _ => cases h

variable (instant) in
theorem textKind_cases (s : String) :
    textKind instant s = .instant ∨ textKind instant s = .text := by
  rw [textKind]
  split_ifs
  · exact .inl rfl
  · exact .inr rfl

theorem boundKind_ne_labels (b : Json) : boundKind instant b ≠ some .labels := by
  cases b with
  | string s =>
      rw [boundKind]
      rcases textKind_cases instant s with h | h <;> simp [h]
  | _ => simp [boundKind]

/-- Comparison with the literal of an operand that is not looked for in labels. -/
theorem eq_holds (henv : ReadsInstants env instant) (hl : Readable instant l)
    (hitem : Carries instant item l) (hb : b ∈ operands l) (hlit : literalOf env b = some lit)
    (hlabels : ¬(l.field = "labels" ∧ b.asStr.isSome = true)) :
    (((attrsOf env sphere item).get l.field).any fun a ↦ Comparison.eq.holds a lit) =
      operandHolds instant l.field b item := by
  obtain ⟨v, k, a, hv, hk, hkinds, hwhole, ha, hget⟩ := exists_attr env sphere hitem
  obtain ⟨k', hk'⟩ := boundKind_of_literalOf instant hlit
  have hmem : k' ∈ kinds instant l := by
    refine mem_kinds.mpr ⟨b, hb, ?_⟩
    rw [operandKind, if_neg fun h ↦ hlabels h.2]
    exact hk'
  rw [hget, operandHolds, hv]
  refine equals_attr henv ha hwhole hlit (fun s hs ↦ hl.whole s (hs ▸ hb)) hk hk'
    (confused_eq_false hl hkinds hmem) fun hstring hklabels ↦ ?_
  obtain ⟨b', -, hb'⟩ := mem_kinds.mp (hklabels ▸ hkinds)
  rw [operandKind] at hb'
  split_ifs at hb' with hmatch
  · exact hlabels ⟨hmatch.2.1, hstring⟩
  · exact boundKind_ne_labels b' hb'

/-- Membership of a string in labels. -/
theorem member_holds (hop : l.op = "match") (hfield : l.field = "labels")
    (hitem : Carries instant item l) (hbool : ∀ b ∈ operands l, b.asBool = none) (s : String) :
    ((attrsOf env sphere item).get l.field).any (contains s.toList) =
      operandHolds instant l.field (.string s) item := by
  obtain ⟨v, k, a, hv, hk, hkinds, -, ha, hget⟩ := exists_attr env sphere hitem
  rw [hget, operandHolds, hv]
  refine contains_attr ha s ?_
  rintro t rfl
  obtain ⟨b, hb, hkind⟩ := mem_kinds.mp hkinds
  rw [← hk, kindOf] at hkind
  cases b with
  | string u =>
      rw [operandKind, if_pos ⟨hop, hfield, rfl⟩] at hkind
      rcases textKind_cases instant t with ht | ht <;> rw [ht] at hkind <;> cases hkind
  | bool b => cases hbool _ hb
  | number n =>
      rw [operandKind, if_neg fun h ↦ Bool.false_ne_true h.2.2] at hkind
      rcases textKind_cases instant t with ht | ht <;> rw [ht] at hkind <;> cases hkind
  | _ =>
      rw [operandKind, if_neg fun h ↦ Bool.false_ne_true h.2.2] at hkind
      cases hkind

/-- The order of an attribute and the literal of a bound. -/
theorem order_holds (henv : ReadsInstants env instant) (hl : Readable instant l)
    (hop : l.op = "range") (hitem : Carries instant item l) {c : Comparison × Json}
    (hc : c ∈ bounds l.criteria) (hbound : isBound instant c.2 = true)
    (hlit : literalOf env c.2 = some lit) :
    (((attrsOf env sphere item).get l.field).any fun a ↦ c.1.holds a lit) =
      (valueOf item l.field).any fun v ↦ metadataOrders instant c.1 v c.2 := by
  obtain ⟨v, k, a, hv, hk, hkinds, hwhole, ha, hget⟩ := exists_attr env sphere hitem
  obtain ⟨k', hk'⟩ := boundKind_of_literalOf instant hlit
  have hb : c.2 ∈ operands l := by
    rw [operands, hop]
    exact List.mem_map_of_mem hc
  have hmem : k' ∈ kinds instant l := by
    refine mem_kinds.mpr ⟨c.2, hb, ?_⟩
    rw [operandKind, if_neg (by simp [hop])]
    exact hk'
  have hcomparison : c.1 ≠ .eq ∧ c.1 ≠ .ne := by
    obtain ⟨e, he, hce⟩ := List.mem_filterMap.mp hc
    obtain ⟨d, -, rfl⟩ := Option.map_eq_some_iff.mp hce
    rw [boundComparisons] at he
    fin_cases he <;> exact ⟨Comparison.noConfusion, Comparison.noConfusion⟩
  rw [hget, hv]
  exact holds_attr henv hcomparison ha hwhole hlit (fun s hs ↦ hl.whole s (hs ▸ hb)) hbound hk hk'
    (confused_eq_false hl hkinds hmem)

end Operands

end VectorDbBenchmark.Vectorsets
