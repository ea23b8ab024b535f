import VectorDbBenchmark.Kit.InfixSyntax
import VectorDbBenchmark.NumberText
import VectorDbBenchmark.Vectorsets.Filter

/-!
# What a vector set stores

The filters of a vector set are over the attributes of an element: comparisons of an attribute
with a literal, and membership of a string in one, where `and` binds tighter than `or`.  The
attributes are stored of the metadata of a document, of which the leaves of a condition tree say
something; what an attribute is equal to and ordered with follows from the metadata.
-/

namespace VectorDbBenchmark.Vectorsets

open Kit Redis InfixSyntax
open Readers (MetadataItem MetadataValue)

/-! ## Tokens of a filter -/

def classOf : Char → Option CharClass :=
  CharClass.among ['_', '.', '+', '-'] [' ', '\t', '\n', '\r'] ['=', '<', '>', '!'] ['"', '\'']

def spelling : Spelling := ⟨classOf, fun _ ↦ true, some, fun _ ↦ true⟩

def mark : Token → Option Mark := markOf (.word "and".toList) (.word "or".toList)

/-- Letters, digits, underscores and hyphens. -/
def isSelector (t : Text) : Bool :=
  !t.isEmpty && t.all fun c ↦ c.isAlphanum || c = '_' || c = '-'

/-! ## Leaves -/

inductive Literal where
  | text (s : Text)
  | number (q : ℚ)
deriving DecidableEq, Repr

def readLiteral : Token → Option Literal
  | .quoted _ t => some (.text t)
  | .word t => (readNumber t).map .number
  | _ => none

inductive Comparison where
  | eq
  | ne
  | lt
  | gt
  | le
  | ge
deriving DecidableEq, Repr

def readComparison (t : Text) : Option Comparison :=
  if t = "==".toList then some .eq
  else if t = "!=".toList then some .ne
  else if t = "<".toList then some .lt
  else if t = ">".toList then some .gt
  else if t = "<=".toList then some .le
  else if t = ">=".toList then some .ge
  else none

inductive Atom where
  /-- `.f op operand` -/
  | compare (field : Text) (op : Comparison) (operand : Literal)
  /-- `"s" in .f` -/
  | member (s field : Text)
deriving DecidableEq, Repr

/-- The attribute that a token selects. -/
def readSelector : Token → Option Text
  | .word ('.' :: f) => if isSelector f then some f else none
  | _ => none

inductive LeafState where
  | attribute (field : Text)
  | operand (field : Text) (op : Comparison)
  | item (s : Text)
  | container (s : Text)

def beginLeaf : Token → Option (LeafState ⊕ Atom)
  | .quoted _ t => some (.inl (.item t))
  | k => (readSelector k).map fun f ↦ .inl (.attribute f)

def leafStep : LeafState → Token → Option (LeafState ⊕ Atom)
  | .attribute f, .symbol t => (readComparison t).map fun op ↦ .inl (.operand f op)
  | .operand f op, k => (readLiteral k).map fun l ↦ .inr (.compare f op l)
  | .item s, .word w => if w = "in".toList then some (.inl (.container s)) else none
  | .container s, k => (readSelector k).map fun f ↦ .inr (.member s f)
  | _, _ => none

def language : Language Atom LeafState := ⟨spelling, mark, beginLeaf, leafStep⟩

/-! ## Truth -/

/-- Equality of an attribute with a literal; values of two kinds are never equal. -/
def equals : Json → Literal → Bool
  | .string s, .text t => s.toList = t
  | .number n, .number q => n.value = q
  | _, _ => false

def Comparison.orders (op : Comparison) (x y : ℚ) : Bool :=
  match op with
  | .eq => x = y
  | .ne => x ≠ y
  | .lt => x < y
  | .gt => y < x
  | .le => x ≤ y
  | .ge => y ≤ x

def Comparison.holds : Comparison → Json → Literal → Bool
  | .eq, v, l => equals v l
  | .ne, v, l => !equals v l
  | op, .number n, .number q => op.orders n.value q
  | _, _, _ => false

/-- Membership in an array, or in a text that has the string as a part. -/
def contains (s : Text) : Json → Bool
  | .array vs => vs.any fun v ↦ v.asStr.any fun t ↦ t.toList = s
  | .string t => s <:+: t.toList
  | _ => false

/-- The truth of a leaf at the attributes of an element. -/
def Atom.holds (attrs : Json) : Atom → Bool
  | .compare f op l => (attrs.get (String.ofList f)).any fun v ↦ op.holds v l
  | .member s f => (attrs.get (String.ofList f)).any (contains s)

/-! ## Facts about the syntax -/

theorem standard : Standard language where
  blank := rfl
  opening := rfl
  closing := rfl
  mark_opening := rfl
  mark_closing := rfl

theorem spells_and : Spells language "and".toList .conj := ⟨.word "and".toList, rfl, rfl⟩

theorem spells_or : Spells language "or".toList .disj := ⟨.word "or".toList, rfl, rfl⟩

theorem backslashQuote : Lexer.BackslashQuote spelling '"' where
  classOf := rfl
  backslash := rfl
  unescape_quote := rfl
  unescape_backslash := rfl
  plain_quote := rfl
  plain_backslash := rfl
  ne := by decide

theorem classOf_of_wordChar {c : Char} (h : (c.isAlphanum || c = '_' || c = '-') = true) :
    classOf c = some .word := by
  refine if_pos ?_
  rw [Bool.or_eq_true, Bool.or_eq_true] at h
  rcases h with (h | h) | h <;> simp [h]

theorem isWord_selector {f : Text} (h : isSelector f = true) :
    Lexer.IsWord spelling ('.' :: f) := by
  rw [isSelector, Bool.and_eq_true, List.all_eq_true] at h
  refine ⟨List.cons_ne_nil _ _, List.forall_mem_cons.mpr ⟨rfl, fun c hc ↦ ?_⟩⟩
  exact classOf_of_wordChar (h.2 c hc)

theorem readSelector_of_isSelector {f : Text} (h : isSelector f = true) :
    readSelector (.word ('.' :: f)) = some f := if_pos h

theorem readsNumerals : ReadsNumerals spelling readLiteral .number where
  digit c h := by
    have hdigit : c.isAlphanum = true := Bool.or_eq_true_iff.mpr (.inr h)
    refine classOf_of_wordChar ?_
    rw [hdigit, Bool.true_or, Bool.true_or]
  mark := by
    simp only [List.forall_mem_cons]
    exact ⟨rfl, rfl, rfl, rfl, rfl, List.forall_mem_nil _⟩
  read t q h := by
    rw [readLiteral, h, Option.map_some]

/-! ## Documents -/

/-- The value of a field, the last one if there are several. -/
def valueOf (item : MetadataItem) (field : String) : Option MetadataValue :=
  item.fields.reverse.lookup field

/-- The string a boolean is stored as. -/
def token (b : Bool) : String := if b then "true" else "false"

/-- The datetime parser takes the whole seconds of an instant, and no boolean for a datetime. -/
structure ReadsInstants (env : NumberEnv) (instant : String → Option ℚ) : Prop where
  seconds : ∀ s, env.datetimeToEpochSecs s = (instant s).map Int.floor
  plain : ∀ b, instant (token b) = none
  range : ∀ s, ∀ q ∈ instant s, -2 ^ 63 ≤ ⌊q⌋ ∧ ⌊q⌋ < 2 ^ 63

/-! ## What an operation means -/

section Meaning

-- The instant a datetime stands for.
variable (instant : String → Option ℚ)

/-- Datetimes are equal when their instants are. -/
def textIs (s t : String) : Bool :=
  match instant s, instant t with
  | some x, some y => x = y
  | _, _ => s = t

/-- Whether a metadata value is an operand, or labels that have it. -/
def metadataIs : MetadataValue → Json → Bool
  | .string s, .string t => textIs instant s t
  | .string s, .bool b => s = token b
  | .int i, .number n => (i : ℚ) = n.value
  | .float f, .number n => f = .fin n.value
  | .labels ls, .string t => ls.contains t
  | _, _ => false

/-- The order of a metadata value and a bound. -/
def metadataOrders (op : Comparison) : MetadataValue → Json → Bool
  | .string s, .string t => (instant s).any fun x ↦ (instant t).any (op.orders x)
  | .int i, .number n => op.orders i n.value
  | .float (.fin q), .number n => op.orders q n.value
  | _, _ => false

/-- What a match looks for. -/
def matchOperands (criteria : Json) : List Json :=
  match (criteria.get "any").bind Json.asArray with
  | some any => any
  | none => (criteria.get "value").toList

/-- A bound that is given. -/
def given : Json → Option Json
  | .null => none
  | v => some v

def boundComparisons : List (String × Comparison) :=
  [("gt", .gt), ("gte", .ge), ("lt", .lt), ("lte", .le)]

def bounds (criteria : Json) : List (Comparison × Json) :=
  boundComparisons.filterMap fun k ↦ ((criteria.get k.1).bind given).map fun b ↦ (k.2, b)

/-- The truth of a leaf at the metadata of a document. -/
def leafHolds (item : MetadataItem) (l : Leaf) : Bool :=
  (valueOf item l.field).any fun v ↦
    match l.op with
    | "match" => (matchOperands l.criteria).any (metadataIs instant v)
    | "range" => (bounds l.criteria).all fun b ↦ metadataOrders instant b.1 v b.2
    | _ => false

/-! ## Kinds -/

inductive Kind where
  | number
  | instant
  | text
  | labels
deriving DecidableEq, Repr

def textKind (s : String) : Kind := if (instant s).isSome then .instant else .text

def kindOf : MetadataValue → Option Kind
  | .string s => some (textKind instant s)
  | .int _ | .float _ => some .number
  | .labels _ => some .labels
  | .geo _ _ => none

/-- The kind of values a bound is compared with. -/
def boundKind : Json → Option Kind
  | .string s => some (textKind instant s)
  | .number _ => some .number
  | .bool _ => some .text
  | _ => none

/-- What a leaf compares values with. -/
def operands (l : Leaf) : List Json :=
  match l.op with
  | "match" => matchOperands l.criteria
  | "range" => (bounds l.criteria).map Prod.snd
  | _ => []

/-- The kind of values an operand is compared with; a string is looked for in labels. -/
def operandKind (l : Leaf) (b : Json) : Option Kind :=
  if l.op = "match" ∧ l.field = "labels" ∧ b.asStr.isSome = true then some .labels
  else boundKind instant b

/-- The kinds of values a leaf compares. -/
def kinds (l : Leaf) : List Kind := (operands l).filterMap (operandKind instant l)

/-- A string that is no datetime with a fraction of a second. -/
def WholeSeconds (s : String) : Prop := ∀ q ∈ instant s, (⌊q⌋ : ℚ) = q

/-- An integer that an `i64` holds, and a datetime without a fraction. -/
def Whole : MetadataValue → Prop
  | .string s => WholeSeconds instant s
  | .int i => -2 ^ 63 ≤ i ∧ i < 2 ^ 63
  | _ => True

/-- The document has a value for the leaf, of a kind it compares, and no component of a geo point
has the name of its field. -/
structure Carries (item : MetadataItem) (l : Leaf) : Prop where
  value : ∃ v k, valueOf item l.field = some v ∧ kindOf instant v = some k ∧
    k ∈ kinds instant l ∧ Whole instant v
  component : ∀ e ∈ item.fields, ∀ lon lat, e.2 = .geo lon lat →
    ∀ axis ∈ ["x", "y", "z"], componentField e.1 axis ≠ l.field

end Meaning

/-! ## Attributes -/

section Attributes

variable {env : NumberEnv} {sphere : Sphere}

variable (env) in
/-- The attribute of a value that is no geo point. -/
def attrOf : MetadataValue → Option Json
  | .string s => some (encodeStringAttr env s)
  | .int n => some (Json.ofI64 n)
  | .float f => some (.ofF64 f)
  | .labels labels => some (.ofStrings labels)
  | .geo _ _ => none

theorem fieldAttrs_eq {v : MetadataValue} {a : Json} (h : attrOf env v = some a) (k : String) :
    fieldAttrs env sphere k v = [(k, a)] := by
  cases v <;> cases h <;> rfl

theorem getEntry_foldl_of_ne {field : String} {es : List (String × Json)}
    (h : ∀ e ∈ es, e.1 ≠ field) (m : List (String × Json)) :
    Json.getEntry field (es.foldl (fun m e ↦ insertKey e.1 e.2 m) m) = Json.getEntry field m := by
  induction es generalizing m with
  | nil => rfl
  | cons e es ih =>
      rw [List.forall_mem_cons] at h
      rw [List.foldl_cons, ih h.2, Json.getEntry_eq_lookup, lookup_insertKey, if_neg (Ne.symm h.1),
        Json.getEntry_eq_lookup]

theorem attributes_concat (fields : List (String × MetadataValue)) (e : String × MetadataValue) :
    attributes env sphere (fields ++ [e]) = (fieldAttrs env sphere e.1 e.2).foldl
      (fun m e ↦ insertKey e.1 e.2 m) (attributes env sphere fields) := by
  rw [attributes, List.flatMap_append, List.flatMap_singleton, List.foldl_append, attributes]

/-- The attribute of a field is that of its value. -/
theorem getEntry_attributes {fields : List (String × MetadataValue)} {field : String}
    {v : MetadataValue} {a : Json} (hvalue : fields.reverse.lookup field = some v)
    (ha : attrOf env v = some a)
    (hgeo : ∀ e ∈ fields, ∀ lon lat, e.2 = .geo lon lat →
      ∀ axis ∈ ["x", "y", "z"], componentField e.1 axis ≠ field) :
    Json.getEntry field (attributes env sphere fields) = some a := by
  induction fields using List.reverseRecOn with
  | nil => cases hvalue
  | append_singleton fields e ih =>
      obtain ⟨k, w⟩ := e
      rw [List.reverse_append, List.reverse_singleton, List.singleton_append,
        lookup_cons_eq] at hvalue
      rw [List.forall_mem_append, List.forall_mem_singleton] at hgeo
      rw [attributes_concat]
      cases hw : attrOf env w with
      | some b =>
          rw [fieldAttrs_eq hw, List.foldl_cons, List.foldl_nil, Json.getEntry_eq_lookup,
            lookup_insertKey]
          split_ifs at hvalue ⊢
          · cases hvalue
            exact hw.symm.trans ha
          · rw [← Json.getEntry_eq_lookup]
            exact ih hvalue hgeo.1
      | none =>
          cases w with
          | geo lon lat =>
              have hne : ∀ e ∈ fieldAttrs env sphere k (.geo lon lat), e.1 ≠ field := by
                intro e he
                obtain ⟨c, hc, rfl⟩ := List.mem_map.mp he
                refine hgeo.2 lon lat rfl c.1 ?_
                rw [components] at hc
                fin_cases hc <;> simp
              rw [getEntry_foldl_of_ne hne]
              split_ifs at hvalue
              · cases hvalue
                cases ha
              · exact ih hvalue hgeo.1
          | _ => cases hw

variable (env sphere) in
/-- The attributes of a document as a JSON value. -/
def attrsOf (item : MetadataItem) : Json := .object (attributes env sphere item.fields)

/-- A document with a value that is no geo point has attributes. -/
theorem metadataToAttrJson_of_value {item : MetadataItem} {field : String} {a : Json}
    (h : (attrsOf env sphere item).get field = some a) :
    metadataToAttrJson env sphere item = some (attrsOf env sphere item) := by
  have hmap : attributes env sphere item.fields ≠ [] := by
    intro hnil
    have hget : Json.getEntry field (attributes env sphere item.fields) = some a := h
    rw [hnil] at hget
    cases hget
  have hfields : item.fields ≠ [] := by
    intro hnil
    rw [hnil] at hmap
    exact hmap rfl
  rw [metadataToAttrJson, if_neg (mt List.isEmpty_iff.mp hfields)]
  exact if_neg (mt List.isEmpty_iff.mp hmap)

end Attributes

end VectorDbBenchmark.Vectorsets
