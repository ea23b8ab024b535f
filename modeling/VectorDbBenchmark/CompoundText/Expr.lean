import VectorDbBenchmark.JsonEq
import VectorDbBenchmark.JsonFields
import VectorDbBenchmark.Msmarco.Predicate
import VectorDbBenchmark.Redis.LiteralQuery

/-!
# Compound text queries

`Expr` of `src/compound_text.rs`: and/or/not trees over the leaves of the predicate grammar,
compiled against a schema, evaluated on a document, and rendered as a RediSearch query and
as an OpenSearch query.  In a compiled query no group is empty, and every leaf has a plain field
name, operands of the kind of its field, tags that stand for themselves, and bounds that are
printed exactly.
-/

namespace VectorDbBenchmark.CompoundText

open Kit Msmarco

/-- A compiled condition; the compiler makes leaf predicates only. -/
abbrev Expr := Formula PredicateLeaf

/-! ## Compiling -/

/-- A name of ASCII letters, digits and underscores that does not start with a digit. -/
def isPlainIdentifier (field : Text) : Bool :=
  !field.isEmpty && field.all (fun c ↦ c.isAlphanum || c = '_') &&
    !(field.head?.any Char.isDigit)

/-- Whether the operands of a leaf are of the kind that the schema gives its field. -/
def fitsKind (kind : String) : LeafOp → Bool
  | .text _ => kind = "text"
  | .match ops => ops.all fun
    | .keyword _ => kind = "keyword"
    | .int _ => kind = "int"
  | .range .. => kind = "int"

/-- A tag that the engines neither split nor trim. -/
def isSingleTag (s : String) : Bool :=
  !s.isEmpty && !s.toList.contains ';' && trim s.toList = s.toList && !s.toList.any isControl

/-- Whether all tags a leaf asks for are single ones. -/
def singleTags : LeafOp → Bool
  | .match ops => ops.all fun
    | .keyword s => isSingleTag s
    | .int _ => true
  | _ => true

section Compile

variable (display : Json → String) (debug : String → String) (schema : Json)

/-- The leaf of the field `field`, which is the key of `value`. -/
def leafNode (field : String) (value : Json) : Except String Expr :=
  if !isPlainIdentifier field.toList then .error "compound field must be a plain identifier"
  else
    match compile display debug (.object [("and", .array [value])]) with
    | .error e => .error e
    | .ok (.all (.leaf l :: _)) =>
      match (schema.get field).bind Json.asStr with
      | none => .error s!"unknown compound field {field}"
      | some kind =>
        if !fitsKind kind l.leaf then
          .error s!"compound predicate type disagrees with schema for {field}"
        else if !singleTags l.leaf then
          .error ("compound tags must be nonempty single tags without separator/control/edge " ++
            "whitespace")
        else .ok (.leaf l)
    | .ok _ => .error "internal error: entered unreachable code"

mutual

def node (depth : ℕ) : Json → Except String Expr
  | .object [(key, body)] =>
    if 32 < depth then .error "compound query nesting exceeds 32"
    else if key = "and" ∨ key = "or" then
      (group depth body).map fun children ↦ if key = "and" then .all children else .any children
    else if key = "not" then (node (depth + 1) body).map .not
    else leafNode display debug schema key (.object [(key, body)])
  | _ =>
    if 32 < depth then .error "compound query nesting exceeds 32"
    else .error "compound condition must have exactly one operator/field"

/-- The children of a group. -/
def group (depth : ℕ) : Json → Except String (List Expr)
  | .array (e :: es) => nodes depth (e :: es)
  | _ => .error "empty Boolean group"

def nodes (depth : ℕ) : List Json → Except String (List Expr)
  | [] => .ok []
  | e :: es => do
    let t ← node (depth + 1) e
    let ts ← nodes depth es
    .ok (t :: ts)

end

/-- `Expr::compile`. -/
def Expr.compile (value : Json) : Except String Expr := node display debug schema 0 value

end Compile

/-! ## Evaluating -/

/-- The fields of a document, as a predicate sees them. -/
def mapFields (row : List (String × Json)) : Fields := fun name ↦
  match Json.getEntry name row with
  | none => none
  | some .null => none
  | some (.string s) => some (.keyword s)
  | some v => some ((v.asI64.map FieldValue.int).getD .other)

def Expr.matches (debug : String → String) (row : List (String × Json)) (e : Expr) :
    Except String Bool :=
  e.run (PredicateLeaf.matches debug (mapFields row))

/-! ## RediSearch -/

/-- A backslash in front of every character but ASCII letters and digits. -/
def esc (s : Text) : Text := Redis.escapeBy (fun c ↦ !c.isAlphanum) s

/-- A leaf without the parentheses around it. -/
def operandText (field : Text) : Operand → Text
  | .keyword s => '@' :: (field ++ ':' :: '\x7b' :: (esc s.toList ++ ['\x7d']))
  | .int n => '@' :: (field ++ ':' :: '[' :: (intText n ++ ' ' :: intText n ++ [']']))

/-- One end of an interval. -/
def endText (inf : String) (strict loose : Option F64) : Text :=
  match strict, loose with
  | some n, _ => '(' :: n.display
  | none, some n => n.display
  | none, none => inf.toList

def leafTexts (l : PredicateLeaf) : List Text :=
  match l.leaf with
  | .text t => ['@' :: (l.field.toList ++ ':' :: '(' :: (t.toList ++ [')']))]
  | .match ops => ops.map (operandText l.field.toList)
  | .range gt gte lt lte => ['@' :: (l.field.toList ++ ':' :: '[' ::
      (endText "-inf" gt gte ++ ' ' :: endText "+inf" lt lte ++ [']']))]

def parens (t : Text) : Text := '(' :: (t ++ [')'])

mutual

/-- `Expr::redis`. -/
def redis : Expr → Text
  | .all ts => parens ([' '].intercalate (redisEach ts))
  | .any ts => parens ([' ', '|', ' '].intercalate (redisEach ts))
  | .not t => parens ('-' :: redis t)
  | .leaf l => parens ([' ', '|', ' '].intercalate (leafTexts l))

def redisEach : List Expr → List Text
  | [] => []
  | t :: ts => redis t :: redisEach ts

end

/-! ## OpenSearch -/

def operandJson : Operand → Json
  | .keyword s => .string s
  | .int n =>
    if h : 0 ≤ n ∧ n.toNat < 2 ^ 64 then .number (.posInt n.toNat h.2)
    else if h : -2 ^ 63 ≤ n ∧ n < 0 then .number (.negInt n h)
    else .null

/-- `json!({"bool": {clause: queries}})`. -/
def boolJson (clause : String) (queries : List Json) : Json :=
  .object [("bool", .object [(clause, .array queries)])]

def leafJson (l : PredicateLeaf) : Json :=
  match l.leaf with
  | .text t => .object [("match", .object [(l.field,
      .object [("query", .string t), ("operator", .string "and")])])]
  | .match ops => boolJson "filter"
      [.object [("terms", .object [(l.field, .array (ops.map operandJson))])]]
  | .range gt gte lt lte => boolJson "filter"
      [.object [("range", .object [(l.field, .object
        ([("gt", gt), ("gte", gte), ("lt", lt), ("lte", lte)].filterMap fun e ↦
          e.2.map fun n ↦ (e.1, Json.ofF64 n)))])]]

mutual

/-- `Expr::opensearch`. -/
def opensearch : Expr → Json
  | .all ts => boolJson "must" (opensearchEach ts)
  | .any ts => .object [("bool", .object
      [("should", .array (opensearchEach ts)), ("minimum_should_match", Json.one)])]
  | .not t => boolJson "must_not" [opensearch t]
  | .leaf l => leafJson l

def opensearchEach : List Expr → List Json
  | [] => []
  | t :: ts => opensearch t :: opensearchEach ts

end

/-! ## Bounds -/

/-- A number that is printed exactly. -/
def Printable (x : F64) : Prop := ∃ q, x = .fin q ∧ F64.IsValue q

/-- What holds of every bound that is given. -/
structure EachBound (P : F64 → Prop) (b : RangeBounds) : Prop where
  gt : ∀ x, b.gt = some x → P x
  gte : ∀ x, b.gte = some x → P x
  lt : ∀ x, b.lt = some x → P x
  lte : ∀ x, b.lte = some x → P x

theorem exists_int_of_ofInt (i : ℤ) : ∃ z : ℤ, F64.ofInt i = .fin z := by
  rw [F64.ofInt]
  split_ifs
  · exact ⟨F64.roundNat i.natAbs, by push_cast; rfl⟩
  · exact ⟨-F64.roundNat i.natAbs, by push_cast; rfl⟩

theorem printable_of_exactNumber {v : Json} {x : F64} (hv : ∀ q ∈ v.floats, F64.IsValue q)
    (h : exactNumber v = some x) : Printable x := by
  unfold exactNumber at h
  split at h
  · next q hq =>
      split_ifs at h with hbound
      cases h
      refine ⟨q, rfl, ?_⟩
      have hint : ∀ i : ℤ, some (F64.ofInt i) = some (F64.fin q) → F64.IsValue q := by
        intro i hi
        obtain ⟨z, hz⟩ := exists_int_of_ofInt i
        rw [hz, Option.some.injEq, F64.fin.injEq] at hi
        rw [← hi] at hbound ⊢
        refine F64.isValue_intCast ?_
        rw [← Int.cast_abs, ← Nat.cast_natAbs] at hbound
        exact_mod_cast hbound
      cases v with
      | number n =>
          cases n with
          | posInt n hn => exact hint n hq
          | negInt i hi => exact hint i hq
          | float r =>
              cases hq
              refine hv _ ?_
              rw [Json.floats]
              exact List.mem_singleton_self _
      | _ => cases hq
  · cases h

variable {display : Json → String} {debug : String → String} {schema : Json} {field : String}

theorem eachBound_of_rangeBound {P : F64 → Prop} {acc out : RangeBounds} {e : String × Json}
    (hacc : EachBound P acc) (he : ∀ x, exactNumber e.2 = some x → P x)
    (h : rangeBound debug field acc e = .ok out) : EachBound P out := by
  unfold rangeBound at h
  split at h
  · cases h
  · next x hx =>
      have hP := he x hx
      split_ifs at h <;> cases h
      · exact { hacc with gt := by rintro _ ⟨⟩; exact hP }
      · exact { hacc with gte := by rintro _ ⟨⟩; exact hP }
      · exact { hacc with lt := by rintro _ ⟨⟩; exact hP }
      · exact { hacc with lte := by rintro _ ⟨⟩; exact hP }

theorem eachBound_of_foldlM {P : F64 → Prop} {es : List (String × Json)} {acc out : RangeBounds}
    (hacc : EachBound P acc) (hes : ∀ e ∈ es, ∀ x, exactNumber e.2 = some x → P x)
    (h : es.foldlM (rangeBound debug field) acc = .ok out) : EachBound P out := by
  induction es generalizing acc with
  | nil =>
      cases h
      exact hacc
  | cons e es ih =>
      rw [List.foldlM_cons] at h
      obtain ⟨acc', he, h⟩ := bind_eq_ok.mp h
      rw [List.forall_mem_cons] at hes
      exact ih (eachBound_of_rangeBound hacc hes.1 he) hes.2 h

/-! ## Leaves -/

/-- A leaf that can be rendered: operands there are, and bounds are printed exactly. -/
def Renderable : LeafOp → Prop
  | .match ops => ops ≠ []
  | .range gt gte lt lte => EachBound Printable ⟨gt, gte, lt, lte⟩
  | .text _ => True

theorem renderable_of_matchLeaf {criteria : Json} {op : LeafOp}
    (h : matchLeaf display field criteria = .ok op) : Renderable op := by
  unfold matchLeaf at h
  split at h
  · split_ifs at h
    · split at h
      · cases h
      · obtain ⟨⟨⟩, -, h⟩ := bind_eq_ok.mp h
        cases h
        trivial
    · obtain ⟨o, -, rfl⟩ := map_eq_ok.mp h
      exact List.cons_ne_nil o []
    · split at h
      · next e es =>
          obtain ⟨ops, hops, rfl⟩ := map_eq_ok.mp h
          have hlen := (mapM_eq_ok.mp hops).length_eq
          rintro rfl
          cases hlen
      · cases h
  · cases h

theorem renderable_of_leaf {body : Json} {op : LeafOp}
    (hbody : ∀ q ∈ body.floats, F64.IsValue q) (h : leaf display debug field body = .ok op) :
    Renderable op := by
  unfold leaf at h
  split at h
  · next name criteria =>
      have hcriteria : ∀ q ∈ criteria.floats, F64.IsValue q := fun q hq ↦
        hbody q (Json.floats_subset_of_mem (List.mem_singleton_self (name, criteria)) q hq)
      split_ifs at h
      · exact renderable_of_matchLeaf h
      · unfold rangeLeaf at h
        split at h
        · next e es =>
            obtain ⟨out, hout, h⟩ := bind_eq_ok.mp h
            split_ifs at h
            cases h
            refine eachBound_of_foldlM ⟨?_, ?_, ?_, ?_⟩ (fun e' he' x hx ↦ ?_) hout
            · rintro _ ⟨⟩
            · rintro _ ⟨⟩
            · rintro _ ⟨⟩
            · rintro _ ⟨⟩
            · exact printable_of_exactNumber
                (fun q hq ↦ hcriteria q (Json.floats_subset_of_mem he' q hq)) hx
        · cases h
  · cases h

/-- A compiled leaf. -/
structure LeafOk (schema : Json) (l : PredicateLeaf) : Prop where
  field : isPlainIdentifier l.field.toList = true
  compiled : l.leaf.Compiled
  renderable : Renderable l.leaf
  kind : ∃ kind, (schema.get l.field).bind Json.asStr = some kind ∧ fitsKind kind l.leaf = true
  tags : singleTags l.leaf = true

/-- The one leaf under an `and` of its own. -/
theorem exists_leaf_of_compile {body : Json} {p : Predicate}
    (hfield : ¬(field = "and" ∨ field = "or"))
    (h : compile display debug (.object [("and", .array [.object [(field, body)]])]) = .ok p) :
    ∃ op, leaf display debug field body = .ok op ∧ p = .all [.leaf ⟨field, op⟩] := by
  have hnode : Msmarco.node display debug (.object [("and", .array [.object [(field, body)]])]) =
      .ok p := h
  rw [Msmarco.node, if_pos (.inl rfl), children, Msmarco.nodes, Msmarco.node,
    if_neg hfield] at hnode
  obtain ⟨ps, hps, hnode⟩ := bind_eq_ok.mp hnode
  obtain ⟨p', hp', hps⟩ := bind_eq_ok.mp hps
  obtain ⟨op, hop, rfl⟩ := map_eq_ok.mp hp'
  cases hps
  cases hnode
  exact ⟨op, hop, rfl⟩

theorem leafOk_of_leafNode {body : Json} {e : Expr}
    (hfield : ¬(field = "and" ∨ field = "or")) (hbody : ∀ q ∈ body.floats, F64.IsValue q)
    (h : leafNode display debug schema field (.object [(field, body)]) = .ok e) :
    ∃ l, e = .leaf l ∧ LeafOk schema l := by
  unfold leafNode at h
  split_ifs at h with hident
  rw [Bool.not_eq_true', Bool.not_eq_false] at hident
  split at h
  · cases h
  · next l rest hcompile =>
      obtain ⟨op, hop, heq⟩ := exists_leaf_of_compile hfield hcompile
      cases heq
      split at h
      · cases h
      · next kind hkind =>
          split_ifs at h with hfits htags
          rw [Bool.not_eq_true', Bool.not_eq_false] at hfits htags
          cases h
          exact ⟨_, rfl, hident, compiled_of_leaf hop, renderable_of_leaf hbody hop,
            ⟨kind, hkind, hfits⟩, htags⟩
  · cases h

/-! ## Trees -/

theorem floats_array (vs : List Json) : (Json.array vs).floats = Json.floatsEach vs := by
  rw [Json.floats]

mutual

theorem filled_of_node {depth : ℕ} {v : Json} {e : Expr}
    (hv : ∀ q ∈ v.floats, F64.IsValue q) (h : node display debug schema depth v = .ok e) :
    e.Filled (LeafOk schema) := by
  unfold node at h
  split at h
  · next key body =>
      have hbody : ∀ q ∈ body.floats, F64.IsValue q := fun q hq ↦
        hv q (Json.floats_subset_of_mem (List.mem_singleton_self (key, body)) q hq)
      split_ifs at h with hdepth hgroup hand hnot
      · obtain ⟨ts, hts, rfl⟩ := map_eq_ok.mp h
        obtain ⟨hne, heach⟩ := filled_of_group hbody hts
        exact .all hne heach
      · obtain ⟨ts, hts, rfl⟩ := map_eq_ok.mp h
        obtain ⟨hne, heach⟩ := filled_of_group hbody hts
        exact .any hne heach
      · obtain ⟨t, ht, rfl⟩ := map_eq_ok.mp h
        exact .not (filled_of_node hbody ht)
      · obtain ⟨l, rfl, hl⟩ := leafOk_of_leafNode hgroup hbody h
        exact .leaf hl
  · split_ifs at h

theorem filled_of_group {depth : ℕ} {v : Json} {ts : List Expr}
    (hv : ∀ q ∈ v.floats, F64.IsValue q) (h : group display debug schema depth v = .ok ts) :
    ts ≠ [] ∧ ∀ t ∈ ts, t.Filled (LeafOk schema) := by
  unfold group at h
  split at h
  · next e es =>
      rw [floats_array] at hv
      refine ⟨?_, filled_of_nodes hv h⟩
      rintro rfl
      rw [nodes] at h
      obtain ⟨t, -, h⟩ := bind_eq_ok.mp h
      obtain ⟨ts, -, h⟩ := bind_eq_ok.mp h
      cases h
  · cases h

theorem filled_of_nodes {depth : ℕ} {vs : List Json} {ts : List Expr}
    (hvs : ∀ q ∈ Json.floatsEach vs, F64.IsValue q)
    (h : nodes display debug schema depth vs = .ok ts) : ∀ t ∈ ts, t.Filled (LeafOk schema) := by
  match vs with
  | [] =>
      rw [nodes] at h
      cases h
      exact fun t ht ↦ absurd ht List.not_mem_nil
  | v :: vs =>
      rw [Json.floatsEach, List.forall_mem_append] at hvs
      rw [nodes] at h
      obtain ⟨t, ht, h⟩ := bind_eq_ok.mp h
      obtain ⟨ts', hts, h⟩ := bind_eq_ok.mp h
      cases h
      rw [List.forall_mem_cons]
      exact ⟨filled_of_node hvs.1 ht, filled_of_nodes hvs.2 hts⟩

end

/-- A compiled expression has no empty group, and its leaves are as the compiler makes them. -/
theorem filled_of_compile {value : Json} {e : Expr} (hvalue : ∀ q ∈ value.floats, F64.IsValue q)
    (h : Expr.compile display debug schema value = .ok e) : e.Filled (LeafOk schema) :=
  filled_of_node hvalue h

end VectorDbBenchmark.CompoundText
