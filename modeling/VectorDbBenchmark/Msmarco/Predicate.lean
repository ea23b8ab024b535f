import VectorDbBenchmark.Json
import VectorDbBenchmark.Kit.Fallible
import VectorDbBenchmark.Kit.TreeWalk
import VectorDbBenchmark.Msmarco.TextMatch

/-!
# Predicates

The predicate grammar of `src/msmarco/derived.rs`: a conditions value compiled once
(`compile`) and evaluated for each row (`Predicate.matches`).  The operands of a compiled
predicate are compared exactly by every engine, and a range has at most one bound on a side.
-/

namespace VectorDbBenchmark.Msmarco

open Kit

/-- A field's value, as a predicate sees it. -/
inductive FieldValue where
  | keyword (s : String)
  | int (n : ℤ)
  /-- Present, but of no type that is compared. -/
  | other
  /-- A name the row type cannot represent. -/
  | unknown
deriving DecidableEq, Repr

/-- What a predicate is evaluated against; an absent field has no value. -/
abbrev Fields := String → Option FieldValue

/-- A `match` operand. -/
inductive Operand where
  | keyword (s : String)
  | int (n : ℤ)
deriving DecidableEq, Repr

/-- One compiled leaf operation. -/
inductive LeafOp where
  /-- `match.value`, with one operand, or `match.any`. -/
  | match (ops : List Operand)
  | range (gt gte lt lte : Option F64)
  /-- `match.text`: one term. -/
  | text (term : String)
deriving DecidableEq, Repr

structure PredicateLeaf where
  field : String
  leaf : LeafOp
deriving DecidableEq, Repr

/-- A compiled conditions value. -/
abbrev Predicate := BoolTree PredicateLeaf

/-- The largest integer every engine compares exactly. -/
def maxExactInteger : ℕ := 2 ^ 53

/-! ## Compiling -/

section Compile

-- What `{}` prints of a JSON value and `{:?}` of a string.
variable (display : Json → String) (debug : String → String)

def operand (field : String) (v : Json) : Except String Operand :=
  match v.asStr with
  | some s => .ok (.keyword s)
  | none =>
    let unfit := Except.error
      s!"{field}: match operands must be strings or integers within +/-2^53, got {display v}"
    match v.asI64 with
    | some n => if n.natAbs ≤ maxExactInteger then .ok (.int n) else unfit
    | none => unfit

def matchLeaf (field : String) (criteria : Json) : Except String LeafOp :=
  match criteria with
  | .object [(kind, v)] =>
    if kind = "text" then
      match v.asStr with
      | none => .error s!"{field}: match.text must be a string"
      | some t => do
        (validateTerm t.toList).mapError fun e ↦ s!"{field}: {e}"
        .ok (.text t)
    else if kind = "value" then (operand display field v).map fun op ↦ .match [op]
    else if kind = "any" then
      match v with
      | .array (e :: es) => ((e :: es).mapM (operand display field)).map .match
      | _ => .error s!"{field}: match.any must be a nonempty array"
    else .error s!"{field}: match needs exactly one of value, any or text"
  | _ => .error s!"{field}: match needs exactly one of value/any"

/-- The bounds of a range leaf that have been read. -/
structure RangeBounds where
  gt : Option F64 := none
  gte : Option F64 := none
  lt : Option F64 := none
  lte : Option F64 := none
deriving DecidableEq, Repr

/-- A number that is finite and compared exactly. -/
def exactNumber (v : Json) : Option F64 :=
  match v.asF64 with
  | some (.fin q) => if |q| ≤ maxExactInteger then some (.fin q) else none
  | _ => none

/-- One round of the loop over the bounds. -/
def rangeBound (field : String) (out : RangeBounds) (bound : String × Json) :
    Except String RangeBounds :=
  match exactNumber bound.2 with
  | none => .error s!"{field}: range bound {bound.1} must be a number"
  | some n =>
    if bound.1 = "gt" then .ok { out with gt := some n }
    else if bound.1 = "gte" then .ok { out with gte := some n }
    else if bound.1 = "lt" then .ok { out with lt := some n }
    else if bound.1 = "lte" then .ok { out with lte := some n }
    else .error s!"{field}: unknown range bound {debug bound.1}"

def rangeLeaf (field : String) (criteria : Json) : Except String LeafOp :=
  match criteria with
  | .object (b :: bs) => do
    let out ← (b :: bs).foldlM (rangeBound debug field) {}
    if (out.gt.isSome ∧ out.gte.isSome) ∨ (out.lt.isSome ∧ out.lte.isSome) then
      .error s!"{field}: range permits at most one lower and one upper bound"
    else .ok (.range out.gt out.gte out.lt out.lte)
  | _ => .error s!"{field}: range needs at least one bound"

def leaf (field : String) (body : Json) : Except String LeafOp :=
  match body with
  | .object [(op, criteria)] =>
    if op = "match" then matchLeaf display field criteria
    else if op = "range" then rangeLeaf debug field criteria
    else .error s!"{field}: unsupported operation {debug op}"
  | _ => .error s!"{field}: a leaf must hold exactly one operation"

mutual

def node : Json → Except String Predicate
  | .object [(key, body)] =>
    if key = "and" ∨ key = "or" then do
      let children ← children key body
      .ok (if key = "and" then .all children else .any children)
    else (leaf display debug key body).map fun l ↦ .leaf ⟨key, l⟩
  | .object obj => .error (s!"a condition object must hold exactly one key (one group, or one " ++
      s!"field with one operation); got {obj.length} keys — multi-key objects mean different " ++
      "things in different engine builders")
  | v => .error s!"condition entry is not an object: {display v}"

/-- The entries of a group. -/
def children (key : String) : Json → Except String (List Predicate)
  | .array (e :: es) => nodes (e :: es)
  | _ => .error s!"`{key}` must be a nonempty array"

def nodes : List Json → Except String (List Predicate)
  | [] => .ok []
  | e :: es => do
    let p ← node e
    let ps ← nodes es
    .ok (p :: ps)

end

/-- The predicate of a conditions value, whose top level must be a group. -/
def compile (conditions : Json) : Except String Predicate :=
  match conditions with
  | .object obj =>
    if obj.any (fun e ↦ e.1 = "and") || obj.any fun e ↦ e.1 = "or" then
      node display debug conditions
    else .error "conditions must be an `and`/`or` group at the top level"
  | _ => .error "conditions must be a JSON object"

end Compile

/-! ## Evaluating -/

/-- The names of the fields a passage is given. -/
def derivedFields : List String := ["category", "doc_len", "tier", "rand_key"]

def unknownField (field : String) : String :=
  s!"{field}: not a field of this row type (the compact derived row holds only " ++
    ", ".intercalate derivedFields ++ ")"

section Matches

variable (debug : String → String)

/-- One operand against a keyword. -/
def hitKeyword (field s : String) (hit : Bool) : Operand → Except String Bool
  | .keyword k => .ok (hit || k = s)
  | .int _ => .error s!"{field}: integer operand against a keyword field"

/-- One operand against an integer. -/
def hitInt (field : String) (n : ℤ) (hit : Bool) : Operand → Except String Bool
  | .int k => .ok (hit || k = n)
  | .keyword _ => .error s!"{field}: keyword operand against an integer field"

/-- A leaf operation against the value of its field. -/
def LeafOp.matches (field : String) : LeafOp → FieldValue → Except String Bool
  | .match ops, .keyword s => ops.foldlM (hitKeyword field s) false
  | .match ops, .int n => ops.foldlM (hitInt field n) false
  | .range gt gte lt lte, .int n =>
    if maxExactInteger < n.natAbs then .error s!"{field}: value {n} is outside +/-2^53"
    else
      let x := F64.ofInt n
      .ok (gt.all (fun b ↦ b.lt x) && gte.all (fun b ↦ b.le x) && lt.all (fun b ↦ x.lt b) &&
        lte.all fun b ↦ x.le b)
  | .range .., .keyword _ => .error s!"{field}: range predicate on a keyword field"
  | .text term, .keyword s =>
    match classify s.toList term.toList with
    | .yes => .ok true
    | .no => .ok false
    | .ambiguous => .error (s!"{field}: whether {debug s} matches the term {debug term} " ++
        "depends on the engine's tokenizer; no ground truth can be computed for it")
  | .text _, .int _ => .error s!"{field}: text match on an integer field"
  | _, .other => .error s!"{field}: holds a value the exact-match grammar cannot compare"
  | _, .unknown => .error (unknownField field)

def PredicateLeaf.matches (row : Fields) (l : PredicateLeaf) : Except String Bool :=
  match row l.field with
  | none => .ok false
  | some value => l.leaf.matches debug l.field value

/-- Whether a row satisfies a predicate: groups from left to right, no further than is
needed. -/
def Predicate.matches (row : Fields) (p : Predicate) : Except String Bool :=
  p.run (PredicateLeaf.matches debug row)

end Matches

/-! ## What compiling guarantees -/

/-- An operand that every engine compares exactly. -/
def Operand.Exact : Operand → Prop
  | .keyword _ => True
  | .int n => n.natAbs ≤ maxExactInteger

/-- What holds of the leaves of a compiled predicate. -/
def LeafOp.Compiled : LeafOp → Prop
  | .match ops => ∀ op ∈ ops, op.Exact
  | .range gt gte lt lte => (gt = none ∨ gte = none) ∧ (lt = none ∨ lte = none)
  | .text term => validateTerm term.toList = .ok ()

variable {display : Json → String} {debug : String → String} {field : String}

theorem exact_of_operand {v : Json} {op : Operand} (h : operand display field v = .ok op) :
    op.Exact := by
  rw [operand] at h
  split at h
  · cases h
    trivial
  · dsimp only at h
    split at h
    · split_ifs at h with hn
      cases h
      exact hn
    · cases h

theorem compiled_of_matchLeaf {criteria : Json} {op : LeafOp}
    (h : matchLeaf display field criteria = .ok op) : op.Compiled := by
  unfold matchLeaf at h
  split at h
  · next kind v =>
      split_ifs at h
      · split at h
        · cases h
        · next t _ =>
            obtain ⟨⟨⟩, hterm, h⟩ := bind_eq_ok.mp h
            cases h
            exact mapError_eq_ok.mp hterm
      · obtain ⟨o, ho, rfl⟩ := map_eq_ok.mp h
        intro o' ho'
        rw [List.mem_singleton.mp ho']
        exact exact_of_operand ho
      · split at h
        · next e es =>
            obtain ⟨ops, hops, rfl⟩ := map_eq_ok.mp h
            intro o ho
            obtain ⟨i, hi, rfl⟩ := List.getElem_of_mem ho
            have hall := mapM_eq_ok.mp hops
            have hi' : i < (e :: es).length := hall.length_eq ▸ hi
            exact exact_of_operand ((List.forall₂_iff_get.mp hall).2 i hi' hi)
        · cases h
  · cases h

theorem compiled_of_rangeLeaf {criteria : Json} {op : LeafOp}
    (h : rangeLeaf debug field criteria = .ok op) : op.Compiled := by
  unfold rangeLeaf at h
  split at h
  · obtain ⟨out, -, h⟩ := bind_eq_ok.mp h
    split_ifs at h with hboth
    cases h
    obtain ⟨hlower, hupper⟩ := not_or.mp hboth
    refine ⟨?_, ?_⟩
    · rcases hgt : out.gt with _ | v
      · exact .inl rfl
      · rw [hgt] at hlower
        exact .inr (Option.not_isSome_iff_eq_none.mp fun hs ↦ hlower ⟨rfl, hs⟩)
    · rcases hlt : out.lt with _ | v
      · exact .inl rfl
      · rw [hlt] at hupper
        exact .inr (Option.not_isSome_iff_eq_none.mp fun hs ↦ hupper ⟨rfl, hs⟩)
  · cases h

theorem compiled_of_leaf {body : Json} {op : LeafOp} (h : leaf display debug field body = .ok op) :
    op.Compiled := by
  unfold leaf at h
  split at h
  · split_ifs at h
    · exact compiled_of_matchLeaf h
    · exact compiled_of_rangeLeaf h
  · cases h

mutual

theorem compiled_of_node {v : Json} {p : Predicate} (h : node display debug v = .ok p) :
    ∀ l ∈ p.leaves, l.leaf.Compiled := by
  unfold node at h
  split at h
  · next key body =>
      split_ifs at h
      · obtain ⟨ps, hps, h⟩ := bind_eq_ok.mp h
        cases h
        rw [BoolTree.leaves_all]
        exact compiled_of_children hps
      · obtain ⟨ps, hps, h⟩ := bind_eq_ok.mp h
        cases h
        rw [BoolTree.leaves_any]
        exact compiled_of_children hps
      · obtain ⟨op, hop, rfl⟩ := map_eq_ok.mp h
        intro l hl
        rw [BoolTree.leaves_leaf, List.mem_singleton] at hl
        rw [hl]
        exact compiled_of_leaf hop
  · cases h
  · cases h

theorem compiled_of_children {key : String} {body : Json} {ps : List Predicate}
    (h : children display debug key body = .ok ps) :
    ∀ l ∈ ps.flatMap BoolTree.leaves, l.leaf.Compiled := by
  unfold children at h
  split at h
  · exact compiled_of_nodes h
  · cases h

theorem compiled_of_nodes {vs : List Json} {ps : List Predicate}
    (h : nodes display debug vs = .ok ps) :
    ∀ l ∈ ps.flatMap BoolTree.leaves, l.leaf.Compiled := by
  match vs with
  | [] =>
      rw [nodes] at h
      cases h
      intro l hl
      cases hl
  | v :: vs =>
      rw [nodes] at h
      obtain ⟨p, hp, h⟩ := bind_eq_ok.mp h
      obtain ⟨ps', hps, h⟩ := bind_eq_ok.mp h
      cases h
      intro l hl
      rw [List.flatMap_cons, List.mem_append] at hl
      rcases hl with hl | hl
      · exact compiled_of_node hp l hl
      · exact compiled_of_nodes hps l hl

end

theorem compiled_of_compile {conditions : Json} {p : Predicate}
    (h : compile display debug conditions = .ok p) : ∀ l ∈ p.leaves, l.leaf.Compiled := by
  unfold compile at h
  split at h
  · split_ifs at h
    exact compiled_of_node h
  · cases h

end VectorDbBenchmark.Msmarco
