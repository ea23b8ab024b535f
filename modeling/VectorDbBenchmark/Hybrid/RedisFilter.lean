import VectorDbBenchmark.Kit.GroupSyntax
import VectorDbBenchmark.Msmarco.Predicate

/-!
# The check of a rendered Redis filter

`check_redis_filter` of `src/hybrid.rs`: the filter text is parsed back, its tree and the
predicate are flattened, and the two are compared node by node, with every `$param`
resolved through the bound parameters.
-/

namespace VectorDbBenchmark.Hybrid

open Kit Msmarco

/-- A bound value. -/
inductive RedisParam where
  | str (s : String)
  | num (x : F64)
deriving DecidableEq, Repr

/-- A leaf of the query syntax the filter builder emits. -/
inductive RLeaf where
  /-- `@f:[lo hi]`; an end is missing when infinite, else a parameter that is exclusive or
  not. -/
  | range (field : String) (lo hi : Option (String × Bool))
  /-- `@f:{$a | $b}`. -/
  | tag (field : String) (params : List String)
  /-- `@f:($p)`. -/
  | text (field : String) (param : String)
deriving DecidableEq, Repr

abbrev RNode := BoolTree RLeaf

/-- What `{:?}` prints. -/
structure Debug where
  string : String → String
  param : Option RedisParam → String
  node : RNode → String
  predicate : Predicate → String

variable (debug : Debug)

/-! ## Parsing -/

section Leaves

variable (field : String)

/-- The parameter a leaf refers to. -/
def param (t : Text) : Except String String :=
  let refused := Except.error
    s!"Redis filter leaf on {field}: {debug.string (String.ofList t)} is not a parameter"
  match t with
  | '$' :: p => if p.isEmpty ∨ ' ' ∈ p then refused else .ok (String.ofList p)
  | _ => refused

/-- One end of an interval. -/
def side (inf : String) (t : Text) : Except String (Option (String × Bool)) :=
  if t = inf.toList then .ok none
  else
    match t with
    | '(' :: rest => (param debug field rest).map fun p ↦ some (p, true)
    | t => (param debug field t).map fun p ↦ some (p, false)

def rangeNode (body : Text) : Except String RLeaf :=
  match (splitAtSep ' ' body).filter fun t ↦ !t.isEmpty with
  | [lo, hi] => do
    let lo ← side debug field "-inf" lo
    let hi ← side debug field "+inf" hi
    .ok (.range field lo hi)
  | _ => .error s!"Redis range on {field} is not `[lo hi]`: [{String.ofList body}]"

def tagNode (body : Text) : Except String RLeaf :=
  ((splitAtSep '|' body).mapM fun t ↦ param debug field (trim t)).map (.tag field)

def textNode (body : Text) : Except String RLeaf :=
  (param debug field (trim body)).map (.text field)

end Leaves

/-- The character that ends a value. -/
def closing : Char → Option Char
  | '[' => some ']'
  | '\x7b' => some '\x7d'
  | '(' => some ')'
  | _ => none

/-- The leaf with the value between `opening` and its closing character. -/
def leafNode (field : String) (opening : Char) (body : Text) : Except String RLeaf :=
  if opening = '[' then rangeNode debug field body
  else if opening = '\x7b' then tagNode debug field body
  else textNode debug field body

section Expression

variable (expr : Text)

def grammarError (what : String) (i : ℕ) : String :=
  s!"Redis filter is not in the builder's grammar ({what} at byte {i} of " ++
    s!"{debug.string (String.ofList expr)})"

/-- Where `rest` starts in the expression. -/
def position (rest : Text) : ℕ := byteLen expr - byteLen rest

/-- The leaf in front of a text and what follows it. -/
def readLeaf (t : Text) : Except String (RLeaf × Text) :=
  let field := String.ofList (t.tail.takeWhile (· ≠ ':'))
  match t.tail.dropWhile (· ≠ ':') with
  | [] => .error (grammarError debug expr "leaf without a value" (byteLen expr + 1))
  | _ :: value =>
    let noValue := Except.error
      (grammarError debug expr "leaf without a value" (position expr value))
    match value with
    | [] => noValue
    | opening :: rest =>
      match closing opening with
      | none => noValue
      | some close =>
        match rest.dropWhile (· ≠ close) with
        | [] => .error (grammarError debug expr "unclosed leaf" (byteLen expr))
        | _ :: after =>
          (leafNode debug field opening (rest.takeWhile (· ≠ close))).map fun l ↦ (l, after)

theorem length_readLeaf_lt {t : Text} {r : RLeaf × Text} (h : readLeaf debug expr t = .ok r) :
    r.2.length < t.length := by
  rw [readLeaf] at h
  dsimp only at h
  have hfield := (List.dropWhile_suffix (l := t.tail) (· ≠ ':')).length_le
  split at h
  · cases h
  · next value hvalue =>
      rw [hvalue, List.length_cons, List.length_tail] at hfield
      split at h
      · cases h
      · next opening rest =>
          split at h
          · cases h
          · next close _ =>
              have hrest := (List.dropWhile_suffix (l := rest) (· ≠ close)).length_le
              split at h
              · cases h
              · next after hafter =>
                  obtain ⟨l, -, rfl⟩ := map_eq_ok.mp h
                  rw [hafter, List.length_cons] at hrest
                  rw [List.length_cons] at hfield
                  dsimp only
                  omega

def leafReader : GroupSyntax.LeafReader RLeaf String :=
  .ofRead (readLeaf debug expr) (length_readLeaf_lt debug expr) '@' fun what rest ↦
    grammarError debug expr what (position expr rest)

def parseRedisFilter : Except String RNode := GroupSyntax.parse (leafReader debug expr) expr

end Expression

/-! ## Comparing -/

section Walk

-- `params.get(name)`.
variable (params : String → Option RedisParam)

def num (name : String) : Except String F64 :=
  match params name with
  | some (.num n) => .ok n
  | other => .error s!"Redis parameter ${name} is {debug.param other}, not a number"

def text (name : String) : Except String String :=
  match params name with
  | some (.str s) => .ok s
  | other => .error s!"Redis parameter ${name} is {debug.param other}, not a string"

def mismatch {α : Type} (p : Predicate) (n : RNode) : Except String α :=
  .error s!"Redis filter node {debug.node n} does not express {debug.predicate p}"

/-- An end of an interval with the value of its parameter. -/
def got (s : Option (String × Bool)) : Except String (Option (F64 × Bool)) :=
  match s with
  | none => .ok none
  | some (p, exclusive) => (num debug params p).map fun n ↦ some (n, exclusive)

/-- `==` on ends of intervals. -/
def sameEnd : Option (F64 × Bool) → Option (F64 × Bool) → Bool
  | none, none => true
  | some (a, x), some (b, y) => a.eq b && x = y
  | _, _ => false

def walkRange (p : Predicate) (n : RNode) (gt gte lt lte : Option F64)
    (lo hi : Option (String × Bool)) : Except String Unit := do
  let wantLo := (gt.map fun v ↦ (v, true)).or (gte.map fun v ↦ (v, false))
  let wantHi := (lt.map fun v ↦ (v, true)).or (lte.map fun v ↦ (v, false))
  if !sameEnd (← got debug params lo) wantLo then mismatch debug p n
  else if sameEnd (← got debug params hi) wantHi then .ok ()
  else mismatch debug p n

def words (ops : List Operand) : List String :=
  ops.filterMap fun
    | .keyword k => some k
    | .int _ => none

def ints (ops : List Operand) : List F64 :=
  ops.filterMap fun
    | .int i => some (F64.ofInt i)
    | .keyword _ => none

/-- `sort_unstable` on strings. -/
def sortStrings (xs : List String) : List String := xs.mergeSort fun a b ↦ decide (a ≤ b)

def walkWords (p : Predicate) (field : String) (ops : List Operand) (n : RNode) :
    Except String Unit :=
  match n with
  | .leaf (.tag f ps) => do
    let got ← ps.mapM (text debug params)
    if f = field ∧ sortStrings got = sortStrings (words ops) then .ok () else mismatch debug p n
  | _ => mismatch debug p n

/-- The nodes that stand for the integers of an `IN` list. -/
def points (ints : List F64) (n : RNode) : Option (List RNode) :=
  match n with
  | .any c => if 1 < ints.length then some c else if ints.length = 1 then some [n] else none
  | n => if ints.length = 1 then some [n] else none

/-- The value of an interval with one point. -/
def point (p : Predicate) (n : RNode) (field : String) (pt : RNode) : Except String F64 :=
  match pt with
  | .leaf (.range f (some (a, false)) (some (b, false))) =>
    if f ≠ field then mismatch debug p n
    else do
      if (← num debug params a).eq (← num debug params b) then num debug params a
      else mismatch debug p n
  | _ => mismatch debug p n

/-- `f64::total_cmp`, which puts `nan` last here: no list with a `nan` is sorted. -/
def totalLe : F64 → F64 → Bool
  | _, .nan => true
  | .nan, _ => false
  | a, b => a.le b

def walkInts (p : Predicate) (field : String) (ops : List Operand) (n : RNode) :
    Except String Unit :=
  match points (ints ops) n with
  | none => mismatch debug p n
  | some pts => do
    let got ← pts.mapM (point debug params p n field)
    if (got.mergeSort totalLe).isEqv ((ints ops).mergeSort totalLe) F64.eq then .ok ()
    else mismatch debug p n

def walkLeaf (l : PredicateLeaf) (n : RNode) : Except String Unit :=
  match l.leaf, n with
  | .text term, .leaf (.text f param) =>
    if f ≠ l.field then mismatch debug (.leaf l) n
    else do
      if (← text debug params param) = term then .ok () else mismatch debug (.leaf l) n
  | .range gt gte lt lte, .leaf (.range f lo hi) =>
    if f ≠ l.field then mismatch debug (.leaf l) n
    else walkRange debug params (.leaf l) n gt gte lt lte lo hi
  | .match ops, n =>
    if words ops ≠ [] ∧ ints ops = [] then walkWords debug params (.leaf l) l.field ops n
    else walkInts debug params (.leaf l) l.field ops n
  | _, n => mismatch debug (.leaf l) n

mutual

def walk : Predicate → RNode → Except String Unit
  | .all pc, .all nc =>
    if pc.length ≠ nc.length then mismatch debug (.all pc) (.all nc) else walkEach pc nc
  | .any pc, .any nc =>
    if pc.length ≠ nc.length then mismatch debug (.any pc) (.any nc) else walkEach pc nc
  | .leaf l, n => walkLeaf debug params l n
  | p, n => mismatch debug p n

/-- The children of two groups, pair by pair. -/
def walkEach : List Predicate → List RNode → Except String Unit
  | p :: ps, n :: ns => do
    walk p n
    walkEach ps ns
  | _, _ => .ok ()

end

/-- Whether the text expresses the predicate. -/
def checkRedisFilter (p : Predicate) (expr : Text) : Except String Unit := do
  let node ← parseRedisFilter debug expr
  walk debug params p.flatten node.flatten

end Walk

end VectorDbBenchmark.Hybrid
