import VectorDbBenchmark.Kit.DecimalText
import VectorDbBenchmark.F64Order
import VectorDbBenchmark.Redis.Hygiene
import VectorDbBenchmark.Redis.LiteralQuery

/-!
# The KiviDB filter builder

`parse_conditions` of the KiviDB engine: a conditions object becomes a prefilter with
literal values, rendered from a tree with the fewest parentheses, or an error.  What the
builder uses of the standard library's Unicode tables and formatting, and the datetime
parser, are parameters.
-/

namespace VectorDbBenchmark.Kividb

open Kit Redis

structure Env where
  numbers : NumberEnv
  /-- `c.is_alphanumeric()`. -/
  isAlphanumeric : Char → Bool
  /-- `Display` of a JSON value. -/
  display : Json → String
  /-- `Debug` of a string and of a character. -/
  debug : String → String
  debugChar : Char → String

/-! ## The tree -/

/-- A filter expression whose leaves are rendered clauses. -/
abbrev Node := BoolTree Text

def neverMatch : Text := "__kividb_never_match__".toList

def matchAll : Text := ['*']

def nodeAnd (children : List Node) : Node := BoolTree.collapse .all children

def nodeOr (children : List Node) : Node := BoolTree.collapse .any children

section Render

/-- A child of a group: whether it is a group of the other kind, and its text without
parentheses. -/
abbrev Part := Bool × Text

def parens (t : Text) : Text := '(' :: (t ++ [')'])

/-- Groups in parentheses first, then the others, with blanks between them. -/
def joinAll : List Part → Text
  | [(_, t)] => t
  | parts => [' '].intercalate ((parts.filter Prod.fst).map (fun p ↦ parens p.2) ++
      (parts.filter (!·.1)).map Prod.snd)

/-- Groups in parentheses and the others, with bars between them. -/
def joinAny : List Part → Text
  | [(_, t)] => t
  | parts => [' ', '|', ' '].intercalate (parts.map fun p ↦ if p.1 then parens p.2 else p.2)

-- `allParts` and `anyParts` are `flatten`: a child of the group's own kind gives way to its
-- children.  Each child is rendered where it is found, so that the recursion is structural.
mutual

def Node.render : Node → Text
  | .leaf s => s
  | .all children => joinAll (allParts children)
  | .any children => joinAny (anyParts children)

def allParts : List Node → List Part
  | [] => []
  | n :: ns => allPart n ++ allParts ns

def allPart : Node → List Part
  | .leaf s => [(false, s)]
  | .all inner => allParts inner
  | .any inner => [(true, joinAny (anyParts inner))]

def anyParts : List Node → List Part
  | [] => []
  | n :: ns => anyPart n ++ anyParts ns

def anyPart : Node → List Part
  | .leaf s => [(false, s)]
  | .all inner => [(true, joinAll (allParts inner))]
  | .any inner => anyParts inner

end

end Render

/-! ## Tag values -/

section TagValue

variable (env : Env)

/-- Why a value cannot be expressed as a tag of a query. -/
def tagValueProblem (value : Text) : Option String :=
  let isOdd (c : Char) : Bool := (isWhiteSpace c && c ≠ ' ') || isControl c
  if value.isEmpty then
    some ("it is empty; whether KiviDB indexes an empty TAG value is unmeasured, so a " ++
      "never-match could silently under-match")
  else if value.head?.any isWhiteSpace || value.getLast?.any isWhiteSpace then
    some ("it has leading or trailing whitespace, which KiviDB trims from a TAG query " ++
      "value (`@t:\x7b\\ sp\x7d` is looked up as `sp`)")
  else
    match value.find? isOdd with
    | some c =>
      some (s!"it contains {env.debugChar c}, whitespace other than a space or a control " ++
        "character, which is not escaped and whose handling inside a TAG value was never " ++
        "measured on KiviDB 1.1.2 (the query lexer may split or trim on it)")
    | none =>
      if value.contains ';' then
        some ("it contains `;`, the SEPARATOR every TAG field is declared with, so the " ++
          "stored value was split into tokens and no query can match it whole")
      else if value.getLast? = some '*' then
        some ("it ends in `*`, which KiviDB reads as a prefix wildcard even when escaped " ++
          "(`@t:\x7bzz\\*\x7d` also matches `zz`, `zzab`, ...)")
      else if value.head? = some '$' then
        some ("it starts with `$`, which KiviDB reads as a query parameter even when " ++
          "escaped (`@t:\x7b\\$zz\x7d` fails with `No such parameter`)")
      else none

/-- A backslash before every ASCII punctuation character and before a space. -/
def escapeTagValue (value : Text) : Text :=
  value.flatMap fun c ↦ if isAsciiPunctuation c || c = ' ' then ['\\', c] else [c]

def tagLiteral (field value : String) (tagsSupported : Bool) : Except String Text :=
  if !tagsSupported then
    .error (s!"KiviDB filter: cannot encode TAG value {env.debug value} for field `{field}`: " ++
      "the server's `kividb_version` is unknown or older than 1.1.2, the oldest KiviDB on " ++
      "which this tool's (escaped) TAG encoding is tested.")
  else
    match tagValueProblem env value.toList with
    | some problem =>
      .error (s!"KiviDB filter: TAG value {env.debug value} for field `{field}` cannot be " ++
        s!"expressed exactly on KiviDB: {problem}. Refusing to emit a filter that would " ++
        "report a wrong recall.")
    | none => .ok (escapeTagValue value.toList)

end TagValue

/-! ## Leaves -/

section Leaves

variable (env : Env) (field : String)

/-- `@f:\x7b…\x7d`. -/
def tagText (value : Text) : Text :=
  '@' :: (field.toList ++ ':' :: '\x7b' :: (value ++ ['\x7d']))

/-- `@f:[lo hi]`. -/
def intervalText (lo hi : Text) : Text :=
  '@' :: (field.toList ++ ':' :: '[' :: (lo ++ ' ' :: hi ++ [']']))

/-- `@f:(term)`. -/
def termText (term : Text) : Text := '@' :: (field.toList ++ ':' :: '(' :: (term ++ [')']))

def neverMatchTag : Node := .leaf (tagText field neverMatch)

def tagClause (value : String) (tagsSupported : Bool) : Except String Node :=
  (tagLiteral env field value tagsSupported).map fun literal ↦ .leaf (tagText field literal)

def buildExactMatch (criteria : Json) (tagsSupported : Bool) : Except String Node :=
  match criteria.get "value" with
  | none => .error s!"KiviDB filter: empty match filter for `{field}`"
  | some value =>
    match value.asBool with
    | some b => .ok (.leaf (tagText field (if b then "true".toList else "false".toList)))
    | none =>
      match value.asStr with
      | some s => tagClause env field s tagsSupported
      | none =>
        match value.asI64 with
        | some i => .ok (.leaf (intervalText field (intText i) (intText i)))
        | none =>
          match value.asF64 with
          | some f => .ok (.leaf (intervalText field f.display f.display))
          | none =>
            .error (s!"KiviDB filter: unsupported match value for `{field}`: " ++
              s!"{env.display value}")

/-- The clauses of a list of strings. -/
def stringClauses (tagsSupported : Bool) : List Json → Except String (List Node)
  | [] => .ok []
  | v :: vs =>
    match v.asStr with
    | none =>
      .error (s!"KiviDB filter: unsupported `match_any` element for `{field}`: " ++
        s!"{env.display v} (expected all-integer or all-string)")
    | some s => do
      let literal ← tagLiteral env field s tagsSupported
      let clauses ← stringClauses tagsSupported vs
      .ok (.leaf (tagText field literal) :: clauses)

def buildMatchAny (any : List Json) (tagsSupported : Bool) : Except String Node :=
  if !any.isEmpty && any.all (fun v ↦ v.asI64.isSome) then
    .ok (nodeOr ((any.filterMap Json.asI64).map fun i ↦
      .leaf (intervalText field (intText i) (intText i))))
  else do
    let clauses ← stringClauses env field tagsSupported any
    if clauses.isEmpty then .ok (neverMatchTag field) else .ok (nodeOr clauses)

/-- `text.split_whitespace().count()`. -/
def wordCount (t : Text) : ℕ := ((t.splitOnP isWhiteSpace).filter (!·.isEmpty)).length

def buildText (text : String) : Except String Node :=
  let trimmed := trim text.toList
  let shown := env.debug (String.ofList trimmed)
  if trimmed.isEmpty then .ok (.leaf (termText field neverMatch))
  else if 1 < wordCount trimmed then
    .error (s!"KiviDB filter: multi-term full-text query {shown} on `{field}` is not " ++
      "supported — KiviDB's TEXT matcher handles a single term per `@field:(...)` clause and " ++
      "returns ZERO documents for a multi-term query (verified live on an early release; kept " ++
      "as a conservative refusal), which would be reported as recall 0.0.")
  else if !trimmed.all env.isAlphanumeric then
    .error (s!"KiviDB filter: full-text term {shown} on `{field}` contains a " ++
      "non-alphanumeric character. KiviDB's TEXT tokenizer splits on those and the clause " ++
      "then either misses entirely or (for `)`) degrades to match-all; there is no escaping " ++
      "mechanism. Refusing to emit a filter that would report a wrong recall.")
  else .ok (.leaf (termText field trimmed))

/-- A numeric range bound. -/
inductive Bound where
  | int (i : ℤ)
  | float (f : F64)

def numberBound (key : String) (value : Json) : Except String Bound :=
  match value.asI64 with
  | some i => .ok (.int i)
  | none =>
    match value.asF64 with
    | some f => .ok (.float f)
    | none =>
      let number : Option Bound := do
        let s ← value.asStr
        match env.numbers.datetimeToEpochSecs s with
        | some epoch => some (.int epoch)
        | none =>
          match parseI64 s.toList with
          | some i => some (.int i)
          | none => (env.numbers.parseF64 s).map .float
      match number with
      | some bound => .ok bound
      | none =>
        .error (s!"KiviDB filter: non-numeric `{key}` range bound on `{field}`: " ++
          s!"{env.display value}")

/-- The key of a bound, whether it bounds from above, and whether it is exclusive. -/
structure BoundKey where
  key : String
  isUpper : Bool
  exclusive : Bool

def boundKeys : List BoundKey :=
  [⟨"lt", true, true⟩, ⟨"gt", false, true⟩, ⟨"lte", true, false⟩, ⟨"gte", false, false⟩]

/-- `2^53`. -/
def maxExactIntF64 : ℕ := 2 ^ 53

/-- The number next to an exclusive bound. -/
def neighbour (isUpper : Bool) (f : F64) : Text :=
  (if isUpper then f.nextDown else f.nextUp).display

/-- The text of a bound. -/
def boundText (k : BoundKey) (bound : Bound) : Except String Text :=
  match bound with
  | .int i =>
    if k.exclusive then
      if maxExactIntF64 < i.natAbs then
        .error (s!"KiviDB filter: exclusive `{k.key}` bound {i} on `{field}` exceeds 2^53 and " ++
          "cannot be nudged to the adjacent f64 exactly. KiviDB does not support RediSearch's " ++
          "`(` exclusive-bound syntax (the clause silently degrades to match-all), so this " ++
          "bound is inexpressible.")
      else .ok (neighbour k.isUpper (.ofInt i))
    else .ok (intText i)
  | .float f => .ok (if k.exclusive then neighbour k.isUpper f else f.display)

/-- The clauses of the bounds that are given. -/
def boundClauses (criteria : Json) : List BoundKey → Except String (List Node)
  | [] => .ok []
  | k :: ks =>
    match criteria.get k.key with
    | none => boundClauses criteria ks
    | some raw => do
      let bound ← numberBound env field k.key raw
      let rendered ← boundText field k bound
      let clauses ← boundClauses criteria ks
      .ok (.leaf (if k.isUpper then intervalText field "-inf".toList rendered
        else intervalText field rendered "+inf".toList) :: clauses)

def buildRange (criteria : Json) : Except String Node := do
  let clauses ← boundClauses env field criteria boundKeys
  if clauses.isEmpty then
    .error (s!"KiviDB filter: range filter on `{field}` has no usable bound (expected any of " ++
      "gt/gte/lt/lte)")
  else .ok (nodeAnd clauses)

def buildFilter (conditionType : String) (criteria : Json) (tagsSupported : Bool) :
    Except String Node :=
  match conditionType with
  | "match" =>
    match (criteria.get "any").bind Json.asArray with
    | some any => buildMatchAny env field any tagsSupported
    | none =>
      match (criteria.get "text").bind Json.asStr with
      | some text => buildText env field text
      | none => buildExactMatch env field criteria tagsSupported
  | "range" => buildRange env field criteria
  | "geo" =>
    .error (s!"KiviDB filter: cannot filter geo field `{field}` — KiviDB's index schema has no " ++
      "GEO field type, so the field is never indexed and the clause would match nothing " ++
      "(verified: a clause over an undeclared field returns 0 documents). Refusing to report a " ++
      "recall for a geo filter KiviDB cannot apply.")
  | other => .error s!"KiviDB filter: unsupported condition `{other}` on field `{field}`"

end Leaves

/-! ## Groups -/

section Groups

variable (env : Env) (tagsSupported : Bool)

/-- The operations on one field. -/
def buildOps (field : String) : List (String × Json) → Except String (List Node)
  | [] => .ok []
  | (conditionType, criteria) :: ops => do
    let n ← buildFilter env field conditionType criteria tagsSupported
    let ns ← buildOps field ops
    .ok (n :: ns)

/-- The operations of an entry that is no group. -/
def buildLeaves : List (String × Json) → Except String (List Node)
  | [] => .ok []
  | (field, fieldFilters) :: fields =>
    match fieldFilters with
    | .object ops => do
      let ns ← buildOps env tagsSupported field ops
      let rest ← buildLeaves fields
      .ok (ns ++ rest)
    | _ =>
      .error (s!"KiviDB filter: filter for `{field}` must be an object, got " ++
        s!"{env.display fieldFilters}. Refusing to skip it — see above.")

/-- The end of `build_group`. -/
def groupNode (andChildren orChildren : List Node) : Option Node :=
  let parts := (if andChildren.isEmpty then [] else [nodeAnd andChildren]) ++
    (if orChildren.isEmpty then [] else [nodeOr orChildren])
  if parts.isEmpty then none else some (nodeAnd parts)

mutual

/-- One round of `build_subfilters`; a nested group is built as `build_group` does. -/
def buildEntry : Json → Except String (List Node)
  | .object obj =>
    if containsKey "and" obj || containsKey "or" obj then do
      let andChildren ← buildArrayAt "and" obj
      let orChildren ← buildArrayAt "or" obj
      .ok (groupNode andChildren orChildren).toList
    else buildLeaves env tagsSupported obj
  | entry =>
    .error (s!"KiviDB filter: filter entry must be an object, got {env.display entry}. " ++
      "Refusing to skip it — dropping one conjunct would widen the prefilter and report a " ++
      "recall for a filter that was never fully applied.")

def buildSubfilters : List Json → Except String (List Node)
  | [] => .ok []
  | entry :: entries => do
    let ns ← buildEntry entry
    let rest ← buildSubfilters entries
    .ok (ns ++ rest)

/-- `obj.get(key)` as an array, built. -/
def buildArrayAt (key : String) : List (String × Json) → Except String (List Node)
  | [] => .ok []
  | (k, v) :: entries => if k = key then buildArray v else buildArrayAt key entries

def buildArray : Json → Except String (List Node)
  | .array entries => buildSubfilters entries
  | _ => .ok []

end

def buildGroup (obj : List (String × Json)) : Except String (Option Node) := do
  let andChildren ← buildArrayAt env tagsSupported "and" obj
  let orChildren ← buildArrayAt env tagsSupported "or" obj
  .ok (groupNode andChildren orChildren)

/-- The prefilter of a conditions value. -/
def parseConditions (conditions : Json) : Except String Text :=
  match conditions with
  | .object obj =>
    if obj.isEmpty then .ok matchAll
    else do
      let node ← buildGroup env tagsSupported obj
      .ok ((node.map Node.render).getD matchAll)
  | _ => .ok matchAll

end Groups

end VectorDbBenchmark.Kividb
