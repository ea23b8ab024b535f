import VectorDbBenchmark.CompoundText.Expr
import VectorDbBenchmark.Fulltext.Terms

/-!
# The compound suite of a corpus

`Spec`, `Query`, `msmarco_queries` and `Spec::load` of `src/compound_text.rs`: five text queries
for each passage of a sample that has the terms for them, and then the prepared scalar queries.
Files are read and parsed by code that is not modelled.
-/

namespace VectorDbBenchmark.CompoundText

open Kit Msmarco

/-! ## The declaration -/

structure Query where
  name : String
  family : String
  conditions : Json
  expectedCount : Option ℕ := none
  minimumCount : ℕ := 0

structure Spec where
  suite : Option String
  queries : Option (List Query)
  /-- The one family that is selected. -/
  family : Option String

def Spec.validate (spec : Spec) : Except String Unit :=
  let declared := match spec.suite, spec.queries with
    | some s, none => s = "msmarco-v1"
    | none, some q => !q.isEmpty
    | _, _ => false
  if !declared then
    .error "compound requires suite: msmarco-v1 OR nonempty explicit queries"
  else if spec.family.any String.isEmpty then .error "empty compound family"
  else .ok ()

/-! ## The sample -/

/-- A sampled passage, and the terms of its text fields that both engines agree on. -/
structure Sampled where
  row : Json
  title : List String
  segment : List String

/-- `row[field].as_str()`. -/
def strAt (row : Json) (field : String) : Option String := (row.get field).bind Json.asStr

/-- Whether a text surely has the term. -/
def isAgreed (text term : String) : Bool :=
  (validateTerm term.toList).toOption.isSome && classify text.toList term.toList = .yes

def terms (u : Unicode) (row : Json) (field : String) : List String :=
  match strAt row field with
  | some text => ((Fulltext.queryTerms u text.toList).map String.ofList).filter (isAgreed text)
  | none => []

def sampleRow (u : Unicode) (row : Json) : Sampled :=
  ⟨row, terms u row "title", terms u row "segment"⟩

/-- The first lines of `payloads.jsonl`, each read and parsed. -/
def sample (u : Unicode) (lines : List (Except String Json)) : Except String (List Sampled) :=
  (lines.take 4096).mapM fun line ↦ line.map (sampleRow u)

/-! ## The exclusion -/

/-- What is pushed to the rows of a term in the index. -/
def segmentRows (rows : List Sampled) (term : String) : List Sampled :=
  rows.flatMap fun r ↦ (r.segment.filter (· = term)).map fun _ ↦ r

/-- The title terms that come with a segment term where the seed's title surely lacks them. -/
def candidates (rows : List Sampled) (title segment : String) : List String :=
  (segmentRows rows segment).flatMap fun other ↦
    other.title.filter fun term ↦ classify title.toList term.toList = .no

/-- The candidates with how often they come, by name. -/
def tallied (cs : List String) : List (String × ℕ) :=
  ((distinct cs).insertionSort (· ≤ ·)).map fun t ↦ (t, cs.count t)

/-- More often, or as often and smaller. -/
def outranks (a b : String × ℕ) : Bool := b.2 < a.2 || (a.2 = b.2 && a.1 < b.1)

def maxCandidate : List (String × ℕ) → Option (String × ℕ)
  | [] => none
  | c :: cs => some (cs.foldl (fun best c ↦ if outranks best c then best else c) c)

def exclusion (rows : List Sampled) (title segment : String) : Option String :=
  (maxCandidate (tallied (candidates rows title segment))).map Prod.fst

/-! ## Text queries -/

def matchText (field term : String) : Json :=
  .object [(field, .object [("match", .object [("text", .string term)])])]

def matchValue (field : String) (value : Json) : Json :=
  .object [(field, .object [("match", .object [("value", value)])])]

/-- A range that is closed on both sides. -/
def between (field : String) (gte lte : Json) : Json :=
  .object [(field, .object [("range", .object [("gte", gte), ("lte", lte)])])]

def both (cs : List Json) : Json := .object [("and", .array cs)]

def negated (c : Json) : Json := .object [("not", c)]

/-- `row["category"]`. -/
def categoryOf (row : Json) : Json := (row.get "category").getD .null

/-- The conditions of the five families; the upper bound wraps as a `u64` does. -/
def families (row : Json) (title segment excluded : String) (len : ℕ) : List (String × Json) :=
  let cat := matchValue "category" (categoryOf row)
  let range := between "doc_len" (.ofNat (len - 16)) (.ofNat (len + 16))
  [("segment", matchText "segment" segment),
    ("title-and-segment", both [matchText "title" title, matchText "segment" segment]),
    ("tag-and-text", both [cat, matchText "segment" segment]),
    ("text-tag-range", both [matchText "segment" segment, cat, range]),
    ("text-exclusion", both [matchText "segment" segment, negated (matchText "title" excluded)])]

def familyQuery (i : ℕ) (e : String × Json) : Query where
  name := s!"msmarco-compound-{e.1}-" ++ String.ofList (padded 3 i)
  family := e.1
  conditions := e.2
  minimumCount := 1

/-- The queries of one passage, when it has the terms for them. -/
def seedQueries (rows : List Sampled) (i : ℕ) (seed : Sampled) : Except String (List Query) :=
  match seed.title, seed.segment with
  | title :: _, segment :: _ =>
    -- The title is a string, since it has terms.
    match exclusion rows ((strAt seed.row "title").getD "") segment with
    | none => .ok []
    | some excluded =>
      match (seed.row.get "doc_len").bind Json.asU64 with
      | none => .error "selected passage has no doc_len"
      | some len => .ok ((families seed.row title segment excluded len).map (familyQuery i))
  | _, _ => .ok []

/-- The loop over the passages. -/
def seedsFrom (rows : List Sampled) : List Query → List Sampled → Except String (List Query)
  | queries, [] => .ok queries
  | queries, seed :: seeds =>
    if 32 * 5 ≤ queries.length then .ok queries
    else do
      let group ← seedQueries rows (queries.length / 5) seed
      seedsFrom rows (queries ++ group) seeds

def textQueries (rows : List Sampled) : Except String (List Query) := seedsFrom rows [] rows

/-! ## Scalar queries -/

structure PreparedQuery where
  name : String
  shape : String
  expectedCount : ℕ

structure FilterQuerySet where
  conditions : List (Option Json)
  prepared : Option (List PreparedQuery)

/-- A filter that a query declares. -/
def declared : Option Json → Option Json
  | some .null => none
  | some (.object []) => none
  | c => c

/-- The files of a prepared corpus. -/
structure Corpus where
  payloads : Except String (List (Except String Json))
  manifest : Except String Json
  /-- `FilterQuerySet::read_prepared`, for a dataset of so many passages. -/
  queries : String → ℕ → Except String (Option FilterQuerySet)

section Load

variable (u : Unicode) (display : Json → String) (debug : String → String)

def resolve (cond : Option Json) : Except String (Option Json) :=
  match declared cond with
  | none => .ok none
  | some c => (compile display debug c).map fun _ ↦ some c

def scalarQuery (q : PreparedQuery × Option Json) : Except String Query :=
  match q.2 with
  | none => .error "scalar condition was dropped"
  | some conditions => .ok
    { name := q.1.name, family := q.1.shape, conditions, expectedCount := some q.1.expectedCount }

/-- An `Option` with the error for a missing value. -/
def required {α : Type} (x : Option α) (e : String) : Except String α := x.elim (.error e) .ok

def scalarQueries (corpus : Corpus) : Except String (List Query) := do
  let manifest ← corpus.manifest
  let dataset ← required (strAt manifest "dataset") "preparation lacks dataset identity"
  let count ← required ((manifest.get "passages").bind Json.asU64)
    "preparation lacks corpus row count"
  let found ← corpus.queries dataset count
  let set ← required found "prepared scalar queries missing"
  let resolved ← set.conditions.mapM (resolve display debug)
  let prepared ← required set.prepared "scalar query metadata missing"
  (prepared.zip resolved).mapM scalarQuery

def requireText (text : List Query) : Except String Unit :=
  if text.isEmpty then .error "no nontrivial text exclusion in first 4096 passages" else .ok ()

def msmarcoQueries (corpus : Corpus) : Except String (List Query) := do
  let lines ← corpus.payloads
  let rows ← sample u lines
  let text ← textQueries rows
  requireText text
  let scalar ← scalarQueries display debug corpus
  .ok (text ++ scalar)

/-! ## Loading -/

mutual

/-- `Expr::has_text`. -/
def hasText : Expr → Bool
  | .all ts => hasTextAny ts
  | .any ts => hasTextAny ts
  | .not t => hasText t
  | .leaf l => match l.leaf with
    | .text _ => true
    | _ => false

def hasTextAny : List Expr → Bool
  | [] => false
  | t :: ts => hasText t || hasTextAny ts

end

def checkCounted (q : Query) (e : Expr) : Except String Unit :=
  if !hasText e && q.expectedCount.isNone then
    .error s!"scalar compound query {q.name} needs an exact expected_count"
  else .ok ()

/-- One round of the loop over the loaded queries, with the names so far. -/
def checkQuery (schema : Json) (names : List String) (q : Query) : Except String (List String) :=
  if q.name.isEmpty || q.family.isEmpty || names.contains q.name then
    .error "compound names must be unique and name/family nonempty"
  else do
    let expr ← Expr.compile display debug schema q.conditions
    checkCounted q expr
    .ok (q.name :: names)

def Spec.select (spec : Spec) (queries : List Query) : List Query :=
  match spec.family with
  | some f => queries.filter fun q ↦ q.family = f
  | none => queries

def checkQueries (schema : Json) (queries : List Query) : Except String Unit :=
  if queries.isEmpty then .error "compound family selects no queries"
  else (queries.foldlM (checkQuery display debug schema) []).map fun _ ↦ ()

def Spec.load (spec : Spec) (corpus : Corpus) (schema : Json) : Except String (List Query) := do
  spec.validate
  let declared ← spec.queries.elim (msmarcoQueries u display debug corpus) .ok
  checkQueries display debug schema (spec.select declared)
  .ok (spec.select declared)

end Load

end VectorDbBenchmark.CompoundText
