import Mathlib.Data.Prod.Lex
import Mathlib.Order.WithBot
import VectorDbBenchmark.Results.ResultsDump

/-!
# Comparing two result dumps

`compare-results` of `src/compare_results.rs`: a candidate engine's dumps against
the dumps of a declared reference engine.  Dumps are paired by key (or as they
are, when each side is one file), every query is compared on its first answer,
and a query that only one side answered, a failed attempt or a dump without a
counterpart fails the comparison.  Fractions are exact rationals.
-/

namespace VectorDbBenchmark.Results

open Kit

/-! ## Reports -/

structure SideInfo where
  engine : String
  config : String
  file : String
  parallel : ℕ
  queriesAttempted : ℕ
  queriesAnswered : ℕ
  /-- Records with an error, counting every attempt. -/
  failedAttempts : ℕ
deriving DecidableEq, Repr

structure CountAgreement where
  queries : ℕ
  exactMatches : ℕ
  fraction : Option ℚ
  maxAbsDiff : ℕ
  /-- Queries whose pages are complete result sets on both sides. -/
  completePages : ℕ
  completePageSetAgreement : Option ℚ
deriving DecidableEq, Repr

structure ShapeReport where
  shape : String
  /-- Queries answered by both sides. -/
  queries : ℕ
  overlapAtK : Option ℚ
  jaccardAtK : Option ℚ
  rankCorrelation : Option ℚ
  rankCorrelationQueries : ℕ
  countAgreement : Option CountAgreement
  recallAtKReference : Option ℚ
  recallAtKCandidate : Option ℚ
deriving DecidableEq, Repr

structure OneSided where
  queryId : ℕ
  /-- The side that answered. -/
  answeredBy : String
deriving DecidableEq, Repr

structure PairReport where
  dataset : String
  workload : Workload
  k : ℕ
  reference : SideInfo
  candidate : SideInfo
  shapes : List ShapeReport
  oneSided : List OneSided
  unansweredByBoth : List ℕ
  warnings : List String
deriving DecidableEq, Repr

structure Report where
  referenceEngine : String
  pairs : List PairReport
  unpaired : List String
  oneSidedTotal : ℕ
  failedAttemptsTotal : ℕ
deriving DecidableEq, Repr

def Report.passedAllowingUnpaired (r : Report) (allowUnpaired : Bool) : Bool :=
  r.oneSidedTotal = 0 && r.failedAttemptsTotal = 0 && (allowUnpaired || r.unpaired.isEmpty)

/-- The strict verdict. -/
def Report.passed (r : Report) : Bool := r.passedAllowingUnpaired false

/-! ## Metrics of one query -/

/-- The first `k` distinct ids. -/
def topK (ids : List String) (k : ℕ) : List String := (distinct ids).take k

def overlapAtK (reference candidate : List String) (k : ℕ) : ℚ :=
  let r := topK reference k
  let c := topK candidate k
  if r.isEmpty then (if c.isEmpty then 1 else 0)
  else (r.countP (· ∈ c) : ℚ) / r.length

def jaccardAtK (reference candidate : List String) (k : ℕ) : ℚ :=
  let r := (topK reference k).toFinset
  let c := (topK candidate k).toFinset
  let union := (r ∪ c).card
  if union = 0 then 1 else ((r ∩ c).card : ℚ) / union

/-- Kendall's count over the positions: `1` for every pair in order, `-1` for
every other. -/
def pairScore : List ℕ → ℤ
  | [] => 0
  | p :: ps => (ps.map fun q ↦ if p < q then (1 : ℤ) else -1).sum + pairScore ps

/-- Candidate positions of the shared ids, in reference order. -/
def sharedPositions (r c : List String) : List ℕ := r.filterMap fun id ↦ c.idxOf? id

def rankCorrelation (reference candidate : List String) (k : ℕ) : Option ℚ :=
  let pos := sharedPositions (topK reference k) (topK candidate k)
  let n := pos.length
  if n < 2 then none else some ((pairScore pos : ℚ) / (n * (n - 1) / 2 : ℕ))

def recallAtK (ids expected : List String) (k : ℕ) : Option ℚ :=
  let exp := expected.toFinset
  if exp.card = 0 then none
  else some (((topK ids k).countP (· ∈ exp) : ℚ) / exp.card)

def mean (v : List ℚ) : Option ℚ := if v.isEmpty then none else some (v.sum / v.length)

/-! ## One pair of dumps -/

def sideInfo (file : String) (d : Dump) : SideInfo :=
  { engine := d.header.engine
    config := d.header.config
    file
    parallel := d.header.parallel
    queriesAttempted := (sortedSet (d.records.map QueryRecord.queryId)).length
    queriesAnswered := (firstAnswers d.records).1.length
    failedAttempts := d.records.countP fun r ↦ !r.answered }

/-- The index layout a dump's queries ran on, and whether it was inferred. -/
def dumpLayout (header : DumpHeader) : String × Bool :=
  match header.indexLayout with
  | some layout => (layout, false)
  | none => if header.workload = .filterOnly then ("no-vector", true) else ("vector", true)

/-- Records of a query that both sides answered. -/
abbrev AnswerPair := QueryRecord × QueryRecord

/-- The totals of a query, when both sides carry one. -/
def bothTotals (p : AnswerPair) : Option (AnswerPair × ℕ × ℕ) :=
  match p.1.total, p.2.total with
  | some rt, some ct => some (p, rt, ct)
  | _, _ => none

/-- `|a - b|` of two totals. -/
def absDiff (a b : ℕ) : ℕ := a - b + (b - a)

def countAgreement (workload : Workload) (k : ℕ) (qs : List AnswerPair) : Option CountAgreement :=
  if !workload.isRanked || qs.any (fun p ↦ p.1.total.isSome && p.2.total.isSome) then
    let totals := qs.filterMap bothTotals
    let exact := totals.countP fun t ↦ t.2.1 = t.2.2
    let complete := totals.filter fun t ↦ t.2.1 ≤ k && t.2.2 ≤ k
    let completeEqual := complete.countP fun t ↦ t.1.1.ids.toFinset = t.1.2.ids.toFinset
    some
      { queries := totals.length
        exactMatches := exact
        fraction := if 0 < totals.length then some ((exact : ℚ) / totals.length) else none
        maxAbsDiff := totals.foldl (fun m t ↦ max m (absDiff t.2.1 t.2.2)) 0
        completePages := complete.length
        completePageSetAgreement :=
          if 0 < complete.length then some ((completeEqual : ℚ) / complete.length) else none }
  else none

/-- The recall of one side of the pairs that carry ground truth. -/
def recalls (workload : Workload) (k : ℕ) (rs : List QueryRecord) : List ℚ :=
  if workload.hasGroundTruth then
    rs.filterMap fun r ↦ r.expected.bind fun exp ↦ recallAtK r.ids exp k
  else []

def shapeReport (shape : String) (workload : Workload) (k : ℕ) (qs : List AnswerPair) :
    ShapeReport :=
  let ranked := if workload.isRanked then qs else []
  let tau := ranked.filterMap fun p ↦ rankCorrelation p.1.ids p.2.ids k
  { shape
    queries := qs.length
    overlapAtK := mean (ranked.map fun p ↦ overlapAtK p.1.ids p.2.ids k)
    jaccardAtK := mean (ranked.map fun p ↦ jaccardAtK p.1.ids p.2.ids k)
    rankCorrelation := mean tau
    rankCorrelationQueries := tau.length
    countAgreement := countAgreement workload k qs
    recallAtKReference := mean (recalls workload k (qs.map Prod.fst))
    recallAtKCandidate := mean (recalls workload k (qs.map Prod.snd)) }

/-- The queries of a pair by who answered them. -/
structure Classified where
  both : List (ℕ × AnswerPair)
  oneSided : List OneSided
  neither : List ℕ
deriving DecidableEq, Repr

def classify (rAns cAns : List (ℕ × QueryRecord)) : List ℕ → Classified
  | [] => { both := [], oneSided := [], neither := [] }
  | q :: qs =>
    let rest := classify rAns cAns qs
    match getAnswer rAns q, getAnswer cAns q with
    | some r, some c => { rest with both := (q, r, c) :: rest.both }
    | some _, none => { rest with oneSided := ⟨q, "reference"⟩ :: rest.oneSided }
    | none, some _ => { rest with oneSided := ⟨q, "candidate"⟩ :: rest.oneSided }
    | none, none => { rest with neither := q :: rest.neither }

/-- The two answers of a query carry the same ground truth, or none. -/
def checkExpected (rf cf : String) (p : ℕ × AnswerPair) : Except String Unit :=
  match p.2.1.expected, p.2.2.expected with
  | some re, some ce =>
    if re ≠ ce then
      .error ("query " ++ toString p.1 ++ ": " ++ rf ++ " and " ++ cf ++
        " carry different ground truth — the dumps were not produced from the same corpus")
    else .ok ()
  | some _, none | none, some _ =>
    .error ("query " ++ toString p.1 ++ ": only one of " ++ rf ++ " and " ++ cf ++
      " carries ground truth; recall would be reported for one side only")
  | none, none => .ok ()

/-- The shape a pair is reported under. -/
def shapeOf (workload : Workload) (p : AnswerPair) : String :=
  ((p.1.shape.or p.2.shape).getD workload.asStr)

/-- The headers describe passes that can be compared. -/
def checkHeaders (rf cf : String) (rh ch : DumpHeader) : Except String Unit :=
  if rh.compoundIdentity ≠ ch.compoundIdentity then
    .error (rf ++ " and " ++ cf ++ " have different compound query/preparation fingerprints")
  else if rh.dataset ≠ ch.dataset then
    .error (rf ++ " and " ++ cf ++ " are different datasets (" ++ rh.dataset ++ " vs " ++
      ch.dataset ++ ")")
  else if rh.workload ≠ ch.workload then
    .error (rf ++ " and " ++ cf ++ " are different workloads (" ++ rh.workload.asStr ++ " vs " ++
      ch.workload.asStr ++ ")")
  else if rh.idSpace ≠ ch.idSpace then
    .error (rf ++ " and " ++ cf ++ " name documents in different id spaces (" ++
      rh.idSpace.debug ++ " vs " ++ ch.idSpace.debug ++ ")")
  else if rh.top ≠ ch.top then
    .error (rf ++ " and " ++ cf ++ " asked for different k (" ++ toString rh.top ++ " vs " ++
      toString ch.top ++ ")")
  else .ok ()

def inferredTag (inferred : Bool) : String := if inferred then " (inferred: pre-#344 dump)" else ""

def layoutWarnings (rf cf : String) (rh ch : DumpHeader) : List String :=
  let (rl, rInferred) := dumpLayout rh
  let (cl, cInferred) := dumpLayout ch
  (if rh.compoundIdentity.isSome && rl != cl then
    ["Compound layout comparison: reference `" ++ rl ++ "`, candidate `" ++ cl ++
      "`; retain both layout labels when reporting results."]
  else []) ++
  (if (rl == "vector") != (cl == "vector") then
    [rf ++ " ran on the `" ++ rl ++ "` index layout" ++ inferredTag rInferred ++ " and " ++ cf ++
      " on `" ++ cl ++ "`" ++ inferredTag cInferred ++ ", so filtered results may disagree " ++
      "(#344): on Redis, `full` / `no-vector` index tags CASESENSITIVE and `vector` does not " ++
      "(mixed-case tag predicates); on OpenSearch, `full` / `no-vector` map float fields as " ++
      "`double` and `vector` as `float` (range predicates on values closer than binary32 " ++
      "precision)"]
  else [])

/-- A dump with the name of its file. -/
abbrev NamedDump := String × Dump

/-- Compare one candidate dump against one reference dump. -/
def comparePair (reference candidate : NamedDump) : Except String PairReport := do
  let (rf, rd) := reference
  let (cf, cd) := candidate
  checkHeaders rf cf rd.header cd.header
  let k := rd.header.top
  let workload := rd.header.workload
  let all := sortedSet ((rd.records ++ cd.records).map QueryRecord.queryId)
  let queries := classify (firstAnswers rd.records).1 (firstAnswers cd.records).1 all
  let _ ← queries.both.mapM (checkExpected rf cf)
  let groups := groupBy (shapeOf workload) (queries.both.map Prod.snd)
  return { dataset := rd.header.dataset
           workload
           k
           reference := sideInfo rf rd
           candidate := sideInfo cf cd
           shapes := groups.map fun g ↦ shapeReport g.1 workload k g.2
           oneSided := queries.oneSided
           unansweredByBoth := queries.neither
           warnings := layoutWarnings rf cf rd.header cd.header }

/-! ## Two sets of dumps -/

/-- The dump's header names the engine, by type or by configuration. -/
def names (d : Dump) (engine : String) : Bool :=
  d.header.engine = engine || d.header.config = engine

structure PairKey where
  dataset : String
  workload : Workload
  parallel : ℕ
  top : ℕ
  space : String
  searchId : Option ℕ
deriving Repr

namespace PairKey

/-- The key as the tuple whose derived order the maps are sorted by. -/
def tuple (k : PairKey) : String ×ₗ ℕ ×ₗ ℕ ×ₗ ℕ ×ₗ String ×ₗ WithBot ℕ :=
  toLex (k.dataset, toLex (k.workload.ord, toLex (k.parallel, toLex (k.top,
    toLex (k.space, k.searchId)))))

theorem tuple_injective : Function.Injective tuple := by
  rintro ⟨d, w, p, t, s, i⟩ ⟨d', w', p', t', s', i'⟩ h
  simp only [tuple, EmbeddingLike.apply_eq_iff_eq, Prod.mk.injEq] at h
  obtain ⟨rfl, hw, rfl, rfl, rfl, rfl⟩ := h
  rw [Workload.ord_injective hw]

instance : LinearOrder PairKey := LinearOrder.lift' tuple tuple_injective

end PairKey

def key (d : Dump) : PairKey :=
  { dataset := d.header.dataset
    workload := d.header.workload
    parallel := d.header.parallel
    top := d.header.top
    space := match d.header.idSpace with
      | .row => "row"
      | .field name => name
    searchId := d.header.compoundIdentity.map fun _ ↦ d.header.searchId }

/-- Dumps under their keys, in ascending order of these. -/
abbrev DumpIndex := List (PairKey × NamedDump)

/-- The rounds of `index` that follow a map `out`. -/
def indexFrom (label : String) : DumpIndex → List NamedDump → Except String DumpIndex
  | out, [] => .ok out
  | out, entry :: side =>
    match out.find? (·.1 = key entry.2) with
    | some prev => .error (label ++ ": " ++ prev.2.1 ++ " and " ++ entry.1 ++
        " have the same (dataset, workload, parallel, k, id space); directory mode holds one " ++
        "dump per key (a sweep of search configs collides); pass the two files to compare " ++
        "explicitly")
    | none =>
      indexFrom label (out.orderedInsert (fun a b ↦ a.1 ≤ b.1) (key entry.2, entry)) side

def index (side : List NamedDump) (label : String) : Except String DumpIndex :=
  indexFrom label [] side

/-- Pair the dumps of two maps by key; what is left without a counterpart is named,
the reference's dumps first. -/
def pairUp : DumpIndex → DumpIndex → Except String (List PairReport × List String)
  | [], c => .ok ([], c.map (·.2.1))
  | (k, d) :: r, c =>
    match c.find? (·.1 = k) with
    | some e => do
      let p ← comparePair d e.2
      let (pairs, unpaired) ← pairUp r (c.filter (·.1 ≠ k))
      return (p :: pairs, unpaired)
    | none => do
      let (pairs, unpaired) ← pairUp r c
      return (pairs, d.1 :: unpaired)

/-- One file against one file is paired as it is, directories by key. -/
def pairSides (reference candidate : List NamedDump) :
    Except String (List PairReport × List String) :=
  match reference, candidate with
  | [rd], [cd] => do
    let p ← comparePair rd cd
    return ([p], [])
  | _, _ => do
    let r ← index reference "reference"
    let c ← index candidate "candidate"
    pairUp r c

/-- The side every dump of which names the engine is the reference; when both
are, the first is. -/
def roles (first second : List NamedDump) (engine : String) :
    Except String (List NamedDump × List NamedDump) :=
  if first.all fun d ↦ names d.2 engine then .ok (first, second)
  else if second.all fun d ↦ names d.2 engine then .ok (second, first)
  else .error ("neither side's dumps all name the reference engine " ++ engine.quote ++
    " (engine type or config name in the dump header)")

/-- Compare two sets of dumps. -/
def compare (first second : List NamedDump) (referenceEngine : String) : Except String Report :=
  if first.isEmpty || second.isEmpty then
    .error "compare-results needs at least one dump on each side"
  else do
    let (reference, candidate) ← roles first second referenceEngine
    let (pairs, unpaired) ← pairSides reference candidate
    if pairs.isEmpty then
      .error ("no reference dump has a candidate counterpart (unpaired: " ++
        String.intercalate ", " unpaired ++ ")")
    else
      return { referenceEngine
               pairs
               unpaired
               oneSidedTotal := (pairs.map fun p ↦ p.oneSided.length).sum
               failedAttemptsTotal :=
                 (pairs.map fun p ↦ p.reference.failedAttempts + p.candidate.failedAttempts).sum }

end VectorDbBenchmark.Results
