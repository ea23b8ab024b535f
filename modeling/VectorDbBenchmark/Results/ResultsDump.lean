import Mathlib.Data.String.Basic
import Mathlib.Tactic
import VectorDbBenchmark.F64
import VectorDbBenchmark.Kit.Fallible
import VectorDbBenchmark.Kit.Ordered
import VectorDbBenchmark.Kit.Text

/-!
# Per-query result dumps

The records of one timed pass (`src/results_dump.rs`): a header naming the
pass, and one record for each attempted query, with the hits named by external
id.  A query cycled several times is compared on its first answer.  A workload is
one query family of a run (`src/workload.rs`).
-/

namespace VectorDbBenchmark.Results

open Kit

/-! ## Workloads -/

inductive Workload where
  | vector
  | hybrid
  | fulltext
  | filterOnly
  | hybridRrf
deriving DecidableEq, Repr

namespace Workload

def asStr : Workload → String
  | vector => "vector"
  | hybrid => "hybrid"
  | fulltext => "fulltext"
  | filterOnly => "filter-only"
  | hybridRrf => "hybrid-rrf"

/-- Whether the dataset's brute-forced neighbours are the oracle. -/
def hasGroundTruth : Workload → Bool
  | vector | hybrid | hybridRrf => true
  | fulltext | filterOnly => false

/-- Whether a workload searches the text fields of the index. -/
def usesTextIndex : Workload → Bool
  | fulltext | hybridRrf => true
  | _ => false

/-- Whether the order of the results means anything. -/
def isRanked : Workload → Bool
  | filterOnly => false
  | _ => true

/-- The place of the variant in the declaration, which the derived `Ord` compares. -/
def ord : Workload → ℕ
  | vector => 0
  | hybrid => 1
  | fulltext => 2
  | filterOnly => 3
  | hybridRrf => 4

theorem ord_injective : Function.Injective ord := by
  intro a b h
  cases a <;> cases b <;> first | rfl | exact absurd h (by decide)

end Workload

/-! ## What an engine records -/

/-- One returned document: a corpus row and the engine's own score. -/
structure RawHit where
  row : ℤ
  score : Option F64
deriving DecidableEq, Repr

/-- One timed query, `seq` being its place in the timed window. -/
structure RawQueryResult where
  queryId : ℕ
  seq : ℕ
  hits : List RawHit
  total : Option ℕ
  latency : F64
  error : Option String
deriving DecidableEq, Repr

def RawQueryResult.ok (queryId seq : ℕ) (hits : List RawHit) (total : Option ℕ)
    (latency : F64) : RawQueryResult :=
  { queryId, seq, hits, total, latency, error := none }

def RawQueryResult.failed (queryId seq : ℕ) (latency : F64) (error : String) : RawQueryResult :=
  { queryId, seq, hits := [], total := none, latency, error := some error }

/-! ## External ids -/

/-- Which id space a dump's `ids` are in. -/
inductive IdSpace where
  | row
  | field (field : String)
deriving DecidableEq, Repr

/-- The space as `{:?}` prints it. -/
def IdSpace.debug : IdSpace → String
  | .row => "Row"
  | .field name => "Field \x7b field: " ++ name.quote ++ " \x7d"

/-- Row id to external id. -/
inductive ExternalIds where
  | row
  | field (field : String) (values : List String)
deriving DecidableEq, Repr

namespace ExternalIds

def space : ExternalIds → IdSpace
  | .row => .row
  | .field name _ => .field name

def resolve (ids : ExternalIds) (rowId : ℤ) : Except String String :=
  if rowId < 0 then .error ("negative corpus row id " ++ toString rowId)
  else match ids with
    | .row => .ok (toString rowId)
    | .field name values =>
      match values[rowId.toNat]? with
      | some value => .ok value
      | none => .error ("corpus row id " ++ toString rowId ++ " is outside the " ++
          toString values.length ++ " rows that carry '" ++ name ++ "'")

/-- No two rows share an external id. -/
def Injective (ids : ExternalIds) : Prop :=
  ∀ ⦃a b s⦄, ids.resolve a = .ok s → ids.resolve b = .ok s → a = b

theorem nonneg_of_resolve {ids : ExternalIds} {rowId : ℤ} {s : String}
    (h : ids.resolve rowId = .ok s) : 0 ≤ rowId := by
  by_contra hneg
  rw [resolve.eq_def, if_pos (not_le.mp hneg)] at h
  exact nomatch h

/-- A payload field names rows apart exactly when its values are distinct. -/
theorem injective_field {name : String} {values : List String} :
    (ExternalIds.field name values).Injective ↔ values.Nodup := by
  have hresolve : ∀ (i : ℕ) s, (ExternalIds.field name values).resolve i = .ok s ↔
      values[i]? = some s := by
    intro i s
    rw [resolve, if_neg (not_lt.mpr (Int.natCast_nonneg i)), Int.toNat_natCast]
    cases values[i]? with
    | none => simp
    | some v => simp
  rw [List.nodup_iff_getElem?_ne_getElem?]
  constructor
  · intro h i j hij hj heq
    obtain ⟨s, hs⟩ : ∃ s, values[j]? = some s := ⟨_, List.getElem?_eq_getElem hj⟩
    have := h ((hresolve i s).mpr (heq.trans hs)) ((hresolve j s).mpr hs)
    omega
  · intro h a b s ha hb
    obtain ⟨i, rfl⟩ := Int.eq_ofNat_of_zero_le (nonneg_of_resolve ha)
    obtain ⟨j, rfl⟩ := Int.eq_ofNat_of_zero_le (nonneg_of_resolve hb)
    rw [hresolve] at ha hb
    have hi := (List.getElem?_eq_some_iff.mp ha).1
    have hj := (List.getElem?_eq_some_iff.mp hb).1
    rcases lt_trichotomy i j with hij | hij | hij
    · exact absurd (ha.trans hb.symm) (h i j hij hj)
    · rw [hij]
    · exact absurd (hb.trans ha.symm) (h j i hij hi)

end ExternalIds

/-! ## Dumps -/

/-- What binds a compound request's query ids to its predicates. -/
structure CompoundIdentity where
  analysis : String
  querySha256 : String
  preparationSha256 : Option String
deriving DecidableEq, Repr

structure DumpHeader where
  schemaVersion : ℕ
  engine : String
  config : String
  dataset : String
  workload : Workload
  parallel : ℕ
  top : ℕ
  searchId : ℕ
  idSpace : IdSpace
  indexLayout : Option String
  compoundIdentity : Option CompoundIdentity
deriving DecidableEq, Repr

/-- One timed query, as written to the dump. -/
structure QueryRecord where
  queryId : ℕ
  seq : ℕ
  shape : Option String
  ids : List String
  scores : Option (List F64)
  total : Option ℕ
  latency : F64
  error : Option String
  expected : Option (List String)
deriving DecidableEq, Repr

def QueryRecord.answered (r : QueryRecord) : Bool := r.error.isNone

structure Dump where
  header : DumpHeader
  records : List QueryRecord
deriving DecidableEq, Repr

/-! ## From raw captures to records -/

/-- The scores of a record: present when every hit carries one. -/
def scoresOf (hits : List RawHit) : Option (List F64) :=
  if !hits.isEmpty && hits.all (·.score.isSome) then
    some (hits.map fun h ↦ h.score.getD (.fin 0))
  else none

/-- The external ids of a query's valid ground truth, cut at `top`. -/
def expectedOf (ids : ExternalIds) (expected : Option (List (List ℤ))) (top queryId : ℕ) :
    Except String (Option (List String)) :=
  match expected with
  | none => .ok none
  | some gt =>
    match gt[queryId]? with
    | none => .error ("query " ++ toString queryId ++ " has no ground-truth row (" ++
        toString gt.length ++ " rows)")
    | some row =>
      (((row.filter (0 ≤ ·)).take top).mapM ids.resolve).mapError
        (fun e ↦ "ground truth of query " ++ toString queryId ++ ": " ++ e) |>.map some

/-- One round of the loop of `resolveRecords`. -/
def resolveRecord (ids : ExternalIds) (expected : Option (List (List ℤ))) (top : ℕ)
    (shape : ℕ → Option String) (r : RawQueryResult) : Except String QueryRecord := do
  let resolved ← (r.hits.mapM fun h ↦ ids.resolve h.row).mapError
    fun e ↦ "query " ++ toString r.queryId ++ ": " ++ e
  let expected ← expectedOf ids expected top r.queryId
  return { queryId := r.queryId, seq := r.seq, shape := shape r.queryId, ids := resolved,
           scores := scoresOf r.hits, total := r.total, latency := r.latency, error := r.error,
           expected }

/-- Row ids become external ids, ground truth is attached, and the records are
put in the order of `seq`. -/
def resolveRecords (raw : List RawQueryResult) (ids : ExternalIds)
    (expected : Option (List (List ℤ))) (top : ℕ) (shape : ℕ → Option String) :
    Except String (List QueryRecord) := do
  let out ← raw.mapM (resolveRecord ids expected top shape)
  return sortByKey QueryRecord.seq out

/-! ## First answers -/

/-- The map a pass over the records in `seq` order leaves: the first answered
record of every query. -/
def insertFirst (answered : List (ℕ × QueryRecord)) (r : QueryRecord) : List (ℕ × QueryRecord) :=
  if r.answered && !answered.any (·.1 = r.queryId) then answered ++ [(r.queryId, r)] else answered

/-- The first answered record of every query, and the queries that were attempted
but never answered. -/
def firstAnswers (records : List QueryRecord) : List (ℕ × QueryRecord) × List ℕ :=
  let sorted := sortByKey QueryRecord.seq records
  let answered := sorted.foldl insertFirst []
  let attempted := sortedSet (sorted.map QueryRecord.queryId)
  (answered, attempted.filter fun q ↦ !answered.any (·.1 = q))

/-- `answered.get(&q)`. -/
def getAnswer (answered : List (ℕ × QueryRecord)) (q : ℕ) : Option QueryRecord :=
  (answered.find? (·.1 = q)).map Prod.snd

end VectorDbBenchmark.Results
