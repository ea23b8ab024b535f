import VectorDbBenchmark.JsonEq
import VectorDbBenchmark.Kit.Lines
import VectorDbBenchmark.Kit.Utf8
import VectorDbBenchmark.Msmarco.Predicate
import VectorDbBenchmark.Msmarco.RowMask
import VectorDbBenchmark.Msmarco.TermChoice

/-!
# The hybrid corpus, in memory and streamed

`src/msmarco/derived.rs` and `src/msmarco/hybrid.rs`: the fields of a passage that predicates
see, the corpus that holds them all, the corpus that reads `payloads.jsonl` again on every
pass, in chunks, and the evaluation of predicates over both.  A loop that runs in parallel
reports the first of its errors.  The file is text: one that is not UTF-8 is refused by both.
-/

namespace VectorDbBenchmark.Msmarco

open Kit

/-- What comes from outside the repository. -/
structure HybridEnv where
  /-- The document of a line as the JSON deserializer visits it: every entry of an object, in
  the order of the text. -/
  parse : Text → Except String Json
  /-- The SHA-256 digest, 32 bytes. -/
  sha256 : Bytes → Bytes
  display : Json → String
  debug : String → String
  debugLeaf : LeafOp → String
  /-- `path.display()` of the payload file. -/
  path : String

/-! ## What is read of a line -/

/-- The last entry of every key. -/
def lastEntries : List (String × Json) → List (String × Json)
  | [] => []
  | e :: es => if es.any fun f ↦ f.1 = e.1 then lastEntries es else e :: lastEntries es

mutual

/-- The document as a `Value`, whose maps keep the last entry of a key. -/
def toValue : Json → Json
  | .array vs => .array (toValueEach vs)
  | .object es => .object (lastEntries (toValueIn es))
  | v => v

def toValueEach : List Json → List Json
  | [] => []
  | v :: vs => toValue v :: toValueEach vs

def toValueIn : List (String × Json) → List (String × Json)
  | [] => []
  | (key, v) :: es => (key, toValue v) :: toValueIn es

end

/-- The document as a `TitleOnly`: the field `title`, which must not be there twice. -/
def titleOnly : Json → Except String (Option Json)
  | .object es =>
    match es.filter fun e ↦ e.1 = "title" with
    | [] => .ok none
    | [(_, .null)] => .ok none
    | [(_, v)] => .ok (some v)
    | _ => .error "duplicate field `title`"
  | .array [] => .ok none
  | .array [.null] => .ok none
  | .array [v] => .ok (some v)
  | _ => .error "invalid type: expected struct TitleOnly"

variable (env : HybridEnv)

/-- `serde_json::from_str::<Value>`. -/
def fromStr (line : Text) : Except String Json := (env.parse line).map toValue

/-- `serde_json::from_str::<TitleOnly>`. -/
def titleFromStr (line : Text) : Except String (Option Json) := do titleOnly (← env.parse line)

/-! ## Derived fields -/

def categoryNames : List String :=
  ["cat00", "cat01", "cat02", "cat03", "cat04", "cat05", "cat06", "cat07", "cat08", "cat09",
    "cat10", "cat11", "cat12", "cat13", "cat14", "cat15", "cat16", "cat17", "cat18", "cat19",
    "cat20", "cat21", "cat22", "cat23", "cat24", "cat25", "cat26", "cat27", "cat28", "cat29",
    "cat30", "cat31"]

/-- Zipf weights over the categories. -/
def categoryWeights : List ℕ := (List.range 32).map fun i ↦ 1000000 / (i + 1)

def categoryWeightTotal : ℕ := categoryWeights.sum

def tierCount : ℕ := 10

def derivationSalt : Bytes := asciiBytes "vdb-msmarco-derived/v1".toList ++ [0]

structure DerivedFields where
  category : UInt8
  docLen : UInt32
  tier : UInt8
  randKey : UInt64
deriving DecidableEq, Repr

/-- `while r >= CATEGORY_WEIGHTS[category]`. -/
def zipfBucket : List ℕ → ℕ → ℕ
  | [], _ => 0
  | w :: ws, r => if w ≤ r then zipfBucket ws (r - w) + 1 else 0

namespace DerivedFields

/-- The derivation. -/
def fromDocid (docid : String) : DerivedFields :=
  let d := env.sha256 (derivationSalt ++ docid.toUTF8.toList)
  let word (i : ℕ) := ofLe ((d.drop (8 * i)).take 8).reverse
  let e := 4 + word 1 % 12
  let docLen := 2 ^ e + word 1 / 2 ^ 32 % 2 ^ e
  { category := .ofNat (zipfBucket categoryWeights (word 0 % categoryWeightTotal))
    docLen := .ofNat docLen
    tier := .ofNat (word 2 % tierCount)
    randKey := .ofNat (word 3 / 2 ^ 24) }

def categoryName (d : DerivedFields) : String := categoryNames[d.category.toNat]?.getD ""

/-- The derived fields as they are written into a payload. -/
def toJsonFields (d : DerivedFields) : List (String × Json) :=
  let int (n : UInt64) : Json := .number (.posInt n.toNat n.toNat_lt)
  [("category", .string d.categoryName), ("doc_len", int d.docLen.toUInt64),
    ("tier", int d.tier.toUInt64), ("rand_key", int d.randKey)]

def field (d : DerivedFields) : Fields := fun name ↦
  some (if name = "category" then .keyword d.categoryName
    else if name = "doc_len" then .int d.docLen.toNat
    else if name = "tier" then .int d.tier.toNat
    else if name = "rand_key" then .int (Int64.ofNat d.randKey.toNat).toInt
    else .unknown)

end DerivedFields

/-- One derived field of a payload against the derivation. -/
def checkDerived (docid : String) (obj : List (String × Json)) (field : String × Json) :
    Except String Unit :=
  match Json.getEntry field.1 obj with
  | none =>
    .error (s!"payload for docid {env.debug docid} has no derived field {env.debug field.1}: " ++
      "this corpus was prepared before the derived fields existed. Upgrade it in place with " ++
      "`prepare-msmarco --add-derived-fields`.")
  | some stored =>
    if !stored.eq field.2 then
      .error (s!"payload for docid {env.debug docid} stores {field.1}={env.display stored} but " ++
        s!"the derivation gives {env.display field.2}; the corpus was prepared under a " ++
        "different derivation")
    else .ok ()

def checkPayload (payload : Json) : Except String DerivedFields :=
  match payload.asObject with
  | none => .error "payload line is not a JSON object"
  | some obj =>
    match (Json.getEntry "docid" obj).bind Json.asStr with
    | none => .error "payload has no string 'docid'"
    | some docid => do
      let derived := DerivedFields.fromDocid env docid
      derived.toJsonFields.forM (checkDerived env docid obj)
      pure derived

/-! ## Rows -/

def textField : String := "title"

/-- One passage as a predicate sees it. -/
structure TitledRow where
  derived : DerivedFields
  title : Option String
deriving DecidableEq, Repr

namespace TitledRow

def field (row : TitledRow) : Fields := fun name ↦
  if name = textField then row.title.map .keyword else row.derived.field name

/-- `title.as_deref().unwrap_or("")`. -/
def text (row : TitledRow) : Text := (row.title.getD "").toList

end TitledRow

def titledRow (payload : Json) : Except String TitledRow := do
  let d ← checkPayload env payload
  match payload.get textField with
  | none => pure ⟨d, none⟩
  | some .null => pure ⟨d, none⟩
  | some (.string s) => pure ⟨d, some s⟩
  | some other => .error s!"payload {textField} is not a string: {env.display other}"

def lineAt (row : ℕ) : String := s!"{env.path} line {row + 1}"

/-- The row of a line. -/
def lineRow (line : Text × ℕ) : Except String TitledRow := do
  let v ← (fromStr env line.1).mapError fun e ↦ s!"{lineAt env line.2}: {e}"
  (titledRow env v).mapError fun e ↦ s!"{lineAt env line.2}: {e}"

/-! ## Templates -/

/-- Selectivity buckets, by the share of the rows that match. -/
inductive Bucket where
  | s50
  | s10
  | s1
  | s01
deriving DecidableEq, Repr

namespace Bucket

def asStr : Bucket → String
  | s50 => "50%"
  | s10 => "10%"
  | s1 => "1%"
  | s01 => "0.1%"

/-- The bucket of a realized selectivity. -/
def of (matching corpus : ℕ) : Except String Bucket :=
  if corpus = 0 || matching = 0 || corpus < matching then
    .error s!"selectivity {matching}/{corpus} is not in (0, 1] — no bucket"
  else
    let m := matching * 1000
    .ok (if 250 * corpus ≤ m then s50
      else if 250 * corpus ≤ m * 10 then s10
      else if 250 * corpus ≤ m * 100 then s1
      else s01)

end Bucket

structure HybridTemplate where
  predicateId : String
  shape : String
  /-- The bucket the predicate is designed to land in. -/
  design : Bucket
  conditions : Json

/-- The derived fields and the text field. -/
def predicateSchema : List (String × Json) :=
  [("category", .string "keyword"), ("doc_len", .string "int"), ("tier", .string "int"),
    ("rand_key", .string "int"), (textField, .string "text")]

/-- Whether a leaf fits the schema type of its field. -/
def LeafOp.fits (ty : String) : LeafOp → Bool
  | .text _ => ty = "text"
  | .range .. => ty = "int"
  | .match ops => ops.all fun
    | .keyword _ => ty = "keyword"
    | .int _ => ty = "int"

def validateLeaf (schema : List (String × Json)) (l : PredicateLeaf) : Except String Unit :=
  match (Json.getEntry l.field schema).bind Json.asStr with
  | none => .error s!"predicate field {env.debug l.field} is not in the dataset schema"
  | some ty =>
    if !l.leaf.fits ty then
      .error (s!"predicate leaf on {env.debug l.field} ({env.debugLeaf l.leaf}) does not fit its " ++
        s!"schema type {env.debug ty}")
    else .ok ()

def validateAgainstSchema (p : Predicate) (schema : List (String × Json)) : Except String Unit :=
  p.leaves.forM (validateLeaf env schema)

def compileTemplate (t : HybridTemplate) : Except String (HybridTemplate × Predicate) := do
  let p ← (compile env.display env.debug t.conditions).mapError fun e ↦ s!"{t.predicateId}: {e}"
  (validateAgainstSchema env p predicateSchema).mapError fun e ↦ s!"{t.predicateId}: {e}"
  pure (t, p)

def compileTemplates (templates : List HybridTemplate) :
    Except String (List (HybridTemplate × Predicate)) :=
  templates.mapM (compileTemplate env)

/-- A predicate of the list on a row. -/
def rowMatches (row : TitledRow) (p : HybridTemplate × Predicate) : Except String Bool :=
  (p.2.matches env.debug row.field).mapError fun e ↦ s!"{p.1.predicateId}: {e}"

/-! ## Evaluated predicates -/

structure EvaluatedPredicates where
  templates : List HybridTemplate
  predicates : List Predicate
  counts : List ℕ
  masks : List RowMask

def minMatches : ℕ := 10

/-- One mask against the bucket of its template. -/
def finishMask (n : ℕ) (p : (HybridTemplate × Predicate) × RowMask) : Except String ℕ :=
  let t := p.1.1
  let count := p.2.countOnes
  if count < minMatches then
    .error (s!"{t.predicateId} ({t.shape}) matches {count} of {n} rows, fewer than {minMatches}")
  else do
    let realized ← (Bucket.of count n).mapError fun e ↦ s!"{t.predicateId}: {e}"
    if realized ≠ t.design then
      .error (s!"{t.predicateId} ({t.shape}) is designed for the {t.design.asStr} bucket but " ++
        s!"matches {count} of {n} rows ({realized.asStr})")
    else pure count

def finishEvaluation (compiled : List (HybridTemplate × Predicate)) (masks : List RowMask)
    (n : ℕ) : Except String EvaluatedPredicates := do
  let pairs := compiled.zip masks
  let counts ← pairs.mapM (finishMask n)
  pure ⟨pairs.map (·.1.1), pairs.map (·.1.2), counts, pairs.map (·.2)⟩

/-- The text terms that were chosen, with their document frequencies. -/
structure TextTerms where
  common : Text × ℕ
  rare : Text × ℕ
deriving DecidableEq, Repr

def divCeil (n d : ℕ) : ℕ := (n + (d - 1)) / d

/-- Both `choose_terms`. -/
def chooseTermsWith (n : ℕ) (counter : TermCounter) (scan : Text → Except String (ℕ × ℕ)) :
    Except String TextTerms := do
  let common ← chooseTerm counter (divCeil n 100) [] scan
  let rare ← chooseTerm counter (divCeil n 1000) [common.1] scan
  pure ⟨common, rare⟩

/-! ## In memory -/

structure HybridCorpus where
  rows : List TitledRow

namespace HybridCorpus

def fromPayloads (file : Text) : Except String HybridCorpus :=
  ((bufLines file).zipIdx.mapM (lineRow env)).map .mk

/-- The documents that match and those that are ambiguous. -/
def scanTerm (corpus : HybridCorpus) (term : Text) : ℕ × ℕ :=
  (corpus.rows.map fun row ↦ (classify row.text term).weight).foldl (· + ·) (0, 0)

def chooseTerms (corpus : HybridCorpus) : Except String TextTerms :=
  chooseTermsWith corpus.rows.length
    (corpus.rows.foldl (fun counter row ↦ counter.addDoc row.text) .new)
    fun term ↦ .ok (corpus.scanTerm term)

end HybridCorpus

/-- `evaluate`. -/
def evaluate (corpus : HybridCorpus) (templates : List HybridTemplate) :
    Except String EvaluatedPredicates := do
  let compiled ← compileTemplates env templates
  let masks ← compiled.mapM fun p ↦ do
    let mask ← corpus.rows.mapM fun row ↦ rowMatches env row p
    RowMask.fromBools mask
  finishEvaluation compiled masks corpus.rows.length

/-! ## In chunks -/

/-- Up to `chunk_rows` lines, and the rest of the file. -/
def fillChunk : ℕ → Text → List Text × Text
  | 0, file => ([], file)
  | n + 1, file =>
    if (readLine file).1 = [] then ([], file)
    else ((readLine file).1 :: (fillChunk n (readLine file).2).1, (fillChunk n (readLine file).2).2)

theorem length_fillChunk_le (n : ℕ) (file : Text) : (fillChunk n file).2.length ≤ file.length := by
  induction n generalizing file with
  | zero => exact le_rfl
  | succ n ih =>
      rw [fillChunk]
      split_ifs with h
      · exact le_rfl
      · exact (ih _).trans (length_readLine_lt fun hnil ↦ h (readLine_eq_nil.mpr hnil)).le

theorem length_fillChunk_lt {n : ℕ} {file : Text} (h : (fillChunk n file).1 ≠ []) :
    (fillChunk n file).2.length < file.length := by
  cases n with
  | zero => exact absurd rfl h
  | succ n =>
      rw [fillChunk] at h ⊢
      split_ifs at h ⊢ with hnil
      · exact absurd rfl h
      · exact (length_fillChunk_le n _).trans_lt
          (length_readLine_lt fun hfile ↦ hnil (readLine_eq_nil.mpr hfile))

/-- `for_each_chunk` from row `rows` on; the callback's captured state is passed along. -/
def forEachChunk {σ : Type} (chunkRows : ℕ)
    (onChunk : ℕ → List Text → σ → Except String σ) (file : Text) (rows : ℕ) (st : σ) :
    Except String (ℕ × σ) :=
  if h : (fillChunk chunkRows file).1 = [] then .ok (rows, st)
  else
    have : (fillChunk chunkRows file).2.length < file.length := length_fillChunk_lt h
    match onChunk rows (fillChunk chunkRows file).1 st with
    | .error e => .error e
    | .ok st =>
      if (fillChunk chunkRows file).1.length < chunkRows then
        .ok (rows + (fillChunk chunkRows file).1.length, st)
      else
        forEachChunk chunkRows onChunk (fillChunk chunkRows file).2
          (rows + (fillChunk chunkRows file).1.length) st
termination_by file.length

/-- The corpus of a payload file, whose rows were counted by the first pass. -/
structure StreamedCorpus where
  rows : ℕ
  chunkRows : ℕ

namespace StreamedCorpus

/-- The validating pass. -/
def scanWithChunk (file : Text) (chunkRows : ℕ) : Except String (StreamedCorpus × TermCounter) :=
  if chunkRows = 0 then .error "scan chunk must hold at least one row"
  else do
    let (rows, counter) ← forEachChunk chunkRows (fun first lines counter ↦ do
      let titled ← (lines.zipIdx first).mapM (lineRow env)
      pure (titled.foldl (fun counter row ↦ counter.addDoc row.text) counter)) file 0 .new
    pure (⟨rows, chunkRows⟩, counter)

/-- Every pass must see the rows that the validating pass saw. -/
def checkRows (corpus : StreamedCorpus) (rows : ℕ) : Except String Unit :=
  if rows ≠ corpus.rows then
    .error (s!"{env.path} held {corpus.rows} rows on the first pass and {rows} on a later one; " ++
      "it changed while the hybrid query set was being built")
  else .ok ()

/-- What a title is scanned as. -/
def titleText : Option Json → Text
  | some (.string s) => s.toList
  | _ => []

def lineWeight (term : Text) (line : Text × ℕ) : Except String (ℕ × ℕ) := do
  let title ← (titleFromStr env line.1).mapError fun e ↦ s!"{lineAt env line.2}: {e}"
  pure (classify (titleText title) term).weight

def scanTerm (corpus : StreamedCorpus) (file : Text) (term : Text) : Except String (ℕ × ℕ) := do
  let (rows, total) ← forEachChunk corpus.chunkRows (fun first lines total ↦ do
    let weights ← (lines.zipIdx first).mapM (lineWeight env term)
    pure (total + weights.foldl (· + ·) (0, 0))) file 0 (0, 0)
  corpus.checkRows env rows
  pure total

def chooseTerms (corpus : StreamedCorpus) (file : Text) (counter : TermCounter) :
    Except String TextTerms :=
  chooseTermsWith corpus.rows counter (corpus.scanTerm env file)

/-- The predicates of one row as bits: `b |= 1 << pi`. -/
def packRow (compiled : List (HybridTemplate × Predicate)) (row : TitledRow) :
    Except String UInt64 :=
  compiled.zipIdx.foldlM (fun b p ↦ do
    if ← rowMatches env row p.1 then pure (setWordBit b p.2) else pure b) 0

/-- The bits of one row, one in each mask. -/
def markRow (b : UInt64) (row : ℕ) (masks : List RowMask) : Except String (List RowMask) :=
  masks.zipIdx.mapM fun mask ↦ if wordBit b mask.2 then mask.1.set row else pure mask.1

def markBits (n : ℕ) (masks : List RowMask) (b : UInt64 × ℕ) : Except String (List RowMask) :=
  if n ≤ b.2 then .error s!"{env.path} grew while it was being read (more than {n} rows)"
  else markRow b.1 b.2 masks

def evaluateChunk (compiled : List (HybridTemplate × Predicate)) (n first : ℕ)
    (lines : List Text) (masks : List RowMask) : Except String (List RowMask) := do
  let bits ← (lines.zipIdx first).mapM fun line ↦ do packRow env compiled (← lineRow env line)
  (bits.zipIdx first).foldlM (markBits env n) masks

def evaluate (corpus : StreamedCorpus) (file : Text) (templates : List HybridTemplate) :
    Except String EvaluatedPredicates := do
  let compiled ← compileTemplates env templates
  if 64 < compiled.length then
    .error (s!"{compiled.length} predicates; the streamed evaluation packs at most 64 per row")
  else
    let n := corpus.rows
    let (rows, masks) ← forEachChunk corpus.chunkRows (evaluateChunk env compiled n) file 0
      (compiled.map fun _ ↦ RowMask.new n)
    corpus.checkRows env rows
    finishEvaluation compiled masks corpus.rows

end StreamedCorpus

end VectorDbBenchmark.Msmarco
