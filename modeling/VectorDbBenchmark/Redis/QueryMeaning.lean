import VectorDbBenchmark.Hybrid.ClauseText
import VectorDbBenchmark.Redis.Hygiene

/-!
# What queries and conditions say of a document

A query of the filter builder, geo clauses included, is read as an and/or tree of clauses that
refer to parameters.  A clause with its parameters resolved is true or false of a document, and so
is an operation of a conditions value.  How the server folds tags, searches texts, measures
distances and holds integers is left open.
-/

namespace VectorDbBenchmark.RedisQuery

open Kit Redis Hybrid

/-! ## Clauses -/

/-- A clause of a query. -/
inductive Clause where
  | plain (r : RLeaf)
  /-- `@f:[$lon $lat $radius m]`. -/
  | geo (field lon lat radius : String)
deriving DecidableEq, Repr

namespace Clause

def render : Clause → Text
  | plain r => r.render
  | geo field lon lat radius =>
    '@' :: (field.toList ++ ':' :: '[' ::
      ([' '].intercalate [refText lon, refText lat, refText radius, ['m']] ++ [']']))

/-- A clause that is read back. -/
def Ok : Clause → Prop
  | plain r => r.Ok
  | geo field lon lat radius => Plain field ∧ ∀ p ∈ [lon, lat, radius], NameOk p

end Clause

/-! ## Reading -/

/-- The errors are not told apart. -/
def silent : Debug := ⟨fun s ↦ s, fun _ ↦ "", fun _ ↦ "", fun _ ↦ ""⟩

/-- The parameters of a geo clause, with metres as their unit. -/
def geoParts (opening : Char) (body : Text) : Option (Text × Text × Text) :=
  match splitAtSep ' ' body with
  | [lon, lat, radius, unit] =>
    if opening = '[' ∧ unit = ['m'] then some (lon, lat, radius) else none
  | _ => none

/-- The clause with the value between two brackets. -/
def clauseNode (field : String) (opening : Char) (body : Text) : Except String Clause :=
  match geoParts opening body with
  | some (lon, lat, radius) => do
    let lon ← param silent field lon
    let lat ← param silent field lat
    let radius ← param silent field radius
    pure (.geo field lon lat radius)
  | none => (leafNode silent field opening body).map .plain

/-- The clause in front of a text and what follows it. -/
def readClause (t : Text) : Except String (Clause × Text) :=
  match t.tail.dropWhile (· ≠ ':') with
  | _ :: opening :: rest =>
    match closing opening with
    | none => .error "clause without a value"
    | some close =>
      match rest.dropWhile (· ≠ close) with
      | [] => .error "unclosed clause"
      | _ :: after =>
        (clauseNode (.ofList (t.tail.takeWhile (· ≠ ':'))) opening
          (rest.takeWhile (· ≠ close))).map fun c ↦ (c, after)
  | _ => .error "clause without a value"

theorem length_readClause_lt {t : Text} {r : Clause × Text} (h : readClause t = .ok r) :
    r.2.length < t.length := by
  rw [readClause] at h
  have hfield := (List.dropWhile_suffix (l := t.tail) (· ≠ ':')).length_le
  split at h
  · next colon opening rest hvalue =>
      rw [hvalue, List.length_cons, List.length_cons, List.length_tail] at hfield
      split at h
      · cases h
      · next close _ =>
          have hrest := (List.dropWhile_suffix (l := rest) (· ≠ close)).length_le
          split at h
          · cases h
          · next closed after hafter =>
              obtain ⟨c, -, rfl⟩ := map_eq_ok.mp h
              rw [hafter, List.length_cons] at hrest
              dsimp only
              omega
  · cases h

def clauseReader : GroupSyntax.LeafReader Clause String :=
  .ofRead readClause length_readClause_lt '@' fun what _ ↦ what

/-- A query as the server reads it: juxtaposition is conjunction, and binds tighter than `|`. -/
def readQuery (query : Text) : Except String (BoolTree Clause) :=
  GroupSyntax.parse clauseReader query

/-! ## Reading back -/

theorem readClause_frame {field : String} {opening close : Char} {body : Text}
    (hfield : ':' ∉ field.toList) (hclose : closing opening = some close) (hbody : close ∉ body)
    (tail : Text) :
    readClause ('@' :: (field.toList ++ ':' :: opening :: (body ++ [close])) ++ tail) =
      (clauseNode field opening body).map fun c ↦ (c, tail) := by
  have htail : ('@' :: (field.toList ++ ':' :: opening :: (body ++ [close])) ++ tail).tail =
      field.toList ++ ':' :: opening :: (body ++ close :: tail) := by
    simp only [List.cons_append, List.append_assoc, List.tail_cons, List.nil_append]
  rw [readClause, htail, takeWhile_ne_append hfield, dropWhile_ne_append hfield]
  dsimp only
  rw [hclose]
  dsimp only
  rw [dropWhile_ne_append hbody, takeWhile_ne_append hbody, String.ofList_toList]

theorem geoParts_body {r : RLeaf} (h : r.Ok) : geoParts r.brackets.1 r.body = none := by
  rcases r with ⟨f, lo, hi⟩ | ⟨f, ps⟩ | ⟨f, p⟩
  · have hnames := h.names
    rw [RLeaf.names, List.map_append, List.forall_mem_append] at hnames
    have hblank : ' ' ∈ delimiters := by decide
    have hsplit : splitAtSep ' ' (RLeaf.range f lo hi).body =
        [endText "-inf" lo, endText "+inf" hi] := by
      rw [RLeaf.body, splitAtSep_append (notMem_endText (.inl rfl) hnames.1 hblank),
        splitAtSep_of_not_mem (notMem_endText (.inr rfl) hnames.2 hblank)]
    rw [geoParts, hsplit]
  · have hbrace : '\x7b' ≠ '[' := by decide
    rw [geoParts]
    split
    · rw [if_neg fun hgeo ↦ hbrace hgeo.1]
    · rfl
  · have hparen : '(' ≠ '[' := by decide
    rw [geoParts]
    split
    · rw [if_neg fun hgeo ↦ hparen hgeo.1]
    · rfl

/-- What stands between the brackets of a geo clause is read back. -/
theorem clauseNode_geo {field lon lat radius : String}
    (h : ∀ p ∈ [lon, lat, radius], NameOk p) :
    clauseNode field '['
        ([' '].intercalate [refText lon, refText lat, refText radius, ['m']]) =
      .ok (.geo field lon lat radius) := by
  have hblank : ' ' ∈ delimiters := by decide
  obtain ⟨hlon, h⟩ := List.forall_mem_cons.mp h
  obtain ⟨hlat, h⟩ := List.forall_mem_cons.mp h
  have hradius := List.forall_mem_singleton.mp h
  have hparts : geoParts '[' ([' '].intercalate [refText lon, refText lat, refText radius, ['m']]) =
      some (refText lon, refText lat, refText radius) := by
    rw [geoParts]
    simp only [List.intercalate_cons_cons, List.intercalate_singleton, List.append_assoc,
      List.singleton_append]
    rw [splitAtSep_append (hlon.notMem hblank), splitAtSep_append (hlat.notMem hblank),
      splitAtSep_append (hradius.notMem hblank)]
    rfl
  rw [clauseNode, hparts]
  dsimp only
  rw [hlon.param, hlat.param, hradius.param]
  rfl

/-- A rendered clause is read back, whatever follows it. -/
theorem readClause_render {c : Clause} (h : c.Ok) (tail : Text) :
    readClause (c.render ++ tail) = .ok (c, tail) := by
  cases c with
  | plain r =>
      have hfield : ':' ∉ r.field.toList := fun hc ↦ h.field ':' hc (by decide)
      rw [Clause.render, RLeaf.render, readClause_frame hfield (closing_brackets r)
        (closing_notMem_body h), clauseNode, geoParts_body h]
      dsimp only
      rw [leafNode_body silent h]
      rfl
  | geo field lon lat radius =>
      obtain ⟨hplain, hnames⟩ := h
      have hfield : ':' ∉ field.toList := fun hc ↦ hplain ':' hc (by decide)
      have hbracket : ']' ∈ delimiters := by decide
      have hclose : ']' ∉ [' '].intercalate [refText lon, refText lat, refText radius, ['m']] := by
        intro hmem
        obtain ⟨u, hu, hin⟩ := mem_intercalate hmem
        simp only [List.mem_cons, List.not_mem_nil, or_false] at hu
        rcases hu with (rfl | rfl | rfl | rfl) | rfl
        · exact (hnames lon (by simp)).notMem hbracket hin
        · exact (hnames lat (by simp)).notMem hbracket hin
        · exact (hnames radius (by simp)).notMem hbracket hin
        · exact absurd hin (by decide)
        · exact absurd hin (by decide)
      rw [Clause.render, readClause_frame hfield rfl hclose, clauseNode_geo hnames]
      rfl

theorem readsBack_clauseReader {c : Clause} (h : c.Ok) :
    GroupSyntax.ReadsBack clauseReader Clause.render c := by
  constructor
  · cases c with
    | plain r => exact ⟨_, rfl⟩
    | geo field lon lat radius => exact ⟨_, rfl⟩
  · exact fun tail ↦ GroupSyntax.LeafReader.returns_ofRead (readClause_render h tail)

theorem startOk_clauseReader : GroupSyntax.StartOk clauseReader :=
  (by decide : '@' ∉ ['(', ')', '|', ' '])

/-- Clauses next to each other are read as their tree. -/
theorem readQuery_render {s : GroupSyntax.Sequence Clause} (h : ∀ c ∈ s.leaves, c.Ok) :
    readQuery (s.render Clause.render) = .ok s.tree := by
  have hread := GroupSyntax.parse_render startOk_clauseReader (.one s) fun c hc ↦
    readsBack_clauseReader (h c (by rwa [GroupSyntax.Alternatives.leaves] at hc))
  rwa [GroupSyntax.Alternatives.render, GroupSyntax.Alternatives.tree,
    GroupSyntax.Alternatives.trees] at hread

/-! ## Documents -/

structure Server where
  /-- The number that an integer is read as. -/
  ofInt : ℤ → F64

/-- A document as it is indexed. -/
structure Document where
  hasTag : String → String → Bool
  number : String → Option ℚ
  hasText : String → String → Bool
  /-- Whether the field lies within a radius of a point. -/
  within : String → F64 → F64 → F64 → Bool
  /-- Blanks around the terms are ignored. -/
  hasText_trim : ∀ field terms, hasText field (.ofList (trim terms.toList)) = hasText field terms

section Meaning

variable (server : Server)

/-- The number of a bound value. -/
def Server.number : FilterParamValue → Option F64
  | .int i => some (server.ofInt i)
  | .float f => some f
  | .str _ => none

/-! ## What a clause says -/

section Clauses

variable (params : Params)

def stringAt (p : String) : Option String :=
  match params.get p with
  | some (.str s) => some s
  | _ => none

def numberAt (p : String) : Option F64 := (params.get p).bind server.number

/-- Whether an end of an interval admits a number that is compared with it. -/
def endHolds (strict loose : F64 → Bool) : Option (String × Bool) → Bool
  | none => true
  | some (p, exclusive) =>
    (numberAt server params p).any fun x ↦ if exclusive then strict x else loose x

def lowerHolds (q : ℚ) : Option (String × Bool) → Bool :=
  endHolds server params (fun x ↦ x.lt (.fin q)) fun x ↦ x.le (.fin q)

def upperHolds (q : ℚ) : Option (String × Bool) → Bool :=
  endHolds server params (fun x ↦ (F64.fin q).lt x) fun x ↦ (F64.fin q).le x

-- A document.
variable (d : Document)

/-- Whether a point and a radius are given and the document lies within. -/
def Document.liesWithin (field : String) (lon lat radius : Option F64) : Bool :=
  lon.any fun x ↦ lat.any fun y ↦ radius.any fun r ↦ d.within field x y r

/-- The truth of a clause. -/
def clauseHolds : Clause → Bool
  | .plain (.tag field ps) => ps.any fun p ↦ (stringAt params p).any (d.hasTag field)
  | .plain (.text field p) => (stringAt params p).any (d.hasText field)
  | .plain (.range field lo hi) => (d.number field).any fun q ↦
      lowerHolds server params q lo && upperHolds server params q hi
  | .geo field lon lat radius => d.liesWithin field (numberAt server params lon)
      (numberAt server params lat) (numberAt server params radius)

end Clauses

/-! ## What an operation says -/

section Operations

variable (env : NumberEnv) (d : Document) (field : String)

/-- Whether the document has this value in a field. -/
def valueHolds : Json → Bool
  | .bool b => d.hasTag field (if b then "true" else "false")
  | .string s => d.hasTag field s
  | v => (Json.asNumber server.ofInt v).any fun x ↦
      (d.number field).any fun q ↦ decide (x = .fin q)

def matchHolds : Json → Bool :=
  matchTruth (List.any · (valueHolds server d field)) (d.hasText field) (valueHolds server d field)

/-- What a bound asks of a number. -/
def admits : Operator → ℚ → F64 → Bool
  | .lt, q, x => (F64.fin q).lt x
  | .gt, q, x => x.lt (.fin q)
  | .lte, q, x => (F64.fin q).le x
  | .gte, q, x => x.le (.fin q)

/-- The number that a value is converted to. -/
def converted (v : Json) : Option F64 := (toNumber env v).bind server.number

def rangeHolds (criteria : Json) : Bool :=
  (d.number field).any fun q ↦ rangeKeys.all fun k ↦
    (criteria.get k.1).all fun v ↦ (converted server env v).any (admits k.2 q)

def geoHolds (criteria : Json) : Bool :=
  d.liesWithin field ((criteria.get "lon").bind (converted server env))
    ((criteria.get "lat").bind (converted server env))
    ((criteria.get "radius").bind (converted server env))

/-- The truth of an operation. -/
def leafHolds (l : Leaf) : Bool :=
  match l.op with
  | "match" => matchHolds server d l.field l.criteria
  | "range" => rangeHolds server env d l.field l.criteria
  | "geo" => geoHolds server env d l.field l.criteria
  | _ => false

end Operations

end Meaning

/-! ## Well-formed operations -/

def matchKeys : List String := ["any", "text", "value"]

/-- A match by one of its keys. -/
structure Only (criteria : Json) (key : String) (v : Json) : Prop where
  mem : key ∈ matchKeys
  get : criteria.get key = some v
  others : ∀ k ∈ matchKeys, k ≠ key → criteria.get k = none

/-- A match with a scalar, with integers, with strings that are not empty or with a text that is
not blank, a range with a bound, or a point and a radius. -/
inductive WellFormed (env : NumberEnv) : Leaf → Prop
  | value (field : String) {criteria v : Json} (hone : Only criteria "value" v)
    (h : Json.isScalar v = true) : WellFormed env ⟨field, "match", criteria⟩
  | ints (field : String) {criteria : Json} {vs : List Json}
    (hone : Only criteria "any" (.array vs))
    (hne : vs ≠ []) (h : ∀ v ∈ vs, v.asI64.isSome = true) :
    WellFormed env ⟨field, "match", criteria⟩
  | strings (field : String) {criteria : Json} {ss : List String}
    (hone : Only criteria "any" (.array (ss.map .string))) (hne : ss ≠ []) (h : ∀ s ∈ ss, s ≠ "") :
    WellFormed env ⟨field, "match", criteria⟩
  | text (field : String) {criteria : Json} {text : String}
    (hone : Only criteria "text" (.string text)) (h : trim text.toList ≠ []) :
    WellFormed env ⟨field, "match", criteria⟩
  | range (field : String) (criteria : Json)
    (hone : ∃ k ∈ rangeKeys, (criteria.get k.1).isSome = true)
    (h : ∀ k ∈ rangeKeys, ∀ v, criteria.get k.1 = some v → (toNumber env v).isSome = true) :
    WellFormed env ⟨field, "range", criteria⟩
  | geo (field : String) (criteria : Json)
    (h : ∀ key ∈ ["lon", "lat", "radius"],
      ((criteria.get key).bind (toNumber env)).isSome = true) :
    WellFormed env ⟨field, "geo", criteria⟩

end VectorDbBenchmark.RedisQuery
