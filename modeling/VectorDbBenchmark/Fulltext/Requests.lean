import VectorDbBenchmark.F64Text
import VectorDbBenchmark.Fulltext.IndexProfile
import VectorDbBenchmark.Fulltext.Terms

/-!
# Fulltext requests

`resolve_fields`, `redis_query` and `opensearch_body_with` of `src/fulltext.rs`: the searched
fields and the terms as both engines receive them.  Both requests are read back as the same
terms, since neither a field nor a term has a character of the syntax around it.
-/

namespace VectorDbBenchmark.Fulltext

open Kit

/-! ## Searched fields -/

structure FieldBoost where
  field : String
  boost : F64

/-- A name that stands in a query as it is. -/
def isPlainFieldName (name : String) : Bool :=
  name.toList.head?.any (fun c ↦ c.isAlpha || c = '_') &&
    name.toList.tail.all fun c ↦ c.isAlphanum || c = '_'

/-- The `text` fields of a dataset schema, by name. -/
def schemaTextFields (schema : Option Json) : List String :=
  let fields := ((schema.bind Json.asObject).getD []).filter fun (_, t) ↦ t.asStr = some "text"
  (fields.map Prod.fst).mergeSort fun a b ↦ a ≤ b

def resolveSchemaFields (spec : FulltextSpec) (schema : Option Json) :
    Except String (List FieldBoost) :=
  let textFields := schemaTextFields schema
  if textFields.isEmpty then
    .error "fulltext workload needs a dataset whose schema declares `text` fields"
  else
    match spec.fields with
    | none => .ok (textFields.map fun field ↦ ⟨field, .fin 1⟩)
    | some fields => fields.mapM fun (field, boost) ↦
        if textFields.contains field then .ok ⟨field, boost⟩
        else .error (s!"fulltext field '{field}' is not a `text` field of the dataset schema " ++
          "(text fields: " ++ ", ".intercalate textFields ++ ")")

def resolveFields (spec : FulltextSpec) (schema : Option Json) :
    Except String (List FieldBoost) := do
  let fields ← resolveSchemaFields spec schema
  match fields.find? fun f ↦ !isPlainFieldName f.field with
  | some bad =>
    .error (s!"fulltext field '{bad.field}' is not a plain identifier (ASCII letters, digits, " ++
      "`_`, not starting with a digit) — it cannot be written unescaped in a RediSearch query")
  | none => .ok fields

/-- What is searched has a plain name. -/
theorem plain_of_resolveFields {spec : FulltextSpec} {schema : Option Json}
    {fields : List FieldBoost} (h : resolveFields spec schema = .ok fields) :
    ∀ f ∈ fields, isPlainFieldName f.field = true := by
  obtain ⟨fields', -, h⟩ := bind_eq_ok.mp h
  split at h
  · cases h
  · next hnone =>
      cases h
      intro f hf
      have hplain := List.find?_eq_none.mp hnone f hf
      rwa [Bool.not_eq_true, Bool.not_eq_false'] at hplain

/-! ## Requests -/

def fmtBoost (b : F64) : Text := b.debug

def redisClause (union : Text) (f : FieldBoost) : Text :=
  "(@".toList ++ f.field.toList ++ ":(".toList ++ union ++ ")) => \x7b$weight: ".toList ++
    fmtBoost f.boost ++ ";\x7d".toList

/-- The RediSearch query. -/
def redisQuery (fields : List FieldBoost) (terms : List Text) : Text :=
  let union := ['|'].intercalate terms
  " | ".toList.intercalate (fields.map (redisClause union))

def opensearchMultiMatchType : String := "most_fields"

def opensearchTrackTotalHits (total : TotalHits) : Bool := total = .exact

/-- The OpenSearch search body. -/
def opensearchBodyWith (fields : List FieldBoost) (terms : List Text) (top : ℕ)
    (total : TotalHits) : Json :=
  .object [("size", .ofNat top), ("_source", .bool false),
    ("track_total_hits", .bool (opensearchTrackTotalHits total)),
    ("query", .object [("multi_match", .object [
      ("query", .string (String.ofList ([' '].intercalate terms))),
      ("type", .string opensearchMultiMatchType),
      ("operator", .string "or"),
      ("fields", .array (fields.map fun f ↦
        .string (f.field ++ "^" ++ String.ofList (fmtBoost f.boost))))])])]

/-! ## Reading -/

/-- The field and the terms of what follows an `@`. -/
def readClause (t : Text) : Text × List Text :=
  let union := ((t.dropWhile (· ≠ '(')).drop 1).takeWhile (· ≠ ')')
  (t.takeWhile (· ≠ ':'), (union.splitOnP (· = '|')).filter (!·.isEmpty))

/-- The fields of a query with the terms of each. -/
def readRedisQuery (q : Text) : List (Text × List Text) :=
  ((splitAtSep '@' q).drop 1).map readClause

/-- The words of the query of a `multi_match`. -/
def readMultiMatch (body : Json) : Option (List Text) := do
  let query ← body.get "query"
  let multiMatch ← query.get "multi_match"
  let text ← (← multiMatch.get "query").asStr
  pure ((text.toList.splitOnP isWhiteSpace).filter (!·.isEmpty))

section Reading

variable {u : Unicode} {fields : List FieldBoost} {terms : List Text} {f : FieldBoost}

theorem notMem_of_plain {name : String} (h : isPlainFieldName name = true) {c : Char}
    (hc : (c.isAlphanum || c = '_') = false) : c ∉ name.toList := by
  intro hmem
  rw [isPlainFieldName, Bool.and_eq_true] at h
  obtain ⟨hhead, htail⟩ := h
  cases hname : name.toList with
  | nil =>
      rw [hname] at hmem
      cases hmem
  | cons d rest =>
      rw [hname] at hmem hhead htail
      rcases List.mem_cons.mp hmem with rfl | hmem
      · have hkind : (c.isAlpha || decide (c = '_')) = true := hhead
        rw [Bool.or_eq_false_iff] at hc
        rw [hc.2, Bool.or_false] at hkind
        have halnum : c.isAlphanum = true := by
          rw [Char.isAlphanum, hkind]
          rfl
        rw [halnum] at hc
        cases hc.1
      · have hkind := List.all_eq_true.mp htail c hmem
        rw [hc] at hkind
        cases hkind

/-- Terms without separators and blanks between one-character separators. -/
theorem pieces_intercalate {p : Char → Bool} {sep : Char} (hsep : p sep = true)
    (hp : ∀ c, p c = true → isSeparator c = true) (h : ∀ t ∈ terms, IsTerm u t) :
    (([sep].intercalate terms).splitOnP p).filter (!·.isEmpty) = terms := by
  by_cases hne : terms = []
  · subst hne
    rfl
  · have hsolid : ∀ t ∈ terms, ∀ c ∈ t, p c = false := by
      intro t ht c hc
      rw [Bool.eq_false_iff]
      intro hpc
      have hcsep := (h t ht).solid c hc
      rw [hp c hpc] at hcsep
      cases hcsep
    rw [splitOnP_intercalate hsep hne hsolid, List.filter_eq_self]
    intro t ht
    rw [Bool.not_eq_true', List.isEmpty_eq_false_iff]
    exact (h t ht).ne_nil

theorem notMem_union {sep c : Char} (hc : isSeparator c = true) (hne : c ≠ sep)
    (h : ∀ t ∈ terms, IsTerm u t) : c ∉ [sep].intercalate terms := by
  induction terms with
  | nil => exact List.not_mem_nil
  | cons t ts ih =>
      have ht : c ∉ t := by
        intro hmem
        have hsolid := (h t List.mem_cons_self).solid c hmem
        rw [hc] at hsolid
        cases hsolid
      have hts := ih fun t' ht' ↦ h t' (List.mem_cons_of_mem t ht')
      cases ts with
      | nil =>
          rw [List.intercalate_singleton]
          exact ht
      | cons t' ts =>
          rw [List.intercalate_cons_cons, List.append_assoc, List.singleton_append, List.mem_append,
            List.mem_cons]
          rintro (hmem | hmem | hmem)
          · exact ht hmem
          · exact hne hmem
          · exact hts hmem

/-- What follows the `@` of a clause. -/
def afterAt (union : Text) (f : FieldBoost) : Text :=
  f.field.toList ++ ":(".toList ++ union ++ ")) => \x7b$weight: ".toList ++ fmtBoost f.boost ++
    ";\x7d".toList

theorem redisClause_eq (union : Text) (f : FieldBoost) :
    redisClause union f = '(' :: '@' :: afterAt union f := rfl

theorem readClause_afterAt (hf : isPlainFieldName f.field = true) (h : ∀ t ∈ terms, IsTerm u t)
    (rest : Text) :
    readClause (afterAt (['|'].intercalate terms) f ++ rest) = (f.field.toList, terms) := by
  have hcolon : afterAt (['|'].intercalate terms) f ++ rest = f.field.toList ++ ':' ::
      '(' :: (['|'].intercalate terms ++ ')' :: (") => \x7b$weight: ".toList ++ fmtBoost f.boost ++
        ";\x7d".toList ++ rest)) := by
    simp [afterAt]
  have hfield : (afterAt (['|'].intercalate terms) f ++ rest).takeWhile (· ≠ ':') =
      f.field.toList := by
    rw [hcolon]
    exact takeWhile_ne_append (notMem_of_plain hf (by decide)) _
  have hunion : (((afterAt (['|'].intercalate terms) f ++ rest).dropWhile (· ≠ '(')).drop
      1).takeWhile (· ≠ ')') = ['|'].intercalate terms := by
    have hopen : '(' ∉ f.field.toList ++ [':'] := by
      rw [List.mem_append, List.mem_singleton]
      rintro (hmem | hmem)
      · exact notMem_of_plain hf (by decide) hmem
      · exact absurd hmem (by decide)
    have hclose : ')' ∉ ['|'].intercalate terms := notMem_union (by decide) (by decide) h
    rw [hcolon, List.append_cons, dropWhile_ne_append hopen, List.drop_one, List.tail_cons,
      takeWhile_ne_append hclose]
  rw [readClause, hfield, hunion]
  refine congrArg _ (pieces_intercalate (by decide) ?_ h)
  intro c hc
  rw [of_decide_eq_true hc]
  decide

theorem at_notMem_afterAt (hf : isPlainFieldName f.field = true) (h : ∀ t ∈ terms, IsTerm u t) :
    '@' ∉ afterAt (['|'].intercalate terms) f := by
  simp only [afterAt, List.mem_append, not_or]
  refine ⟨⟨⟨⟨⟨notMem_of_plain hf (by decide), by decide⟩, ?_⟩, by decide⟩, ?_⟩, by decide⟩
  · exact notMem_union (by decide) (by decide) h
  · exact F64.notMem_debug (by decide)

theorem at_notMem_append {s t : Text} (hs : '@' ∉ s) (ht : '@' ∉ t) : '@' ∉ s ++ t := by
  rw [List.mem_append]
  exact not_or.mpr ⟨hs, ht⟩

/-- The clauses of a query are told apart by their `@`. -/
theorem splitAtSep_redisQuery (hfields : ∀ g ∈ f :: fields, isPlainFieldName g.field = true)
    (h : ∀ t ∈ terms, IsTerm u t) {front : Text} (hfront : '@' ∉ front) :
    ∃ pieces, splitAtSep '@' (front ++ redisQuery (f :: fields) terms) =
        (front ++ ['(']) :: pieces ∧
      pieces.map readClause = (f :: fields).map fun g ↦ (g.field.toList, terms) := by
  induction fields generalizing f front with
  | nil =>
      have hf := hfields f List.mem_cons_self
      have hafter := at_notMem_afterAt hf h
      have hopen := at_notMem_append hfront (by decide : '@' ∉ ['('])
      refine ⟨[afterAt (['|'].intercalate terms) f], ?_, ?_⟩
      · rw [redisQuery, List.map_singleton, List.intercalate_singleton, redisClause_eq,
          List.append_cons, splitAtSep_append hopen, splitAtSep_of_not_mem hafter]
      · have hread := readClause_afterAt hf h []
        rw [List.append_nil] at hread
        rw [List.map_singleton, hread]
        rfl
  | cons g fields ih =>
      obtain ⟨hf, hrest⟩ := List.forall_mem_cons.mp hfields
      have hopen := at_notMem_append hfront (by decide : '@' ∉ ['('])
      have hbar := at_notMem_append (at_notMem_afterAt hf h) (by decide : '@' ∉ " | ".toList)
      obtain ⟨pieces, hsplit, hread⟩ := ih hrest hbar
      refine ⟨(afterAt (['|'].intercalate terms) f ++ " | ".toList ++ ['(']) :: pieces, ?_, ?_⟩
      · have hquery : redisQuery (f :: g :: fields) terms = '(' :: '@' ::
            (afterAt (['|'].intercalate terms) f ++ " | ".toList ++
              redisQuery (g :: fields) terms) := by
          rw [redisQuery, redisQuery, List.map_cons, List.map_cons, List.intercalate_cons_cons,
            redisClause_eq]
          rfl
        rw [hquery, List.append_cons, splitAtSep_append hopen, hsplit]
      · rw [List.map_cons, List.append_assoc, readClause_afterAt hf h, hread]
        rfl

theorem readRedisQuery_redisQuery (hfields : ∀ f ∈ fields, isPlainFieldName f.field = true)
    (h : ∀ t ∈ terms, IsTerm u t) :
    readRedisQuery (redisQuery fields terms) = fields.map fun f ↦ (f.field.toList, terms) := by
  cases fields with
  | nil => rfl
  | cons f fields =>
      obtain ⟨pieces, hsplit, hread⟩ :=
        splitAtSep_redisQuery hfields h (List.not_mem_nil (a := '@'))
      rw [List.nil_append, List.nil_append] at hsplit
      rw [readRedisQuery, hsplit, List.drop_one, List.tail_cons, hread]

theorem readMultiMatch_opensearchBodyWith (top : ℕ) (total : TotalHits)
    (h : ∀ t ∈ terms, IsTerm u t) :
    readMultiMatch (opensearchBodyWith fields terms top total) = some terms := by
  have hpieces : (([' '].intercalate terms).splitOnP isWhiteSpace).filter (!·.isEmpty) = terms := by
    apply pieces_intercalate (by decide) _ h
    intro c hc
    rw [isSeparator, hc, Bool.true_or]
  have hread : readMultiMatch (opensearchBodyWith fields terms top total) =
      some (((String.ofList ([' '].intercalate terms)).toList.splitOnP isWhiteSpace).filter
        (!·.isEmpty)) := rfl
  rw [hread, String.toList_ofList, hpieces]

/-- What holds of the terms of a text. -/
structure SafeTerms (u : Unicode) (text : Text) (terms : List Text) : Prop where
  nonempty : ∀ t ∈ terms, t ≠ []
  alnum : ∀ t ∈ terms, ∃ c ∈ t, u.isAlphanumeric c = true
  blankless : ∀ t ∈ terms, ∀ c ∈ t, isWhiteSpace c = false
  unseparated : ∀ t ∈ terms, ∀ c ∈ t, c ∉ redisearchSeparators.toList
  notStop : ∀ t ∈ terms, String.ofList t ∉ stopwords
  nodup : terms.Nodup
  firstSeen : terms.Pairwise fun s t ↦ (words u text).idxOf s < (words u text).idxOf t
  again : queryTerms u ([' '].intercalate terms) = terms

theorem safeTerms_queryTerms (u : Unicode) (text : Text) :
    SafeTerms u text (queryTerms u text) := by
  have hterm : ∀ t ∈ queryTerms u text, IsTerm u t := fun t ht ↦ isTerm_of_mem ht
  have hsolid : ∀ t ∈ queryTerms u text, ∀ c ∈ t, isWhiteSpace c = false ∧
      redisearchSeparators.toList.contains c = false := by
    intro t ht c hc
    exact Bool.or_eq_false_iff.mp ((hterm t ht).solid c hc)
  constructor
  · exact fun t ht ↦ (hterm t ht).ne_nil
  · exact fun t ht ↦ (hterm t ht).alnum
  · exact fun t ht c hc ↦ (hsolid t ht c hc).1
  · intro t ht c hc hmem
    have hnot := (hsolid t ht c hc).2
    rw [List.contains_iff_mem.mpr hmem] at hnot
    cases hnot
  · exact fun t ht ↦ (hterm t ht).notStop
  · exact nodup_queryTerms text
  · exact pairwise_queryTerms text
  · exact queryTerms_intercalate hterm (nodup_queryTerms text)

/-- The terms of a text are safe and stable, and both engines receive them. -/
theorem queryTerms_received (u : Unicode) (text : Text) (fields : List FieldBoost) (top : ℕ)
    (total : TotalHits) (hfields : ∀ f ∈ fields, isPlainFieldName f.field = true) :
    SafeTerms u text (queryTerms u text) ∧
      readRedisQuery (redisQuery fields (queryTerms u text)) =
        fields.map (fun f ↦ (f.field.toList, queryTerms u text)) ∧
      readMultiMatch (opensearchBodyWith fields (queryTerms u text) top total) =
        some (queryTerms u text) := by
  have hterm : ∀ t ∈ queryTerms u text, IsTerm u t := fun t ht ↦ isTerm_of_mem ht
  refine ⟨safeTerms_queryTerms u text, ?_, ?_⟩
  · exact readRedisQuery_redisQuery hfields hterm
  · exact readMultiMatch_opensearchBodyWith top total hterm

def bones : Text := "DOG\u2019S bone's; the Bone \u2019S".toList

def bodyAndTitle : List FieldBoost := [⟨"body", .fin 1⟩, ⟨"title", .fin (5 / 2)⟩]

def article : FulltextSpec where
  fields := some [("body", .fin 1), ("title", .fin (5 / 2))]

def articleSchema : Json :=
  .object [("title", .string "text"), ("year", .string "int"), ("body", .string "text")]

theorem resolveFields_article : resolveFields article (some articleSchema) = .ok bodyAndTitle := by
  have hfields : schemaTextFields (some articleSchema) = ["body", "title"] := by
    have hsort : schemaTextFields (some articleSchema) =
        (["title"] ++ ["body"]).mergeSort fun a b ↦ a ≤ b := rfl
    rw [hsort]
    simp [List.mergeSort, List.MergeSort.Internal.splitInTwo]
  rw [resolveFields, resolveSchemaFields, hfields]
  rfl

theorem queryTerms_received_bones :
    queryTerms basicUnicode bones = ["dog".toList, "bone".toList, "\u2019s".toList] ∧
      SafeTerms basicUnicode bones (queryTerms basicUnicode bones) ∧
      readRedisQuery (redisQuery bodyAndTitle (queryTerms basicUnicode bones)) =
        bodyAndTitle.map (fun f ↦ (f.field.toList, queryTerms basicUnicode bones)) ∧
      readMultiMatch (opensearchBodyWith bodyAndTitle (queryTerms basicUnicode bones) 10 .exact) =
        some (queryTerms basicUnicode bones) :=
  ⟨by decide, queryTerms_received basicUnicode bones bodyAndTitle 10 .exact
    (plain_of_resolveFields resolveFields_article)⟩

example : redisQuery bodyAndTitle ["dog".toList, "bone".toList] =
    ("(@body:(dog|bone)) => \x7b$weight: 1.0;\x7d | " ++
      "(@title:(dog|bone)) => \x7b$weight: 2.5;\x7d").toList := by decide +kernel

end Reading

end VectorDbBenchmark.Fulltext
