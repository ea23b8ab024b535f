import VectorDbBenchmark.CompoundText.Expr
import VectorDbBenchmark.Hybrid.OpenSearchBuilt

/-!
# Two renderings with one meaning

The RediSearch text of a compiled expression is read back as a tree, and on documents whose
tags and integers both engines keep as they are, that tree and the OpenSearch query have the
truth that the evaluation returns.
-/

namespace VectorDbBenchmark.CompoundText

open Kit Msmarco Redis

/-! ## The tree of the RediSearch text -/

/-- What a `match` operand is read as. -/
def operandQuery (field : Text) : Operand → QueryLeaf
  | .keyword s => .tag field [s.toList]
  | .int n => .numeric field ⟨.fin n, false⟩ ⟨.fin n, false⟩

/-- One end of an interval. -/
def endpoint (inf : F64) (strict loose : Option F64) : Endpoint :=
  match strict, loose with
  | some n, _ => ⟨n, true⟩
  | none, some n => ⟨n, false⟩
  | none, none => ⟨inf, false⟩

def leafQueries (l : PredicateLeaf) : List QueryLeaf :=
  match l.leaf with
  | .text t => [.text l.field.toList t.toList]
  | .match ops => ops.map (operandQuery l.field.toList)
  | .range gt gte lt lte => [.numeric l.field.toList (endpoint .negInf gt gte)
      (endpoint .posInf lt lte)]

mutual

/-- An expression as its text is read. -/
def tree : Expr → Formula QueryLeaf
  | .all ts => .any [.all (treeEach ts)]
  | .any ts => .any ((treeEach ts).map fun t ↦ .all [t])
  | .not t => .any [.all [.not (tree t)]]
  | .leaf l => .any (((leafQueries l).map .leaf).map fun t ↦ .all [t])

def treeEach : List Expr → List (Formula QueryLeaf)
  | [] => []
  | t :: ts => tree t :: treeEach ts

end

theorem treeEach_eq (ts : List Expr) : treeEach ts = ts.map tree := by
  induction ts with
  | nil => rw [treeEach, List.map_nil]
  | cons t ts ih => rw [treeEach, ih, List.map_cons]

theorem redisEach_eq (ts : List Expr) : redisEach ts = ts.map redis := by
  induction ts with
  | nil => rw [redisEach, List.map_nil]
  | cons t ts ih => rw [redisEach, ih, List.map_cons]

theorem opensearchEach_eq (ts : List Expr) : opensearchEach ts = ts.map opensearch := by
  induction ts with
  | nil => rw [opensearchEach, List.map_nil]
  | cons t ts ih => rw [opensearchEach, ih, List.map_cons]

/-! ## The text is read back -/

section ReadBack

variable {schema : Json} {l : PredicateLeaf} {field : Text}

theorem plainName_of_isPlainIdentifier (h : isPlainIdentifier field = true) : PlainName field := by
  intro c hc
  rw [isPlainIdentifier, Bool.and_eq_true, Bool.and_eq_true, List.all_eq_true] at h
  have hplain := h.1.2 c hc
  rw [isReserved, List.contains_eq_mem, decide_eq_false_iff_not]
  intro hmem
  simp only [List.mem_cons, List.not_mem_nil, or_false] at hmem
  rcases hmem with rfl | rfl | rfl | rfl | rfl | rfl | rfl | rfl | rfl | rfl <;> cases hplain

/-- An end is read back, and has none of the characters that end it. -/
theorem endText_endpoint {inf : String} {x : F64} (hinf : Numeral F64.parse inf.toList x)
    {strict loose : Option F64} (hstrict : ∀ x, strict = some x → Printable x)
    (hloose : ∀ x, loose = some x → Printable x) :
    EndText F64.parse (endText inf strict loose) (endpoint x strict loose) := by
  rcases strict with _ | n
  · rcases loose with _ | n
    · exact hinf.inclusive
    · obtain ⟨q, rfl, hq⟩ := hloose n rfl
      exact (numeral_display hq).inclusive
  · obtain ⟨q, rfl, hq⟩ := hstrict n rfl
    exact (numeral_display hq).exclusive

/-- Letters and digits are no punctuation. -/
theorem not_isAsciiPunctuation_of_isAlphanum {c : Char} (h : c.isAlphanum = true) :
    isAsciiPunctuation c = false := by
  have hrange := toNat_of_isAlphanum h
  simp only [isAsciiPunctuation, Bool.or_eq_false_iff, Bool.and_eq_false_iff,
    decide_eq_false_iff_not]
  omega

/-- A character that needs a backslash in a tag has one. -/
theorem not_isAlphanum_of_needsEscape (c : Char) (h : needsEscape (fun _ ↦ false) c = true) :
    (!c.isAlphanum) = true := by
  rw [Bool.not_eq_true', ← Bool.not_eq_true]
  intro hc
  rw [needsEscape, not_isAsciiPunctuation_of_isAlphanum hc, Bool.false_and, Bool.false_or,
    decide_eq_true_eq] at h
  rw [h] at hc
  cases hc

/-- The reader of the filters. -/
abbrev tagsEscaped : QuerySyntax.LeafMachine QueryLeaf LeafState :=
  leafMachine (punctuated fun _ ↦ false)

theorem isItem_operandText (hfield : isPlainIdentifier field = true) {op : Operand}
    (hop : op.Exact) : QuerySyntax.IsItem tagsEscaped (operandText field op)
      (.leaf (operandQuery field op)) := by
  have hplain := plainName_of_isPlainIdentifier hfield
  cases op with
  | keyword s =>
      exact QuerySyntax.isItem_leaf startOk_leafMachine
        (readLeaf_tag not_isAlphanum_of_needsEscape (forall_mem_of_all (by decide)) hplain s.toList)
  | int n =>
      have hnumeral : Numeral F64.parse (intText n) (.fin n) := by
        refine ⟨F64.parse_intText hop, ?_⟩
        rw [List.forall_mem_cons, List.forall_mem_cons, List.forall_mem_singleton]
        exact ⟨notMem_intText rfl, notMem_intText rfl, notMem_intText rfl⟩
      exact QuerySyntax.isItem_leaf startOk_leafMachine
        (readLeaf_numeric hplain hnumeral.inclusive hnumeral.inclusive)

/-- The parts of a leaf are items. -/
theorem isItem_leafTexts (h : LeafOk schema l) : leafTexts l ≠ [] ∧
    List.Forall₂ (QuerySyntax.IsItem tagsEscaped) (leafTexts l)
      ((leafQueries l).map .leaf) := by
  have hplain := plainName_of_isPlainIdentifier h.field
  have hcompiled := h.compiled
  have hrenderable := h.renderable
  rw [leafTexts, leafQueries]
  cases hop : l.leaf with
  | text t =>
      rw [hop] at hcompiled
      refine ⟨List.cons_ne_nil _ _, .cons ?_ .nil⟩
      refine QuerySyntax.isItem_leaf startOk_leafMachine (readLeaf_text rfl hplain fun hmem ↦ ?_)
      obtain ⟨-, -, hlower⟩ := validateTerm_eq_ok hcompiled
      exact absurd (List.all_eq_true.mp hlower ')' hmem) (by decide)
  | «match» ops =>
      rw [hop] at hcompiled hrenderable
      refine ⟨mt List.map_eq_nil_iff.mp hrenderable, ?_⟩
      dsimp only
      rw [List.map_map]
      exact forall₂_map fun op hop ↦ isItem_operandText h.field (hcompiled op hop)
  | range gt gte lt lte =>
      rw [hop] at hrenderable
      have hnegInf : Numeral F64.parse "-inf".toList .negInf := ⟨rfl, forall_mem_of_all (by decide)⟩
      have hposInf : Numeral F64.parse "+inf".toList .posInf := ⟨rfl, forall_mem_of_all (by decide)⟩
      exact ⟨List.cons_ne_nil _ _, .cons (QuerySyntax.isItem_leaf startOk_leafMachine
        (readLeaf_numeric hplain (endText_endpoint hnegInf hrenderable.gt hrenderable.gte)
          (endText_endpoint hposInf hrenderable.lt hrenderable.lte))) .nil⟩

/-- The text of an expression is read as its tree. -/
theorem isItem_redis {e : Expr} (h : e.Filled (LeafOk schema)) :
    QuerySyntax.IsItem tagsEscaped (redis e) (tree e) := by
  induction h with
  | leaf hl =>
      obtain ⟨hne, hitems⟩ := isItem_leafTexts hl
      rw [redis, tree]
      exact (QuerySyntax.fills_bars hitems hne).isItem
  | @all ts hne _ ih =>
      rw [redis, tree, redisEach_eq, treeEach_eq]
      exact (QuerySyntax.fills_items (forall₂_map ih) (mt List.map_eq_nil_iff.mp hne)).isItem
  | @any ts hne _ ih =>
      rw [redis, tree, redisEach_eq, treeEach_eq]
      exact (QuerySyntax.fills_bars (forall₂_map ih) (mt List.map_eq_nil_iff.mp hne)).isItem
  | not _ ih =>
      rw [redis, tree]
      exact ih.minus.fills.isItem

theorem readQuery_redis {e : Expr} (h : e.Filled (LeafOk schema)) :
    readQuery (redis e) = some (.any [.all [tree e]]) :=
  QuerySyntax.parse_of_fills (isItem_redis h).fills

end ReadBack

/-! ## What an OpenSearch leaf query says -/

section Meaning

variable (textHolds : String → String → Bool) (row : Fields)

/-- Whether a document satisfies a leaf query; the one term of a `match` is asked of text. -/
def queryHolds (name field : String) (body : Json) : Bool :=
  match row field with
  | none => false
  | some value =>
    if name = "match" then
      match value, (body.get "query").bind Json.asStr with
      | .keyword s, some term => textHolds s term
      | _, _ => false
    else if name = "terms" then (body.asArray.getD []).any (Hybrid.termHolds value)
    else if name = "range" then
      match value with
      | .int n => (body.asObject.getD []).all fun e ↦ Hybrid.boundHolds (.fin n) e.1 e.2
      | _ => false
    else false

/-- An engine that matches a term as the classifier says, where it says one or the other. -/
def FollowsClassifier : Prop :=
  ∀ s term : String, (classify s.toList term.toList = .yes → textHolds s term = true) ∧
    (classify s.toList term.toList = .no → textHolds s term = false)

/-- Tags that are neither split nor trimmed, and integers that are compared exactly. -/
structure Indexable (schema : Json) : Prop where
  tags : ∀ field s, (schema.get field).bind Json.asStr = some "keyword" →
    row field = some (.keyword s) → ';' ∉ s.toList ∧ trim s.toList = s.toList
  ints : ∀ field n, (schema.get field).bind Json.asStr = some "int" →
    row field = some (.int n) → n.natAbs ≤ maxExactInteger

end Meaning

/-! ## Leaves -/

/-- An operand that is the value of the field. -/
def hits : Operand → FieldValue → Bool
  | .keyword k, .keyword s => k = s
  | .int k, .int n => k = n
  | _, _ => false

section Leaves

variable {debug : String → String} {field : String} {ops : List Operand} {value : FieldValue}
  {b : Bool}

/-- Operands that could be compared, and whether one of them is the value. -/
theorem any_hits_of_matches (h : (LeafOp.match ops).matches debug field value = .ok b) :
    (∀ op ∈ ops, (∃ k s, op = .keyword k ∧ value = .keyword s) ∨
      ∃ k n, op = .int k ∧ value = .int n) ∧ ops.any (fun op ↦ hits op value) = b := by
  cases value with
  | keyword s =>
      have hstep : ∀ hit op b, hitKeyword field s hit op = .ok b →
          (∃ k, op = .keyword k) ∧ b = (hit || hits op (.keyword s)) := by
        rintro hit (k | n) b h
        · cases h
          exact ⟨⟨k, rfl⟩, rfl⟩
        · cases h
      obtain ⟨hall, rfl⟩ := Hybrid.foldlM_hit hstep h
      refine ⟨fun op hop ↦ .inl ?_, (Bool.false_or _).symm⟩
      obtain ⟨k, rfl⟩ := hall op hop
      exact ⟨k, s, rfl, rfl⟩
  | int n =>
      have hstep : ∀ hit op b, hitInt field n hit op = .ok b →
          (∃ k, op = .int k) ∧ b = (hit || hits op (.int n)) := by
        rintro hit (k | k) b h
        · cases h
        · cases h
          exact ⟨⟨k, rfl⟩, rfl⟩
      obtain ⟨hall, rfl⟩ := Hybrid.foldlM_hit hstep h
      refine ⟨fun op hop ↦ .inr ?_, (Bool.false_or _).symm⟩
      obtain ⟨k, rfl⟩ := hall op hop
      exact ⟨k, n, rfl, rfl⟩
  | other => cases h
  | unknown => cases h

/-- The kind of the operands is that of the field. -/
theorem eq_keyword_of_fitsKind {kind k : String} (h : fitsKind kind (.match ops) = true)
    (hk : .keyword k ∈ ops) : kind = "keyword" :=
  of_decide_eq_true (List.all_eq_true.mp h _ hk)

theorem eq_int_of_fitsKind {kind : String} {k : ℤ} (h : fitsKind kind (.match ops) = true)
    (hk : .int k ∈ ops) : kind = "int" :=
  of_decide_eq_true (List.all_eq_true.mp h _ hk)

/-- An integer between a number and itself. -/
theorem between_self (k n : ℤ) :
    ((F64.fin k).le (.fin n) && (F64.fin n).le (.fin k)) = decide (k = n) := by
  rw [Bool.eq_iff_iff, Bool.and_eq_true, decide_eq_true_eq]
  simp only [F64.le, decide_eq_true_eq, Int.cast_le]
  exact le_antisymm_iff.symm

variable {textHolds : String → String → Bool} {row : Fields} {schema : Json} {l : PredicateLeaf}

/-- A `match` operand as it is read back, against an indexable value. -/
theorem holds_operandQuery {op : Operand} (hrow : row field = some value)
    (htags : ∀ s, value = .keyword s → ';' ∉ s.toList ∧ trim s.toList = s.toList)
    (hints : ∀ n, value = .int n → n.natAbs ≤ maxExactInteger) :
    (operandQuery field.toList op).holds textHolds row = hits op value := by
  cases op with
  | keyword k =>
      rw [operandQuery, QueryLeaf.holds, String.ofList_toList, hrow]
      cases value with
      | keyword s =>
          obtain ⟨hsemi, htrim⟩ := htags s rfl
          have htagsOf : tagsOf s = [s.toList] := by
            rw [tagsOf, splitAtSep_of_not_mem hsemi, List.map_singleton, htrim]
          show ([k.toList].any fun v ↦ (tagsOf s).contains v) = decide (k = s)
          rw [htagsOf, List.any_cons, List.any_nil, Bool.or_false, Bool.eq_iff_iff,
            List.contains_iff_mem, List.mem_singleton, decide_eq_true_eq]
          exact String.toList_inj
      | int n => rfl
      | other => rfl
      | unknown => rfl
  | int k =>
      rw [operandQuery, QueryLeaf.holds, String.ofList_toList, hrow]
      cases value with
      | int n =>
          show ((F64.fin k).le (.ofInt n) && (F64.ofInt n).le (.fin k)) = decide (k = n)
          rw [F64.ofInt_of_le (hints n rfl), between_self]
      | keyword s => rfl
      | other => rfl
      | unknown => rfl

/-- What the ends of an interval ask of a number. -/
theorem below_endpoint {strict loose : Option F64} (h : strict = none ∨ loose = none) (q : ℚ) :
    (endpoint .negInf strict loose).below (.fin q) =
      (strict.all (fun b ↦ b.lt (.fin q)) && loose.all fun b ↦ b.le (.fin q)) := by
  rcases strict with _ | n
  · rcases loose with _ | n
    · rfl
    · rfl
  · obtain rfl := h.resolve_left (by rintro ⟨⟩)
    exact (Bool.and_true _).symm

theorem above_endpoint {strict loose : Option F64} (h : strict = none ∨ loose = none) (q : ℚ) :
    (endpoint .posInf strict loose).above (.fin q) =
      (strict.all (fun b ↦ (F64.fin q).lt b) && loose.all fun b ↦ (F64.fin q).le b) := by
  rcases strict with _ | n
  · rcases loose with _ | n
    · rfl
    · rfl
  · obtain rfl := h.resolve_left (by rintro ⟨⟩)
    exact (Bool.and_true _).symm

/-- A range that could be evaluated was evaluated on an exact integer. -/
theorem range_matches {gt gte lt lte : Option F64}
    (h : (LeafOp.range gt gte lt lte).matches debug field value = .ok b) :
    ∃ n : ℤ, value = .int n ∧ n.natAbs ≤ maxExactInteger ∧
      b = (gt.all (fun b ↦ b.lt (.fin n)) && gte.all (fun b ↦ b.le (.fin n)) &&
        lt.all (fun b ↦ (F64.fin n).lt b) && lte.all fun b ↦ (F64.fin n).le b) := by
  cases value with
  | int n =>
      rw [LeafOp.matches] at h
      split_ifs at h with hn
      cases h
      refine ⟨n, rfl, Nat.not_lt.mp hn, ?_⟩
      rw [F64.ofInt_of_le (Nat.not_lt.mp hn)]
  | keyword s => cases h
  | other => cases h
  | unknown => cases h

/-- A term that could be evaluated was evaluated on text on which the engines follow the
classifier. -/
theorem text_matches {term : String} (htext : FollowsClassifier textHolds)
    (h : (LeafOp.text term).matches debug field value = .ok b) :
    ∃ s, value = .keyword s ∧ textHolds s term = b := by
  cases value with
  | keyword s =>
      rw [LeafOp.matches] at h
      obtain ⟨hyes, hno⟩ := htext s term
      split at h
      · next hc =>
          cases h
          exact ⟨s, rfl, hyes hc⟩
      · next hc =>
          cases h
          exact ⟨s, rfl, hno hc⟩
      · cases h
  | int n => cases h
  | other => cases h
  | unknown => cases h

/-- A leaf of a document without the field. -/
theorem not_holds_of_none (h : row l.field = none) :
    (leafQueries l).any (QueryLeaf.holds textHolds row) = false := by
  have hnone : ∀ q : QueryLeaf, q ∈ leafQueries l → q.holds textHolds row = false := by
    intro q hq
    rw [leafQueries] at hq
    cases hop : l.leaf with
    | text t =>
        rw [hop, List.mem_singleton] at hq
        rw [hq, QueryLeaf.holds, String.ofList_toList, h]
    | «match» ops =>
        rw [hop] at hq
        obtain ⟨op, -, rfl⟩ := List.mem_map.mp hq
        cases op <;> rw [operandQuery, QueryLeaf.holds, String.ofList_toList, h]
    | range gt gte lt lte =>
        rw [hop, List.mem_singleton] at hq
        rw [hq, QueryLeaf.holds, String.ofList_toList, h]
  rw [List.any_eq_false]
  intro q hq
  rw [hnone q hq]
  exact Bool.false_ne_true

/-- The leaf as it is read back has the truth that its evaluation returns. -/
theorem any_holds_of_matches (hl : LeafOk schema l) (hrow : Indexable row schema)
    (htext : FollowsClassifier textHolds) (h : l.matches debug row = .ok b) :
    (leafQueries l).any (QueryLeaf.holds textHolds row) = b := by
  rw [PredicateLeaf.matches] at h
  split at h
  · next hnone =>
      cases h
      exact not_holds_of_none hnone
  · next value hvalue =>
      have hcompiled := hl.compiled
      obtain ⟨kind, hkind, hfits⟩ := hl.kind
      rw [leafQueries]
      cases hop : l.leaf with
      | text t =>
          rw [hop] at h
          obtain ⟨s, rfl, rfl⟩ := text_matches htext h
          show (QueryLeaf.holds textHolds row _ || false) = _
          rw [Bool.or_false, QueryLeaf.holds, String.ofList_toList, hvalue, String.ofList_toList]
      | «match» ops =>
          rw [hop] at h hfits
          obtain ⟨hall, rfl⟩ := any_hits_of_matches h
          show (ops.map _).any _ = _
          rw [List.any_map]
          refine any_congr_of_mem fun op hop ↦ holds_operandQuery hvalue ?_ ?_
          · rintro s rfl
            rcases hall op hop with ⟨k, -, rfl, -⟩ | ⟨k, n, -, ⟨⟩⟩
            exact hrow.tags l.field s (eq_keyword_of_fitsKind hfits hop ▸ hkind) hvalue
          · rintro n rfl
            rcases hall op hop with ⟨k, s, -, ⟨⟩⟩ | ⟨k, -, rfl, -⟩
            exact hrow.ints l.field n (eq_int_of_fitsKind hfits hop ▸ hkind) hvalue
      | range gt gte lt lte =>
          rw [hop] at h hcompiled
          obtain ⟨n, rfl, hn, rfl⟩ := range_matches h
          show (QueryLeaf.holds textHolds row _ || false) = _
          rw [Bool.or_false, QueryLeaf.holds, String.ofList_toList, hvalue]
          show (Endpoint.below _ (.ofInt n) && Endpoint.above _ (.ofInt n)) = _
          rw [F64.ofInt_of_le hn, below_endpoint hcompiled.1, above_endpoint hcompiled.2]
          exact (Bool.and_assoc _ _ _).symm

/-! ## Leaf queries -/

theorem asI64_operandJson {n : ℤ} (h : n.natAbs ≤ maxExactInteger) :
    (operandJson (.int n)).asI64 = some n := by
  have hbound : n.natAbs ≤ 2 ^ 53 := h
  rw [operandJson]
  by_cases hn : 0 ≤ n
  · have hnat : 0 ≤ n ∧ n.toNat < 2 ^ 64 := ⟨hn, by omega⟩
    rw [dif_pos hnat]
    show (if n.toNat < 2 ^ 63 then some ((n.toNat : ℕ) : ℤ) else none) = some n
    rw [if_pos (by omega), Int.toNat_of_nonneg hn]
  · have hneg : -2 ^ 63 ≤ n ∧ n < 0 := by omega
    rw [dif_neg (fun h ↦ hn h.1), dif_pos hneg]
    rfl

theorem termHolds_operandJson {op : Operand} (hop : op.Exact) (value : FieldValue) :
    Hybrid.termHolds value (operandJson op) = hits op value := by
  cases op with
  | keyword k =>
      cases value with
      | keyword s =>
          show decide (some k = some s) = decide (k = s)
          rw [decide_eq_decide]
          exact Option.some_inj
      | int n => rfl
      | other => rfl
      | unknown => rfl
  | int k =>
      have hint := asI64_operandJson hop
      cases value with
      | keyword s =>
          show decide ((operandJson (.int k)).asStr = some s) = false
          rw [decide_eq_false_iff_not]
          intro heq
          cases hv : operandJson (.int k) with
          | string s' =>
              rw [hv] at hint
              cases hint
          | _ =>
              rw [hv] at heq
              cases heq
      | int n =>
          rw [Hybrid.termHolds, hint, hits, decide_eq_decide]
          exact Option.some_inj
      | other => rfl
      | unknown => rfl

/-- A bound of a range query. -/
theorem all_boundHolds {o : Option F64} (ho : ∀ x, o = some x → Printable x) (key : String)
    (x : F64) : ((o.map fun n ↦ (key, Json.ofF64 n)).all fun e ↦ Hybrid.boundHolds x e.1 e.2) =
      o.all fun b ↦ if key = "gt" then b.lt x else if key = "gte" then b.le x
        else if key = "lt" then x.lt b else if key = "lte" then x.le b else false := by
  cases o with
  | none => rfl
  | some n =>
      obtain ⟨q, rfl, -⟩ := ho n rfl
      rfl

theorem holds_boolJson_filter (q : Json) :
    OpenSearch.holds (queryHolds textHolds row) (boolJson "filter" [q]) =
      OpenSearch.holds (queryHolds textHolds row) q := by
  rw [boolJson, OpenSearch.holds_filter, List.all_cons, List.all_nil, Bool.and_true]

/-- The name, the field and the body of the one leaf query of a leaf. -/
theorem holds_leafJson (l : PredicateLeaf) :
    OpenSearch.holds (queryHolds textHolds row) (leafJson l) =
      match l.leaf with
      | .text t => queryHolds textHolds row "match" l.field
          (.object [("query", .string t), ("operator", .string "and")])
      | .match ops => queryHolds textHolds row "terms" l.field (.array (ops.map operandJson))
      | .range gt gte lt lte => queryHolds textHolds row "range" l.field (.object
          ([("gt", gt), ("gte", gte), ("lt", lt), ("lte", lte)].filterMap fun e ↦
            e.2.map fun n ↦ (e.1, Json.ofF64 n))) := by
  rw [leafJson]
  cases l.leaf with
  | text t => exact OpenSearch.holds_leaf _ (by decide) _ _
  | «match» ops => exact (holds_boolJson_filter _).trans (OpenSearch.holds_leaf _ (by decide) _ _)
  | range gt gte lt lte =>
      exact (holds_boolJson_filter _).trans (OpenSearch.holds_leaf _ (by decide) _ _)

/-- So has the leaf query. -/
theorem holds_leafJson_of_matches (hl : LeafOk schema l) (htext : FollowsClassifier textHolds)
    (h : l.matches debug row = .ok b) :
    OpenSearch.holds (queryHolds textHolds row) (leafJson l) = b := by
  rw [holds_leafJson]
  rw [PredicateLeaf.matches] at h
  split at h
  · next hnone =>
      cases h
      split <;> rw [queryHolds, hnone]
  · next value hvalue =>
      have hcompiled := hl.compiled
      have hrenderable := hl.renderable
      cases hop : l.leaf with
      | text t =>
          rw [hop] at h
          obtain ⟨s, rfl, rfl⟩ := text_matches htext h
          dsimp only
          rw [queryHolds, hvalue]
          rfl
      | «match» ops =>
          rw [hop] at h hcompiled
          obtain ⟨-, rfl⟩ := any_hits_of_matches h
          dsimp only
          rw [queryHolds, hvalue]
          show ((ops.map operandJson).any _) = _
          rw [List.any_map]
          exact any_congr_of_mem fun op hop ↦ termHolds_operandJson (hcompiled op hop) value
      | range gt gte lt lte =>
          rw [hop] at h hrenderable
          obtain ⟨n, rfl, -, rfl⟩ := range_matches h
          dsimp only
          rw [queryHolds, hvalue]
          show (List.filterMap _ _).all _ = _
          rw [List.all_filterMap]
          have hgt := all_boundHolds hrenderable.gt "gt" (.fin n)
          have hgte := all_boundHolds hrenderable.gte "gte" (.fin n)
          have hlt := all_boundHolds hrenderable.lt "lt" (.fin n)
          have hlte := all_boundHolds hrenderable.lte "lte" (.fin n)
          refine (congrArg₂ (· && ·) hgt (congrArg₂ (· && ·) hgte (congrArg₂ (· && ·) hlt
            (congrArg₂ (· && ·) hlte rfl)))).trans ?_
          rw [List.all_nil, Bool.and_true, ← Bool.and_assoc, ← Bool.and_assoc]
          rfl

end Leaves

/-! ## Expressions -/

section Expressions

variable {textHolds : String → String → Bool} {row : Fields}

/-- The tree of the text reads groups and negation as what they are. -/
theorem reading_tree :
    Formula.Reading fun e ↦ (tree e).eval (QueryLeaf.holds textHolds row) where
  all ts := by
    rw [tree, treeEach_eq]
    simp [List.all_map, Function.comp_def]
  any ts := by
    rw [tree, treeEach_eq]
    simp [List.any_map, Function.comp_def]
  not t := by
    rw [tree]
    simp

/-- So does the OpenSearch query. -/
theorem reading_opensearch :
    Formula.Reading fun e ↦ OpenSearch.holds (queryHolds textHolds row) (opensearch e) where
  all ts := by
    rw [opensearch, boolJson, opensearchEach_eq, OpenSearch.holds_must, List.all_map]
    rfl
  any ts := by
    rw [opensearch, opensearchEach_eq, OpenSearch.holds_should, List.any_map]
    rfl
  not t := by
    rw [opensearch, boolJson, OpenSearch.holds_must_not, List.all_cons, List.all_nil,
      Bool.and_true]

end Expressions

/-- For a compiled expression and a document whose tags and integers both engines keep as
they are, the RediSearch text is read, and what it is read as and the OpenSearch query have
the truth that the evaluation returns, where it returns one. -/
theorem engines_agree {display : Json → String} {debug : String → String} {schema value : Json}
    {e : Expr} {redisText osText : String → String → Bool} {row : List (String × Json)} {b : Bool}
    (hcompile : Expr.compile display debug schema value = .ok e)
    (hvalue : ∀ q ∈ value.floats, F64.IsValue q) (hrow : Indexable (mapFields row) schema)
    (hredis : FollowsClassifier redisText) (hos : FollowsClassifier osText)
    (hmatches : Expr.matches debug row e = .ok b) :
    (∃ t, readQuery (redis e) = some t ∧
        t.eval (QueryLeaf.holds redisText (mapFields row)) = b) ∧
      OpenSearch.holds (queryHolds osText (mapFields row)) (opensearch e) = b := by
  have hfilled := filled_of_compile hvalue hcompile
  refine ⟨⟨_, readQuery_redis hfilled, ?_⟩, ?_⟩
  · have htree := reading_tree.eq_of_run hfilled (fun l hl b hb ↦ ?_) hmatches
      (g := fun e ↦ (tree e).eval (QueryLeaf.holds redisText (mapFields row)))
    · simpa using htree
    · have hany := any_holds_of_matches hl hrow hredis hb
      rw [tree]
      simpa [List.any_map, Function.comp_def] using hany
  · refine reading_opensearch.eq_of_run hfilled (fun l hl b hb ↦ ?_) hmatches
    rw [opensearch]
    exact holds_leafJson_of_matches hl hos hb

/-- An engine that matches a term exactly where the classifier says so. -/
def classifierText (s term : String) : Bool := classify s.toList term.toList = .yes

theorem followsClassifier_classifierText : FollowsClassifier classifierText := by
  intro s term
  refine ⟨decide_eq_true, fun h ↦ ?_⟩
  rw [classifierText, h]
  rfl

def passageSchema : Json :=
  .object [("title", .string "text"), ("category", .string "keyword"), ("doc_len", .string "int")]

/-- `{field: {op: {key: v}}}`. -/
def condition (field op key : String) (v : Json) : Json :=
  .object [(field, .object [(op, .object [(key, v)])])]

def natJson (n : ℕ) (h : Nat.ble (n + 1) (2 ^ 64) = true) : Json :=
  .number (.posInt n (Nat.le_of_ble_eq_true h))

/-- A term or a tag, but no length of five or more. -/
def shortPassage : Json :=
  .object [("and", .array [
    .object [("or", .array [condition "title" "match" "text" (.string "alpha"),
      condition "category" "match" "value" (.string "X")])],
    .object [("not", condition "doc_len" "range" "gte" (natJson 5 rfl))]])]

def shortPassageExpr : Expr :=
  .all [.any [.leaf ⟨"title", .text "alpha"⟩, .leaf ⟨"category", .match [.keyword "X"]⟩],
    .not (.leaf ⟨"doc_len", .range none (some (.fin 5)) none none⟩)]

example : redis shortPassageExpr =
    "(((@title:(alpha)) | (@category:\x7bX\x7d)) (-(@doc_len:[5 +inf])))".toList := by
  decide +kernel

theorem engines_agree_shortPassage :
    (∃ t, readQuery (redis shortPassageExpr) = some t ∧
        t.eval (QueryLeaf.holds classifierText (mapFields [("category", .string "X")])) = true) ∧
      OpenSearch.holds (queryHolds classifierText (mapFields [("category", .string "X")]))
        (opensearch shortPassageExpr) = true := by
  have hcompile : Expr.compile (fun _ ↦ "") id passageSchema shortPassage = .ok shortPassageExpr :=
    rfl
  have hfloats : ∀ q ∈ shortPassage.floats, F64.IsValue q := by
    have hnil : shortPassage.floats = [] := rfl
    rw [hnil]
    exact fun q hq ↦ absurd hq List.not_mem_nil
  have hrow : Indexable (mapFields [("category", .string "X")]) passageSchema := by
    have hvalue : ∀ field value, mapFields [("category", .string "X")] field = some value →
        value = .keyword "X" := by
      intro field value h
      rw [mapFields, Json.getEntry] at h
      split_ifs at h
      · exact (Option.some.inj h).symm
      · cases h
    refine ⟨fun field s _ hs ↦ ?_, fun field n _ hn ↦ ?_⟩
    · obtain ⟨⟩ := hvalue field _ hs
      exact ⟨by decide, by decide⟩
    · cases hvalue field _ hn
  exact engines_agree hcompile hfloats hrow followsClassifier_classifierText
    followsClassifier_classifierText rfl

/-- On a tag with a semicolon, and on an integer beyond 53 bits, the RediSearch text is true
and the evaluation false. -/
theorem engines_differ :
    (∃ e, Expr.compile (fun _ ↦ "") id passageSchema
        (condition "category" "match" "value" (.string "a")) = .ok e ∧
      Expr.matches id [("category", .string "a;b")] e = .ok false ∧
      (readQuery (redis e)).map (Formula.eval (QueryLeaf.holds classifierText
        (mapFields [("category", .string "a;b")]))) = some true ∧
      OpenSearch.holds (queryHolds classifierText (mapFields [("category", .string "a;b")]))
        (opensearch e) = false) ∧
    ∃ e, Expr.compile (fun _ ↦ "") id passageSchema
        (condition "doc_len" "match" "value" (natJson 9007199254740992 rfl)) = .ok e ∧
      Expr.matches id [("doc_len", natJson 9007199254740993 rfl)] e = .ok false ∧
      (readQuery (redis e)).map (Formula.eval (QueryLeaf.holds classifierText
        (mapFields [("doc_len", natJson 9007199254740993 rfl)]))) = some true := by
  refine ⟨⟨.leaf ⟨"category", .match [.keyword "a"]⟩, rfl, rfl, ?_, ?_⟩,
    .leaf ⟨"doc_len", .match [.int 9007199254740992]⟩, rfl, rfl, ?_⟩
  · decide
  · decide
  · decide +kernel

end VectorDbBenchmark.CompoundText
