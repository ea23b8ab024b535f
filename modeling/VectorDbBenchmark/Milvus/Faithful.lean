import VectorDbBenchmark.Milvus.Expression
import VectorDbBenchmark.Milvus.Filter

/-!
# Milvus expressions of condition trees

The expression that is built for a condition tree is read as a condition that is true of the
same rows.
-/

namespace VectorDbBenchmark.Milvus

open Kit Redis ConditionTree InfixSyntax
open Readers (isMultivaluedKeywordField)

/-! ## What the leaves mean -/

section Meaning

variable (env : Env) (analyzer : Analyzer) (row : Row)

/-- Whether a cell is a value, or an array that holds it. -/
def Cell.hasValue : Cell → Json → Bool
  | .text s, .string t => s = t.toList
  | .texts ts, .string t => ts.contains t.toList
  | .number x, .number n => x = n.value
  | .bool b, .bool b' => b = b'
  | _, _ => false

def valueHolds (field : String) (v : Json) : Bool :=
  (row.cell field.toList).any fun c ↦ c.hasValue v

def matchHolds (field : String) : Json → Bool :=
  matchTruth (List.any · (valueHolds row field))
    (fun text ↦ (row.cell field.toList).any (Cell.hasTerms analyzer text.toList))
    (valueHolds row field)

/-- The number of a bound, or of a datetime in seconds. -/
def boundValue : Json → Option ℚ
  | .number n => some n.value
  | .string s => (env.datetimeToEpochSecs s).map fun i ↦ (i : ℚ)
  | _ => none

def boundComparisons : List (String × Comparison) :=
  [("lt", .lt), ("gt", .gt), ("lte", .le), ("gte", .ge)]

/-- What a bound asks of a row; nothing if it stands for no number. -/
def boundHolds (field : String) (criteria : Json) (k : String × Comparison) : Bool :=
  ((criteria.get k.1).bind (boundValue env)).all fun x ↦
    (row.cell field.toList).any fun c ↦ k.2.holds c (.number x)

/-- The truth of a leaf. -/
def leafHolds (l : Leaf) : Bool :=
  match l.op with
  | "match" => matchHolds analyzer row l.field l.criteria
  | "range" => boundComparisons.all (boundHolds env row l.field l.criteria)
  | _ => false

/-- A string or a number, where an array field has strings only. -/
def isItem (field : String) : Json → Bool
  | .string _ => true
  | .number _ => !isMultivaluedKeywordField field
  | _ => false

def isScalar (field : String) : Json → Bool
  | .bool _ => !isMultivaluedKeywordField field
  | v => isItem field v

/-- A match with a scalar, a list of strings and numbers or a text, or a range with a bound. -/
inductive WellFormed : Leaf → Prop
  | any (field : String) (vs : List Json) (h : ∀ v ∈ vs, isItem field v = true) :
    WellFormed ⟨field, "match", .object [("any", .array vs)]⟩
  | text (field text : String) : WellFormed ⟨field, "match", .object [("text", .string text)]⟩
  | value (field : String) (v : Json) (h : isScalar field v = true) :
    WellFormed ⟨field, "match", .object [("value", v)]⟩
  | range (field : String) (obj : List (String × Json))
    (h : ∃ k ∈ boundOps, ((Json.getEntry k.1 obj).bind (boundValue env)).isSome = true) :
    WellFormed ⟨field, "range", .object obj⟩

/-- What is asked of a leaf: its field is an identifier, and its floats are doubles. -/
structure Readable (l : Leaf) : Prop where
  wellFormed : WellFormed env l
  field : isIdentifier l.field.toList = true
  floats : ∀ q ∈ l.criteria.floats, F64.IsValue q

end Meaning

/-! ## Literals -/

section Literals

/-- The text is one token, which is the literal. -/
abbrev Denotes (t : Text) (l : Literal) : Prop := Lexer.Denotes spelling readLiteral t l

theorem lex_quoteMilvusString (s : String) :
    Lexer.lex spelling (quoteMilvusString s) = some [.quoted '"' s.toList] :=
  backslashQuote.lex fun _ _ ↦ rfl

theorem denotes_quote (s : String) : Denotes (quoteMilvusString s) (.text s.toList) :=
  ⟨_, lex_quoteMilvusString s, rfl⟩

theorem denotes_bool (b : Bool) : Denotes (if b then "true" else "false").toList (.bool b) := by
  cases b with
  | true => exact ⟨.word "true".toList, rfl, rfl⟩
  | false => exact ⟨.word "false".toList, rfl, rfl⟩

variable {env : Env}

/-- The literal of a scalar. -/
def literalOf : Json → Option Literal
  | .string s => some (.text s.toList)
  | .number n => some (.number n.value)
  | .bool b => some (.bool b)
  | _ => none

/-- The literal of an item of a list. -/
theorem exists_anyItem (henv : Prints env.numberText) {field : String} {v : Json}
    (hv : isItem field v = true) (hfloats : ∀ q ∈ v.floats, F64.IsValue q) :
    ∃ t l, anyItem env v = some t ∧ literalOf v = some l ∧ Denotes t l := by
  cases v with
  | string s => exact ⟨_, _, rfl, rfl, denotes_quote s⟩
  | number n => exact ⟨_, _, rfl, rfl, readsNumerals.denotes_numberText henv hfloats⟩
  | null => cases hv
  | bool _ => cases hv
  | array _ => cases hv
  | object _ => cases hv

theorem hasValue_eq_equals {c : Cell} (hc : ¬∃ ts, c = .texts ts) {v : Json} {l : Literal}
    (h : literalOf v = some l) : c.hasValue v = c.equals l := by
  cases c with
  | texts ts => exact absurd ⟨ts, rfl⟩ hc
  | text s => cases v <;> cases h <;> rfl
  | number x => cases v <;> cases h <;> rfl
  | bool b => cases v <;> cases h <;> rfl

theorem hasValue_eq_contains {c : Cell} (hc : ∃ ts, c = .texts ts) {v : Json} {l : Literal}
    (h : literalOf v = some l) : c.hasValue v = c.contains l := by
  obtain ⟨ts, rfl⟩ := hc
  cases v <;> cases h <;> rfl

end Literals

/-! ## Leaves -/

section Leaves

variable {env : Env} {analyzer : Analyzer} {field : String}

/-- A text that is read as operands with this truth at each row. -/
abbrev SaysRow (analyzer : Analyzer) (truth : Row → Bool) (t : Text) : Prop :=
  Says language (Atom.holds analyzer) (fun _ ↦ True) truth t

theorem lex_field (hfield : isIdentifier field.toList = true) :
    Lexer.lex spelling field.toList = some [.word field.toList] :=
  (isWord_of_isIdentifier hfield).lex

theorem mark_word (w : Text) : language.mark (.word w) = none := rfl

theorem says_compare (hfield : isIdentifier field.toList = true) {op : String} {c : Comparison}
    (hlex : Lexer.lex spelling op.toList = some [.symbol op.toList])
    (hop : readComparison op.toList = some c) {t : Text} {l : Literal} (ht : Denotes t l) :
    SaysRow analyzer (fun row ↦ (row.cell field.toList).any fun cell ↦ c.holds cell l)
      (binaryText field op t) := by
  obtain ⟨k, hk, hread⟩ := ht
  refine says_leaf (Lexer.lex_blank rfl (lex_field hfield) (Lexer.lex_blank rfl hlex hk))
    (mark_word _) (l := .compare field.toList c l) ?_ fun _ _ ↦ rfl
  simp [readLeaf, finish, language, beginLeaf, leafStep, hfield, hop, hread]

/-! ### Lists -/

theorem finish_behindItem {call : Bool} {f : Text} {ks : List Token} {ls : List Literal}
    (h : List.Forall₂ (fun k l ↦ readLiteral k = some l) ks ls) (read : List Literal)
    (tail : List Token) :
    finish language (.behindItem call f read)
        ((ks.flatMap fun k ↦ [.punctuation ',', k]) ++ .punctuation ']' :: tail) =
      proceed language tail (endList call f (read ++ ls)) := by
  induction h generalizing read with
  | nil =>
      rw [List.append_nil, List.flatMap_nil, List.nil_append, finish_cons]
      rfl
  | @cons k l ks ls hk _ ih =>
      have hcomma : language.step (.behindItem call f read) (.punctuation ',') =
          some (.inl (.behindComma call f read)) := rfl
      have hitem : language.step (.behindComma call f read) k =
          some (.inl (.behindItem call f (read ++ [l]))) := by
        show (readLiteral k).map _ = _
        rw [hk, Option.map_some]
      rw [List.flatMap_cons, List.append_assoc, List.cons_append, List.singleton_append,
        finish_of_step hcomma, finish_of_step hitem, ih, List.append_assoc, List.singleton_append]

theorem intercalate_comma (k : Token) (ks : List Token) :
    [Token.punctuation ','].intercalate ((k :: ks).map ([·])) =
      k :: ks.flatMap fun k ↦ [.punctuation ',', k] := by
  induction ks generalizing k with
  | nil => rfl
  | cons k' ks ih =>
      rw [List.map_cons, List.map_cons, List.intercalate_cons_cons]
      exact congrArg (fun ks ↦ k :: .punctuation ',' :: ks) (ih k')

/-- A list, from its bracket on. -/
theorem finish_list {call : Bool} {f : Text} {ks : List Token} {ls : List Literal}
    (h : List.Forall₂ (fun k l ↦ readLiteral k = some l) ks ls) (tail : List Token) :
    finish language (.list call f) (.punctuation '[' ::
        ([.punctuation ','].intercalate (ks.map ([·])) ++ .punctuation ']' :: tail)) =
      proceed language tail (endList call f ls) := by
  have hopen : language.step (.list call f) (.punctuation '[') = some (.inl (.first call f)) := rfl
  rw [finish_of_step hopen]
  cases h with
  | nil =>
      rw [List.map_nil, List.intercalate_nil, List.nil_append, finish_cons]
      rfl
  | @cons k l ks ls hk hks =>
      have hne : k ≠ .punctuation ']' := by
        rintro rfl
        cases hk
      have hitem : language.step (.first call f) k = some (.inl (.behindItem call f [l])) := by
        show (if k = .punctuation ']' then _ else (readLiteral k).map _) = _
        rw [if_neg hne, hk, Option.map_some]
      rw [intercalate_comma, List.cons_append, finish_of_step hitem]
      exact finish_behindItem hks [l] tail

/-- The tokens of a list. -/
theorem exists_listText {items : List Text} {ls : List Literal}
    (h : List.Forall₂ Denotes items ls) :
    ∃ ks, List.Forall₂ (fun k l ↦ readLiteral k = some l) ks ls ∧
      Lexer.lex spelling (listText items) = some (.punctuation '[' ::
        ([.punctuation ','].intercalate (ks.map ([·])) ++ [.punctuation ']'])) := by
  have htokens : ∃ ks, List.Forall₂ (fun k l ↦ readLiteral k = some l) ks ls ∧
      List.Forall₂ (fun t ts ↦ Lexer.lex spelling t = some ts) items (ks.map ([·])) := by
    induction h with
    | nil => exact ⟨[], .nil, .nil⟩
    | cons ht _ ih =>
        obtain ⟨k, hk, hread⟩ := ht
        obtain ⟨ks, hreads, hlexes⟩ := ih
        exact ⟨k :: ks, .cons hread hreads, .cons hk hlexes⟩
  obtain ⟨ks, hreads, hlexes⟩ := htokens
  exact ⟨ks, hreads, Lexer.lex_brackets rfl rfl (Lexer.lex_intercalate rfl rfl hlexes)⟩

/-- A leaf that starts with the name of a field. -/
theorem readLeaf_field (hfield : isIdentifier field.toList = true) (ks : List Token) :
    readLeaf language (.word field.toList :: ks) = finish language (.name field.toList) ks := by
  refine readLeaf_of_begin ?_ ks
  show beginLeaf (.word field.toList) = _
  rw [beginLeaf, hfield, Bool.true_or, if_pos rfl]

theorem says_isIn (hfield : isIdentifier field.toList = true) {items : List Text}
    {ls : List Literal} (h : List.Forall₂ Denotes items ls) :
    SaysRow analyzer (fun row ↦ (row.cell field.toList).any fun c ↦ ls.any c.equals)
      (binaryText field "in" (listText items)) := by
  obtain ⟨ks, hreads, hlex⟩ := exists_listText h
  refine says_leaf (Lexer.lex_blank rfl (lex_field hfield) (Lexer.lex_blank rfl
    (rfl : Lexer.lex spelling "in".toList = some [.word "in".toList]) hlex))
    (mark_word _) (l := .isIn field.toList ls) ?_ fun _ _ ↦ rfl
  refine (readLeaf_field hfield _).trans ?_
  have hlist : finish language (.list false field.toList) _ = _ := finish_list hreads []
  exact hlist

/-! ### Calls -/

theorem lex_callText {function : String} {args : List Token}
    (hfunction : Lexer.lex spelling function.toList = some [.word function.toList])
    (hfield : isIdentifier field.toList = true) {t : Text}
    (ht : Lexer.lex spelling t = some args) :
    Lexer.lex spelling (callText function field t) =
      some (.word function.toList :: .punctuation '(' :: .word field.toList ::
        .punctuation ',' :: (args ++ [.punctuation ')'])) := by
  have hargs : Lexer.lex spelling (' ' :: (t ++ [')'])) = some (args ++ [.punctuation ')']) :=
    (Lexer.lex_blank_cons rfl _).trans (Lexer.lex_punctuation rfl ht Lexer.lex_nil)
  exact Lexer.lex_punctuation rfl hfunction (Lexer.lex_punctuation rfl (lex_field hfield) hargs)

/-- A call, up to its second argument. -/
theorem readLeaf_call {function : String} {f : Function}
    (hf : readFunction function.toList = some f) (hfield : isIdentifier field.toList = true)
    (ks : List Token) :
    readLeaf language (.word function.toList :: .punctuation '(' :: .word field.toList ::
        .punctuation ',' :: ks) =
      finish language (if f = .arrayContainsAny then .list true field.toList
        else .value f field.toList) ks := by
  have hbegin : beginLeaf (.word function.toList) = some (.inl (.name function.toList)) := by
    rw [beginLeaf, hf, Option.isSome_some, Bool.or_true, if_pos rfl]
  simp [readLeaf, finish, language, hbegin, leafStep, hf, hfield]

theorem says_arrayContains (hfield : isIdentifier field.toList = true) (s : String) :
    SaysRow analyzer (fun row ↦ (row.cell field.toList).any fun c ↦ c.contains (.text s.toList))
      (callText "array_contains" field (quoteMilvusString s)) := by
  refine says_leaf (lex_callText rfl hfield (lex_quoteMilvusString s)) (mark_word _)
    (l := .arrayContains field.toList (.text s.toList)) ?_ fun _ _ ↦ rfl
  exact readLeaf_call (rfl : readFunction "array_contains".toList = some .arrayContains) hfield _

theorem says_textMatch (hfield : isIdentifier field.toList = true) (s : String) :
    SaysRow analyzer (fun row ↦ (row.cell field.toList).any (Cell.hasTerms analyzer s.toList))
      (callText "TEXT_MATCH" field (quoteMilvusString s)) := by
  refine says_leaf (lex_callText rfl hfield (lex_quoteMilvusString s)) (mark_word _)
    (l := .textMatch field.toList s.toList) ?_ fun _ _ ↦ rfl
  exact readLeaf_call (rfl : readFunction "TEXT_MATCH".toList = some .textMatch) hfield _

theorem says_arrayContainsAny (hfield : isIdentifier field.toList = true) {items : List Text}
    {ls : List Literal} (h : List.Forall₂ Denotes items ls) :
    SaysRow analyzer (fun row ↦ (row.cell field.toList).any fun c ↦ ls.any c.contains)
      (callText "array_contains_any" field (listText items)) := by
  obtain ⟨ks, hreads, hlex⟩ := exists_listText h
  refine says_leaf (lex_callText rfl hfield hlex) (mark_word _)
    (l := .arrayContainsAny field.toList ls) ?_ fun _ _ ↦ rfl
  refine (readLeaf_call rfl hfield _).trans ?_
  rw [List.cons_append, List.append_assoc, List.singleton_append]
  have hlist : finish language (.list true field.toList) _ = _ :=
    finish_list hreads [.punctuation ')']
  exact hlist

/-! ### Operations -/

theorem scalar_of_cell {row : Row} {c : Cell} (hfield : isMultivaluedKeywordField field = false)
    (hc : row.cell field.toList = some c) : ¬∃ ts, c = .texts ts := by
  intro htexts
  have hlabels := String.toList_inj.mp ((row.labels hc).mp htexts)
  exact of_decide_eq_false hfield hlabels

theorem texts_of_cell {row : Row} {c : Cell} (hfield : isMultivaluedKeywordField field = true)
    (hc : row.cell field.toList = some c) : ∃ ts, c = .texts ts :=
  (row.labels hc).mpr (congrArg String.toList (of_decide_eq_true hfield))

/-- A value of a field with a single value is what its cell equals. -/
theorem valueHolds_scalar {row : Row} (hfield : isMultivaluedKeywordField field = false)
    {v : Json} {l : Literal} (hl : literalOf v = some l) :
    valueHolds row field v = (row.cell field.toList).any fun c ↦ c.equals l := by
  rw [valueHolds]
  cases hc : row.cell field.toList with
  | none => rfl
  | some c => exact hasValue_eq_equals (scalar_of_cell hfield hc) hl

theorem valueHolds_multivalued {row : Row} (hfield : isMultivaluedKeywordField field = true)
    {v : Json} {l : Literal} (hl : literalOf v = some l) :
    valueHolds row field v = (row.cell field.toList).any fun c ↦ c.contains l := by
  rw [valueHolds]
  cases hc : row.cell field.toList with
  | none => rfl
  | some c => exact hasValue_eq_contains (texts_of_cell hfield hc) hl

/-- One of several values. -/
theorem any_valueHolds {row : Row} {holds : Cell → Literal → Bool} {vs : List Json}
    {ls : List Literal} (h : List.Forall₂ (fun v l ↦ valueHolds row field v =
      (row.cell field.toList).any fun c ↦ holds c l) vs ls) :
    vs.any (valueHolds row field) = (row.cell field.toList).any fun c ↦ ls.any (holds c) := by
  rw [← any_congr_of_forall₂ (q := fun l ↦ (row.cell field.toList).any fun c ↦ holds c l)
    (h.imp fun _ _ heq ↦ heq.symm)]
  cases row.cell field.toList with
  | none => exact List.any_eq_false.mpr fun _ _ ↦ Bool.false_ne_true
  | some c => rfl

theorem exists_items (henv : Prints env.numberText) {vs : List Json}
    (hvs : ∀ v ∈ vs, isItem field v = true) (hfloats : ∀ v ∈ vs, ∀ q ∈ v.floats, F64.IsValue q) :
    ∃ ls, List.Forall₂ Denotes (vs.filterMap (anyItem env)) ls ∧
      List.Forall₂ (fun v l ↦ literalOf v = some l) vs ls := by
  induction vs with
  | nil => exact ⟨[], .nil, .nil⟩
  | cons v vs ih =>
      rw [List.forall_mem_cons] at hvs hfloats
      obtain ⟨t, l, ht, hl, hdenotes⟩ := exists_anyItem henv hvs.1 hfloats.1
      obtain ⟨ls, hitems, hliterals⟩ := ih hvs.2 hfloats.2
      refine ⟨l :: ls, ?_, .cons hl hliterals⟩
      rw [List.filterMap_cons_some ht]
      exact .cons hdenotes hitems

theorem says_any (henv : Prints env.numberText) (hfield : isIdentifier field.toList = true)
    {vs : List Json}
    (hvs : ∀ v ∈ vs, isItem field v = true) (hfloats : ∀ v ∈ vs, ∀ q ∈ v.floats, F64.IsValue q) :
    ∃ t, buildMatch env field (.object [("any", .array vs)]) = some t ∧
      SaysRow analyzer (fun row ↦ vs.any (valueHolds row field)) t := by
  obtain ⟨ls, hitems, hliterals⟩ := exists_items henv hvs hfloats
  cases hmulti : isMultivaluedKeywordField field with
  | true =>
      refine ⟨_, (if_pos hmulti :), (says_arrayContainsAny hfield hitems).congr fun row _ ↦ ?_⟩
      exact (any_valueHolds (hliterals.imp fun _ _ hl ↦ valueHolds_multivalued hmulti hl)).symm
  | false =>
      refine ⟨_, (if_neg (Bool.eq_false_iff.mp hmulti) :),
        (says_isIn hfield hitems).congr fun row _ ↦ ?_⟩
      exact (any_valueHolds (hliterals.imp fun _ _ hl ↦ valueHolds_scalar hmulti hl)).symm

theorem says_value (henv : Prints env.numberText) (hfield : isIdentifier field.toList = true)
    {v : Json}
    (hv : isScalar field v = true) (hfloats : ∀ q ∈ v.floats, F64.IsValue q) :
    ∃ t, buildMatch env field (.object [("value", v)]) = some t ∧
      SaysRow analyzer (fun row ↦ valueHolds row field v) t := by
  have hscalar : ∀ {t l}, isMultivaluedKeywordField field = false → literalOf v = some l →
      Denotes t l → SaysRow analyzer (fun row ↦ valueHolds row field v)
        (binaryText field "==" t) := by
    intro t l hmulti hl ht
    refine (says_compare (c := .eq) hfield rfl rfl ht).congr fun row _ ↦ ?_
    exact (valueHolds_scalar hmulti hl).symm
  cases v with
  | string s =>
      cases hmulti : isMultivaluedKeywordField field with
      | true =>
          refine ⟨_, (if_pos hmulti :), (says_arrayContains hfield s).congr fun row _ ↦ ?_⟩
          exact (valueHolds_multivalued hmulti rfl).symm
      | false =>
          exact ⟨_, (if_neg (Bool.eq_false_iff.mp hmulti) :), hscalar hmulti rfl (denotes_quote s)⟩
  | number n =>
      have hmulti : isMultivaluedKeywordField field = false := by simpa [isScalar, isItem] using hv
      exact ⟨_, (if_neg (Bool.eq_false_iff.mp hmulti) :),
        hscalar hmulti rfl (readsNumerals.denotes_numberText henv hfloats)⟩
  | bool b =>
      have hmulti : isMultivaluedKeywordField field = false := by simpa [isScalar] using hv
      exact ⟨_, (if_neg (Bool.eq_false_iff.mp hmulti) :), hscalar hmulti rfl (denotes_bool b)⟩
  | null => cases hv
  | array _ => cases hv
  | object _ => cases hv

/-! ### Ranges -/

/-- The literal of a bound stands for its number. -/
theorem boundLiteral_cases (henv : Prints env.numberText) {v : Json}
    (hfloats : ∀ q ∈ v.floats, F64.IsValue q) :
    (boundLiteral env v = none ∧ boundValue env v = none) ∨
      ∃ t q, boundLiteral env v = some t ∧ boundValue env v = some q ∧
        Denotes t (.number q) := by
  cases v with
  | number n => exact .inr ⟨_, _, rfl, rfl, readsNumerals.denotes_numberText henv hfloats⟩
  | string s =>
      rw [boundLiteral, boundValue]
      cases env.datetimeToEpochSecs s with
      | none => exact .inl ⟨rfl, rfl⟩
      | some i => exact .inr ⟨_, _, rfl, rfl, readsNumerals.denotes_intText i⟩
  | null => exact .inl ⟨rfl, rfl⟩
  | bool _ => exact .inl ⟨rfl, rfl⟩
  | array _ => exact .inl ⟨rfl, rfl⟩
  | object _ => exact .inl ⟨rfl, rfl⟩

/-- The operator of a bound and the comparison it is. -/
abbrev SameBound := Lexer.SameOperator spelling readComparison

theorem sameBound : List.Forall₂ SameBound boundOps boundComparisons :=
  .cons ⟨rfl, rfl, rfl⟩ (.cons ⟨rfl, rfl, rfl⟩ (.cons ⟨rfl, rfl, rfl⟩ (.cons ⟨rfl, rfl, rfl⟩ .nil)))

/-- The clauses of the bounds that stand for a number. -/
theorem exists_boundClauses (henv : Prints env.numberText)
    (hfield : isIdentifier field.toList = true)
    {obj : List (String × Json)} (hfloats : ∀ q ∈ (Json.object obj).floats, F64.IsValue q)
    {ks : List (String × String)} {cs : List (String × Comparison)}
    (h : List.Forall₂ SameBound ks cs) :
    ∃ truths : List (Row → Bool),
      List.Forall₂ (SaysRow analyzer) truths (ks.filterMap fun k ↦
        ((Json.getEntry k.1 obj).bind (boundLiteral env)).map (binaryText field k.2)) ∧
      ∀ row, truths.all (· row) = cs.all (boundHolds env row field (.object obj)) := by
  induction h with
  | nil => exact ⟨[], .nil, fun _ ↦ rfl⟩
  | @cons k c ks cs hk _ ih =>
      obtain ⟨truths, htruths, heval⟩ := ih
      have hvalue : ((Json.getEntry k.1 obj).bind (boundLiteral env) = none ∧
          (Json.getEntry k.1 obj).bind (boundValue env) = none) ∨
          ∃ t q, (Json.getEntry k.1 obj).bind (boundLiteral env) = some t ∧
            (Json.getEntry k.1 obj).bind (boundValue env) = some q ∧ Denotes t (.number q) := by
        cases hget : Json.getEntry k.1 obj with
        | none => exact .inl ⟨rfl, rfl⟩
        | some v =>
            exact boundLiteral_cases henv fun q hq ↦
              hfloats q (Json.floats_subset_of_get (v := .object obj) hget hq)
      have hholds : ∀ row, boundHolds env row field (.object obj) c =
          ((Json.getEntry k.1 obj).bind (boundValue env)).all fun x ↦
            (row.cell field.toList).any fun cell ↦ c.2.holds cell (.number x) := by
        intro row
        rw [boundHolds, ← hk.key]
        rfl
      rcases hvalue with ⟨hnone, hunbounded⟩ | ⟨t, q, hsome, hbound, ht⟩
      · refine ⟨truths, ?_, fun row ↦ ?_⟩
        · rw [List.filterMap_cons_none (by rw [hnone]; rfl)]
          exact htruths
        · rw [List.all_cons, hholds, hunbounded, heval]
          rfl
      · refine ⟨(fun row ↦ (row.cell field.toList).any fun cell ↦
          c.2.holds cell (.number q)) :: truths, ?_, fun row ↦ ?_⟩
        · rw [List.filterMap_cons_some (by rw [hsome]; rfl)]
          exact .cons (says_compare hfield hk.lex hk.op ht) htruths
        · rw [List.all_cons, List.all_cons, hholds, hbound, heval]
          rfl

theorem toList_and : " && ".toList = ' ' :: ("&&".toList ++ [' ']) := rfl

theorem toList_or : " || ".toList = ' ' :: ("||".toList ++ [' ']) := rfl

theorem says_range (henv : Prints env.numberText) (hfield : isIdentifier field.toList = true)
    {obj : List (String × Json)} (hfloats : ∀ q ∈ (Json.object obj).floats, F64.IsValue q)
    (hbound : ∃ k ∈ boundOps, ((Json.getEntry k.1 obj).bind (boundValue env)).isSome = true) :
    ∃ t, buildRange env field (.object obj) = some t ∧
      SaysRow analyzer (fun row ↦
        boundComparisons.all (boundHolds env row field (.object obj))) t := by
  obtain ⟨truths, htruths, heval⟩ := exists_boundClauses henv hfield hfloats sameBound
  have hne : boundClauses env field obj ≠ [] := by
    obtain ⟨k, hk, hsome⟩ := hbound
    obtain ⟨q, hq⟩ := Option.isSome_iff_exists.mp hsome
    obtain ⟨v, hv, hvalue⟩ := Option.bind_eq_some_iff.mp hq
    have hliteral : ∃ t, boundLiteral env v = some t := by
      rcases boundLiteral_cases henv (v := v) (fun x hx ↦
        hfloats x (Json.floats_subset_of_get (v := .object obj) hv hx)) with ⟨-, hnone⟩ |
          ⟨t, -, ht, -⟩
      · rw [hnone] at hvalue
        cases hvalue
      · exact ⟨t, ht⟩
    obtain ⟨t, ht⟩ := hliteral
    refine List.ne_nil_of_mem (List.mem_filterMap.mpr ⟨k, hk, ?_⟩) (a := binaryText field k.2 t)
    rw [hv, Option.bind_some, ht, Option.map_some]
  refine ⟨parensAnd (boundClauses env field obj), if_neg (mt List.isEmpty_iff.mp hne), ?_⟩
  rw [parensAnd, toList_and]
  exact ((says_conj standard spells_and htruths hne).parens standard).congr fun row _ ↦ heval row

variable (analyzer) in
/-- The filter of a leaf is true of the rows the leaf is true of. -/
theorem exists_milvusFilter (henv : Prints env.numberText) {l : Leaf} (h : Readable env l) :
    ∃ t, buildMilvusFilter env l.field l.op l.criteria = some t ∧
      SaysRow analyzer (fun row ↦ leafHolds env analyzer row l) t := by
  obtain ⟨hwf, hfield, hfloats⟩ := h
  cases hwf with
  | any field vs hvs =>
      have hget : (Json.object [("any", .array vs)]).get "any" = some (.array vs) := rfl
      refine says_any henv hfield hvs fun v hv q hq ↦ hfloats q ?_
      exact Json.floats_subset_of_get hget (Json.floats_subset_of_elem hv hq)
  | text field text => exact ⟨_, rfl, says_textMatch hfield text⟩
  | value field v hv =>
      have hget : (Json.object [("value", v)]).get "value" = some v := rfl
      exact says_value henv hfield hv fun q hq ↦ hfloats q (Json.floats_subset_of_get hget hq)
  | range field obj hbound => exact says_range henv hfield hfloats hbound

end Leaves

/-! ## Trees -/

section Trees

variable (env : Env) (analyzer : Analyzer)

/-- A text that is true of the rows a tree is true of. -/
abbrev SaysTree (t : BoolTree Leaf) (b : Text) : Prop :=
  SaysRow analyzer (fun row ↦ t.eval (leafHolds env analyzer row)) b

/-- The same of the members of a group, of which there is one at least. -/
def SaysArm : Option (List (BoolTree Leaf)) → Option (List Text) → Prop :=
  Option.Rel fun ts bs ↦ ts ≠ [] ∧ List.Forall₂ (SaysTree env analyzer) ts bs

variable {env analyzer}

theorem says_joinAnd {ts : List (BoolTree Leaf)} {bs : List Text} (hne : ts ≠ [])
    (h : List.Forall₂ (SaysTree env analyzer) ts bs) :
    ∃ b, joinAnd bs = some b ∧ SaysTree env analyzer (.all ts) b := by
  have hbs : bs ≠ [] := by
    rintro rfl
    cases h
    exact hne rfl
  refine ⟨_, if_neg (mt List.isEmpty_iff.mp hbs), ?_⟩
  rw [toList_and]
  exact (says_conj standard spells_and h hbs).congr fun row _ ↦ (BoolTree.eval_all ts).symm

theorem says_parensAnd {ts : List (BoolTree Leaf)} {bs : List Text} (hne : ts ≠ [])
    (h : List.Forall₂ (SaysTree env analyzer) ts bs) :
    ¬bs.isEmpty = true ∧ SaysTree env analyzer (.all ts) (parensAnd bs) := by
  have hbs : bs ≠ [] := by
    rintro rfl
    cases h
    exact hne rfl
  refine ⟨mt List.isEmpty_iff.mp hbs, ?_⟩
  rw [parensAnd, toList_and]
  exact ((says_conj standard spells_and h hbs).parens standard).congr fun row _ ↦
    (BoolTree.eval_all ts).symm

theorem says_parensOr {ts : List (BoolTree Leaf)} {bs : List Text} (hne : ts ≠ [])
    (h : List.Forall₂ (SaysTree env analyzer) ts bs) :
    ¬bs.isEmpty = true ∧ SaysTree env analyzer (.any ts) (parensOr bs) := by
  have hbs : bs ≠ [] := by
    rintro rfl
    cases h
    exact hne rfl
  refine ⟨mt List.isEmpty_iff.mp hbs, ?_⟩
  rw [parensOr, toList_or]
  exact (says_disj standard spells_or h hbs).congr fun row _ ↦ (BoolTree.eval_any ts).symm

/-- A group is true of the rows its tree is true of. -/
theorem says_groupText {ts us : Option (List (BoolTree Leaf))} {t : BoolTree Leaf}
    {ands ors : Option (List Text)} (ht : groupTree ts us = some t)
    (hand : SaysArm env analyzer ts ands) (hor : SaysArm env analyzer us ors) :
    ∃ b, groupText ands ors = some b ∧ SaysTree env analyzer t b := by
  rw [groupText]
  rcases hand with ⟨hne, hts⟩ | _ <;> rcases hor with ⟨hne', hus⟩ | _
  · cases ht
    obtain ⟨hands, htoldAnd⟩ := says_parensAnd hne hts
    obtain ⟨hors, htoldOr⟩ := says_parensOr hne' hus
    dsimp only [Option.getD_some]
    rw [if_neg hands, if_neg hors]
    exact says_joinAnd (List.cons_ne_nil _ _) (.cons htoldAnd (.cons htoldOr .nil))
  · cases ht
    obtain ⟨hands, htold⟩ := says_parensAnd hne hts
    dsimp only [Option.getD_some, Option.getD_none]
    rw [if_neg hands]
    exact ⟨_, congrArg some List.intercalate_singleton, htold⟩
  · cases ht
    obtain ⟨hors, htold⟩ := says_parensOr hne' hus
    dsimp only [Option.getD_some, Option.getD_none]
    rw [if_neg hors]
    exact ⟨_, congrArg some List.intercalate_singleton, htold⟩
  · cases ht

variable (analyzer) in
/-- The leaves of an entry are joined to what the entry says. -/
theorem says_fields (henv : Prints env.numberText) {ls : List Leaf} (hne : ls ≠ [])
    (h : ∀ l ∈ ls, Readable env l) :
    ∃ b, joinAnd (ls.filterMap fun l ↦ buildMilvusFilter env l.field l.op l.criteria) = some b ∧
      SaysTree env analyzer (.all (ls.map .leaf)) b := by
  refine says_joinAnd (mt List.map_eq_nil_iff.mp hne) ?_
  rw [List.forall₂_map_left_iff]
  clear hne
  induction ls with
  | nil => exact .nil
  | cons l ls ih =>
      rw [List.forall_mem_cons] at h
      obtain ⟨t, ht, htold⟩ := exists_milvusFilter analyzer henv h.1
      have hcons := List.filterMap_cons_some (f := fun l : Leaf ↦
        buildMilvusFilter env l.field l.op l.criteria) (l := ls) ht
      rw [hcons]
      exact .cons (htold.congr fun row _ ↦ (BoolTree.eval_leaf _).symm) (ih h.2)

variable (analyzer) in
theorem follows (henv : Prints env.numberText) :
    (milvusBuilder env).Follows (Readable env)
      (fun t x ↦ ∃ b, x.run = [b] ∧ SaysTree env analyzer t b)
      (fun ts x ↦ List.Forall₂ (SaysTree env analyzer) ts x.run)
      (fun ts x ↦ SaysArm env analyzer ts x.run) where
  isGroup _ := rfl
  leaf hnot hkeys ht hP := by
    obtain ⟨-, hne, rfl⟩ := ofEntry_fields hnot ht
    obtain ⟨b, hb, htold⟩ := says_fields analyzer henv hne fun l hl ↦ hP l (by
      rw [BoolTree.leaves_all, List.flatMap_map]
      exact List.mem_flatMap.mpr ⟨l, hl, by simp⟩)
    refine ⟨b, ?_, htold⟩
    show (joinAnd _).toList = [b]
    rw [hb, Option.toList_some]
  nil := .nil
  cons := by
    rintro t ts x xs ⟨b, hb, htold⟩ hxs
    show List.Forall₂ _ _ (x.run ++ xs.run)
    rw [hb]
    exact .cons htold hxs
  absent := .none
  array hts hx := .some ⟨ne_nil_of_ofEntries hts, hx⟩
  group hg _ hx hy := by
    obtain ⟨b, hb, htold⟩ := says_groupText hg.tree hx hy
    refine ⟨'(' :: (b ++ [')']), ?_, htold.parens standard⟩
    exact congrArg (fun o : Option Text ↦ (o.map fun f ↦ '(' :: (f ++ [')'])).toList) hb

end Trees

/-- The expression of a condition tree is read as a condition that is true of exactly the rows
the tree is true of, and every string stands in it as one literal. -/
theorem parseMilvusConditions_faithful {env : Env} (henv : Prints env.numberText)
    {conditions : Json}
    {t : BoolTree Leaf} (hkeys : conditions.keysDistinct = true)
    (ht : ofConditions conditions = some t) (hleaves : ∀ l ∈ t.leaves, Readable env l) :
    (∃ s F, parseMilvusConditions env conditions = some s ∧ parse language s = some F ∧
      ∀ (analyzer : Analyzer) (row : Row),
        F.eval (Atom.holds analyzer row) = t.eval (leafHolds env analyzer row)) ∧
    ∀ s : String, Lexer.lex spelling (quoteMilvusString s) = some [.quoted '"' s.toList] := by
  refine ⟨?_, lex_quoteMilvusString⟩
  have hread : ∀ analyzer, ∃ s F, parseMilvusConditions env conditions = some s ∧
      parse language s = some F ∧
      ∀ row : Row, F.eval (Atom.holds analyzer row) = t.eval (leafHolds env analyzer row) := by
    intro analyzer
    obtain ⟨obj, ts, us, rfl, hg, hand, hor⟩ :=
      (follows analyzer henv).arms hkeys ht hleaves
    obtain ⟨s, hs, htold⟩ := says_groupText hg.tree hand hor
    obtain ⟨F, hF, heval⟩ := htold.parse
    refine ⟨s, F, ?_, hF, fun row ↦ heval row trivial⟩
    rw [parseMilvusConditions, Json.asObject]
    dsimp only
    rw [if_neg (mt List.isEmpty_iff.mp (ne_nil_of_ofEntry hg.entry))]
    exact hs
  -- the condition that is read does not depend on the analyzer
  obtain ⟨s, F, hs, hF, -⟩ := hread fun _ _ ↦ false
  refine ⟨s, F, hs, hF, fun analyzer row ↦ ?_⟩
  obtain ⟨s', F', hs', hF', heval⟩ := hread analyzer
  obtain rfl : s' = s := Option.some.inj (hs'.symm.trans hs)
  obtain rfl : F' = F := Option.some.inj (hF'.symm.trans hF)
  exact heval row

/-! ## Examples -/

section Examples

def plainEnv : Env := ⟨fun _ ↦ none, printNumber⟩

/-- A label with a quote and a backslash, beside an entry of two operations. -/
def labelOrSize : Json :=
  .object [("or", .array
    [.object [("labels", .object [("match", .object [("value", .string "a\"\\")])])],
      .object [("size", .object [("match", .object [("any", .array
        [.ofNat 3, .number (.float (3 / 2))])]), ("range", .object [("gte", .ofNat 2)])])]])]

def labelOrSizeTree : BoolTree Leaf :=
  .any [.all [.leaf ⟨"labels", "match", .object [("value", .string "a\"\\")]⟩],
    .all [.leaf ⟨"size", "match", .object [("any", .array [.ofNat 3, .number (.float (3 / 2))])]⟩,
      .leaf ⟨"size", "range", .object [("gte", .ofNat 2)]⟩]]

theorem parseMilvusConditions_faithful_labelOrSize :
    (∃ s F, parseMilvusConditions plainEnv labelOrSize = some s ∧ parse language s = some F ∧
      ∀ (analyzer : Analyzer) (row : Row), F.eval (Atom.holds analyzer row) =
        labelOrSizeTree.eval (leafHolds plainEnv analyzer row)) ∧
    ∀ s : String, Lexer.lex spelling (quoteMilvusString s) = some [.quoted '"' s.toList] := by
  refine parseMilvusConditions_faithful prints_printNumber (by decide) rfl ?_
  have hleaves : labelOrSizeTree.leaves =
      [⟨"labels", "match", .object [("value", .string "a\"\\")]⟩,
        ⟨"size", "match", .object [("any", .array [.ofNat 3, .number (.float (3 / 2))])]⟩,
        ⟨"size", "range", .object [("gte", .ofNat 2)]⟩] := rfl
  rw [hleaves, List.forall_mem_cons, List.forall_mem_cons, List.forall_mem_singleton]
  refine ⟨⟨.value _ _ rfl, by decide, ?_⟩, ⟨.any _ _ ?_, by decide, ?_⟩,
    ⟨.range _ _ ⟨("gte", ">="), ?_, rfl⟩, by decide, ?_⟩⟩
  · exact List.forall_mem_nil _
  · rw [List.forall_mem_cons, List.forall_mem_singleton]
    exact ⟨rfl, rfl⟩
  · exact List.forall_mem_singleton.mpr (by decide +kernel)
  · exact List.mem_cons_of_mem _
      (List.mem_cons_of_mem _ (List.mem_cons_of_mem _ List.mem_cons_self))
  · exact List.forall_mem_nil _

end Examples

end VectorDbBenchmark.Milvus
