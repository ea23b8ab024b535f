import VectorDbBenchmark.ConditionTree
import VectorDbBenchmark.Kividb.Rendered

/-!
# What the clauses of one operation say

The meaning of an operation on a field, over documents whose numbers are binary64 values,
and that the clauses the builder writes for it are read with this meaning.
-/

namespace VectorDbBenchmark.Kividb

open Kit Redis

/-! ## Meaning -/

/-- What filters ask of a document. -/
structure Document where
  hasTag : Text → Text → Bool
  number : Text → Option ℚ
  hasTerm : Text → Text → Bool
  isValue : ∀ {field : Text} {q : ℚ}, number field = some q → F64.IsValue q

section Meaning

variable (env : Env) (d : Document)

/-- The truth of a clause. -/
def clauseHolds : QueryLeaf → Bool
  | .tag field values => values.any (d.hasTag field)
  | .numeric field lo hi => (d.number field).any fun q ↦ lo.below (.fin q) && hi.above (.fin q)
  | .text field term => d.hasTerm field term

/-- A value that is looked up as a tag. -/
def asTag : Json → Option Text
  | .bool b => some (if b then "true".toList else "false".toList)
  | .string s => some s.toList
  | _ => none

/-- A value that is compared with numbers, which are doubles. -/
def asNumber (v : Json) : Option F64 := v.asNumber fun i ↦ .ofRat i

/-- Whether the document has this value in a field. -/
def valueHolds (field : Text) (v : Json) : Bool :=
  match asTag v with
  | some tag => d.hasTag field tag
  | none => (asNumber v).any fun x ↦ (d.number field).any fun q ↦ decide (x = .fin q)

def matchHolds (field : Text) : Json → Bool :=
  matchTruth (List.any · (valueHolds d field))
    (fun text ↦ !(trim text.toList).isEmpty && d.hasTerm field (trim text.toList))
    (valueHolds d field)

/-- The number a bound stands for: itself, that of a datetime, or that of a numeral. -/
def boundNumber (raw : Json) : Option F64 :=
  (toNumber env.numbers raw).bind fun
    | .int i => some (.ofRat i)
    | .float f => some f
    | .str _ => none

/-- What a range asks for, where `compare` says what a bound asks of a number. -/
def boundHolds (field : Text) (criteria : Json) (key : String)
    (compare : F64 → F64 → Bool) : Bool :=
  match criteria.get key with
  | none => true
  | some raw => (boundNumber env raw).any fun x ↦ (d.number field).any fun q ↦ compare (.fin q) x

def rangeHolds (field : Text) (criteria : Json) : Bool :=
  boundHolds env d field criteria "lt" F64.lt &&
  boundHolds env d field criteria "gt" (fun q x ↦ x.lt q) &&
  boundHolds env d field criteria "lte" F64.le &&
  boundHolds env d field criteria "gte" fun q x ↦ x.le q

/-- The truth of an operation. -/
def operationHolds (l : Leaf) : Bool :=
  match l.op with
  | "match" => matchHolds d l.field.toList l.criteria
  | "range" => rangeHolds env d l.field.toList l.criteria
  | _ => false

end Meaning

/-- No document has the word that stands for an impossible value. -/
def Document.NeverFree (d : Document) : Prop :=
  ∀ field, d.hasTag field neverMatch = false ∧ d.hasTerm field neverMatch = false

/-- What the builder relies on of its environment. -/
structure Env.Lawful (env : Env) : Prop where
  paren : env.isAlphanumeric ')' = false
  parseF64 : ∀ s f, env.numbers.parseF64 s = some f → f.Valid

/-! ## Reading -/

/-- Underscores stand in tags as they are. -/
def lenient (c : Char) : Bool := c = '_'

/-- The filters that are read with underscores as they are. -/
def readFilter (t : Text) : Option (Formula QueryLeaf) :=
  QuerySyntax.parse (leafMachine (punctuated lenient)) t

/-- The clause a text is read as. -/
def readClause : Text → Option QueryLeaf
  | [] => none
  | c :: t =>
    if c = '@' then
      QuerySyntax.readLeaf (leafMachine (punctuated lenient)) (leafMachine (punctuated lenient)).init t
    else none

/-- The readers of clauses: with underscores as they are, and any reader when there is no
clause with a word that stands for an impossible tag. -/
def Readers (strict : Prop) (m : QuerySyntax.LeafMachine QueryLeaf LeafState) : Prop :=
  ∃ bare, (bare = lenient ∨ strict) ∧ m = leafMachine (punctuated bare)

/-- The values an operation looks up as tags. -/
def tagValues (l : Leaf) : List Text :=
  match (l.criteria.get "any").bind Json.asArray with
  | some any => any.filterMap asTag
  | none => ((l.criteria.get "value").bind asTag).toList

/-- Whether an operation asks for one of no values. -/
def asksForNone (l : Leaf) : Prop :=
  l.op = "match" ∧ (l.criteria.get "any").bind Json.asArray = some []

/-- A clause has no tag but one an operation looks up. -/
def FromOperations (ls : List Leaf) : QueryLeaf → Prop
  | .tag field values =>
    values = [neverMatch] ∨ ∃ l ∈ ls, ∃ v ∈ tagValues l, l.field.toList = field ∧ values = [v]
  | _ => True

section Clauses

variable {strict : Prop} {P : QueryLeaf → Prop} {field : String} {d : Document}

/-- The clauses the readers read alike. -/
abbrev ClauseReads (strict : Prop) (P : QueryLeaf → Prop) : Text → Prop :=
  LeafReads (Readers strict) readClause P

theorem clauseReads {t : Text} {l : QueryLeaf} (hP : P l)
    (h : ∀ bare, bare = lenient ∨ strict →
      QuerySyntax.readLeaf (leafMachine (punctuated bare))
        (leafMachine (punctuated bare)).init t = some l) :
    readClause ('@' :: t) = some l ∧ ClauseReads strict P ('@' :: t) := by
  have hread : readClause ('@' :: t) = some l := by
    rw [readClause, if_pos rfl]
    exact h _ (.inl rfl)
  refine ⟨hread, l, hread, hP, ?_⟩
  rintro m ⟨bare, hbare, rfl⟩
  exact QuerySyntax.isItem_leaf startOk_leafMachine (h bare hbare)

theorem clauseReads_tag (hfield : PlainName field.toList) {v : Text}
    (hP : P (.tag field.toList [v])) :
    readClause (tagText field (escapeTagValue v)) = some (.tag field.toList [v]) ∧
      ClauseReads strict P (tagText field (escapeTagValue v)) := by
  refine clauseReads hP fun bare _ ↦ readLeaf_tag ?_ (forall_mem_of_all (by decide)) hfield v
  intro c hc
  change needsEscape bare c = true at hc
  rw [needsEscape, Bool.or_eq_true, Bool.and_eq_true] at hc
  rw [Bool.or_eq_true]
  exact hc.imp_left And.left

/-- A tag without punctuation stands for itself. -/
theorem escapeTagValue_of_forall {v : Text}
    (h : ∀ c ∈ v, (isAsciiPunctuation c || c = ' ') = false) :
    escapeTagValue v = v := escapeBy_of_forall h

theorem clauseReads_never (hfield : PlainName field.toList) (hstrict : ¬strict)
    (hP : P (.tag field.toList [neverMatch])) :
    readClause (tagText field neverMatch) = some (.tag field.toList [neverMatch]) ∧
      ClauseReads strict P (tagText field neverMatch) := by
  have hplain : escapeBy (needsEscape lenient) neverMatch = neverMatch := by decide
  refine clauseReads hP fun bare hbare ↦ ?_
  rw [hbare.resolve_right hstrict]
  have htag : QuerySyntax.readLeaf (leafMachine (punctuated lenient))
      (leafMachine (punctuated lenient)).init
      (field.toList ++ ':' :: '\x7b' :: (escapeBy (needsEscape lenient) neverMatch ++ ['\x7d'])) =
      some (.tag field.toList [neverMatch]) :=
    readLeaf_tag (fun _ h ↦ h) (forall_mem_of_all (by decide)) hfield _
  rwa [hplain] at htag

theorem clauseReads_term (hfield : PlainName field.toList) {term : Text} (hterm : ')' ∉ term)
    (hP : P (.text field.toList term)) :
    readClause (termText field term) = some (.text field.toList term) ∧
      ClauseReads strict P (termText field term) :=
  clauseReads hP fun _ _ ↦ readLeaf_text rfl hfield hterm

theorem numeral_intText (i : ℤ) : Numeral F64.parse (intText i) (.ofRat i) where
  read := by
    rw [← decimalText_intCast]
    exact F64.parse_decimalText (isDecimal_intCast i)
  plain := by
    rw [List.forall_mem_cons, List.forall_mem_cons, List.forall_mem_singleton]
    exact ⟨notMem_intText rfl, notMem_intText rfl, notMem_intText rfl⟩

theorem numeral_valid {f : F64} (h : f.Valid) : Numeral F64.parse f.display f := by
  cases f with
  | nan => exact ⟨rfl, forall_mem_of_all (by decide)⟩
  | negInf => exact ⟨rfl, forall_mem_of_all (by decide)⟩
  | posInf => exact ⟨rfl, forall_mem_of_all (by decide)⟩
  | fin q => exact numeral_display h

theorem clauseReads_interval (hfield : PlainName field.toList) {lo hi : Text} {x y : F64}
    (hlo : Numeral F64.parse lo x) (hhi : Numeral F64.parse hi y)
    (hP : P (.numeric field.toList ⟨x, false⟩ ⟨y, false⟩)) :
    readClause (intervalText field lo hi) = some (.numeric field.toList ⟨x, false⟩ ⟨y, false⟩) ∧
      ClauseReads strict P (intervalText field lo hi) :=
  clauseReads hP fun _ _ ↦ readLeaf_numeric hfield hlo.inclusive hhi.inclusive

end Clauses

/-! ## Operations -/

section Operations

variable {env : Env} {strict : Prop} {P : QueryLeaf → Prop} {field : String} {criteria : Json}

/-- A tree of clauses that are read, with this truth at every document. -/
structure Says (strict : Prop) (P : QueryLeaf → Prop) (n : Node) (truth : Document → Bool) :
    Prop where
  wide : n.Wide (ClauseReads strict P)
  truth : ∀ d, d.NeverFree → n.eval (valuation readClause (clauseHolds d)) = truth d

theorem says_leaf {t : Text} {l : QueryLeaf} {truth : Document → Bool}
    (h : readClause t = some l ∧ ClauseReads strict P t)
    (htruth : ∀ d, d.NeverFree → clauseHolds d l = truth d) : Says strict P (.leaf t) truth where
  wide := .leaf h.2
  truth d hd := by
    rw [BoolTree.eval_leaf, valuation, h.1]
    exact htruth d hd

/-- Trees that say one thing each. -/
abbrev SaysEach {α : Type} (strict : Prop) (P : QueryLeaf → Prop) (truth : α → Document → Bool) :
    List α → List Node → Prop := List.Forall₂ fun x n ↦ Says strict P n (truth x)

theorem says_nodeAnd {α : Type} {xs : List α} {ns : List Node} {truth : α → Document → Bool}
    (hne : ns ≠ []) (h : SaysEach strict P truth xs ns) :
    Says strict P (nodeAnd ns) fun d ↦ xs.all (truth · d) where
  wide := BoolTree.Wide.collapse (fun _ ↦ .all) hne fun n hn ↦ by
    obtain ⟨x, -, hx⟩ := exists_of_mem_right h hn
    exact hx.wide
  truth d hd := by
    rw [nodeAnd, BoolTree.eval_collapse_all]
    exact all_congr_of_forall₂ (h.imp fun x n hx ↦ hx.truth d hd)

theorem says_nodeOr {α : Type} {xs : List α} {ns : List Node} {truth : α → Document → Bool}
    (hne : ns ≠ []) (h : SaysEach strict P truth xs ns) :
    Says strict P (nodeOr ns) fun d ↦ xs.any (truth · d) where
  wide := BoolTree.Wide.collapse (fun _ ↦ .any) hne fun n hn ↦ by
    obtain ⟨x, -, hx⟩ := exists_of_mem_right h hn
    exact hx.wide
  truth d hd := by
    rw [nodeOr, BoolTree.eval_collapse_any]
    exact any_congr_of_forall₂ (h.imp fun x n hx ↦ hx.truth d hd)

/-! ### Values -/

/-- Both bounds of an interval at one number. -/
theorem le_and_le (x : F64) (q : ℚ) :
    (x.le (.fin q) && (F64.fin q).le x) = decide (x = .fin q) := by
  cases x with
  | fin p =>
      simp only [F64.le, F64.fin.injEq]
      rw [← Bool.decide_and, decide_eq_decide]
      exact ⟨fun h ↦ le_antisymm h.1 h.2, fun h ↦ ⟨h.le, h.ge⟩⟩
  | nan => rfl
  | negInf => rfl
  | posInf => rfl

theorem clauseHolds_tag (d : Document) (field v : Text) :
    clauseHolds d (.tag field [v]) = d.hasTag field v := by
  rw [clauseHolds, List.any_cons, List.any_nil, Bool.or_false]

/-- A clause of one number. -/
theorem clauseHolds_point (d : Document) (field : Text) (x : F64) :
    clauseHolds d (.numeric field ⟨x, false⟩ ⟨x, false⟩) =
      (d.number field).any fun q ↦ decide (x = .fin q) := by
  rw [clauseHolds]
  refine congrArg (d.number field).any (funext fun q ↦ ?_)
  exact le_and_le x q

theorem valueHolds_number (d : Document) (field : Text) {num : Number} {x : F64}
    (h : asNumber (.number num) = some x) :
    valueHolds d field (.number num) = (d.number field).any fun q ↦ decide (x = .fin q) := by
  show ((asNumber (.number num)).any fun x ↦ _) = _
  rw [h, Option.any_some]

/-- A tag that an operation looks up. -/
theorem fromOperations_tag {ls : List Leaf} {l : Leaf} (hl : l ∈ ls) {v : Text}
    (hv : v ∈ tagValues l) : FromOperations ls (.tag l.field.toList [v]) :=
  .inr ⟨l, hl, v, hv, rfl, rfl⟩

theorem says_tag (hfield : PlainName field.toList) {v : Text} (hP : P (.tag field.toList [v])) :
    Says strict P (.leaf (tagText field (escapeTagValue v))) fun d ↦ d.hasTag field.toList v :=
  says_leaf (clauseReads_tag hfield hP) fun d _ ↦ clauseHolds_tag d _ _

theorem says_point (hfield : PlainName field.toList)
    (hP : ∀ x y, P (.numeric field.toList x y)) {t : Text} {x : F64} (ht : Numeral F64.parse t x) :
    Says strict P (.leaf (intervalText field t t)) fun d ↦
      (d.number field.toList).any fun q ↦ decide (x = .fin q) :=
  says_leaf (clauseReads_interval hfield ht ht (hP _ _)) fun d _ ↦ clauseHolds_point d _ x

/-- What is written for a tag. -/
theorem eq_of_tagLiteral {s : String} {tagsSupported : Bool} {literal : Text}
    (h : tagLiteral env field s tagsSupported = .ok literal) :
    literal = escapeTagValue s.toList := by
  rw [tagLiteral] at h
  split_ifs at h
  split at h
  · cases h
  · cases h
    rfl

/-- A float of a value is a binary64 value. -/
theorem valid_asF64 {v : Json} {f : F64} (hv : ∀ q ∈ v.floats, F64.IsValue q)
    (h : v.asF64 = some f) : f.Valid := by
  cases v with
  | number n =>
      cases n with
      | posInt n hn =>
          cases h
          exact F64.valid_ofInt (by omega)
      | negInt i hi =>
          cases h
          exact F64.valid_ofInt (by omega)
      | float q =>
          cases h
          refine hv q ?_
          rw [Json.floats]
          exact List.mem_singleton_self q
  | null => cases h
  | bool _ => cases h
  | string _ => cases h
  | array _ => cases h
  | object _ => cases h

variable {ls : List Leaf} {l : Leaf} {tagsSupported : Bool} {n : Node}

/-- The clause of one value is true of the documents that have the value. -/
theorem says_buildExactMatch (hl : l ∈ ls) (hfield : PlainName l.field.toList)
    (hfloats : ∀ q ∈ l.criteria.floats, F64.IsValue q)
    (hany : (l.criteria.get "any").bind Json.asArray = none)
    (h : buildExactMatch env l.field l.criteria tagsSupported = .ok n) :
    Says strict (FromOperations ls) n fun d ↦
      (l.criteria.get "value").any (valueHolds d l.field.toList) := by
  rw [buildExactMatch] at h
  rcases hvalue : l.criteria.get "value" with _ | value
  · rw [hvalue] at h
    cases h
  · rw [hvalue] at h
    have htags : ∀ {v}, asTag value = some v → v ∈ tagValues l := by
      intro v hv
      rw [tagValues, hany, hvalue]
      exact Option.mem_toList.mpr hv
    have hf : ∀ q ∈ value.floats, F64.IsValue q := fun q hq ↦
      hfloats q (Json.floats_subset_of_get hvalue hq)
    cases value with
    | bool b =>
        cases h
        have htag : Says strict (FromOperations ls) _ _ :=
          says_tag hfield (fromOperations_tag hl (htags rfl))
        rwa [escapeTagValue_of_forall (forall_mem_of_all (by cases b <;> decide))] at htag
    | string s =>
        obtain ⟨literal, hliteral, rfl⟩ := map_eq_ok.mp h
        rw [eq_of_tagLiteral hliteral]
        exact says_tag hfield (fromOperations_tag hl (htags rfl))
    | number num =>
        have hpoint : ∀ {t x}, Numeral F64.parse t x → asNumber (.number num) = some x →
            Says strict (FromOperations ls) (.leaf (intervalText l.field t t)) fun d ↦
              (some (Json.number num)).any (valueHolds d l.field.toList) := by
          intro t x ht hx
          have htold : Says strict (FromOperations ls) _ _ :=
            says_point hfield (fun _ _ ↦ trivial) ht
          refine ⟨htold.wide, fun d hd ↦ ?_⟩
          rw [htold.truth d hd, Option.any_some, valueHolds_number d _ hx]
        rcases hi : num.asI64 with _ | i
        · have hi' : (Json.number num).asI64 = none := hi
          rcases hfl : num.asF64 with _ | f
          · have hfl' : (Json.number num).asF64 = none := hfl
            dsimp only [Json.asBool, Json.asStr] at h
            rw [hi', hfl'] at h
            cases h
          · have hfl' : (Json.number num).asF64 = some f := hfl
            dsimp only [Json.asBool, Json.asStr] at h
            rw [hi', hfl'] at h
            cases h
            refine hpoint (numeral_valid (valid_asF64 hf hfl')) ?_
            rw [asNumber, Json.asNumber, hi']
            exact hfl'
        · have hi' : (Json.number num).asI64 = some i := hi
          dsimp only [Json.asBool, Json.asStr] at h
          rw [hi'] at h
          cases h
          refine hpoint (numeral_intText i) ?_
          rw [asNumber, Json.asNumber, hi']
    | null => cases h
    | array _ => cases h
    | object _ => cases h

/-- The clauses of a list of strings say one value each. -/
theorem says_stringClauses (hfield : PlainName l.field.toList) {vs : List Json} {ns : List Node}
    (hP : ∀ v ∈ vs, ∀ tag, asTag v = some tag → FromOperations ls (.tag l.field.toList [tag]))
    (h : stringClauses env l.field tagsSupported vs = .ok ns) :
    SaysEach strict (FromOperations ls) (fun v d ↦ valueHolds d l.field.toList v) vs ns := by
  induction vs generalizing ns with
  | nil =>
      cases h
      exact .nil
  | cons v vs ih =>
      rw [List.forall_mem_cons] at hP
      rw [stringClauses] at h
      split at h
      · cases h
      · next s hs =>
          obtain ⟨literal, hliteral, h⟩ := bind_eq_ok.mp h
          obtain ⟨clauses, hclauses, h⟩ := bind_eq_ok.mp h
          cases h
          have hv : v = .string s := by
            cases v <;> cases hs
            rfl
          subst hv
          rw [eq_of_tagLiteral hliteral]
          exact .cons (says_tag hfield (hP.1 _ rfl)) (ih hP.2 hclauses)

/-- The clauses of a list of integers say one value each. -/
theorem says_intClauses (hfield : PlainName l.field.toList) {vs : List Json}
    (hvs : ∀ v ∈ vs, v.asI64.isSome = true) :
    SaysEach strict (FromOperations ls) (fun v d ↦ valueHolds d l.field.toList v) vs
      ((vs.filterMap Json.asI64).map fun i ↦
        .leaf (intervalText l.field (intText i) (intText i))) := by
  induction vs with
  | nil => exact .nil
  | cons v vs ih =>
      rw [List.forall_mem_cons] at hvs
      obtain ⟨i, hi⟩ := Option.isSome_iff_exists.mp hvs.1
      rw [List.filterMap_cons_some hi, List.map_cons]
      refine .cons ?_ (ih hvs.2)
      cases v with
      | number num =>
          have hpoint : Says strict (FromOperations ls) _ _ :=
            says_point hfield (fun _ _ ↦ trivial) (numeral_intText i)
          refine ⟨hpoint.wide, fun d hd ↦ ?_⟩
          have hnumber : asNumber (.number num) = some (.ofRat i) := by
            rw [asNumber, Json.asNumber, hi]
          exact (hpoint.truth d hd).trans (valueHolds_number d _ hnumber).symm
      | null => cases hi
      | bool _ => cases hi
      | string _ => cases hi
      | array _ => cases hi
      | object _ => cases hi

theorem says_buildMatchAny (hl : l ∈ ls) (hfield : PlainName l.field.toList) (hop : l.op = "match")
    (hstrict : strict → ∀ l ∈ ls, ¬asksForNone l) {any : List Json}
    (hany : (l.criteria.get "any").bind Json.asArray = some any)
    (h : buildMatchAny env l.field any tagsSupported = .ok n) :
    Says strict (FromOperations ls) n fun d ↦ any.any (valueHolds d l.field.toList) := by
  rw [buildMatchAny] at h
  split_ifs at h with hints
  · cases h
    rw [Bool.and_eq_true, Bool.not_eq_true', List.isEmpty_eq_false_iff, List.all_eq_true] at hints
    have htold : SaysEach strict (FromOperations ls) _ any _ := says_intClauses hfield hints.2
    refine says_nodeOr (fun hnil ↦ hints.1 ?_) htold
    rw [← List.length_eq_zero_iff, htold.length_eq, hnil]
    rfl
  · obtain ⟨clauses, hclauses, h⟩ := bind_eq_ok.mp h
    have htold : SaysEach strict (FromOperations ls) _ any clauses :=
      says_stringClauses hfield (fun v hv tag htag ↦ fromOperations_tag hl ?_) hclauses
    · split_ifs at h with hempty
      · cases h
        rw [List.isEmpty_iff] at hempty
        rw [hempty] at htold
        cases htold
        refine says_leaf (clauseReads_never hfield (fun hs ↦ hstrict hs l hl ⟨hop, hany⟩)
          (.inl rfl)) ?_
        intro d hd
        rw [clauseHolds_tag, (hd l.field.toList).1]
        rfl
      · cases h
        exact says_nodeOr (mt List.isEmpty_iff.mpr hempty) htold
    · rw [tagValues, hany]
      exact List.mem_filterMap.mpr ⟨v, hv, htag⟩

theorem says_buildText (henv : env.Lawful) (hfield : PlainName l.field.toList) {text : String}
    (h : buildText env l.field text = .ok n) :
    Says strict (FromOperations ls) n fun d ↦
      !(trim text.toList).isEmpty && d.hasTerm l.field.toList (trim text.toList) := by
  rw [buildText] at h
  split_ifs at h with hempty hwords halnum
  · cases h
    refine says_leaf (clauseReads_term hfield (by decide) trivial) fun d hd ↦ ?_
    rw [hempty]
    exact (hd l.field.toList).2
  · cases h
    have hterm : ')' ∉ trim text.toList := by
      intro hmem
      rw [Bool.not_eq_true', Bool.not_eq_false, List.all_eq_true] at halnum
      exact absurd (halnum _ hmem) (by rw [henv.paren]; exact Bool.false_ne_true)
    refine says_leaf (clauseReads_term hfield hterm trivial) fun d _ ↦ ?_
    rw [Bool.not_eq_true] at hempty
    rw [hempty]
    rfl

/-! ### Ranges -/

/-- The value of a bound. -/
def Bound.number : Bound → F64
  | .int i => .ofRat i
  | .float f => f

/-- A bound that is a float has a binary64 value. -/
def Bound.Valid : Bound → Prop
  | .int _ => True
  | .float f => f.Valid

theorem numberBound_eq_ok (henv : env.Lawful) {key : String} {raw : Json} {bound : Bound}
    (hraw : ∀ q ∈ raw.floats, F64.IsValue q) (h : numberBound env field key raw = .ok bound) :
    boundNumber env raw = some bound.number ∧ bound.Valid := by
  rw [numberBound] at h
  rw [boundNumber, toNumber]
  cases hi : raw.asI64 with
  | some i =>
      rw [hi] at h
      cases h
      exact ⟨rfl, trivial⟩
  | none =>
      rw [hi] at h
      cases hf : raw.asF64 with
      | some f =>
          rw [hf] at h
          cases h
          exact ⟨rfl, valid_asF64 hraw hf⟩
      | none =>
          rw [hf] at h
          cases hs : raw.asStr with
          | none =>
              rw [hs] at h
              cases h
          | some s =>
              rw [hs] at h
              dsimp only [Option.bind_eq_bind, Option.bind_some] at h ⊢
              cases hepoch : env.numbers.datetimeToEpochSecs s with
              | some epoch =>
                  rw [hepoch] at h
                  cases h
                  exact ⟨rfl, trivial⟩
              | none =>
                  rw [hepoch] at h
                  dsimp only at h ⊢
                  cases hint : parseI64 s.toList with
                  | some i =>
                      rw [hint] at h
                      cases h
                      exact ⟨rfl, trivial⟩
                  | none =>
                      rw [hint] at h
                      dsimp only at h ⊢
                      cases hparse : env.numbers.parseF64 s with
                      | some f =>
                          rw [hparse] at h
                          cases h
                          exact ⟨rfl, henv.parseF64 _ _ hparse⟩
                      | none =>
                          rw [hparse] at h
                          cases h

/-- What a bound asks of a number. -/
def BoundKey.compare (k : BoundKey) (q x : F64) : Bool :=
  if k.isUpper then if k.exclusive then q.lt x else q.le x
  else if k.exclusive then x.lt q else x.le q

/-- The end of the interval of a bound. -/
theorem exists_numeral {k : BoundKey} {bound : Bound} {t : Text} (hvalid : bound.Valid)
    (h : boundText field k bound = .ok t) :
    ∃ y, Numeral F64.parse t y ∧ ∀ q, F64.IsValue q →
      (if k.isUpper then (F64.fin q).le y else y.le (.fin q)) =
        k.compare (.fin q) bound.number := by
  have hneighbour : ∀ f : F64, f.Valid → k.exclusive = true →
      ∃ y, Numeral F64.parse (neighbour k.isUpper f) y ∧ ∀ q, F64.IsValue q →
        (if k.isUpper then (F64.fin q).le y else y.le (.fin q)) = k.compare (.fin q) f := by
    intro f hf hexclusive
    rw [neighbour]
    split_ifs with hupper
    · refine ⟨_, numeral_valid hf.nextDown, fun q hq ↦ ?_⟩
      rw [BoundKey.compare, if_pos hupper, if_pos hexclusive]
      exact F64.le_nextDown hf hq
    · refine ⟨_, numeral_valid hf.nextUp, fun q hq ↦ ?_⟩
      rw [BoundKey.compare, if_neg hupper, if_pos hexclusive]
      exact F64.nextUp_le hf hq
  have hsame : ∀ f : F64, ¬k.exclusive = true → ∀ q : ℚ,
      (if k.isUpper then (F64.fin q).le f else f.le (.fin q)) = k.compare (.fin q) f := by
    intro f hinclusive q
    rw [BoundKey.compare, if_neg hinclusive, if_neg hinclusive]
  cases bound with
  | int i =>
      rw [boundText] at h
      split_ifs at h with hexclusive hlarge
      · cases h
        have hsmall : i.natAbs ≤ 2 ^ 53 := not_lt.mp hlarge
        have hofRat : F64.ofRat i = .ofInt i := by
          rw [F64.ofInt_of_le hsmall]
          exact F64.isValue_intCast hsmall
        rw [Bound.number, hofRat]
        exact hneighbour _ (F64.valid_ofInt (by omega)) hexclusive
      · cases h
        exact ⟨_, numeral_intText i, fun q _ ↦ hsame _ hexclusive q⟩
  | float f =>
      rw [boundText] at h
      split_ifs at h with hexclusive
      · cases h
        exact hneighbour f hvalid hexclusive
      · cases h
        exact ⟨_, numeral_valid hvalid, fun q _ ↦ hsame _ hexclusive q⟩

theorem numeral_negInf : Numeral F64.parse "-inf".toList .negInf :=
  ⟨rfl, forall_mem_of_all (by decide)⟩

theorem numeral_posInf : Numeral F64.parse "+inf".toList .posInf :=
  ⟨rfl, forall_mem_of_all (by decide)⟩

/-- The clause of one bound. -/
theorem says_bound (hfield : PlainName l.field.toList) {k : BoundKey} {bound : Bound} {t : Text}
    (hvalid : bound.Valid) (h : boundText l.field k bound = .ok t) :
    Says strict (FromOperations ls)
      (.leaf (if k.isUpper then intervalText l.field "-inf".toList t
        else intervalText l.field t "+inf".toList))
      fun d ↦ (d.number l.field.toList).any fun q ↦ k.compare (.fin q) bound.number := by
  obtain ⟨y, hy, hcompare⟩ := exists_numeral hvalid h
  have hany : ∀ {d : Document} {p r : ℚ → Bool}, (∀ q, F64.IsValue q → p q = r q) →
      (d.number l.field.toList).any p = (d.number l.field.toList).any r := by
    intro d p r hpr
    rcases hq : d.number l.field.toList with _ | q
    · rfl
    · exact hpr q (d.isValue hq)
  split_ifs at hcompare ⊢ with hupper
  · exact says_leaf (clauseReads_interval hfield numeral_negInf hy trivial) fun d _ ↦ hany hcompare
  · refine says_leaf (clauseReads_interval hfield hy numeral_posInf trivial) fun d _ ↦ hany ?_
    intro q hq
    exact (Bool.and_true _).trans (hcompare q hq)

/-- The bounds that are given. -/
theorem says_boundClauses (henv : env.Lawful) (hfield : PlainName l.field.toList)
    (hfloats : ∀ q ∈ l.criteria.floats, F64.IsValue q) {ks : List BoundKey} {ns : List Node}
    (h : boundClauses env l.field l.criteria ks = .ok ns) :
    SaysEach strict (FromOperations ls)
      (fun k d ↦ boundHolds env d l.field.toList l.criteria k.key k.compare)
      (ks.filter fun k ↦ (l.criteria.get k.key).isSome) ns := by
  induction ks generalizing ns with
  | nil =>
      cases h
      exact .nil
  | cons k ks ih =>
      rw [boundClauses] at h
      split at h
      · next hget =>
          rw [List.filter_cons, hget]
          exact ih h
      · next raw hget =>
          obtain ⟨bound, hbound, h⟩ := bind_eq_ok.mp h
          obtain ⟨t, ht, h⟩ := bind_eq_ok.mp h
          obtain ⟨clauses, hclauses, h⟩ := bind_eq_ok.mp h
          cases h
          obtain ⟨hnumber, hvalid⟩ := numberBound_eq_ok henv
            (fun q hq ↦ hfloats q (Json.floats_subset_of_get hget hq)) hbound
          have htold : Says strict (FromOperations ls) _ _ := says_bound hfield hvalid ht
          rw [List.filter_cons, hget]
          refine .cons ⟨htold.wide, fun d hd ↦ ?_⟩ (ih hclauses)
          have htruth : boundHolds env d l.field.toList l.criteria k.key k.compare =
              (boundNumber env raw).any fun x ↦
                (d.number l.field.toList).any fun q ↦ k.compare (.fin q) x := by
            rw [boundHolds, hget]
          rw [hnumber, Option.any_some] at htruth
          exact (htold.truth d hd).trans htruth.symm

/-- A bound that is not given asks for nothing. -/
theorem all_filter_boundHolds (d : Document) (ks : List BoundKey) :
    (ks.filter fun k ↦ (l.criteria.get k.key).isSome).all
        (fun k ↦ boundHolds env d l.field.toList l.criteria k.key k.compare) =
      ks.all fun k ↦ boundHolds env d l.field.toList l.criteria k.key k.compare := by
  rw [List.all_filter]
  refine all_congr_of_mem fun k _ ↦ ?_
  rcases hget : l.criteria.get k.key with _ | raw
  · rw [boundHolds, hget]
    rfl
  · rfl

theorem says_buildRange (henv : env.Lawful) (hfield : PlainName l.field.toList)
    (hfloats : ∀ q ∈ l.criteria.floats, F64.IsValue q)
    (h : buildRange env l.field l.criteria = .ok n) :
    Says strict (FromOperations ls) n fun d ↦ rangeHolds env d l.field.toList l.criteria := by
  rw [buildRange] at h
  obtain ⟨clauses, hclauses, h⟩ := bind_eq_ok.mp h
  split_ifs at h with hempty
  cases h
  have htold : Says strict (FromOperations ls) _ _ :=
    says_nodeAnd (mt List.isEmpty_iff.mpr hempty)
      (says_boundClauses henv hfield hfloats hclauses)
  refine ⟨htold.wide, fun d hd ↦ (htold.truth d hd).trans ?_⟩
  rw [all_filter_boundHolds, boundKeys, rangeHolds]
  simp only [List.all_cons, List.all_nil, Bool.and_true, Bool.and_assoc]
  rfl

/-- The clauses of an operation are true of the documents the operation is true of. -/
theorem says_buildFilter (henv : env.Lawful) (hl : l ∈ ls) (hfield : PlainName l.field.toList)
    (hfloats : ∀ q ∈ l.criteria.floats, F64.IsValue q)
    (hstrict : strict → ∀ l ∈ ls, ¬asksForNone l)
    (h : buildFilter env l.field l.op l.criteria tagsSupported = .ok n) :
    Says strict (FromOperations ls) n fun d ↦ operationHolds env d l := by
  unfold buildFilter at h
  split at h
  · next hop =>
      have htruth : ∀ d, operationHolds env d l = matchHolds d l.field.toList l.criteria := by
        intro d
        rw [operationHolds, hop]
        rfl
      simp only [htruth, matchHolds, matchTruth]
      cases hany : (l.criteria.get "any").bind Json.asArray with
      | some any =>
          rw [hany] at h
          exact says_buildMatchAny hl hfield hop hstrict hany h
      | none =>
          rw [hany] at h
          dsimp only at h ⊢
          cases htext : (l.criteria.get "text").bind Json.asStr with
          | some text =>
              rw [htext] at h
              exact says_buildText henv hfield h
          | none =>
              rw [htext] at h
              exact says_buildExactMatch hl hfield hfloats hany h
  · next hop =>
      have htruth : ∀ d, operationHolds env d l = rangeHolds env d l.field.toList l.criteria := by
        intro d
        rw [operationHolds, hop]
        rfl
      simp only [htruth]
      exact says_buildRange henv hfield hfloats h
  · cases h
  · cases h

end Operations

end VectorDbBenchmark.Kividb
