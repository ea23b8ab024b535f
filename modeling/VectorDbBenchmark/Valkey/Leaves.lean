import VectorDbBenchmark.Kividb.Leaves
import VectorDbBenchmark.Valkey.Reading

/-!
# What the clauses of one operation say

The meaning of an operation on a field, and that the filter the builder writes for it is read
with this meaning, as clauses of which each has an operand of the operation.
-/

namespace VectorDbBenchmark.Valkey

open Kit Redis
open Kividb (BoundKey boundKeys asTag tagText intervalText parens)

/-! ## Meaning -/

section Meaning

variable (env : NumberEnv) (server : Server) (d : Document)

/-- Whether the document has this value in a field. -/
def valueHolds (field : Text) (v : Json) : Bool :=
  match asTag v with
  | some tag => d.hasTag server field (trim tag)
  | none => (Json.asNumber server.ofInt v).any fun x ↦
      (d.number field).any fun q ↦ decide (x = .fin q)

/-- Of a list that is not all integers, the strings that are not empty. -/
def listedItems (any : List Json) : List Json :=
  if any.all fun v ↦ v.asI64.isSome then any
  else any.filter fun v ↦ v.asStr.any fun s ↦ !s.isEmpty

/-- The number a bound stands for: itself, that of a datetime, or that of a numeral. -/
def boundNumber (value : Json) : Option F64 :=
  match value.asI64 with
  | some i => some (server.ofInt i)
  | none =>
    match value.asF64 with
    | some f => some f
    | none =>
      match value.asStr with
      | none => none
      | some s =>
        match env.datetimeToEpochSecs s with
        | some epoch => some (server.ofInt epoch)
        | none => env.parseF64 s

def boundHolds (field : Text) (criteria : Json) (k : BoundKey) : Bool :=
  ((criteria.get k.key).bind (boundNumber env server)).all fun x ↦
    (d.number field).any fun q ↦ k.compare (.fin q) x

-- The items of a list that count.
variable (items : List Json → List Json)

def matchHolds (field : Text) : Json → Bool :=
  matchTruth (fun any ↦ (items any).any (valueHolds server d field))
    (fun text ↦ d.hasTag server field (trim text.toList)) (valueHolds server d field)

/-- The truth of an operation. -/
def leafHolds (l : Leaf) : Bool :=
  match l.op with
  | "match" => matchHolds server d items l.field.toList l.criteria
  | "range" => boundKeys.all (boundHolds env server d l.field.toList l.criteria)
  | _ => false

end Meaning

/-! ## Operands -/

section Operands

variable (env : NumberEnv) (server : Server)

def pointLeaf (field : Text) (x : F64) : QueryLeaf := .numeric field ⟨x, false⟩ ⟨x, false⟩

def boundLeaf (k : BoundKey) (field : Text) (x : F64) : QueryLeaf :=
  if k.isUpper then .numeric field ⟨.negInf, false⟩ ⟨x, k.exclusive⟩
  else .numeric field ⟨x, k.exclusive⟩ ⟨.posInf, false⟩

/-- The strings of a list that are not empty, as tags. -/
def listedTags (any : List Json) : List Text :=
  ((any.filterMap Json.asStr).filter fun s ↦ !s.isEmpty).map String.toList

def anyLeaves (field : Text) (any : List Json) : List QueryLeaf :=
  if !any.isEmpty && any.all (fun v ↦ v.asI64.isSome) then
    (any.filterMap Json.asI64).map fun i ↦ pointLeaf field (server.ofInt i)
  else if (listedTags any).isEmpty then [.tag field ["__match_any_never_match__".toList]]
  else [.tag field ((listedTags any).map trim)]

def valueLeaves (field : Text) (v : Json) : List QueryLeaf :=
  match asTag v with
  | some tag => [.tag field [trim tag]]
  | none => (Json.asNumber server.ofInt v).toList.map (pointLeaf field)

/-- The clauses of an operation, with its operands. -/
def operandLeaves (l : Leaf) : List QueryLeaf :=
  match l.op with
  | "match" =>
    match (l.criteria.get "any").bind Json.asArray with
    | some any => anyLeaves server l.field.toList any
    | none =>
      match (l.criteria.get "text").bind Json.asStr with
      | some text => [.tag l.field.toList [trim text.toList]]
      | none => (l.criteria.get "value").toList.flatMap (valueLeaves server l.field.toList)
  | "range" => boundKeys.filterMap fun k ↦
      ((l.criteria.get k.key).bind (boundNumber env server)).map (boundLeaf k l.field.toList)
  | _ => []

/-- A scalar; a string is not empty and has no blanks at its ends. -/
def isOperand : Json → Bool
  | .string s => !s.isEmpty && trim s.toList = s.toList
  | v => Json.isScalar v

/-- A match with a scalar, with integers, with a string that is not empty beside other scalars,
or with a word, or a range with a bound. -/
inductive WellFormed : Leaf → Prop
  | value (field : String) (v : Json) (h : isOperand v = true) :
    WellFormed ⟨field, "match", .object [("value", v)]⟩
  | any (field : String) (vs : List Json) (hscalar : vs.all Json.isScalar = true)
    (h : vs.all (fun v ↦ v.asI64.isSome) = true ∨
      vs.any (fun v ↦ v.asStr.any fun s ↦ !s.isEmpty) = true) :
    WellFormed ⟨field, "match", .object [("any", .array vs)]⟩
  | text (field text : String) (hne : trim text.toList ≠ [])
    (hword : ∀ c ∈ trim text.toList, isWhiteSpace c = false) :
    WellFormed ⟨field, "match", .object [("text", .string text)]⟩
  | range (field : String) (es : List (String × Json)) (hkeys : ∀ e ∈ es, e.1 ≠ "geo")
    (hscalar : ∀ e ∈ es, e.2.asObject = none ∧ e.2.asArray = none)
    (hfinite : ∀ e ∈ es, ∀ x, boundNumber env server e.2 = some x → e.2.asStr.isSome →
      x.isFinite = true)
    (hone : ∃ k ∈ boundKeys,
    ((Json.getEntry k.key es).bind (boundNumber env server)).isSome = true) :
    WellFormed ⟨field, "range", .object es⟩

/-- What is relied on of the server and of the parser of floats. -/
structure Lawful : Prop where
  int : ∀ i : ℤ, server.readNumber (intText i) = some (server.ofInt i)
  display : ∀ q, F64.IsValue q → server.readNumber (F64.display (.fin q)) = some (.fin q)
  negInf : server.readNumber "-inf".toList = some .negInf
  posInf : server.readNumber "+inf".toList = some .posInf
  parseF64 : ∀ s f, env.parseF64 s = some f → f.isFinite = true →
    server.readNumber s.toList = some f ∧ ∀ c ∈ ['(', ' ', ']'], c ∉ s.toList

end Operands

/-! ## Filters that say something -/

section Says

variable {server : Server} {P : QueryLeaf → Prop} {truth : Document → Bool} {field : String}

variable (server P) in
/-- A filter without parameters that is read as a sequence with this truth. -/
structure Says (truth : Document → Bool) (f : ParsedFilter) : Prop where
  params : f.2 = []
  reads : ∃ Ts, QuerySyntax.IsSequence (leafMachine server.dialect) f.1 Ts ∧
    (∀ T ∈ Ts, T.Filled P) ∧ ∀ d, Ts.all (Formula.eval (clauseHolds server d)) = truth d

theorem Says.congr {f : ParsedFilter} {truth' : Document → Bool} (h : Says server P truth f)
    (htruth : ∀ d, truth d = truth' d) : Says server P truth' f := by
  obtain ⟨Ts, hread, hfilled, heval⟩ := h.reads
  exact ⟨h.params, Ts, hread, hfilled, fun d ↦ (heval d).trans (htruth d)⟩

theorem says_item {t : Text} {T : Formula QueryLeaf}
    (h : QuerySyntax.IsItem (leafMachine server.dialect) t T) (hfilled : T.Filled P)
    (htruth : ∀ d, T.eval (clauseHolds server d) = truth d) : Says server P truth (t, []) := by
  refine ⟨rfl, [T], h.isSequence, List.forall_mem_singleton.mpr hfilled, fun d ↦ ?_⟩
  rw [← htruth]
  exact Bool.and_true _

theorem isItem_leaf {t : Text} {l : QueryLeaf}
    (h : QuerySyntax.readLeaf (leafMachine server.dialect)
    (leafMachine server.dialect).init t = some l) :
    QuerySyntax.IsItem (leafMachine server.dialect) ('@' :: t) (.leaf l) :=
  QuerySyntax.isItem_leaf startOk_leafMachine h

variable (server) in
theorem isItem_tag (hname : PlainName field.toList) (v : Text) (vs : List Text) :
    QuerySyntax.IsItem (leafMachine server.dialect)
      (tagText field ([' ', '|', ' '].intercalate ((v :: vs).map escapeTagValue)))
      (.leaf (.tag field.toList ((v :: vs).map trim))) :=
  isItem_leaf (readLeaf_tagText hname v vs)

variable (server) in
/-- A tag whose characters are not escaped. -/
theorem isItem_plainTag (hname : PlainName field.toList) {v : Text}
    (hv : escapeTagValue v = v) (htrim : trim v = v) :
    QuerySyntax.IsItem (leafMachine server.dialect) (tagText field v)
      (.leaf (.tag field.toList [v])) := by
  have htag := isItem_tag server hname v []
  rwa [List.map_singleton, List.map_singleton, List.intercalate_singleton, hv, htrim] at htag

theorem filled_group {Ts : List (Formula QueryLeaf)} (hne : Ts ≠ []) (h : ∀ T ∈ Ts, T.Filled P) :
    (Formula.any [.all Ts]).Filled P :=
  .any (List.cons_ne_nil _ _) (List.forall_mem_singleton.mpr (.all hne h))

/-- A clause and its negation are true of no document. -/
theorem says_neverMatch (hname : PlainName field.toList) {word : String}
    (hword : escapeTagValue word.toList = word.toList) (htrim : trim word.toList = word.toList)
    (hP : P (.tag field.toList [word.toList])) :
    Says server P (fun _ ↦ false) (neverMatch field word, []) := by
  have hitem := isItem_plainTag server hname hword htrim
  apply says_item (hitem.isSequence.append hitem.minus).fills.isItem
  · apply filled_group (List.cons_ne_nil _ _)
    show ∀ T ∈ [Formula.leaf _, .not (.leaf _)], T.Filled P
    rw [List.forall_mem_cons, List.forall_mem_singleton]
    exact ⟨.leaf hP, .not (.leaf hP)⟩
  · intro d
    simp

/-! ### Clauses together -/

/-- The sequences that clauses are read as. -/
theorem exists_sequences {truths : List (Document → Bool)} {fs : List ParsedFilter}
    (h : List.Forall₂ (Says server P) truths fs) :
    ∃ Tss, List.Forall₂ (QuerySyntax.IsSequence (leafMachine server.dialect))
      (fs.map Prod.fst) Tss ∧
      (∀ Ts ∈ Tss, ∀ T ∈ Ts, T.Filled P) ∧
      List.Forall₂ (fun truth Ts ↦ ∀ d, Ts.all (Formula.eval (clauseHolds server d)) = truth d)
        truths Tss := by
  induction h with
  | nil => exact ⟨[], .nil, List.forall_mem_nil _, .nil⟩
  | cons hf _ ih =>
      obtain ⟨Ts, hread, hfilled, heval⟩ := hf.reads
      obtain ⟨Tss, hreads, hfilleds, hevals⟩ := ih
      exact ⟨Ts :: Tss, .cons hread hreads, List.forall_mem_cons.mpr ⟨hfilled, hfilleds⟩,
        .cons heval hevals⟩

section Together

variable {truths : List (Document → Bool)} {fs : List ParsedFilter}

/-- Clauses with blanks between them. -/
theorem says_sequence (h : List.Forall₂ (Says server P) truths fs) (hne : fs ≠ []) :
    Says server P (fun d ↦ truths.all fun f ↦ f d) ([' '].intercalate (fs.map Prod.fst), []) := by
  obtain ⟨Tss, hread, hfilled, heval⟩ := exists_sequences h
  refine ⟨rfl, Tss.flatten, ?_, ?_, ?_⟩
  · exact QuerySyntax.isSequence_intercalate hread fun hnil ↦ hne (List.map_eq_nil_iff.mp hnil)
  · intro T hT
    obtain ⟨Ts, hTs, hT⟩ := List.mem_flatten.mp hT
    exact hfilled Ts hTs T hT
  · intro d
    rw [List.all_flatten]
    exact all_congr_of_forall₂ (heval.imp fun _ _ h ↦ h d)

/-- A conjunction in parentheses. -/
theorem says_conjunction (h : List.Forall₂ (Says server P) truths fs) (hne : fs ≠ []) :
    Says server P (fun d ↦ truths.all fun f ↦ f d)
      (parens ([' '].intercalate (fs.map Prod.fst)), []) := by
  obtain ⟨-, Ts, hread, hfilled, heval⟩ := says_sequence h hne
  apply says_item hread.fills.isItem (filled_group hread.ne_nil hfilled)
  intro d
  rw [← heval d]
  simp

/-- A disjunction in parentheses. -/
theorem says_disjunction (h : List.Forall₂ (Says server P) truths fs) (hne : fs ≠ []) :
    Says server P (fun d ↦ truths.any fun f ↦ f d)
      (parens ([' ', '|', ' '].intercalate (fs.map Prod.fst)), []) := by
  obtain ⟨Tss, hread, hfilled, heval⟩ := exists_sequences h
  have hnames : fs.map Prod.fst ≠ [] := fun hnil ↦ hne (List.map_eq_nil_iff.mp hnil)
  apply says_item (QuerySyntax.fills_alternatives hread hnames).isItem
  · refine .any ?_ ?_
    · intro hnil
      rw [List.map_eq_nil_iff.mp hnil] at hread
      exact hnames (List.forall₂_nil_right_iff.mp hread)
    · rw [List.forall_mem_map]
      intro Ts hTs
      obtain ⟨t, -, ht⟩ := exists_of_mem_right hread hTs
      exact .all ht.ne_nil (hfilled Ts hTs)
  · intro d
    rw [Formula.eval_any, List.any_map]
    apply any_congr_of_forall₂
    apply heval.imp
    intro truth Ts h
    exact (Formula.eval_all Ts).trans (h d)

end Together

/-! ### Numerals -/

section Env

variable {env : NumberEnv}

theorem numeral_intText (henv : Lawful env server) (i : ℤ) :
    Numeral server.readNumber (intText i) (server.ofInt i) where
  read := henv.int i
  plain := by
    rw [List.forall_mem_cons, List.forall_mem_cons, List.forall_mem_singleton]
    exact ⟨notMem_intText rfl, notMem_intText rfl, notMem_intText rfl⟩

theorem numeral_display (henv : Lawful env server) {f : F64} (hf : f.Valid)
    (hfin : f.isFinite = true) : Numeral server.readNumber f.display f := by
  cases f with
  | fin q =>
      refine ⟨henv.display q hf, ?_⟩
      rw [List.forall_mem_cons, List.forall_mem_cons, List.forall_mem_singleton]
      exact ⟨F64.notMem_display rfl, F64.notMem_display rfl, F64.notMem_display rfl⟩
  | nan => cases hfin
  | negInf => cases hfin
  | posInf => cases hfin

theorem numeral_negInf (henv : Lawful env server) :
    Numeral server.readNumber "-inf".toList .negInf :=
  ⟨henv.negInf, forall_mem_of_all (by decide)⟩

theorem numeral_posInf (henv : Lawful env server) :
    Numeral server.readNumber "+inf".toList .posInf :=
  ⟨henv.posInf, forall_mem_of_all (by decide)⟩

theorem isFinite_asF64 {v : Json} {f : F64} (h : v.asF64 = some f) : f.isFinite = true := by
  cases v with
  | number n => cases n <;> cases h <;> rfl
  | null => cases h
  | bool _ => cases h
  | string _ => cases h
  | array _ => cases h
  | object _ => cases h

/-- The literal of a bound is a numeral of the number it stands for. -/
theorem numberLiteral_rel (henv : Lawful env server) {v : Json}
    (hfloats : ∀ q ∈ v.floats, F64.IsValue q)
    (hfinite : ∀ x, boundNumber env server v = some x → v.asStr.isSome → x.isFinite = true) :
    Option.Rel (Numeral server.readNumber) (numberLiteral env v) (boundNumber env server v) := by
  cases hi : v.asI64 with
  | some i =>
      rw [numberLiteral, boundNumber, hi]
      exact .some (numeral_intText henv i)
  | none =>
      cases hf : v.asF64 with
      | some f =>
          rw [numberLiteral, boundNumber, hi, hf]
          exact .some (numeral_display henv (Kividb.valid_asF64 hfloats hf) (isFinite_asF64 hf))
      | none =>
          cases hs : v.asStr with
          | none =>
              rw [numberLiteral, boundNumber, hi, hf, hs]
              exact .none
          | some s =>
              cases he : env.datetimeToEpochSecs s with
              | some epoch =>
                  simp only [numberLiteral, boundNumber, hi, hf, hs, he]
                  exact .some (numeral_intText henv epoch)
              | none =>
                  simp only [numberLiteral, boundNumber, hi, hf, hs, he] at hfinite ⊢
                  cases hp : env.parseF64 s with
                  | none => exact .none
                  | some f =>
                      obtain ⟨hread, hplain⟩ := henv.parseF64 s f hp (hfinite f hp rfl)
                      exact .some ⟨hread, hplain⟩

end Env

/-! ### Values -/

variable (server P) in
theorem says_tag (hname : PlainName field.toList) (v : Text)
    (hP : P (.tag field.toList [trim v])) :
    Says server P (fun d ↦ d.hasTag server field.toList (trim v))
      (tagText field (escapeTagValue v), []) := by
  have hitem := isItem_tag server hname v []
  rw [List.map_singleton, List.map_singleton, List.intercalate_singleton] at hitem
  apply says_item hitem (.leaf hP)
  intro d
  simp [clauseHolds]

theorem says_point (hname : PlainName field.toList) {t : Text} {x : F64}
    (ht : Numeral server.readNumber t x) (hP : P (pointLeaf field.toList x)) :
    Says server P (fun d ↦ (d.number field.toList).any fun q ↦ decide (x = .fin q))
      (intervalText field t t, []) := by
  apply says_item (isItem_leaf (readLeaf_numeric hname ht.inclusive ht.inclusive)) (.leaf hP)
  intro d
  rw [Formula.eval_leaf, clauseHolds]
  congr 1
  funext q
  exact Kividb.le_and_le x q

/-! ### Operations -/

section Operations

variable {env : NumberEnv}

/-- A number is compared with the number that its literal is read as. -/
theorem numberLiteral_number (henv : Lawful env server) {n : Number}
    (hfloats : ∀ q ∈ (Json.number n).floats, F64.IsValue q) :
    ∃ t x, numberLiteral env (.number n) = some t ∧
      Json.asNumber server.ofInt (.number n) = some x ∧
      Numeral server.readNumber t x := by
  cases hi : (Json.number n).asI64 with
  | some i =>
      refine ⟨intText i, server.ofInt i, ?_, ?_, numeral_intText henv i⟩
      · rw [numberLiteral, hi]
      · rw [Json.asNumber, hi]
  | none =>
      obtain ⟨f, hf⟩ : ∃ f, (Json.number n).asF64 = some f := by cases n <;> exact ⟨_, rfl⟩
      refine ⟨f.display, f, ?_, ?_,
        numeral_display henv (Kividb.valid_asF64 hfloats hf) (isFinite_asF64 hf)⟩
      · rw [numberLiteral, hi, hf]
      · rw [Json.asNumber, hi, hf]

theorem valueHolds_number (d : Document) (name : Text) {n : Number} {x : F64}
    (hx : Json.asNumber server.ofInt (.number n) = some x) :
    valueHolds server d name (.number n) = (d.number name).any fun q ↦ decide (x = .fin q) := by
  show ((Json.asNumber server.ofInt (.number n)).any fun x ↦ _) = _
  rw [hx, Option.any_some]

theorem says_value (henv : Lawful env server) (hname : PlainName field.toList) {v : Json}
    (hv : isOperand v = true) (hfloats : ∀ q ∈ v.floats, F64.IsValue q)
    (hP : ∀ c ∈ valueLeaves server field.toList v, P c) (counter : ℕ) :
    ∃ f, (buildExactMatchFilter env field (.object [("value", v)]) counter).1 = some f ∧
      Says server P (fun d ↦ valueHolds server d field.toList v) f := by
  cases v with
  | bool b =>
      refine ⟨_, rfl, ?_⟩
      have htag := says_tag server P hname
        (if b then "true".toList else "false".toList) (hP _ List.mem_cons_self)
      rwa [show escapeTagValue (if b then "true".toList else "false".toList) =
        if b then "true".toList else "false".toList by cases b <;> decide] at htag
  | string s => exact ⟨_, rfl, says_tag server P hname s.toList (hP _ List.mem_cons_self)⟩
  | number n =>
      obtain ⟨t, x, ht, hx, hnumeral⟩ := numberLiteral_number henv hfloats
      refine ⟨(intervalText field t t, []), ?_, ?_⟩
      · show (numberLiteral env (.number n)).map _ = _
        rw [ht]
        rfl
      · have hpoint : P (pointLeaf field.toList x) := by
          apply hP
          show _ ∈ (Json.asNumber server.ofInt (.number n)).toList.map _
          rw [hx]
          exact List.mem_singleton_self _
        apply (says_point hname hnumeral hpoint).congr
        intro d
        exact (valueHolds_number d field.toList hx).symm
  | null => cases hv
  | array _ => cases hv
  | object _ => cases hv

theorem valueHolds_int (d : Document) (name : Text) {v : Json} {i : ℤ} (h : v.asI64 = some i) :
    valueHolds server d name v = (d.number name).any fun q ↦ decide (server.ofInt i = .fin q) := by
  cases v with
  | number n =>
      apply valueHolds_number
      rw [Json.asNumber, h]
  | null => cases h
  | bool _ => cases h
  | string _ => cases h
  | array _ => cases h
  | object _ => cases h

/-- A list of integers is the disjunction of its points. -/
theorem says_ints (henv : Lawful env server) (hname : PlainName field.toList) {vs : List Json}
    (hne : vs ≠ []) (hints : ∀ v ∈ vs, v.asI64.isSome = true)
    (hP : ∀ i ∈ vs.filterMap Json.asI64, P (pointLeaf field.toList (server.ofInt i))) :
    Says server P (fun d ↦ vs.any (valueHolds server d field.toList))
      (parens ([' ', '|', ' '].intercalate
        ((vs.filterMap Json.asI64).map fun i ↦
          intervalText field (intText i) (intText i))), []) := by
  have hclauses : List.Forall₂ (Says server P)
      ((vs.filterMap Json.asI64).map fun i d ↦
        (d.number field.toList).any fun q ↦ decide (server.ofInt i = .fin q))
      ((vs.filterMap Json.asI64).map fun i ↦ (intervalText field (intText i) (intText i), [])) :=
    forall₂_map fun i hi ↦ says_point hname (numeral_intText henv i) (hP i hi)
  have hsome : vs.filterMap Json.asI64 ≠ [] := by
    obtain ⟨v, vs, rfl⟩ := List.exists_cons_of_ne_nil hne
    obtain ⟨i, hi⟩ := Option.isSome_iff_exists.mp (hints v List.mem_cons_self)
    rw [List.filterMap_cons_some hi]
    exact List.cons_ne_nil _ _
  have htold := says_disjunction hclauses fun hnil ↦ hsome (List.map_eq_nil_iff.mp hnil)
  rw [List.map_map] at htold
  apply htold.congr
  intro d
  rw [List.any_map, List.any_filterMap]
  apply any_congr_of_mem
  intro v hv
  obtain ⟨i, hi⟩ := Option.isSome_iff_exists.mp (hints v hv)
  rw [hi, valueHolds_int d _ hi]
  rfl

/-- The tags of a list are those of its items that count. -/
theorem any_listedTags (d : Document) (name : Text) (vs : List Json) :
    ((listedTags vs).map trim).any (d.hasTag server name) =
      (vs.filter fun v ↦ v.asStr.any fun s ↦ !s.isEmpty).any (valueHolds server d name) := by
  rw [listedTags, List.map_map, List.any_map, List.any_filter, List.any_filterMap, List.any_filter]
  apply any_congr_of_mem
  intro v _
  cases v <;> rfl

/-- A list with a string that is not empty has a tag. -/
theorem listedTags_ne_nil {vs : List Json}
    (h : vs.any (fun v ↦ v.asStr.any fun s ↦ !s.isEmpty) = true) : listedTags vs ≠ [] := by
  intro hnil
  rw [List.any_eq_true] at h
  obtain ⟨v, hv, hs⟩ := h
  obtain ⟨s, hs, hne⟩ := (Option.any_eq_true _ _).mp hs
  exact List.filter_eq_nil_iff.mp (List.map_eq_nil_iff.mp hnil) s
    (List.mem_filterMap.mpr ⟨v, hv, hs⟩) hne

theorem says_any (henv : Lawful env server) (hname : PlainName field.toList) {vs : List Json}
    (h : vs.all (fun v ↦ v.asI64.isSome) = true ∨
      vs.any (fun v ↦ v.asStr.any fun s ↦ !s.isEmpty) = true)
    (hP : ∀ c ∈ anyLeaves server field.toList vs, P c) (counter : ℕ) :
    Says server P (fun d ↦ (listedItems vs).any (valueHolds server d field.toList))
      (buildMatchAnyFilter field vs counter).1 := by
  cases vs with
  | nil =>
      show Says server P (fun _ ↦ false) (neverMatch field "__match_any_never_match__", [])
      exact says_neverMatch hname (by decide) (by decide) (hP _ List.mem_cons_self)
  | cons v vs =>
      generalize hvs : v :: vs = ws at *
      have hne : ws.isEmpty = false := by
        rw [← hvs]
        rfl
      rw [buildMatchAnyFilter, listedItems, hne, Bool.not_false, Bool.true_and]
      rw [anyLeaves, hne, Bool.not_false, Bool.true_and] at hP
      by_cases hints : ws.all (fun v ↦ v.asI64.isSome) = true
      · rw [if_pos hints] at hP ⊢
        rw [if_pos hints]
        exact says_ints henv hname (List.isEmpty_eq_false_iff.mp hne) (List.all_eq_true.mp hints)
          fun i hi ↦ hP _ (List.mem_map_of_mem hi)
      · have htags := listedTags_ne_nil (h.resolve_left hints)
        have htokens : ((ws.filterMap Json.asStr).filter fun s ↦ !s.isEmpty).map
            (fun s ↦ escapeTagValue s.toList) = (listedTags ws).map escapeTagValue := by
          rw [listedTags, List.map_map]
          rfl
        rw [if_neg hints, List.isEmpty_eq_false_iff.mpr htags, if_neg Bool.false_ne_true] at hP
        rw [if_neg hints, if_neg hints, htokens]
        dsimp only
        rw [List.isEmpty_map, List.isEmpty_eq_false_iff.mpr htags, if_neg Bool.false_ne_true]
        obtain ⟨tag, tags, hcons⟩ := List.exists_cons_of_ne_nil htags
        rw [hcons] at hP ⊢
        apply says_item (isItem_tag server hname tag tags) (.leaf (hP _ List.mem_cons_self))
        intro d
        rw [← any_listedTags, hcons, Formula.eval_leaf, clauseHolds]

/-- A text of one word is looked up as a tag. -/
theorem says_text (hname : PlainName field.toList) {text : String}
    (hne : trim text.toList ≠ []) (hword : ∀ c ∈ trim text.toList, isWhiteSpace c = false)
    (hP : P (.tag field.toList [trim text.toList])) :
    Says server P (fun d ↦ d.hasTag server field.toList (trim text.toList))
      (buildTextFilter field text) := by
  have hempty : (trim text.toList).isEmpty = false := List.isEmpty_eq_false_iff.mpr hne
  have hfirst : ((trim text.toList).splitOnP isWhiteSpace).find? (fun w ↦ !w.isEmpty) =
      some (trim text.toList) := by
    rw [List.splitOnP_eq_singleton hword, List.find?_cons_of_pos (by rw [hempty]; rfl)]
  have htrim := trim_of_blankless hword
  rw [buildTextFilter]
  dsimp only
  rw [hempty, if_neg Bool.false_ne_true, hfirst, Option.getD_some]
  have htag := says_tag server P hname (trim text.toList)
  rw [htrim] at htag
  exact htag hP

theorem says_bound (henv : Lawful env server) (hname : PlainName field.toList) (k : BoundKey)
    {t : Text} {x : F64} (ht : Numeral server.readNumber t x)
    (hP : P (boundLeaf k field.toList x)) :
    Says server P (fun d ↦ (d.number field.toList).any fun q ↦ k.compare (.fin q) x)
      (boundText field k t, []) := by
  obtain ⟨key, isUpper, exclusive⟩ := k
  have hend : EndText server.readNumber (if exclusive then '(' :: t else t) ⟨x, exclusive⟩ := by
    cases exclusive
    · exact ht.inclusive
    · exact ht.exclusive
  cases isUpper with
  | false =>
      have hinf := (numeral_posInf henv).inclusive
      apply says_item (isItem_leaf (readLeaf_numeric hname hend hinf)) (.leaf hP)
      intro d
      rw [Formula.eval_leaf, clauseHolds]
      congr 1
      funext q
      exact Bool.and_true _
  | true =>
      have hinf := (numeral_negInf henv).inclusive
      apply says_item (isItem_leaf (readLeaf_numeric hname hinf hend)) (.leaf hP)
      intro d
      rw [Formula.eval_leaf, clauseHolds]
      congr 1

section Range

variable {criteria : Json}

/-- What the bounds of a range say. -/
def boundTruths (env : NumberEnv) (server : Server) (name : Text) (criteria : Json) :
    List (Document → Bool) :=
  boundKeys.filterMap fun k ↦ ((criteria.get k.key).bind (boundNumber env server)).map
    fun x d ↦ (d.number name).any fun q ↦ k.compare (.fin q) x

theorem boundTruths_all (d : Document) (name : Text) (criteria : Json) :
    ((boundTruths env server name criteria).all fun f ↦ f d) =
      boundKeys.all (boundHolds env server d name criteria) := by
  rw [boundTruths, List.all_filterMap]
  apply all_congr_of_mem
  intro k _
  rw [boundHolds]
  cases (criteria.get k.key).bind (boundNumber env server) <;> rfl

theorem boundTruths_ne_nil (name : Text)
    (hone : ∃ k ∈ boundKeys, ((criteria.get k.key).bind (boundNumber env server)).isSome = true) :
    boundTruths env server name criteria ≠ [] := by
  obtain ⟨k, hk, hsome⟩ := hone
  obtain ⟨x, hx⟩ := Option.isSome_iff_exists.mp hsome
  apply List.ne_nil_of_mem
  exact List.mem_filterMap.mpr ⟨k, hk, congrArg (Option.map _) hx⟩

theorem says_bounds (henv : Lawful env server) (hname : PlainName field.toList)
    (hfloats : ∀ q ∈ criteria.floats, F64.IsValue q)
    (hfinite : ∀ key v x, criteria.get key = some v → boundNumber env server v = some x →
      v.asStr.isSome → x.isFinite = true)
    (hP : ∀ k ∈ boundKeys, ∀ x, (criteria.get k.key).bind (boundNumber env server) = some x →
      P (boundLeaf k field.toList x)) :
    List.Forall₂ (Says server P) (boundTruths env server field.toList criteria)
      (boundKeys.filterMap fun k ↦ ((criteria.get k.key).bind (numberLiteral env)).map
        fun t ↦ (boundText field k t, [])) := by
  have hsame : List.Forall₂ (fun k k' ↦ k ∈ boundKeys ∧ k = k') boundKeys boundKeys :=
    List.forall₂_same.mpr fun k hk ↦ ⟨hk, rfl⟩
  apply forall₂_filterMap hsame
  rintro k _ ⟨hk, rfl⟩
  have hP := hP k hk
  cases hget : criteria.get k.key with
  | none => exact .none
  | some v =>
      rw [hget, Option.bind_some] at hP
      have hv : ∀ q ∈ v.floats, F64.IsValue q := fun q hq ↦
        hfloats q (Json.floats_subset_of_get hget hq)
      have hrel := numberLiteral_rel henv hv fun x ↦ hfinite k.key v x hget
      rw [Option.bind_some, Option.bind_some]
      rcases hx : boundNumber env server v with _ | x <;>
        rcases ht : numberLiteral env v with _ | t <;> rw [hx, ht] at hrel <;> cases hrel
      · exact .none
      · next hnumeral => exact .some (says_bound henv hname k hnumeral (hP x hx))

/-- A range is the sequence of its bounds, of which there is one at least. -/
theorem says_range (henv : Lawful env server) (hname : PlainName field.toList)
    (hfloats : ∀ q ∈ criteria.floats, F64.IsValue q)
    (hfinite : ∀ key v x, criteria.get key = some v → boundNumber env server v = some x →
      v.asStr.isSome → x.isFinite = true)
    (hone : ∃ k ∈ boundKeys, ((criteria.get k.key).bind (boundNumber env server)).isSome = true)
    (hP : ∀ k ∈ boundKeys, ∀ x, (criteria.get k.key).bind (boundNumber env server) = some x →
      P (boundLeaf k field.toList x)) (counter : ℕ) :
    ∃ f, (buildRangeFilter env field criteria counter).1 = some f ∧
      Says server P (fun d ↦ boundKeys.all (boundHolds env server d field.toList criteria)) f := by
  have hclauses := says_bounds henv hname hfloats hfinite hP
  have hne : (boundKeys.filterMap fun k ↦ ((criteria.get k.key).bind (numberLiteral env)).map
      fun t ↦ (boundText field k t, ([] : Params))) ≠ [] := by
    intro hnil
    rw [hnil] at hclauses
    exact boundTruths_ne_nil field.toList hone (List.forall₂_nil_right_iff.mp hclauses)
  have htexts : (boundKeys.filterMap fun k ↦ ((criteria.get k.key).bind (numberLiteral env)).map
      (boundText field k)) = (boundKeys.filterMap fun k ↦
        ((criteria.get k.key).bind (numberLiteral env)).map
          fun t ↦ (boundText field k t, ([] : Params))).map Prod.fst := by
    rw [List.map_filterMap]
    congr 1
    funext k
    rw [Option.map_map]
    rfl
  have hsequence := says_sequence hclauses hne
  rw [← htexts] at hsequence
  refine ⟨_, ?_, hsequence.congr fun d ↦ boundTruths_all d field.toList criteria⟩
  rw [buildRangeFilter]
  apply if_neg
  rw [htexts, List.isEmpty_map, List.isEmpty_iff]
  exact hne

end Range

end Operations

end Says

end VectorDbBenchmark.Valkey
