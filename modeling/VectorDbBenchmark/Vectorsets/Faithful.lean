import VectorDbBenchmark.JsonEq
import VectorDbBenchmark.SpreadTree
import VectorDbBenchmark.Vectorsets.Operands

/-!
# VSIM filters of condition trees

The filter that is built for a condition tree is read as a condition that is true of the
attributes of the documents whose metadata the tree is true of.
-/

namespace VectorDbBenchmark.Vectorsets

open Kit Redis ConditionTree GroupBuilder InfixSyntax
open Readers (MetadataItem)

/-! ## What the clauses say -/

section Says

variable {env : NumberEnv} {sphere : Sphere} {instant : String → Option ℚ}
  {A : MetadataItem → Prop} {field : String}

/-- The text is one token, which is the literal. -/
abbrev Denotes (t : Text) (l : Literal) : Prop := Lexer.Denotes spelling readLiteral t l

theorem lex_quoted (s : Text) : Lexer.lex spelling (quoted s) = some [.quoted '"' s] :=
  backslashQuote.lex fun _ _ ↦ rfl

theorem denotes_quoted (s : Text) : Denotes (quoted s) (.text s) := ⟨_, lex_quoted s, rfl⟩

variable (env field) in
/-- The numeral of a number that fits. -/
theorem exists_numeral {n : Number} (h : fits n = true) (hn : n.Represented) :
    ∃ t, numberClause field (.number n) = some (binaryText field "==" t) ∧
      numberLiteral env (.number n) = some t ∧ Denotes t (.number n.value) := by
  cases n with
  | posInt m hm =>
      have hint : (Json.number (.posInt m hm)).asI64 = some (m : ℤ) := if_pos (of_decide_eq_true h)
      refine ⟨intText m, ?_, ?_, readsNumerals.denotes_intText m⟩
      · rw [numberClause, hint]
      · rw [numberLiteral, hint]
  | negInt i hi => exact ⟨intText i, rfl, rfl, readsNumerals.denotes_intText i⟩
  | float q =>
      have hq : F64.IsValue q := hn q List.mem_cons_self
      refine ⟨(F64.fin q).display, rfl, rfl, ?_⟩
      exact readsNumerals.denotes (F64.display_ne_nil q) (fun c hc ↦
        isNumeralChar_of_decimal (mem_decimalText hc)) (readNumber_display hq (of_decide_eq_true h))

variable (env field) in
/-- The equality with a string. -/
theorem exists_equalityClause (s : String) :
    ∃ t, equalityClause env field s = binaryText field "==" t ∧
      Denotes t (stringLiteral env s) := by
  rw [equalityClause, stringLiteral]
  cases env.datetimeToEpochSecs s with
  | some epoch => exact ⟨_, rfl, readsNumerals.denotes_intText epoch⟩
  | none => exact ⟨_, rfl, denotes_quoted s.toList⟩

variable (env sphere A) in
/-- A text that is read as operands with this truth at the attributes of each document. -/
abbrev SaysItem (truth : MetadataItem → Bool) (t : Text) : Prop :=
  Says language (fun item ↦ Atom.holds (attrsOf env sphere item)) A truth t

theorem get_ofList (attrs : Json) : attrs.get (String.ofList field.toList) = attrs.get field := by
  rw [String.ofList_toList]

theorem lex_selector (hfield : isSelector field.toList = true) :
    Lexer.lex spelling (selector field) = some [.word ('.' :: field.toList)] :=
  (isWord_selector hfield).lex

theorem says_binary (hfield : isSelector field.toList = true) {op : String} {c : Comparison}
    (hlex : Lexer.lex spelling op.toList = some [.symbol op.toList])
    (hop : readComparison op.toList = some c) {t : Text} {lit : Literal} (ht : Denotes t lit)
    {truth : MetadataItem → Bool} (htruth : ∀ item, A item →
      (((attrsOf env sphere item).get field).any fun a ↦ c.holds a lit) = truth item) :
    SaysItem env sphere A truth (binaryText field op t) := by
  obtain ⟨k, hk, hread⟩ := ht
  refine says_leaf (Lexer.lex_blank rfl (lex_selector hfield) (Lexer.lex_blank rfl hlex hk)) rfl
    (l := .compare field.toList c lit) ?_ fun item hitem ↦ ?_
  · have hbegin : language.begin (.word ('.' :: field.toList)) =
        some (.inl (.attribute field.toList)) := by
      show (readSelector _).map _ = _
      rw [readSelector_of_isSelector hfield]
      rfl
    have hstep : language.step (.attribute field.toList) (.symbol op.toList) =
        some (.inl (.operand field.toList c)) := by
      show (readComparison _).map _ = _
      rw [hop]
      rfl
    have hend : language.step (.operand field.toList c) k =
        some (.inr (.compare field.toList c lit)) := by
      show (readLiteral k).map _ = _
      rw [hread]
      rfl
    show readLeaf language [.word ('.' :: field.toList), .symbol op.toList, k] = _
    rw [readLeaf_of_begin hbegin, finish_of_step hstep, finish_cons, hend]
    rfl
  · rw [Atom.holds, get_ofList]
    exact htruth item hitem

theorem says_member (hfield : isSelector field.toList = true) (s : Text)
    {truth : MetadataItem → Bool} (htruth : ∀ item, A item →
      ((attrsOf env sphere item).get field).any (contains s) = truth item) :
    SaysItem env sphere A truth (memberText s field) := by
  have hin : Lexer.lex spelling "in".toList = some [.word "in".toList] := rfl
  refine says_leaf (Lexer.lex_blank rfl (lex_quoted s)
    (Lexer.lex_blank rfl hin (lex_selector hfield))) rfl (l := .member s field.toList) ?_
    fun item hitem ↦ ?_
  · have hstep : language.step (.item s) (.word "in".toList) = some (.inl (.container s)) := rfl
    have hend : language.step (.container s) (.word ('.' :: field.toList)) =
        some (.inr (.member s field.toList)) := by
      show (readSelector _).map _ = _
      rw [readSelector_of_isSelector hfield]
      rfl
    show readLeaf language (.quoted '"' s :: .word "in".toList ::
      [.word ('.' :: field.toList)]) = _
    rw [readLeaf_of_begin rfl, finish_of_step hstep, finish_cons, hend]
    rfl
  · rw [Atom.holds, get_ofList]
    exact htruth item hitem

theorem toList_and : " and ".toList = ' ' :: ("and".toList ++ [' ']) := rfl

theorem toList_or : " or ".toList = ' ' :: ("or".toList ++ [' ']) := rfl

theorem says_parensOr {truths : List (MetadataItem → Bool)} {ts : List Text}
    (h : List.Forall₂ (SaysItem env sphere A) truths ts) (hne : ts ≠ []) :
    SaysItem env sphere A (fun item ↦ truths.any fun f ↦ f item) (parensOr ts) := by
  rw [parensOr, toList_or]
  exact says_disj standard spells_or h hne

theorem says_parensAnd {truths : List (MetadataItem → Bool)} {ts : List Text}
    (h : List.Forall₂ (SaysItem env sphere A) truths ts) (hne : ts ≠ []) :
    SaysItem env sphere A (fun item ↦ truths.all fun f ↦ f item) (parensAnd ts) := by
  rw [parensAnd, toList_and]
  exact (says_conj standard spells_and h hne).parens standard

/-! ### Matches -/

section Match

variable {l : Leaf} {b : Json}

variable (henv : ReadsInstants env instant) (hl : Readable instant l)
  (hA : ∀ item, A item → Carries instant item l)

include henv hl hA

/-- The equality with an operand that is not looked for in labels. -/
theorem says_equality (hb : b ∈ operands l) {t : Text} {lit : Literal}
    (hlit : literalOf env b = some lit) (ht : Denotes t lit)
    (hlabels : ¬(l.field = "labels" ∧ b.asStr.isSome = true)) :
    SaysItem env sphere A (operandHolds instant l.field b) (binaryText l.field "==" t) :=
  says_binary (c := .eq) hl.field rfl rfl ht fun item hitem ↦
    eq_holds henv hl (hA item hitem) hb hlit hlabels

theorem says_number {n : Number} (hb : .number n ∈ operands l) (hfits : fits n = true)
    (hn : n.Represented) :
    ∃ t, numberClause l.field (.number n) = some t ∧
      SaysItem env sphere A (operandHolds instant l.field (.number n)) t := by
  obtain ⟨t, hclause, -, ht⟩ := exists_numeral env l.field hfits hn
  exact ⟨_, hclause, says_equality henv hl hA hb rfl ht fun h ↦ Bool.false_ne_true h.2⟩

theorem says_string {s : String} (hb : .string s ∈ operands l) (hfield : l.field ≠ "labels") :
    SaysItem env sphere A (operandHolds instant l.field (.string s))
      (equalityClause env l.field s) := by
  obtain ⟨t, hclause, ht⟩ := exists_equalityClause env l.field s
  rw [hclause]
  exact says_equality henv hl hA hb rfl ht fun h ↦ hfield h.1

/-- The clause of a scalar. -/
theorem says_value (hb : b ∈ operands l) (hscalar : isScalar b = true)
    (hlabels : l.field = "labels" → b.asStr = none) (hfloats : ∀ q ∈ b.floats, F64.IsValue q) :
    ∃ t, valueClause env l.field b = some t ∧
      SaysItem env sphere A (operandHolds instant l.field b) t := by
  cases b with
  | string s =>
      refine ⟨_, rfl, says_string henv hl hA hb fun hfield ↦ ?_⟩
      cases hlabels hfield
  | number n => exact says_number henv hl hA hb hscalar hfloats
  | bool b =>
      exact ⟨_, rfl, says_equality henv hl hA hb rfl (denotes_quoted _) fun h ↦
        Bool.false_ne_true h.2⟩
  | _ => cases hscalar

variable (sphere) in
/-- The clause of an item of a list. -/
theorem says_item (hop : l.op = "match") (hbool : ∀ b ∈ operands l, b.asBool = none)
    (hb : b ∈ operands l) (hitem : isItem b = true) (hfloats : ∀ q ∈ b.floats, F64.IsValue q) :
    ∃ t, anyClause env l.field b = some t ∧
      SaysItem env sphere A (operandHolds instant l.field b) t := by
  cases b with
  | string s =>
      have hne : ¬s.isEmpty = true := by simpa [isItem] using hitem
      have hclause : anyClause env l.field (.string s) = some (if l.field = "labels" then
          memberText s.toList l.field else equalityClause env l.field s) := by
        rw [anyClause, Json.asStr]
        dsimp only
        rw [if_neg hne]
        split_ifs <;> rfl
      refine ⟨_, hclause, ?_⟩
      split_ifs with hfield
      · exact says_member hl.field s.toList fun item hitem ↦
          member_holds hop hfield (hA item hitem) hbool s
      · exact says_string henv hl hA hb hfield
  | number n => exact says_number henv hl hA hb hitem hfloats
  | _ => cases hitem

omit henv hl hA in
/-- No document has a value that is no scalar. -/
theorem operandHolds_idle (hb : isIdle b = true) (item : MetadataItem) :
    operandHolds instant field b item = false := by
  rw [operandHolds]
  cases valueOf item field with
  | none => rfl
  | some v => cases b <;> cases v <;> first | rfl | cases hb

variable (sphere) in
/-- The clauses of the items of a list. -/
theorem exists_anyClauses (hop : l.op = "match") (hbool : ∀ b ∈ operands l, b.asBool = none)
    {vs : List Json} (hvs : ∀ v ∈ vs, v ∈ operands l)
    (h : ∀ v ∈ vs, (isItem v || isIdle v) = true)
    (hfloats : ∀ v ∈ vs, ∀ q ∈ v.floats, F64.IsValue q) :
    ∃ truths, List.Forall₂ (SaysItem env sphere A) truths (vs.filterMap (anyClause env l.field)) ∧
      ∀ item, (truths.any fun f ↦ f item) = vs.any fun b ↦ operandHolds instant l.field b item := by
  induction vs with
  | nil => exact ⟨[], .nil, fun _ ↦ rfl⟩
  | cons v vs ih =>
      rw [List.forall_mem_cons] at hvs h hfloats
      obtain ⟨truths, hclauses, heval⟩ := ih hvs.2 h.2 hfloats.2
      cases hitem : isItem v with
      | true =>
          obtain ⟨t, ht, hsays⟩ := says_item sphere henv hl hA hop hbool hvs.1 hitem hfloats.1
          refine ⟨operandHolds instant l.field v :: truths, ?_, fun item ↦ ?_⟩
          · rw [List.filterMap_cons_some ht]
            exact .cons hsays hclauses
          · rw [List.any_cons, List.any_cons, heval]
      | false =>
          have hidle : isIdle v = true := by simpa [hitem] using h.1
          refine ⟨truths, ?_, fun item ↦ ?_⟩
          · rw [List.filterMap_cons_none]
            · exact hclauses
            · cases v with
              | null => rfl
              | array _ => rfl
              | object _ => rfl
              | _ => cases hidle
          · rw [List.any_cons, operandHolds_idle hidle, Bool.false_or, heval]

omit henv hl hA in
/-- The clauses of a list, one alone or several in parentheses. -/
theorem says_alternatives {truths : List (MetadataItem → Bool)} {vs : List Json}
    (h : List.Forall₂ (SaysItem env sphere A) truths (vs.filterMap (anyClause env field)))
    (hne : vs.filterMap (anyClause env field) ≠ []) :
    SaysItem env sphere A (fun item ↦ truths.any fun f ↦ f item)
      (buildMatchAnyClause env field vs) := by
  unfold buildMatchAnyClause
  split
  · next hnil => exact absurd hnil hne
  · next clause hone =>
      rw [hone] at h
      cases h with
      | cons hclause hnil =>
          cases hnil
          exact hclause.congr fun item _ ↦ (Bool.or_false _).symm
  · exact says_parensOr h hne

end Match

/-! ### Ranges -/

section Range

variable {l : Leaf}

variable (instant) in
/-- The truth of a bound at the value of a field. -/
def boundHolds (field : String) (b : Comparison × Json) (item : MetadataItem) : Bool :=
  (valueOf item field).any fun v ↦ metadataOrders instant b.1 v b.2

/-- The literal of a bound. -/
theorem exists_boundLiteral (henv : ReadsInstants env instant) {b : Json}
    (hbound : isBound instant b = true) (hfloats : ∀ q ∈ b.floats, F64.IsValue q) :
    ∃ t lit, numberLiteral env b = some t ∧ literalOf env b = some lit ∧ Denotes t lit := by
  cases b with
  | string s =>
      obtain ⟨q, hq⟩ := Option.isSome_iff_exists.mp hbound
      have hseconds : env.datetimeToEpochSecs s = some ⌊q⌋ := by
        rw [henv.seconds, hq, Option.map_some]
      refine ⟨intText ⌊q⌋, .number ⌊q⌋, ?_, ?_, readsNumerals.denotes_intText ⌊q⌋⟩
      · simp only [numberLiteral, Json.asI64, Json.asF64, Json.asStr, hseconds]
      · rw [literalOf, stringLiteral, hseconds]
  | number n =>
      obtain ⟨t, -, hliteral, ht⟩ := exists_numeral env "" hbound hfloats
      exact ⟨t, _, hliteral, rfl, ht⟩
  | _ => cases hbound

/-- The operator of a bound and the comparison it is. -/
abbrev SameBound := Lexer.SameOperator spelling readComparison

theorem sameBound : List.Forall₂ SameBound boundOps boundComparisons :=
  .cons ⟨rfl, rfl, rfl⟩ (.cons ⟨rfl, rfl, rfl⟩ (.cons ⟨rfl, rfl, rfl⟩ (.cons ⟨rfl, rfl, rfl⟩ .nil)))

/-- The bound of a key, if it is given. -/
def boundAt (criteria : Json) (c : String × Comparison) : Option (Comparison × Json) :=
  ((criteria.get c.1).bind given).map fun b ↦ (c.2, b)

theorem numberLiteral_of_given {v : Json} (h : given v = none) : numberLiteral env v = none := by
  cases v with
  | null => rfl
  | _ => cases h

theorem eq_of_given {v b : Json} (h : given v = some b) : v = b := by
  cases v <;> cases h <;> rfl

/-- The clauses of the bounds that are given. -/
theorem says_boundClauses (henv : ReadsInstants env instant) (hl : Readable instant l)
    (hA : ∀ item, A item → Carries instant item l) (hop : l.op = "range")
    (hbounds : ∀ b ∈ bounds l.criteria, isBound instant b.2 = true) {ks : List (String × String)}
    {cs : List (String × Comparison)} (h : List.Forall₂ SameBound ks cs)
    (hcs : ∀ b ∈ cs.filterMap (boundAt l.criteria), b ∈ bounds l.criteria) :
    List.Forall₂ (fun b ↦ SaysItem env sphere A (boundHolds instant l.field b))
      (cs.filterMap (boundAt l.criteria)) (ks.filterMap fun k ↦
        ((l.criteria.get k.1).bind (numberLiteral env)).map (binaryText l.field k.2)) := by
  induction h with
  | nil => exact .nil
  | @cons k c ks cs hk _ ih =>
      cases hgiven : (l.criteria.get c.1).bind given with
      | none =>
          have hbound : boundAt l.criteria c = none := by rw [boundAt, hgiven, Option.map_none]
          have hclause : (l.criteria.get k.1).bind (numberLiteral env) = none := by
            rw [hk.key]
            cases hget : l.criteria.get c.1 with
            | none => rfl
            | some v =>
                rw [hget] at hgiven
                exact numberLiteral_of_given hgiven
          rw [List.filterMap_cons_none hbound] at hcs ⊢
          rw [List.filterMap_cons_none (by rw [hclause]; rfl)]
          exact ih hcs
      | some b =>
          have hbound : boundAt l.criteria c = some (c.2, b) := by
            rw [boundAt, hgiven, Option.map_some]
          rw [List.filterMap_cons_some hbound] at hcs ⊢
          rw [List.forall_mem_cons] at hcs
          obtain ⟨v, hget, hv⟩ := Option.bind_eq_some_iff.mp hgiven
          obtain rfl := eq_of_given hv
          obtain ⟨t, lit, hliteral, hlit, ht⟩ := exists_boundLiteral henv (hbounds _ hcs.1)
            fun q hq ↦ hl.floats q (Json.floats_subset_of_get hget hq)
          have hclause : (l.criteria.get k.1).bind (numberLiteral env) = some t := by
            rw [hk.key, hget, Option.bind_some, hliteral]
          rw [List.filterMap_cons_some (by rw [hclause]; rfl)]
          refine .cons (says_binary hl.field hk.lex hk.op ht fun item hitem ↦ ?_) (ih hcs.2)
          exact order_holds henv hl hop (hA item hitem) hcs.1 (hbounds _ hcs.1) hlit

variable (sphere) in
theorem says_range (henv : ReadsInstants env instant) (hl : Readable instant l)
    (hA : ∀ item, A item → Carries instant item l) (hop : l.op = "range")
    (hbounds : ∀ b ∈ bounds l.criteria, isBound instant b.2 = true)
    (hne : bounds l.criteria ≠ []) :
    ∃ t, buildRangeClause env l.field l.criteria = some t ∧
      SaysItem env sphere A (fun item ↦ (bounds l.criteria).all fun b ↦
        boundHolds instant l.field b item) t := by
  have hclauses : List.Forall₂ (fun b ↦ SaysItem env sphere A (boundHolds instant l.field b))
      (bounds l.criteria) (boundClauses env l.field l.criteria) :=
    says_boundClauses henv hl hA hop hbounds sameBound fun _ hb ↦ hb
  unfold buildRangeClause
  split
  · next hnil =>
      rw [hnil] at hclauses
      exact absurd (List.forall₂_nil_right_iff.mp hclauses) hne
  · next clause hone =>
      rw [hone] at hclauses
      refine ⟨clause, rfl, ?_⟩
      generalize bounds l.criteria = bs at hclauses
      cases hclauses with
      | cons hclause hnil =>
          cases hnil
          exact hclause.congr fun item _ ↦ (Bool.and_true _).symm
  · next hmany _ =>
      refine ⟨_, rfl, ?_⟩
      have htruths := List.forall₂_map_left_iff.mpr hclauses
      refine (says_parensAnd htruths fun hnil ↦ hmany hnil).congr fun item _ ↦ ?_
      rw [List.all_map]
      rfl

end Range

/-! ### Leaves -/

section Leaves

variable {l : Leaf}

variable (sphere) in
/-- The clause of a leaf is true of the attributes of the documents the leaf is true of. -/
theorem exists_clause (henv : ReadsInstants env instant) (hl : Readable instant l)
    (hA : ∀ item, A item → Carries instant item l) :
    ∃ t, buildClause env sphere l.field l.op l.criteria = some t ∧
      SaysItem env sphere A (fun item ↦ leafHolds instant item l) t := by
  have hl' := hl
  obtain ⟨hwf, hfield, hfloats, -, -⟩ := hl'
  cases hwf with
  | @value field v hscalar hlabels =>
      have hget : (Json.object [("value", v)]).get "value" = some v := rfl
      obtain ⟨t, ht, hsays⟩ := says_value henv hl hA List.mem_cons_self hscalar hlabels
        fun q hq ↦ hfloats q (Json.floats_subset_of_get hget hq)
      refine ⟨t, ht, hsays.congr fun item _ ↦ ?_⟩
      show _ = (valueOf item field).any fun w ↦ [v].any (metadataIs instant w)
      simp only [List.any_cons, List.any_nil, Bool.or_false]
      rfl
  | @any field vs hvs hone =>
      have hget : (Json.object [("any", .array vs)]).get "any" = some (.array vs) := rfl
      have hbool : ∀ b ∈ vs, b.asBool = none := by
        intro b hb
        cases b with
        | bool b => cases hvs _ hb
        | _ => rfl
      have hitems : ∀ v ∈ vs, ∀ q ∈ v.floats, F64.IsValue q := fun v hv q hq ↦
        hfloats q (Json.floats_subset_of_get hget (Json.floats_subset_of_elem hv hq))
      obtain ⟨truths, hclauses, heval⟩ := exists_anyClauses sphere henv hl hA rfl hbool
        (fun _ hv ↦ hv) hvs hitems
      have hne : vs.filterMap (anyClause env field) ≠ [] := by
        obtain ⟨v, hv, hitem⟩ := List.any_eq_true.mp hone
        obtain ⟨t, ht, -⟩ := says_item sphere henv hl hA rfl hbool hv hitem (hitems v hv)
        exact List.ne_nil_of_mem (List.mem_filterMap.mpr ⟨v, hv, ht⟩)
      refine ⟨_, rfl, (says_alternatives hclauses hne).congr fun item _ ↦ ?_⟩
      rw [heval]
      show _ = (valueOf item field).any fun w ↦ vs.any (metadataIs instant w)
      simp only [operandHolds]
      cases valueOf item field with
      | none => exact List.any_eq_false.mpr fun _ _ ↦ Bool.false_ne_true
      | some w => rfl
  | @range field obj hbounds hone =>
      obtain ⟨t, ht, hsays⟩ := says_range sphere henv hl hA rfl hbounds hone
      refine ⟨t, ht, hsays.congr fun item hitem ↦ ?_⟩
      obtain ⟨v, k, hv, -⟩ := (hA item hitem).value
      rw [leafHolds, hv]
      simp only [boundHolds, hv, Option.any_some]

end Leaves

end Says

/-! ## Trees -/

section Trees

variable {env : NumberEnv} {sphere : Sphere} {instant : String → Option ℚ}
  {A : MetadataItem → Prop}

variable (instant A) in
/-- What is asked of a leaf, and of the documents. -/
def Kept (l : Leaf) : Prop := Readable instant l ∧ ∀ item, A item → Carries instant item l

variable (sphere) in
theorem says_clauses (henv : ReadsInstants env instant) {ls : List Leaf}
    (h : ∀ l ∈ ls, Kept instant A l) :
    List.Forall₂ (SaysItem env sphere A) (ls.map fun l item ↦ leafHolds instant item l)
      (ls.filterMap fun l ↦ buildClause env sphere l.field l.op l.criteria) := by
  induction ls with
  | nil => exact .nil
  | cons l ls ih =>
      rw [List.forall_mem_cons] at h
      obtain ⟨t, ht, hsays⟩ := exists_clause sphere henv h.1.1 h.1.2
      rw [List.filterMap_cons_some (f := fun l : Leaf ↦
        buildClause env sphere l.field l.op l.criteria) ht]
      exact .cons hsays (ih h.2)

/-- The clauses of a group, joined. -/
theorem says_buildGroup {fs gs : Option (List (MetadataItem → Bool))}
    {ands ors : Option (List Text)} (hsome : (fs.isSome || gs.isSome) = true)
    (hands : Arm (SaysItem env sphere A) fs ands) (hors : Arm (SaysItem env sphere A) gs ors) :
    ∃ b, buildGroup ands ors = some b ∧ SaysItem env sphere A (groupTruth fs gs) b := by
  refine says_groupText standard spells_and (fun h hne ↦ ?_) (fun h hne ↦ ?_) hsome hands hors
  · rw [toList_and]
    exact says_conj standard spells_and h hne
  · exact says_parensOr h hne

theorem not_isGroupKey {obj : List (String × Json)}
    (h : (containsKey "and" obj || containsKey "or" obj) = false) {e : String × Json}
    (he : e ∈ obj) : isGroupKey e = false := by
  rw [Bool.or_eq_false_iff, containsKey, containsKey, List.any_eq_false, List.any_eq_false] at h
  have hand := h.1 e he
  have hor := h.2 e he
  simp_all [isGroupKey]

theorem any_isGroupKey {obj : List (String × Json)} {t : BoolTree Leaf}
    (h : ofEntry (.object obj) = some t) :
    obj.any isGroupKey = (containsKey "and" obj || containsKey "or" obj) := by
  cases hgroup : containsKey "and" obj || containsKey "or" obj with
  | false =>
      refine List.any_eq_false.mpr fun e he ↦ ?_
      rw [not_isGroupKey hgroup he]
      exact Bool.false_ne_true
  | true =>
      obtain ⟨-, ts, us, hts, hus, htree⟩ := exists_group_of_ofEntry hgroup h
      rw [List.any_eq_true]
      cases ts with
      | some ts =>
          obtain ⟨v, vs, hmem, -, -⟩ := exists_cons_of_ofKey hts
          exact ⟨_, hmem, rfl⟩
      | none =>
          cases us with
          | some us =>
              obtain ⟨v, vs, hmem, -, -⟩ := exists_cons_of_ofKey hus
              exact ⟨_, hmem, rfl⟩
          | none => cases htree

/-- Everything in a group is an array of it. -/
theorem isGroupKey_of_isGroup {obj : List (String × Json)} {ts us : Option (List (BoolTree Leaf))}
    {t : BoolTree Leaf} (hg : IsGroup obj ts us t) {e : String × Json} (he : e ∈ obj) :
    isGroupKey e = true := by
  have harray : ∀ {key ts}, ofKey key obj = some ts → e.1 = key → e.2.asArray.isSome = true := by
    intro key ts hts hkey
    have hget : Json.getEntry key obj = some e.2 :=
      Json.getEntry_of_mem (Json.nodup_of_keysDistinct hg.keysDistinct) (hkey ▸ he)
    cases ts with
    | none =>
        rw [getEntry_of_ofKey_none hts] at hget
        cases hget
    | some ts =>
        obtain ⟨v, vs, -, harray, -⟩ := exists_cons_of_ofKey hts
        rw [← Option.some.inj (harray.symm.trans hget)]
        rfl
  have hkey := List.all_eq_true.mp hg.keys e he
  rw [isGroupKey, hkey, Bool.true_and]
  rw [Bool.or_eq_true, decide_eq_true_eq, decide_eq_true_eq] at hkey
  exact hkey.elim (harray hg.ands) (harray hg.ors)

variable (sphere) in
theorem spreads_clauseBuilder (henv : ReadsInstants env instant) :
    (clauseBuilder env sphere).Spreads Outcome.id (Kept instant A) (leafHolds instant)
      (SaysItem env sphere A) where
  isGroup := any_isGroupKey
  leaf {obj} hnot _ hP := by
    have hfilter : (obj.filter fun e ↦ !isGroupKey e) = obj := by
      refine List.filter_eq_self.mpr fun e he ↦ ?_
      rw [not_isGroupKey hnot he]
      rfl
    show List.Forall₂ _ _ (fieldClauses env sphere obj)
    rw [fieldClauses, hfilter]
    exact says_clauses sphere henv hP
  enter _ _ := trivial
  leave _ _ := trivial
  group {obj _ _ _ _ _ ands ors} hg hsome hands hors := by
    have hfilter : (obj.filter fun e ↦ !isGroupKey e) = [] := by
      refine List.filter_eq_nil_iff.mpr fun e he ↦ ?_
      rw [isGroupKey_of_isGroup hg he]
      exact Bool.false_ne_true
    have hfields : fieldClauses env sphere obj = [] := by
      rw [fieldClauses, hfilter]
      rfl
    obtain ⟨b, hb, hbody⟩ := says_buildGroup hsome hands hors
    show List.Forall₂ _ _ (((buildGroup ands ors).map _).toList ++ fieldClauses env sphere obj)
    rw [hb, hfields, List.append_nil]
    exact .cons (hbody.parens standard) .nil

end Trees

/-- The filter of a condition tree in which every entry of a disjunction has one operation is
read as a condition that is true of exactly the attributes of the documents whose metadata the tree
is true of. -/
theorem buildFilterExpression_faithful {env : NumberEnv} (sphere : Sphere)
    {instant : String → Option ℚ} (henv : ReadsInstants env instant) {conditions : Json}
    {t : BoolTree Leaf} (hkeys : conditions.keysDistinct = true)
    (ht : ofConditions conditions = some t) (hsingle : t.Single)
    (hleaves : ∀ l ∈ t.leaves, Readable instant l) :
    ∃ expr F, buildFilterExpression env sphere conditions = some expr ∧
      InfixSyntax.parse language expr = some F ∧
      ∀ item : MetadataItem, (∀ l ∈ t.leaves, Carries instant item l) →
        ∃ attrs, metadataToAttrJson env sphere item = some attrs ∧
          F.eval (Atom.holds attrs) = t.eval (leafHolds instant item) := by
  have hkept : ∀ l ∈ t.leaves,
      Kept instant (fun item ↦ ∀ l ∈ t.leaves, Carries instant item l) l :=
    fun l hl ↦ ⟨hleaves l hl, fun item hitem ↦ hitem l hl⟩
  obtain ⟨obj, ts, us, rfl, hg, hand, hor⟩ :=
    (spreads_clauseBuilder sphere henv).follows.arms hkeys ht hkept
  have hsome : ((ts.map (truths (leafHolds instant))).isSome ||
      (us.map (truths (leafHolds instant))).isSome) = true := by
    rw [Option.isSome_map, Option.isSome_map]
    exact isSome_of_groupTree hg.tree
  obtain ⟨expr, hexpr, hsays⟩ := says_buildGroup hsome hand.2 hor.2
  obtain ⟨F, hF, heval⟩ := hsays.parse
  refine ⟨expr, F, ?_, hF, fun item hitem ↦ ⟨attrsOf env sphere item, ?_, ?_⟩⟩
  · rw [buildFilterExpression, Json.asObject]
    dsimp only
    rw [if_neg (mt List.isEmpty_iff.mp (ne_nil_of_ofEntry hg.entry))]
    exact hexpr
  · obtain ⟨l, hl⟩ := exists_leaf_of_ofEntry hg.entry
    obtain ⟨_, _, _, _, _, _, _, _, hget⟩ := exists_attr env sphere (hitem l hl)
    exact metadataToAttrJson_of_value hget
  · rw [heval item hitem, ← hsingle.eval_spread]
    have hall := truths_all (leafHolds instant) [t] item
    rw [(truths_group _ hg.tree hand.1 hor.1).2] at hall
    simpa using hall

/-! ## Examples -/

section Examples

def plainInstant (s : String) : Option ℚ :=
  if s = "1970-01-01T00:01:00Z" then some 60
  else if s = "1970-01-01T00:02:00Z" then some 120
  else if s = "1970-01-01T00:01:00.5Z" then some (121 / 2)
  else none

def plainEnv : NumberEnv := ⟨fun s ↦ (plainInstant s).map Int.floor, fun _ ↦ none⟩

/-- Every point on one axis. -/
def plainSphere : Sphere := ⟨fun _ _ ↦ (.fin 1, .fin 0, .fin 0), fun _ ↦ .fin 1⟩

theorem readsInstants_plainEnv : ReadsInstants plainEnv plainInstant where
  seconds _ := rfl
  plain b := by cases b <;> decide
  range s q hq := by
    rw [plainInstant] at hq
    split_ifs at hq <;> cases hq <;> with_unfolding_all decide

/-- Labels and a datetime, and a disjunction with a nested group. -/
def labelsAndSize : Json :=
  .object [("and", .array
    [leafEntry "labels" "match" [("any", .array [.string "x", .string "a\"\\"])],
      leafEntry "t" "range" [("gte", .string "1970-01-01T00:01:00Z"),
        ("lt", .string "1970-01-01T00:02:00Z")]]),
    ("or", .array [leafEntry "n" "match" [("any", .array [.ofNat 7, .number (.float (3 / 2))])],
      .object [("and", .array [leafEntry "k" "match" [("value", .string "red")],
        leafEntry "b" "match" [("value", .bool true)]])]])]

def labelsAndSizeTree : BoolTree Leaf :=
  .all [.all
      [.all [.leaf ⟨"labels", "match", .object [("any", .array [.string "x", .string "a\"\\"])]⟩],
        .all [.leaf ⟨"t", "range", .object [("gte", .string "1970-01-01T00:01:00Z"),
          ("lt", .string "1970-01-01T00:02:00Z")]⟩]],
    .any
      [.all [.leaf ⟨"n", "match", .object [("any", .array [.ofNat 7, .number (.float (3 / 2))])]⟩],
      .all [.all [.leaf ⟨"k", "match", .object [("value", .string "red")]⟩],
        .all [.leaf ⟨"b", "match", .object [("value", .bool true)]⟩]]]]

/-- A document that carries all of these fields, and a geo point. -/
def redDocument : MetadataItem :=
  ⟨[("labels", .labels ["y", "a\"\\"]), ("t", .string "1970-01-01T00:01:00Z"),
    ("n", .float (.fin 2)), ("k", .string "red"), ("b", .string "true"),
    ("loc", .geo (.fin 0) (.fin 0))]⟩

theorem leaves_labelsAndSizeTree : labelsAndSizeTree.leaves =
    [⟨"labels", "match", .object [("any", .array [.string "x", .string "a\"\\"])]⟩,
      ⟨"t", "range", .object [("gte", .string "1970-01-01T00:01:00Z"),
        ("lt", .string "1970-01-01T00:02:00Z")]⟩,
      ⟨"n", "match", .object [("any", .array [.ofNat 7, .number (.float (3 / 2))])]⟩,
      ⟨"k", "match", .object [("value", .string "red")]⟩,
      ⟨"b", "match", .object [("value", .bool true)]⟩] := rfl

theorem wholeSeconds_of_ne {s : String} (h : s ≠ "1970-01-01T00:01:00.5Z") :
    WholeSeconds plainInstant s := by
  intro q hq
  rw [plainInstant, if_neg h] at hq
  split_ifs at hq <;> cases hq <;> norm_num

theorem readable_labelsAndSize : ∀ l ∈ labelsAndSizeTree.leaves, Readable plainInstant l := by
  have hvalue : F64.IsValue (3 / 2) := by decide +kernel
  have hwhole : ∀ {l : Leaf}, .string "1970-01-01T00:01:00.5Z" ∉ operands l →
      ∀ s, .string s ∈ operands l → WholeSeconds plainInstant s := by
    intro l hl s hs
    refine wholeSeconds_of_ne ?_
    rintro rfl
    exact hl hs
  rw [leaves_labelsAndSizeTree]
  simp only [List.forall_mem_cons]
  refine ⟨⟨.any _ (by decide) rfl, by decide, List.forall_mem_nil _, ?_, by decide⟩,
    ⟨.range _ ?_ (List.cons_ne_nil _ _), by decide, List.forall_mem_nil _, ?_, by decide⟩,
    ⟨.any _ ?_ rfl, by decide, List.forall_mem_singleton.mpr hvalue, ?_, by decide⟩,
    ⟨.value _ rfl (by decide), by decide, List.forall_mem_nil _, ?_, by decide⟩,
    ⟨.value _ rfl (by decide), by decide, List.forall_mem_nil _, ?_, by decide⟩,
    List.forall_mem_nil _⟩
  · exact hwhole (by simp [operands, matchOperands, Json.get, Json.getEntry, Json.asArray])
  · exact List.forall_mem_cons.mpr ⟨rfl, List.forall_mem_singleton.mpr rfl⟩
  · exact hwhole (by simp [operands, bounds, boundComparisons, Json.get, Json.getEntry, given])
  · exact List.forall_mem_cons.mpr ⟨rfl,
      List.forall_mem_singleton.mpr (by with_unfolding_all decide)⟩
  · exact hwhole (by
      simp [operands, matchOperands, Json.get, Json.getEntry, Json.asArray, Json.ofNat])
  · exact hwhole (by simp [operands, matchOperands, Json.get, Json.getEntry])
  · exact hwhole (by simp [operands, matchOperands, Json.get, Json.getEntry])

theorem carries_redDocument :
    ∀ l ∈ labelsAndSizeTree.leaves, Carries plainInstant redDocument l := by
  have hcomponent : ∀ {field : String},
      (∀ axis ∈ ["x", "y", "z"], componentField "loc" axis ≠ field) →
      ∀ e ∈ redDocument.fields, ∀ lon lat, e.2 = .geo lon lat →
        ∀ axis ∈ ["x", "y", "z"], componentField e.1 axis ≠ field := by
    intro field h e he lon lat hgeo
    simp only [redDocument, List.mem_cons, List.not_mem_nil, or_false] at he
    rcases he with rfl | rfl | rfl | rfl | rfl | rfl
    · cases hgeo
    · cases hgeo
    · cases hgeo
    · cases hgeo
    · cases hgeo
    · exact h
  rw [leaves_labelsAndSizeTree]
  simp only [List.forall_mem_cons]
  exact ⟨⟨⟨_, .labels, rfl, rfl, by decide, trivial⟩, hcomponent (by decide)⟩,
    ⟨⟨_, .instant, rfl, rfl, by decide, wholeSeconds_of_ne (by decide)⟩, hcomponent (by decide)⟩,
    ⟨⟨_, .number, rfl, rfl, by decide, trivial⟩, hcomponent (by decide)⟩,
    ⟨⟨_, .text, rfl, rfl, by decide, wholeSeconds_of_ne (by decide)⟩, hcomponent (by decide)⟩,
    ⟨⟨_, .text, rfl, rfl, by decide, wholeSeconds_of_ne (by decide)⟩, hcomponent (by decide)⟩,
    List.forall_mem_nil _⟩

theorem single_labelsAndSizeTree : labelsAndSizeTree.Single := by
  have hone : ∀ l : Leaf, (BoolTree.all [.leaf l]).Single :=
    fun l ↦ .all (List.forall_mem_singleton.mpr (.leaf l))
  refine .all ?_
  rw [List.forall_mem_cons, List.forall_mem_singleton]
  refine ⟨.all ?_, .any ?_ ?_⟩
  · rw [List.forall_mem_cons, List.forall_mem_singleton]
    exact ⟨hone _, hone _⟩
  · rw [List.forall_mem_cons, List.forall_mem_singleton]
    refine ⟨hone _, .all ?_⟩
    rw [List.forall_mem_cons, List.forall_mem_singleton]
    exact ⟨hone _, hone _⟩
  · rw [List.forall_mem_cons, List.forall_mem_singleton]
    exact ⟨rfl, rfl⟩

theorem buildFilterExpression_faithful_redDocument :
    ∃ expr F attrs, buildFilterExpression plainEnv plainSphere labelsAndSize = some expr ∧
      InfixSyntax.parse language expr = some F ∧
      metadataToAttrJson plainEnv plainSphere redDocument = some attrs ∧
      F.eval (Atom.holds attrs) = labelsAndSizeTree.eval (leafHolds plainInstant redDocument) := by
  obtain ⟨expr, F, hexpr, hF, hdocument⟩ :=
    buildFilterExpression_faithful plainSphere readsInstants_plainEnv (by decide)
      (rfl : ofConditions labelsAndSize = some labelsAndSizeTree) single_labelsAndSizeTree
      readable_labelsAndSize
  obtain ⟨attrs, hattrs, heval⟩ := hdocument redDocument carries_redDocument
  exact ⟨expr, F, attrs, hexpr, hF, hattrs, heval⟩

example : buildFilterExpression plainEnv plainSphere labelsAndSize =
    some ("(\"x\" in .labels or \"a\\\"\\\\\" in .labels) and (.t >= 60 and .t < 120) and ".toList ++
      "((.n == 7 or .n == 1.5) or (.k == \"red\" and .b == \"true\"))".toList) := by
  decide +kernel

/-- The truth of a filter at the attributes of a document, if the filter can be read, and that
of its tree. -/
def verdicts (conditions : Json) (item : MetadataItem) : Option Bool × Option Bool :=
  ((buildFilterExpression plainEnv plainSphere conditions).bind fun expr ↦
      (InfixSyntax.parse language expr).bind fun F ↦
        (metadataToAttrJson plainEnv plainSphere item).map fun attrs ↦ F.eval (Atom.holds attrs),
    (ofConditions conditions).map (BoolTree.eval (leafHolds plainInstant item)))

/-- A group of one match. -/
def matching (field key : String) (v : Json) : Json :=
  .object [("and", .array [leafEntry field "match" [(key, v)]])]

/-- An empty string and a boolean in a list are not looked for, a datetime is stored as a number
of whole seconds, a component of a geo point replaces a field of its name, a large float is
printed rounded, and a field with a blank cannot be selected.  A scalar is compared with all
labels at once. -/
theorem buildFilterExpression_emptyOrStoredAlike :
    verdicts (matching "k" "any" (.array [.string "", .string "x"])) ⟨[("k", .string "")]⟩ =
        (some false, some true) ∧
      verdicts (matching "k" "any" (.array [.bool true, .string "x"])) ⟨[("k", .string "true")]⟩ =
        (some false, some true) ∧
      verdicts (matching "t" "value" (.string "1970-01-01T00:01:00Z"))
        ⟨[("t", .string "1970-01-01T00:01:00.5Z")]⟩ = (some true, some false) ∧
      verdicts (matching "t" "any" (.array [.string "1970-01-01T00:01:00Z", .ofNat 5]))
        ⟨[("t", .int 60)]⟩ = (some true, some false) ∧
      verdicts (matching "a__geo_x" "value" (.ofNat 5))
        ⟨[("a__geo_x", .int 5), ("a", .geo (.fin 0) (.fin 0))]⟩ = (some false, some true) ∧
      verdicts (matching "n" "value" (.number (.float (2 ^ 62)))) ⟨[("n", .int (2 ^ 62))]⟩ =
        (some false, some true) ∧
      verdicts (matching "a b" "value" (.ofNat 1)) ⟨[("a b", .int 1)]⟩ = (none, some true) ∧
      verdicts (matching "labels" "value" (.string "x")) ⟨[("labels", .labels ["x"])]⟩ =
        (some false, some true) := by
  decide +kernel

end Examples

end VectorDbBenchmark.Vectorsets
