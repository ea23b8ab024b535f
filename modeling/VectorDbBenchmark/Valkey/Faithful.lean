import VectorDbBenchmark.Chroma.GeoFree
import VectorDbBenchmark.SpreadTree
import VectorDbBenchmark.Valkey.Leaves

/-!
# The filter of a condition tree

What the builder returns for a tree of operations is a query without parameters that is true
of the documents the tree is true of, and whose clauses have the operands of the tree.
-/

namespace VectorDbBenchmark.Valkey

open Kit Redis ConditionTree GroupBuilder
open Chroma (NoGeo geoFree_array geoFree_entry geoFree_object geoFree_scalar geoFree_singleton
  conditionsMentionGeo)
open Kividb (boundKeys parens)

section Faithful

variable {env : NumberEnv} {server : Server} {P : QueryLeaf → Prop}

/-! ## Operations -/

theorem asObject_of_isScalar {v : Json} (h : Json.isScalar v = true) :
    v.asObject = none ∧ v.asArray = none := by
  cases v with
  | object _ => cases h
  | array _ => cases h
  | null => cases h
  | bool _ => exact ⟨rfl, rfl⟩
  | number _ => exact ⟨rfl, rfl⟩
  | string _ => exact ⟨rfl, rfl⟩

theorem isScalar_of_isOperand {v : Json} (h : isOperand v = true) : Json.isScalar v = true := by
  cases v with
  | string _ => rfl
  | object _ => cases h
  | array _ => cases h
  | null => cases h
  | bool _ => rfl
  | number _ => rfl

/-- A well-formed operation does not mention geo. -/
theorem WellFormed.noGeo {l : Leaf} (h : WellFormed env server l) : NoGeo l := by
  have hscalar : ∀ {v : Json}, Json.isScalar v = true → Chroma.GeoFree v := by
    intro v hv
    obtain ⟨hobject, harray⟩ := asObject_of_isScalar hv
    exact geoFree_scalar hobject harray
  cases h with
  | value field v h =>
      exact ⟨by simp, geoFree_singleton (by simp) (hscalar (isScalar_of_isOperand h))⟩
  | any field vs hvs h =>
      refine ⟨by simp, geoFree_singleton (by simp) (geoFree_array fun v hv ↦ ?_)⟩
      exact (hscalar (List.all_eq_true.mp hvs v hv)).2
  | text field text hne hword =>
      exact ⟨by simp, geoFree_singleton (by simp) (geoFree_scalar rfl rfl)⟩
  | range field es hkeys hscalar hfinite hone =>
      refine ⟨by simp, geoFree_object (fun e he ↦ ?_) hkeys⟩
      exact geoFree_scalar (hscalar e he).1 (hscalar e he).2

/-- What is asked of the operations of a tree. -/
structure Readable (env : NumberEnv) (server : Server) (l : Leaf) : Prop where
  wellFormed : WellFormed env server l
  name : PlainName l.field.toList
  floats : ∀ q ∈ l.criteria.floats, F64.IsValue q

/-- The filter of an operation. -/
theorem says_buildFilter (henv : Lawful env server) {l : Leaf} (hl : Readable env server l)
    (hP : ∀ c ∈ operandLeaves env server l, P c) (counter : ℕ) :
    ∃ f, (buildFilter env l.field l.op l.criteria counter).1 = some f ∧
      Says server P (fun d ↦ leafHolds env server d listedItems l) f := by
  obtain ⟨hwell, hname, hfloats⟩ := hl
  cases hwell with
  | value field v h =>
      refine says_value henv hname h ?_ (fun c hc ↦ hP c ?_) counter
      · have hget : (Json.object [("value", v)]).get "value" = some v := rfl
        exact fun q hq ↦ hfloats q (Json.floats_subset_of_get hget hq)
      · show c ∈ List.flatMap (valueLeaves server field.toList) [v]
        rwa [List.flatMap_singleton]
  | any field vs hvs h => exact ⟨_, rfl, says_any henv hname h hP counter⟩
  | text field text hne hword =>
      exact ⟨_, rfl, says_text hname hne hword (hP _ List.mem_cons_self)⟩
  | range field es hkeys hscalar hfinite hone =>
      refine says_range henv hname hfloats ?_ hone ?_ counter
      · intro key v x hget hx hs
        exact hfinite (key, v) (Json.mem_of_getEntry hget) x hx hs
      · intro k hk x hx
        apply hP
        exact List.mem_filterMap.mpr ⟨k, hk, congrArg (Option.map _) hx⟩

/-! ## Groups -/

section Groups

variable {fs gs : Option (List (Document → Bool))} {ands ors : Option (List ParsedFilter)}

theorem params_of_arm (h : Arm (Says server P) fs ands) :
    ∀ f ∈ ands.getD [], f.2 = [] := by
  cases h with
  | none => exact List.forall_mem_nil _
  | some h =>
      intro f hf
      obtain ⟨truth, -, htold⟩ := exists_of_mem_right h.2 hf
      exact htold.params

theorem foldl_extend_nil {ps : List Params} (h : ∀ p ∈ ps, p = []) :
    ps.foldl Params.extend [] = [] := by
  induction ps with
  | nil => rfl
  | cons p ps ih =>
      rw [List.forall_mem_cons] at h
      rw [List.foldl_cons, h.1]
      exact ih h.2

/-- The clause of one kind of group. -/
theorem says_groupClause {sep : Text} {combine : List (Document → Bool) → Document → Bool}
    (hgroup : ∀ {truths : List (Document → Bool)} {fs : List ParsedFilter},
      List.Forall₂ (Says server P) truths fs → fs ≠ [] →
      Says server P (combine truths) (parens (sep.intercalate (fs.map Prod.fst)), []))
    (h : Arm (Says server P) fs ands) :
    List.Forall₂ (Says server P) (fs.toList.map combine)
      ((groupClause sep ands).map fun t ↦ (t, [])) := by
  cases h with
  | none => exact .nil
  | @some fs bs h =>
      obtain ⟨hne, h⟩ := h
      cases h with
      | nil => exact absurd rfl hne
      | cons hf hfs => exact .cons (hgroup (.cons hf hfs) (List.cons_ne_nil _ _)) .nil

/-- The filter of a group. -/
theorem says_buildCondition (hsome : (fs.isSome || gs.isSome) = true)
    (hands : Arm (Says server P) fs ands) (hors : Arm (Says server P) gs ors) :
    ∃ f, buildCondition ands ors = some f ∧ Says server P (groupTruth fs gs) f := by
  have hclauses : List.Forall₂ (Says server P)
      (fs.toList.map (fun fs d ↦ fs.all fun f ↦ f d) ++
        gs.toList.map fun gs d ↦ gs.any fun g ↦ g d)
      ((groupClause [' '] ands ++ groupClause [' ', '|', ' '] ors).map fun t ↦ (t, [])) := by
    rw [List.map_append]
    exact List.rel_append (says_groupClause says_conjunction hands)
      (says_groupClause says_disjunction hors)
  have hparams : ((ands.getD [] ++ ors.getD []).map Prod.snd).foldl Params.extend [] = [] := by
    apply foldl_extend_nil
    rw [List.forall_mem_map, List.forall_mem_append]
    exact ⟨params_of_arm hands, params_of_arm hors⟩
  have hne : (groupClause [' '] ands ++ groupClause [' ', '|', ' '] ors).map
      (fun t ↦ (t, ([] : Params))) ≠ [] := by
    intro hnil
    rw [hnil] at hclauses
    have htruths := List.forall₂_nil_right_iff.mp hclauses
    cases fs with
    | some fs => cases htruths
    | none =>
        cases gs with
        | some gs => cases htruths
        | none => cases hsome
  have hsequence := says_sequence hclauses hne
  rw [List.map_map, show Prod.fst ∘ (fun t : Text ↦ (t, ([] : Params))) = id from rfl,
    List.map_id] at hsequence
  refine ⟨_, ?_, hsequence.congr fun d ↦ ?_⟩
  · rw [buildCondition, hparams]
    apply if_neg
    rw [List.isEmpty_iff]
    exact fun hnil ↦ hne (List.map_eq_nil_iff.mpr hnil)
  · rw [List.all_append]
    cases fs <;> cases gs <;> simp [groupTruth]

end Groups

/-! ## Trees -/

/-- The operations of an entry. -/
theorem says_leaves (henv : Lawful env server) {ls : List Leaf}
    (hls : ∀ l ∈ ls, Readable env server l ∧ ∀ c ∈ operandLeaves env server l, P c) :
    (Outcome.state ℕ).Holds
      (fun fs ↦ List.Forall₂ (Says server P)
        (ls.map fun l d ↦ leafHolds env server d listedItems l) (fs.filterMap id))
      (ls.mapM fun l ↦ (fun counter ↦ buildFilter env l.field l.op l.criteria counter :
        StateM ℕ (Option ParsedFilter))) := by
  induction ls with
  | nil =>
      rw [List.mapM_nil]
      exact Outcome.pure _ .nil
  | cons l ls ih =>
      rw [List.forall_mem_cons] at hls
      rw [List.mapM_cons]
      apply Outcome.bind _ (p := fun f ↦ ∃ g, f = some g ∧
        Says server P (fun d ↦ leafHolds env server d listedItems l) g)
      · exact says_buildFilter henv hls.1.1 hls.1.2
      · rintro _ ⟨f, rfl, hf⟩
        refine Outcome.bind _ (ih hls.2) fun fs hfs ↦ ?_
        exact Outcome.pure _ (.cons hf hfs)

variable (env server P) in
/-- What is asked of a leaf. -/
def Kept (l : Leaf) : Prop := Readable env server l ∧ ∀ c ∈ operandLeaves env server l, P c

theorem spreads_filterBuilder (henv : Lawful env server) :
    (filterBuilder env).Spreads (Outcome.state ℕ) (Kept env server P)
      (fun d ↦ leafHolds env server d listedItems) (Says server P) where
  isGroup _ := rfl
  leaf {obj} _ _ hls := by
    refine Outcome.bind _ (says_leaves henv hls) fun fs hfs ↦ ?_
    exact Outcome.pure _ hfs
  enter _ _ := Outcome.pure _ trivial
  leave _ _ := Outcome.pure _ trivial
  group _ hsome hands hors := by
    obtain ⟨f, hf, htold⟩ := says_buildCondition hsome hands hors
    apply Outcome.pure
    rw [hf]
    exact .cons htold .nil

/-- The filter of a condition tree. -/
theorem says_parseConditions (henv : Lawful env server) {conditions : Json} {t : BoolTree Leaf}
    (hkeys : conditions.keysDistinct = true) (ht : ofConditions conditions = some t)
    (hls : ∀ l ∈ t.leaves, Kept env server P l) :
    ∃ f, parseConditions env conditions = some f ∧
      Says server P (fun d ↦ t.spread.eval (leafHolds env server d listedItems)) f := by
  obtain ⟨obj, ts, us, rfl, hg, hand, hor⟩ :=
    (spreads_filterBuilder henv).follows.arms hkeys ht hls
  have hsome : ((ts.map (truths fun d ↦ leafHolds env server d listedItems)).isSome ||
      (us.map (truths fun d ↦ leafHolds env server d listedItems)).isSome) = true := by
    rw [Option.isSome_map, Option.isSome_map]
    exact isSome_of_groupTree hg.tree
  have hgroup : (Outcome.state ℕ).Holds (fun r ↦ ∃ f, r = some f ∧ Says server P _ f)
      (buildGroup env obj) :=
    Outcome.bind _ hand.2 fun ands hands ↦ Outcome.bind _ hor.2 fun ors hors ↦
      Outcome.pure _ (says_buildCondition hsome hands hors)
  obtain ⟨f, hf, htold⟩ := hgroup 0
  refine ⟨f, ?_, htold.congr fun d ↦ ?_⟩
  · have hgeo := geoFree_entry hkeys hg.entry fun l hl ↦ (hls l hl).1.wellFormed.noGeo
    rw [← hf, parseConditions, Json.asObject]
    dsimp only
    rw [if_neg (mt List.isEmpty_iff.mp (ne_nil_of_ofEntry hg.entry)), hgeo,
      if_neg Bool.false_ne_true]
  · have hall := truths_all (fun d ↦ leafHolds env server d listedItems) [t] d
    rw [(truths_group _ hg.tree hand.1 hor.1).2] at hall
    simpa using hall

/-- The filter of a condition tree in which every entry of a disjunction has one operation is
read as a query that is true of the documents the tree is true of, and each of its clauses is
one of an operation. -/
theorem parseConditions_filter (henv : Lawful env server) {conditions : Json} {t : BoolTree Leaf}
    (hkeys : conditions.keysDistinct = true) (ht : ofConditions conditions = some t)
    (hsingle : t.Single) (hls : ∀ l ∈ t.leaves, Readable env server l) :
    ∃ query F, parseConditions env conditions = some (query, []) ∧
      readQuery server query = some F ∧
      F.Filled (fun c ↦ ∃ l ∈ t.leaves, c ∈ operandLeaves env server l) ∧
      ∀ d, F.eval (clauseHolds server d) = t.eval (leafHolds env server d listedItems) := by
  have hkept : ∀ l ∈ t.leaves,
      Kept env server (fun c ↦ ∃ l ∈ t.leaves, c ∈ operandLeaves env server l) l := by
    intro l hl
    exact ⟨hls l hl, fun c hc ↦ ⟨l, hl, hc⟩⟩
  obtain ⟨⟨query, params⟩, hbuilt, htold⟩ := says_parseConditions henv hkeys ht hkept
  obtain ⟨rfl, Ts, hread, hfilled, heval⟩ := htold
  refine ⟨query, .any [.all Ts], hbuilt, QuerySyntax.parse_of_fills hread.fills,
    filled_group hread.ne_nil hfilled, fun d ↦ ?_⟩
  rw [← hsingle.eval_spread, ← heval d]
  simp

end Faithful

/-! ## Examples -/

section Examples

/-- An environment for the numerals and the datetime below. -/
def plainEnv : NumberEnv where
  datetimeToEpochSecs s := if s = "1970-01-01T00:01:00Z" then some 60 else none
  parseF64 s := if s = "2.5" then some (.fin (5 / 2)) else none

def plainServer : Server where
  readNumber := F64.parse
  ofInt i := .ofRat i
  fold t := t.map Char.toLower

theorem lawful_plainEnv : Lawful plainEnv plainServer where
  int i := (Kividb.numeral_intText i).read
  display q hq := F64.parse_display hq
  negInf := rfl
  posInf := rfl
  parseF64 s f h hf := by
    rw [plainEnv] at h
    dsimp only at h
    split_ifs at h with hs
    cases h
    subst hs
    exact ⟨by decide +kernel, forall_mem_of_all (by decide)⟩

/-- A disjunction with a tag that has characters of the syntax, and with a range of two bounds. -/
def nested : Json :=
  .object [("or", .array [leafEntry "c" "match" [("value", .string "a|b\x7d")],
    .object [("and", .array [leafEntry "k" "match" [("any", .array [.string "x", .bool true])],
      .object [("n", .object [("range", .object [("gt", Json.ofNat 1), ("lte", .string "2.5")])])],
      leafEntry "w" "match" [("text", .string " word ")]])],
    leafEntry "t" "range" [("gte", .string "1970-01-01T00:01:00Z")]])]

def nestedTree : BoolTree Leaf :=
  .any [.all [.leaf ⟨"c", "match", .object [("value", .string "a|b\x7d")]⟩],
    .all [.all [.leaf ⟨"k", "match", .object [("any", .array [.string "x", .bool true])]⟩],
      .all [.leaf ⟨"n", "range", .object [("gt", Json.ofNat 1), ("lte", .string "2.5")]⟩],
      .all [.leaf ⟨"w", "match", .object [("text", .string " word ")]⟩]],
    .all [.leaf ⟨"t", "range", .object [("gte", .string "1970-01-01T00:01:00Z")]⟩]]

theorem isFinite_boundNumber {v : Json} {x : F64}
    (h : boundNumber plainEnv plainServer v = some x) (hs : v.asStr.isSome = true) :
    x.isFinite = true := by
  cases v with
  | string s =>
      cases he : plainEnv.datetimeToEpochSecs s with
      | some epoch =>
          simp only [boundNumber, Json.asI64, Json.asF64, Json.asStr, he] at h
          rw [plainEnv] at he
          dsimp only at he
          split_ifs at he
          cases he
          cases h
          decide +kernel
      | none =>
          simp only [boundNumber, Json.asI64, Json.asF64, Json.asStr, he] at h
          rw [plainEnv] at h
          dsimp only at h
          split_ifs at h
          cases h
          rfl
  | null => cases hs
  | bool _ => cases hs
  | number _ => cases hs
  | array _ => cases hs
  | object _ => cases hs

theorem readable_nested : ∀ l ∈ nestedTree.leaves, Readable plainEnv plainServer l := by
  have hleaves : nestedTree.leaves = [⟨"c", "match", .object [("value", .string "a|b\x7d")]⟩,
      ⟨"k", "match", .object [("any", .array [.string "x", .bool true])]⟩,
      ⟨"n", "range", .object [("gt", Json.ofNat 1), ("lte", .string "2.5")]⟩,
      ⟨"w", "match", .object [("text", .string " word ")]⟩,
      ⟨"t", "range", .object [("gte", .string "1970-01-01T00:01:00Z")]⟩] := by rfl
  rw [hleaves]
  simp only [List.forall_mem_cons]
  refine ⟨⟨.value _ _ (by decide), by decide, by decide⟩,
    ⟨.any _ _ (by decide) (.inr (by decide)), by decide, by decide⟩,
    ⟨.range _ _ (by decide) (by decide) (fun _ _ _ ↦ isFinite_boundNumber)
      ⟨⟨"gt", false, true⟩, by simp [boundKeys], by rfl⟩, by decide, by decide⟩,
    ⟨.text _ _ (by decide) (forall_mem_of_all (by decide)), by decide, by decide⟩,
    ⟨.range _ _ (by decide) (by decide) (fun _ _ _ ↦ isFinite_boundNumber)
      ⟨⟨"gte", false, false⟩, by simp [boundKeys], by rfl⟩, by decide, by decide⟩,
    List.forall_mem_nil _⟩

theorem single_nested : nestedTree.Single := by
  have hone : ∀ l : Leaf, (BoolTree.all [.leaf l]).Single := by
    intro l
    exact .all (List.forall_mem_singleton.mpr (.leaf l))
  refine .any ?_ ?_
  · simp only [List.forall_mem_cons]
    refine ⟨hone _, .all ?_, hone _, List.forall_mem_nil _⟩
    simp only [List.forall_mem_cons]
    exact ⟨hone _, hone _, hone _, List.forall_mem_nil _⟩
  · simp only [List.forall_mem_cons]
    exact ⟨rfl, rfl, rfl, List.forall_mem_nil _⟩

theorem parseConditions_filter_nested :
    ∃ query F, parseConditions plainEnv nested = some (query, []) ∧
      readQuery plainServer query = some F ∧
      F.Filled (fun c ↦ ∃ l ∈ nestedTree.leaves, c ∈ operandLeaves plainEnv plainServer l) ∧
      ∀ d, F.eval (clauseHolds plainServer d) =
        nestedTree.eval (leafHolds plainEnv plainServer d listedItems) :=
  parseConditions_filter lawful_plainEnv (by decide)
    (by rfl : ofConditions nested = some nestedTree) single_nested readable_nested

set_option maxRecDepth 4000 in
example : (parseConditions plainEnv nested).map Prod.fst =
    some ("(@c:\x7ba\\|b\\\x7d\x7d | (@k:\x7bx\x7d @n:[(1 +inf] @n:[-inf 2.5] ".toList ++
      "@w:\x7bword\x7d) | @t:[60 +inf])".toList) := rfl

/-- A list with a string and a boolean. -/
def mixed : Json :=
  .object [("and", .array [leafEntry "f" "match" [("any", .array [.string "x", .bool true])]])]

/-- A field name that holds a clause and a bar. -/
def injected : Json :=
  .object [("and", .array [leafEntry "a:[0 1] | @b" "match" [("value", Json.ofNat 1)]])]

/-- A document with a boolean in the field `f` and the number zero in the field `a`. -/
def oddDocument : Document where
  tags field := if field = ['f'] then ["true".toList] else []
  number field := if field = ['a'] then some 0 else none

/-- The truth of a filter and of its tree, of whose lists all items count, at a document. -/
def verdicts (conditions : Json) (d : Document) : Option Bool × Option Bool :=
  (((parseConditions plainEnv conditions).bind fun f ↦ readQuery plainServer f.1).map
      (Formula.eval (clauseHolds plainServer d)),
    (ofConditions conditions).map (BoolTree.eval (leafHolds plainEnv plainServer d id)))

/-- A boolean beside a string is not looked for; a field name can be read as two clauses. -/
theorem parseConditions_mixedOrInjected :
    verdicts mixed oddDocument = (some false, some true) ∧
      verdicts injected oddDocument = (some true, some false) := by
  decide +kernel

end Examples

end VectorDbBenchmark.Valkey
