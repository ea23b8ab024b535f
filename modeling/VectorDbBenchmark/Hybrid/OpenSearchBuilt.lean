import VectorDbBenchmark.Hybrid.BuiltLeaf
import VectorDbBenchmark.Hybrid.OpenSearchCheck
import VectorDbBenchmark.OpenSearch.FilterBuilder

/-!
# The filter of a compiled predicate

For compiled conditions the OpenSearch builder gives a filter that its own check accepts and
that says of a row what the predicate says.  What a leaf query says depends on how its
field is mapped: of a text field `match` asks for a term, of any other it asks for a value.
-/

namespace VectorDbBenchmark.Hybrid

open Kit Json Msmarco OpenSearch

/-! ## What a leaf query says -/

section Meaning

/-- Equality with a value of a query. -/
def termHolds (value : FieldValue) (v : Json) : Bool :=
  match value with
  | .keyword s => v.asStr = some s
  | .int n => v.asI64 = some n
  | .other | .unknown => false

/-- One bound of a range against a number. -/
def boundHolds (x : F64) (key : String) (bound : Json) : Bool :=
  match bound.asF64 with
  | none => false
  | some b =>
    if key = "gt" then b.lt x
    else if key = "gte" then b.le x
    else if key = "lt" then x.lt b
    else if key = "lte" then x.le b
    else false

/-- Text that contains a term of a query. -/
def containsTerm (value : FieldValue) (v : Json) : Bool :=
  match value, v with
  | .keyword s, .string term => classify s.toList term.toList = .yes
  | _, _ => false

-- The fields that are mapped as text.
variable (isText : String → Bool) (row : Fields)

/-- Whether a value is, or as text contains, a value of a query. -/
def valueHolds (field : String) (value : FieldValue) (v : Json) : Bool :=
  if isText field then containsTerm value v else termHolds value v

/-- Whether a row satisfies a leaf query. -/
def queryHolds (name field : String) (body : Json) : Bool :=
  match row field with
  | none => false
  | some value =>
    if name = "match" then valueHolds isText field value body
    else if name = "terms" then (body.asArray.getD []).any (valueHolds isText field value)
    else if name = "range" then
      match value with
      | .int n => (body.asObject.getD []).all fun e ↦ boundHolds (.fin n) e.1 e.2
      | _ => false
    else false

/-- Text is asked of text fields, values of others. -/
def Mapped (l : PredicateLeaf) : Prop :=
  match l.leaf with
  | .text _ => isText l.field = true
  | .match _ => isText l.field = false
  | .range .. => True

end Meaning

variable {display : Json → String} {debug : Debug} {displayF64 : F64 → String}
variable {isText : String → Bool} {row : Fields}

/-! ## Leaves -/

/-- A query that says of each row what a leaf says. -/
def Tells (debug : Debug) (isText : String → Bool) (l : PredicateLeaf) (q : Json) : Prop :=
  ∀ (row : Fields) (b : Bool), l.matches debug.string row = .ok b →
    holds (queryHolds isText row) q = b

section Leaf

variable {field : String}

/-- A leaf query says what its leaf says when it does so of the values of the field. -/
theorem tells_of_value {name : String} {body : Json} {op : LeafOp} (hname : name ≠ "bool")
    (h : ∀ (row : Fields) (value : FieldValue) (b : Bool), row field = some value →
      op.matches debug.string field value = .ok b → queryHolds isText row name field body = b) :
    Tells debug isText ⟨field, op⟩ (.object [(name, .object [(field, body)])]) := by
  intro row b hmatch
  rw [holds_leaf _ hname]
  rw [PredicateLeaf.matches] at hmatch
  split at hmatch
  · next hrow =>
      cases hmatch
      rw [queryHolds, hrow]
  · next value hrow => exact h row value b hrow hmatch

theorem tells_text {term : String} (hmapped : isText field = true) :
    Tells debug isText ⟨field, .text term⟩
      (.object [("match", .object [(field, .string term)])]) := by
  refine tells_of_value (by decide) fun row value b hrow hmatch ↦ ?_
  rw [queryHolds, hrow]
  dsimp only
  rw [if_pos rfl, valueHolds, hmapped, if_pos rfl]
  cases value with
  | keyword s =>
      rw [LeafOp.matches] at hmatch
      rw [containsTerm]
      split at hmatch
      · next hc =>
          cases hmatch
          rw [hc]
          rfl
      · next hc =>
          cases hmatch
          rw [hc]
          rfl
      · cases hmatch
  | int n => cases hmatch
  | other => cases hmatch
  | unknown => cases hmatch

/-- One operand, as it is compiled and as the query holds it. -/
theorem hit_of_operand {v : Json} {op : Operand} {hit b : Bool}
    (hop : operand display field v = .ok op) (value : FieldValue) :
    (∀ s, value = .keyword s → hitKeyword field s hit op = .ok b →
      b = (hit || termHolds value v)) ∧
    (∀ n, value = .int n → hitInt field n hit op = .ok b → b = (hit || termHolds value v)) := by
  cases op with
  | keyword k =>
      rw [operand_keyword hop]
      refine ⟨?_, ?_⟩
      · rintro s rfl h
        cases h
        simp [termHolds, asStr]
      · rintro n rfl h
        cases h
  | int k =>
      obtain ⟨-, -, hv⟩ := operand_int hop
      refine ⟨?_, ?_⟩
      · rintro s rfl h
        cases h
      · rintro n rfl h
        cases h
        simp [termHolds, hv]

/-- The operands of a leaf, and a list of values in a query. -/
theorem matches_operands {vs : List Json} {ops : List Operand} {value : FieldValue} {b : Bool}
    (hops : List.Forall₂ (fun v op ↦ operand display field v = .ok op) vs ops)
    (hmatch : (LeafOp.match ops).matches debug.string field value = .ok b) :
    vs.any (termHolds value) = b := by
  have hfold : ∀ (step : Bool → Operand → Except String Bool),
      (∀ hit op v b, operand display field v = .ok op → step hit op = .ok b →
        b = (hit || termHolds value v)) →
      ∀ hit b, ops.foldlM step hit = .ok b → b = (hit || vs.any (termHolds value)) := by
    intro step hstep
    clear hmatch
    induction hops with
    | nil =>
        intro hit b h
        cases h
        exact (Bool.or_false _).symm
    | cons hop _ ih =>
        intro hit b h
        rw [List.foldlM_cons] at h
        obtain ⟨hit', hround, h⟩ := bind_eq_ok.mp h
        rw [ih hit' b h, hstep _ _ _ _ hop hround, List.any_cons, Bool.or_assoc]
  cases value with
  | keyword s =>
      refine (hfold (hitKeyword field s) (fun hit op v b hop h ↦ ?_) false b hmatch).symm
      exact (hit_of_operand hop _).1 s rfl h
  | int n =>
      refine (hfold (hitInt field n) (fun hit op v b hop h ↦ ?_) false b hmatch).symm
      exact (hit_of_operand hop _).2 n rfl h
  | other => cases hmatch
  | unknown => cases hmatch

theorem tells_value {v : Json} {op : Operand} (hop : operand display field v = .ok op)
    (hmapped : isText field = false) :
    Tells debug isText ⟨field, .match [op]⟩ (.object [("match", .object [(field, v)])]) := by
  refine tells_of_value (by decide) fun row value b hrow hmatch ↦ ?_
  have hany := matches_operands (.cons hop .nil) hmatch
  rw [List.any_cons, List.any_nil, Bool.or_false] at hany
  rw [queryHolds, hrow]
  dsimp only
  rw [if_pos rfl, valueHolds, hmapped, if_neg Bool.false_ne_true, hany]

theorem tells_any {vs : List Json} {ops : List Operand}
    (hops : List.Forall₂ (fun v op ↦ operand display field v = .ok op) vs ops)
    (hmapped : isText field = false) :
    Tells debug isText ⟨field, .match ops⟩
      (.object [("terms", .object [(field, .array vs)])]) := by
  refine tells_of_value (by decide) fun row value b hrow hmatch ↦ ?_
  rw [queryHolds, hrow]
  dsimp only
  rw [if_neg (by decide), if_pos rfl]
  have hvalue : ∀ v, valueHolds isText field value v = termHolds value v := by
    intro v
    rw [valueHolds, hmapped, if_neg Bool.false_ne_true]
  rw [funext hvalue]
  exact matches_operands hops hmatch

/-- The given bounds, none of which is null. -/
theorem rangeEntries_of_bounds {es : List (String × Json)}
    (hes : ∀ e ∈ es, ∃ x, exactNumber e.2 = some x) :
    rangeEntries es = ["lt", "gt", "lte", "gte"].filterMap fun k ↦
      (getEntry k es).map fun v ↦ (k, v) := by
  rw [rangeEntries]
  congr 1
  funext k
  cases hk : getEntry k es with
  | none => rfl
  | some v =>
      obtain ⟨x, hx⟩ := hes _ (mem_of_getEntry hk)
      cases v with
      | null => cases hx
      | _ => rfl

theorem asF64_of_exactNumber {v : Json} {x : F64} (h : exactNumber v = some x) :
    v.asF64 = some x := by
  unfold exactNumber at h
  split at h
  · next q hq =>
      split_ifs at h
      cases h
      exact hq
  · cases h

/-- What an operator asks of a number. -/
def within (x : F64) : Redis.Operator → F64 → Bool
  | .lt, b => x.lt b
  | .gt, b => b.lt x
  | .lte, b => x.le b
  | .gte, b => b.le x

/-- The bound under a key, and the bound that has been compiled from it. -/
theorem all_boundHolds {es : List (String × Json)} {k : String × Redis.Operator}
    {o : Option F64} (x : F64) (hk : k ∈ Redis.rangeKeys)
    (ho : o = match getEntry k.1 es with
      | some v => exactNumber v
      | none => none)
    (hes : ∀ e ∈ es, ∃ x, exactNumber e.2 = some x) :
    (((getEntry k.1 es).map fun v ↦ (k.1, v)).all fun e ↦ boundHolds x e.1 e.2) =
      o.all (within x k.2) := by
  cases hget : getEntry k.1 es with
  | none =>
      rw [hget] at ho
      rw [ho]
      rfl
  | some v =>
      obtain ⟨b, hb⟩ := hes _ (mem_of_getEntry hget)
      rw [hget] at ho
      obtain rfl : o = some b := ho.trans hb
      change boundHolds x k.1 v = within x k.2 b
      rw [boundHolds, asF64_of_exactNumber hb]
      fin_cases hk <;> rfl

theorem tells_range {es : List (String × Json)} {op : LeafOp}
    (hop : rangeLeaf debug.string field (.object es) = .ok op) (hnodup : (es.map Prod.fst).Nodup) :
    Tells debug isText ⟨field, op⟩
      (.object [("range", .object [(field, .object (rangeEntries es))])]) := by
  unfold rangeLeaf at hop
  split at hop
  · next e es' heq =>
      cases heq
      obtain ⟨out, hout, hop⟩ := bind_eq_ok.mp hop
      split_ifs at hop
      cases hop
      obtain ⟨hall, hbounds⟩ := boundAt_of_foldlM hnodup hout
      have hes : ∀ a ∈ e :: es', ∃ x, exactNumber a.2 = some x := fun a ha ↦ (hall a ha).2
      refine tells_of_value (by decide) fun row value b hrow hmatch ↦ ?_
      rw [queryHolds, hrow]
      dsimp only
      rw [if_neg (by decide), if_neg (by decide), if_pos rfl]
      cases value with
      | int n =>
          rw [LeafOp.matches] at hmatch
          split_ifs at hmatch with hn
          cases hmatch
          have hx : F64.ofInt n = .fin n := F64.ofInt_of_le (Nat.not_lt.mp hn)
          rw [hx]
          dsimp only [asObject, Option.getD_some]
          rw [rangeEntries_of_bounds hes, List.all_filterMap]
          have hnone : ∀ o, boundAt {} o = none := by
            intro o
            cases o <;> rfl
          have hbound : ∀ k ∈ Redis.rangeKeys,
              (((getEntry k.1 (e :: es')).map fun v ↦ (k.1, v)).all fun e ↦
                boundHolds (.fin n) e.1 e.2) = (boundAt out k.2).all (within (.fin n) k.2) := by
            intro k hk
            have hread := hbounds k hk
            rw [hnone] at hread
            exact all_boundHolds (.fin n) hk hread hes
          have hlt := hbound ("lt", .lt) (by decide)
          have hgt := hbound ("gt", .gt) (by decide)
          have hlte := hbound ("lte", .lte) (by decide)
          have hgte := hbound ("gte", .gte) (by decide)
          refine (congrArg₂ (· && ·) hlt (congrArg₂ (· && ·) hgt (congrArg₂ (· && ·) hlte
            (congrArg₂ (· && ·) hgte rfl)))).trans ?_
          show (out.lt.all (within (.fin n) .lt) && (out.gt.all (within (.fin n) .gt) &&
              (out.lte.all (within (.fin n) .lte) &&
                (out.gte.all (within (.fin n) .gte) && true)))) =
            (out.gt.all (within (.fin n) .gt) && out.gte.all (within (.fin n) .gte) &&
              out.lt.all (within (.fin n) .lt) && out.lte.all (within (.fin n) .lte))
          rw [Bool.and_true]
          ac_rfl
      | keyword s => cases hmatch
      | other => cases hmatch
      | unknown => cases hmatch
  · cases hop

/-- The range that is built has the bounds that are given. -/
theorem eq_rangeEntries {es : List (String × Json)} (hnodup : (es.map Prod.fst).Nodup)
    (hes : ∀ e ∈ es, (∃ o, (e.1, o) ∈ Redis.rangeKeys) ∧ ∃ x, exactNumber e.2 = some x) :
    (object (rangeEntries es)).eq (object es) = true := by
  have hkeys : ["lt", "gt", "lte", "gte"].Nodup := by decide
  rw [rangeEntries_of_bounds fun e he ↦ (hes e he).2,
    object_eq_iff (nodup_keys_filterMap hkeys _) hnodup]
  simp only [getEntry_filterMap]
  refine ⟨?_, ?_⟩
  · intro k hk
    obtain ⟨v, hv⟩ := mem_keys_iff.mp hk
    rw [getEntry_filterMap] at hv
    split_ifs at hv
    exact mem_keys_iff.mpr ⟨v, hv⟩
  · intro e he
    obtain ⟨⟨o, ho⟩, x, hx⟩ := hes e he
    have hmem : e.1 ∈ ["lt", "gt", "lte", "gte"] := List.mem_map_of_mem (f := Prod.fst) ho
    refine ⟨e.2, by rw [if_pos hmem]; exact getEntry_of_mem hnodup he, ?_⟩
    cases hv : e.2 with
    | number n => exact decide_eq_true rfl
    | _ =>
        rw [hv] at hx
        cases hx

/-- A compiled value is a string or a number, which is rendered as it is. -/
theorem buildMatch_of_operand {v : Json} {op : Operand} (h : operand display field v = .ok op) :
    buildFilter displayF64 field "match" (.object [("value", v)]) =
      some (.object [("match", .object [(field, v)])]) := by
  rw [buildFilter, if_pos rfl]
  cases op with
  | keyword s =>
      rw [operand_keyword h]
      rfl
  | int n =>
      obtain ⟨-, -, hv⟩ := operand_int h
      cases v with
      | number x => rfl
      | _ => cases hv

/-- The filter of a compiled leaf is its query, and says what it says. -/
theorem buildFilter_of_leaf (displayF64 : F64 → String) (isText : String → Bool) {body : Json}
    {op : LeafOp}
    (h : leaf display debug.string field body = .ok op) (hkeys : body.keysDistinct = true) :
    ∃ name criteria q, body = .object [(name, criteria)] ∧
      buildFilter displayF64 field name criteria = some q ∧
      q.eq (singleQuery field body) = true ∧
      (Mapped isText ⟨field, op⟩ → Tells debug isText ⟨field, op⟩ q) := by
  unfold leaf at h
  split at h
  · next name criteria =>
      have hcriteria := keysDistinct_of_singleton hkeys
      split_ifs at h with hmatch hrange
      · subst hmatch
        unfold matchLeaf at h
        split at h
        · next kind v =>
            have hv := keysDistinct_of_singleton hcriteria
            split_ifs at h with htext hvalue hany
            · subst htext
              split at h
              · cases h
              · next t ht =>
                  obtain ⟨⟨⟩, -, h⟩ := bind_eq_ok.mp h
                  cases h
                  rw [eq_string_of_asStr ht]
                  exact ⟨_, _, _, rfl, rfl, eq_self rfl, tells_text⟩
            · subst hvalue
              obtain ⟨o, ho, rfl⟩ := map_eq_ok.mp h
              refine ⟨_, _, .object [("match", .object [(field, v)])], rfl, ?_,
                singleton_eq_singleton.mpr (singleton_eq_singleton.mpr (eq_self hv)),
                  tells_value ho⟩
              exact buildMatch_of_operand ho
            · subst hany
              split at h
              · next e es =>
                  obtain ⟨ops, hops, rfl⟩ := map_eq_ok.mp h
                  exact ⟨_, _, _, rfl, rfl,
                    singleton_eq_singleton.mpr (singleton_eq_singleton.mpr (eq_self hv)),
                    tells_any (mapM_eq_ok.mp hops)⟩
              · cases h
        · cases h
      · subst hrange
        unfold rangeLeaf at h
        split at h
        · next e es =>
            have hnodup := nodup_of_keysDistinct hcriteria
            obtain ⟨out, hout, h'⟩ := bind_eq_ok.mp h
            refine ⟨_, _, .object [("range", .object [(field, .object (rangeEntries (e :: es)))])],
              rfl, rfl, ?_, fun _ ↦ tells_range h hnodup⟩
            exact singleton_eq_singleton.mpr (singleton_eq_singleton.mpr
              (eq_rangeEntries hnodup (boundAt_of_foldlM hnodup hout).1))
        · cases h
  · cases h

end Leaf

/-! ## Trees -/

/-- A query that says of each row what a predicate says. -/
def TellsTree (debug : Debug) (isText : String → Bool) (p : Predicate) (q : Json) : Prop :=
  ∀ (row : Fields) (b : Bool), p.matches debug.string row = .ok b →
    holds (queryHolds isText row) q = b

section Tree

variable {ps : List Predicate} {fs : List Json}

theorem tellsTree_all (h : List.Forall₂ (TellsTree debug isText) ps fs) :
    TellsTree debug isText (.all ps) (.object [("bool", .object [("must", .array fs)])]) := by
  intro row b hmatch
  rw [Predicate.matches, BoolTree.run_all] at hmatch
  have heval : List.Forall₂ (fun p n ↦ ∀ b, p.run (PredicateLeaf.matches debug.string row) = .ok b →
      BoolTree.eval (holds (queryHolds isText row)) n = b) ps (fs.map BoolTree.leaf) :=
    List.forall₂_map_right_iff.mpr
      (h.imp fun p f hpf b hb ↦ by rw [BoolTree.eval_leaf]; exact hpf row b hb)
  rw [holds_must, ← BoolTree.evalAll_of_runAll heval hmatch, List.all_map]
  exact all_congr_of_mem fun f _ ↦ (BoolTree.eval_leaf f).symm

theorem tellsTree_any (h : List.Forall₂ (TellsTree debug isText) ps fs) :
    TellsTree debug isText (.any ps) (.object [("bool", .object
      [("should", .array fs), ("minimum_should_match", one)])]) := by
  intro row b hmatch
  rw [Predicate.matches, BoolTree.run_any] at hmatch
  have heval : List.Forall₂ (fun p n ↦ ∀ b, p.run (PredicateLeaf.matches debug.string row) = .ok b →
      BoolTree.eval (holds (queryHolds isText row)) n = b) ps (fs.map BoolTree.leaf) :=
    List.forall₂_map_right_iff.mpr
      (h.imp fun p f hpf b hb ↦ by rw [BoolTree.eval_leaf]; exact hpf row b hb)
  rw [holds_should, ← BoolTree.evalAny_of_runAny heval hmatch, List.any_map]
  exact any_congr_of_mem fun f _ ↦ (BoolTree.eval_leaf f).symm

end Tree

theorem filtersAt_self (key : String) (v : Json) :
    filtersAt displayF64 key [(key, v)] = arrayFilters displayF64 v := by
  rw [filtersAt, if_pos rfl]

theorem filtersAt_other {key k : String} (h : k ≠ key) (v : Json) :
    filtersAt displayF64 key [(k, v)] = none := by
  rw [filtersAt, if_neg h, filtersAt]

theorem buildLeaves_singleton (field name : String) (criteria : Json) :
    buildLeaves displayF64 [(field, .object [(name, criteria)])] =
      (buildFilter displayF64 field name criteria).toList := by
  cases h : buildFilter displayF64 field name criteria with
  | none => simp [buildLeaves, h]
  | some q => simp [buildLeaves, h]

mutual

theorem buildEntry_of_node {c : Json} {p : Predicate} (hc : node display debug.string c = .ok p)
    (hkeys : c.keysDistinct = true) (hmapped : ∀ l ∈ p.leaves, Mapped isText l) :
    ∃ f, buildEntry displayF64 c = [f] ∧ checkNode display c f = .ok () ∧
      TellsTree debug isText p f := by
  match c with
  | .object [(key, body)] =>
      have hbody := keysDistinct_of_singleton hkeys
      rw [node] at hc
      split_ifs at hc with hgroup hand
      · subst hand
        obtain ⟨ps, hps, hc⟩ := bind_eq_ok.mp hc
        cases hc
        rw [BoolTree.leaves_all] at hmapped
        obtain ⟨fs, hfs, hcheck, htells⟩ := arrayFilters_of_children hps hbody hmapped
        have hcond : (OpenSearch.containsKey "and" [("and", body)] ||
            OpenSearch.containsKey "or" [("and", body)]) = true := rfl
        refine ⟨_, ?_, ?_, tellsTree_all htells⟩
        · rw [buildEntry, if_pos hcond, filtersAt_self, filtersAt_other (by decide), hfs]
          rfl
        · rw [checkNode, if_pos hgroup]
          exact hcheck _ ⟨_, rfl, rfl, fun h ↦ absurd h (by decide), rfl⟩
      · have hor := hgroup.resolve_left hand
        subst hor
        obtain ⟨ps, hps, hc⟩ := bind_eq_ok.mp hc
        cases hc
        rw [BoolTree.leaves_any] at hmapped
        obtain ⟨fs, hfs, hcheck, htells⟩ := arrayFilters_of_children hps hbody hmapped
        have hcond : (OpenSearch.containsKey "and" [("or", body)] ||
            OpenSearch.containsKey "or" [("or", body)]) = true := rfl
        refine ⟨_, ?_, ?_, tellsTree_any htells⟩
        · rw [buildEntry, if_pos hcond, filtersAt_self, filtersAt_other (by decide), hfs]
          rfl
        · rw [checkNode, if_pos hgroup]
          exact hcheck _ ⟨_, rfl, rfl, fun _ ↦ ⟨one, rfl, eq_self rfl⟩, rfl⟩
      · obtain ⟨op, hop, rfl⟩ := map_eq_ok.mp hc
        obtain ⟨hand, hor⟩ := not_or.mp hgroup
        obtain ⟨name, criteria, q, rfl, hq, heq, htells⟩ :=
          buildFilter_of_leaf displayF64 isText hop hbody
        rw [BoolTree.leaves_leaf, List.forall_mem_singleton] at hmapped
        have hcond : ¬(OpenSearch.containsKey "and" [(key, .object [(name, criteria)])] ||
            OpenSearch.containsKey "or" [(key, .object [(name, criteria)])]) = true := by
          simp [OpenSearch.containsKey, getEntry, hand, hor]
        refine ⟨q, ?_, ?_, fun row b hmatch ↦ htells hmapped row b ?_⟩
        · rw [buildEntry, if_neg hcond, buildLeaves_singleton, hq]
          rfl
        · rw [checkNode, if_neg hgroup, leafQuery_of_leaf hop, ok_bind, if_pos heq]
        · rwa [Predicate.matches, BoolTree.run_leaf] at hmatch
  | .object [] => cases hc
  | .object (_ :: _ :: _) => cases hc
  | .null => cases hc
  | .bool _ => cases hc
  | .number _ => cases hc
  | .string _ => cases hc
  | .array _ => cases hc

theorem arrayFilters_of_children {key : String} {v : Json} {ps : List Predicate}
    (h : children display debug.string key v = .ok ps) (hkeys : v.keysDistinct = true)
    (hmapped : ∀ l ∈ ps.flatMap BoolTree.leaves, Mapped isText l) :
    ∃ fs, arrayFilters displayF64 v = some fs ∧
      (∀ f, Reads key f fs → checkGroup display key v f = .ok ()) ∧
      List.Forall₂ (TellsTree debug isText) ps fs := by
  match v with
  | .array (e :: es) =>
      rw [children] at h
      rw [keysDistinct] at hkeys
      obtain ⟨fs, hfs, hlen, hcheck, htells⟩ := buildSubfilters_of_nodes h hkeys hmapped
      refine ⟨fs, ?_, fun f hreads ↦ ?_, htells⟩
      · rw [arrayFilters, hfs]
        cases fs with
        | nil => cases hlen
        | cons f fs => rfl
      · rw [checkGroup, clauses_eq_ok.mpr hreads, ok_bind, if_neg (not_not.mpr hlen)]
        exact hcheck
  | .array [] => cases h
  | .null => cases h
  | .bool _ => cases h
  | .number _ => cases h
  | .string _ => cases h
  | .object _ => cases h

theorem buildSubfilters_of_nodes {vs : List Json} {ps : List Predicate}
    (h : nodes display debug.string vs = .ok ps) (hkeys : keysDistinctEach vs = true)
    (hmapped : ∀ l ∈ ps.flatMap BoolTree.leaves, Mapped isText l) :
    ∃ fs, buildSubfilters displayF64 vs = fs ∧ fs.length = vs.length ∧
      checkEach display vs fs = .ok () ∧ List.Forall₂ (TellsTree debug isText) ps fs := by
  match vs with
  | [] =>
      rw [nodes] at h
      cases h
      exact ⟨[], by rw [buildSubfilters], rfl, rfl, .nil⟩
  | v :: vs =>
      rw [nodes] at h
      obtain ⟨p, hp, h⟩ := bind_eq_ok.mp h
      obtain ⟨ps', hps, h⟩ := bind_eq_ok.mp h
      cases h
      rw [keysDistinctEach, Bool.and_eq_true] at hkeys
      rw [List.flatMap_cons, List.forall_mem_append] at hmapped
      obtain ⟨f, hf, hcheck, htells⟩ := buildEntry_of_node hp hkeys.1 hmapped.1
      obtain ⟨fs, hfs, hlen, hchecks, htellss⟩ := buildSubfilters_of_nodes hps hkeys.2 hmapped.2
      refine ⟨f :: fs, ?_, congrArg (· + 1) hlen, ?_, .cons htells htellss⟩
      · rw [buildSubfilters, hf, hfs]
        rfl
      · rw [checkEach, hcheck]
        exact hchecks

end

/-- For compiled conditions there is a filter; the check accepts it, and it says what the
predicate says of every row the predicate can be evaluated on. -/
theorem parseOsConditions_of_compile (displayF64 : F64 → String) {isText : String → Bool}
    {conditions : Json} {p : Predicate}
    (hcompile : compile display debug.string conditions = .ok p)
    (hkeys : conditions.keysDistinct = true) (hmapped : ∀ l ∈ p.leaves, Mapped isText l) :
    ∃ f, parseOsConditions displayF64 conditions = some f ∧
      checkOpensearchFilter display conditions f = .ok () ∧
      ∀ (row : Fields) (b : Bool), p.matches debug.string row = .ok b →
        holds (queryHolds isText row) f = b := by
  unfold compile at hcompile
  split at hcompile
  · next obj =>
      split_ifs at hcompile with hgroup
      have hcond : (OpenSearch.containsKey "and" obj || OpenSearch.containsKey "or" obj) =
        true := by
        simpa [OpenSearch.containsKey_eq_any] using hgroup
      obtain ⟨f, hf, hcheck, htells⟩ : ∃ f, buildEntry displayF64 (.object obj) = [f] ∧
          checkNode display (.object obj) f = .ok () ∧ TellsTree debug isText p f :=
        buildEntry_of_node hcompile hkeys hmapped
      rw [buildEntry, if_pos hcond] at hf
      have hne : obj.isEmpty = false := by
        cases obj with
        | nil => cases hcompile
        | cons e es => rfl
      refine ⟨f, ?_, hcheck, htells⟩
      rw [parseOsConditions, hne, if_neg Bool.false_ne_true, buildGroup]
      exact Option.toList_eq_singleton_iff.mp hf
  · cases hcompile

/-- A term of a text field, or a number from three on. -/
def termOrYear : Json :=
  .object [("or", .array
    [.object [("title", .object [("match", .object [("text", .string "red")])])],
      .object [("year", .object [("range", .object [("gte", .ofNat 3)])])]])]

def termOrYearPredicate : Predicate :=
  .any [.leaf ⟨"title", .text "red"⟩, .leaf ⟨"year", .range none (some (.fin 3)) none none⟩]

theorem parseOsConditions_of_compile_termOrYear :
    ∃ f, parseOsConditions (fun _ ↦ "") termOrYear = some f ∧
      checkOpensearchFilter (fun _ ↦ "") termOrYear f = .ok () ∧
      ∀ (row : Fields) (b : Bool), termOrYearPredicate.matches id row = .ok b →
        holds (queryHolds (fun field ↦ field = "title") row) f = b := by
  have hcompile : compile (fun _ ↦ "") (⟨id, fun _ ↦ "", fun _ ↦ "", fun _ ↦ ""⟩ : Debug).string
      termOrYear = .ok termOrYearPredicate := rfl
  have hleaves : termOrYearPredicate.leaves =
      [⟨"title", .text "red"⟩, ⟨"year", .range none (some (.fin 3)) none none⟩] := rfl
  have hmapped : ∀ l ∈ termOrYearPredicate.leaves, Mapped (fun field ↦ field = "title") l := by
    intro l hl
    rw [hleaves] at hl
    rcases List.mem_cons.mp hl with rfl | hl
    · exact decide_eq_true rfl
    · rw [List.mem_singleton.mp hl]
      trivial
  have hbuilt := parseOsConditions_of_compile (fun _ ↦ "") hcompile rfl hmapped
  exact hbuilt

/-- One condition on the title. -/
def titleMatch (kind term : String) : Json :=
  .object [("and", .array
    [.object [("title", .object [("match", .object [(kind, .string term)])])]])]

/-- A number asked of a field that holds a keyword, or a keyword. -/
def yearOrTag : Json :=
  .object [("or", .array
    [.object [("year", .object [("match", .object [("value", .ofNat 3)])])],
      .object [("tag", .object [("match", .object [("value", .string "a")])])]])]

/-- No reading of the filters gives each the truth of its predicate: equality with a value
and containment of a term are rendered alike.  And a filter is true of rows on which its
predicate cannot be evaluated. -/
theorem parseOsConditions_not_exact :
    (¬∃ truth : Json → Fields → Bool, ∀ conditions p,
      compile (fun _ ↦ "") id conditions = .ok p →
        ∃ f, parseOsConditions (fun _ ↦ "") conditions = some f ∧
          ∀ row, truth f row = true ↔ p.matches id row = .ok true) ∧
      ∃ p f row, compile (fun _ ↦ "") id yearOrTag = .ok p ∧
        parseOsConditions (fun _ ↦ "") yearOrTag = some f ∧
        holds (queryHolds (fun _ ↦ false) row) f = true ∧ p.matches id row ≠ .ok true := by
  refine ⟨?_, ?_⟩
  · rintro ⟨truth, h⟩
    obtain ⟨f, hf, hvalue⟩ := h (titleMatch "value" "red")
      (.all [.leaf ⟨"title", .match [.keyword "red"]⟩]) rfl
    obtain ⟨f', hf', htext⟩ := h (titleMatch "text" "red") (.all [.leaf ⟨"title", .text "red"⟩]) rfl
    obtain rfl : f = f' := Option.some.inj (hf.symm.trans hf')
    have hred := (htext fun _ ↦ some (.keyword "red car")).mpr (by decide)
    exact absurd ((hvalue _).mp hred) (by decide)
  · refine ⟨_, _, fun field ↦ if field = "year" then some (.keyword "x") else
      if field = "tag" then some (.keyword "a") else none, rfl, rfl, ?_, ?_⟩
    · decide
    · decide

end VectorDbBenchmark.Hybrid
