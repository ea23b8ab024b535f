import VectorDbBenchmark.Redis.LeafClauses
import VectorDbBenchmark.Redis.QueryMeaning

/-!
# Queries mean what their conditions mean

A leaf says what its operation means (`conditionHolds`), the clauses of a leaf are true of the
documents that what it says is true of, and so the query of a condition tree, read with its
parameters resolved, is true of exactly the documents the tree is true of.
-/

namespace VectorDbBenchmark.RedisQuery

open Kit Redis Hybrid

/-! ## What a leaf says -/

section Conditions

variable (server : Server) (d : Document)

/-- The truth of what a leaf says with its values as they are bound. -/
def conditionHolds : Condition → Bool
  | .tags field values => values.any (d.hasTag field)
  | .numbers field values => values.any fun v ↦
      (server.number v).any fun x ↦ (d.number field).any fun q ↦ decide (x = .fin q)
  | .text field terms => d.hasText field terms
  | .range field bounds => (d.number field).any fun q ↦
      bounds.all fun b ↦ (server.number b.2).any (admits b.1 q)
  | .geo field lon lat radius =>
      d.liesWithin field (server.number lon) (server.number lat) (server.number radius)

variable {server d} {env : NumberEnv} {field : String}

variable (server field) in
theorem valueCondition_holds {v : Json} (h : Json.isScalar v = true) :
    ∃ a, valueCondition field v = some a ∧
      ∀ d, conditionHolds server d a = valueHolds server d field v := by
  cases v with
  | bool b => exact ⟨_, rfl, fun _ ↦ Bool.or_false _⟩
  | string s => exact ⟨_, rfl, fun _ ↦ Bool.or_false _⟩
  | number n =>
      cases hint : n.asI64 with
      | some i =>
          refine ⟨.numbers field [.int i], ?_, fun d ↦ ?_⟩
          · simp [valueCondition, Json.asBool, Json.asStr, Json.asI64, hint]
          · simp [conditionHolds, Server.number, valueHolds, Json.asNumber, Json.asI64, hint]
      | none =>
          obtain ⟨f, hf⟩ : ∃ f, n.asF64 = some f := by
            cases n <;> exact ⟨_, rfl⟩
          refine ⟨.numbers field [.float f], ?_, fun d ↦ ?_⟩
          · simp [valueCondition, Json.asBool, Json.asStr, Json.asI64, Json.asF64, hint, hf]
          · simp [conditionHolds, Server.number, valueHolds, Json.asNumber, Json.asI64,
              Json.asF64, hint,
              hf]
  | null => cases h
  | array _ => cases h
  | object _ => cases h

variable (server field) in
theorem ints_holds {vs : List Json} (hne : vs ≠ []) (h : ∀ v ∈ vs, v.asI64.isSome = true) :
    ∃ a, anyCondition field vs = some a ∧
      ∀ d, conditionHolds server d a = vs.any (valueHolds server d field) := by
  refine ⟨.numbers field ((vs.filterMap Json.asI64).map .int), ?_, fun d ↦ ?_⟩
  · rw [anyCondition, if_neg (mt List.isEmpty_iff.mp hne), if_pos (List.all_eq_true.mpr h)]
  · rw [conditionHolds, List.any_map, List.any_filterMap]
    apply any_congr_of_mem
    intro v hv
    obtain ⟨i, hi⟩ := Option.isSome_iff_exists.mp (h v hv)
    cases v with
    | number n => simp [hi, Server.number, valueHolds, Json.asNumber]
    | _ => cases hi

variable (server field) in
theorem strings_holds {ss : List String} (hne : ss ≠ []) (h : ∀ s ∈ ss, s ≠ "") :
    ∃ a, anyCondition field (ss.map .string) = some a ∧
      ∀ d, conditionHolds server d a = (ss.map Json.string).any (valueHolds server d field) := by
  obtain ⟨s, ss, rfl⟩ := List.exists_cons_of_ne_nil hne
  have hstrings : ((s :: ss).map Json.string).filterMap Json.asStr = s :: ss := by
    rw [List.filterMap_map]
    exact List.filterMap_some
  have hfull : ((s :: ss).map Json.string).all (fun v ↦ v.asStr.any fun s ↦ !s.isEmpty) = true := by
    rw [List.all_map, List.all_eq_true]
    intro t ht
    simpa [Json.asStr] using h t ht
  refine ⟨.tags field (s :: ss), ?_, fun d ↦ ?_⟩
  · rw [anyCondition, if_neg (by simp), if_neg (by simp [Json.asI64]), if_pos hfull, hstrings]
  · rw [conditionHolds, List.any_map]
    rfl

variable (server field) in
theorem range_holds {criteria : Json}
    (hone : ∃ k ∈ rangeKeys, (criteria.get k.1).isSome = true)
    (h : ∀ k ∈ rangeKeys, ∀ v, criteria.get k.1 = some v → (toNumber env v).isSome = true) :
    ∃ a, rangeCondition env field criteria = some a ∧
      ∀ d, conditionHolds server d a = rangeHolds server env d field criteria := by
  obtain ⟨k, hk, hsome⟩ := hone
  obtain ⟨v, hv⟩ := Option.isSome_iff_exists.mp hsome
  refine ⟨_, if_neg ?_, fun d ↦ ?_⟩
  · rw [Bool.or_eq_true, not_or, Bool.not_eq_true', Bool.not_eq_false]
    constructor
    · intro hnil
      have hgiven : (k, v) ∈ rangeKeys.filterMap fun k ↦ (criteria.get k.1).map fun v ↦ (k, v) :=
        List.mem_filterMap.mpr ⟨k, hk, by rw [hv]; rfl⟩
      rw [List.isEmpty_iff.mp hnil] at hgiven
      cases hgiven
    · rw [List.all_filterMap, List.all_eq_true]
      intro k hk
      cases hget : criteria.get k.1 with
      | none => rfl
      | some v => exact h k hk v hget
  · rw [conditionHolds, rangeHolds]
    congr 1
    funext q
    rw [List.all_filterMap, List.all_filterMap]
    apply all_congr_of_mem
    intro k hk
    cases hget : criteria.get k.1 with
    | none => rfl
    | some v =>
        obtain ⟨value, hvalue⟩ := Option.isSome_iff_exists.mp (h k hk v hget)
        simp [converted, hvalue]

/-! ### Matches -/

/-- The criteria of a match may be replaced by others with the same value under each key. -/
theorem buildFilter_match_congr {criteria criteria' : Json}
    (h : ∀ k ∈ matchKeys, criteria.get k = criteria'.get k) (c : ℕ) :
    buildFilter env field "match" criteria c = buildFilter env field "match" criteria' c := by
  have hany := h "any" (by decide)
  have htext := h "text" (by decide)
  have hvalue := h "value" (by decide)
  simp only [buildFilter, buildExactMatchFilter, hany, htext, hvalue]

theorem matchHolds_congr {criteria criteria' : Json}
    (h : ∀ k ∈ matchKeys, criteria.get k = criteria'.get k) :
    matchHolds server d field criteria = matchHolds server d field criteria' := by
  have hany := h "any" (by decide)
  have htext := h "text" (by decide)
  have hvalue := h "value" (by decide)
  simp only [matchHolds, matchTruth, hany, htext, hvalue]

theorem Only.get_eq {criteria : Json} {key : String} {v : Json} (h : Only criteria key v) :
    ∀ k ∈ matchKeys, criteria.get k = (Json.object [(key, v)]).get k := by
  intro k hk
  rw [Json.get, Json.getEntry, Json.getEntry]
  split_ifs with heq
  · rw [← heq]
    exact h.get
  · exact h.others k hk (Ne.symm heq)

/-- A leaf whose filter is that of a leaf that says what `l` means. -/
def Meant (server : Server) (env : NumberEnv) (l : Leaf) : Prop :=
  ∃ l' a, l'.field = l.field ∧ l'.op = l.op ∧ (∀ c, leafFilter env l' c = leafFilter env l c) ∧
    leafCondition env l' = some a ∧ ∀ d, conditionHolds server d a = leafHolds server env d l

/-- A match by one key. -/
theorem Only.meant {criteria v : Json} {key : String} (h : Only criteria key v) {a : Condition}
    (ha : leafCondition env ⟨field, "match", .object [(key, v)]⟩ = some a)
    (hholds : ∀ d, conditionHolds server d a = matchHolds server d field (.object [(key, v)])) :
    Meant server env ⟨field, "match", criteria⟩ := by
  refine ⟨⟨field, "match", .object [(key, v)]⟩, a, rfl, rfl, fun c ↦ ?_, ha, fun d ↦ ?_⟩
  · rw [leafFilter, leafFilter, buildFilter_match_congr h.get_eq]
  · exact (hholds d).trans (matchHolds_congr h.get_eq).symm

variable (server) in
/-- A well-formed operation other than a geo operation says what it means. -/
theorem WellFormed.meant {l : Leaf} (h : WellFormed env l) (hgeo : l.op ≠ "geo") :
    Meant server env l := by
  cases h with
  | value field hone h =>
      obtain ⟨a, ha, hholds⟩ := valueCondition_holds server field h
      exact hone.meant ha hholds
  | ints field hone hne h =>
      obtain ⟨a, ha, hholds⟩ := ints_holds server field hne h
      exact hone.meant ha hholds
  | strings field hone hne h =>
      obtain ⟨a, ha, hholds⟩ := strings_holds server field hne h
      exact hone.meant ha hholds
  | @text field criteria text hone h =>
      have ha : textCondition field text = some (.text field (.ofList (trim text.toList))) :=
        if_neg (mt List.isEmpty_iff.mp h)
      exact hone.meant ha fun d ↦ d.hasText_trim field text
  | range field criteria hone h =>
      obtain ⟨a, ha, hholds⟩ := range_holds server field hone h
      exact ⟨_, a, rfl, rfl, fun _ ↦ rfl, ha, hholds⟩
  | geo field criteria h => exact absurd rfl hgeo

end Conditions

/-! ## What the clauses of a leaf say -/

section Clauses

variable {server : Server} {M : Params} {d : Document} {field : String}

/-- A tag clause has the tags that its parameters are bound to. -/
theorem any_stringAt {ps values : List String}
    (h : List.Forall₂ (fun p v ↦ M.get p = some (.str v)) ps values) (p : String → Bool) :
    ps.any (fun name ↦ (stringAt M name).any p) = values.any p := by
  induction h with
  | nil => rfl
  | cons hget _ ih => rw [List.any_cons, List.any_cons, ih, stringAt, hget, Option.any_some]

theorem numberAt_of_get {p : String} {v : FilterParamValue} (h : M.get p = some v) :
    numberAt server M p = server.number v := by
  rw [numberAt, h, Option.bind_some]

/-- The interval between a number and itself. -/
theorem pointLeaf_holds {p : String} {v : FilterParamValue} (h : M.get p = some v) :
    clauseHolds server M d (.plain (pointLeaf field p)) =
      (server.number v).any fun x ↦ (d.number field).any fun q ↦ decide (x = .fin q) := by
  rw [pointLeaf, clauseHolds]
  simp only [lowerHolds, upperHolds, endHolds, numberAt_of_get h, Bool.false_eq_true, if_false]
  cases hx : server.number v with
  | none =>
      cases d.number field with
      | none => rfl
      | some q => rfl
  | some x =>
      simp only [Option.any_some, F64.le_and_le]

theorem any_pointLeaf {ps : List String} {values : List FilterParamValue}
    (h : List.Forall₂ (fun p v ↦ M.get p = some v) ps values) :
    ps.any (fun p ↦ clauseHolds server M d (.plain (pointLeaf field p))) =
      conditionHolds server d (.numbers field values) := by
  rw [conditionHolds]
  induction h with
  | nil => rfl
  | cons hget _ ih => rw [List.any_cons, List.any_cons, ih, pointLeaf_holds hget]

/-! ### Ranges -/

/-- What a bound with its value bound asks of a number. -/
def boundHolds (server : Server) (M : Params) (q : ℚ) (b : Bound) : Bool :=
  (numberAt server M b.parameter).any (admits b.operator q)

theorem all_endsOn (side : Bound → Option (String × Bool)) (bs : List Bound)
    {p : Option (String × Bool) → Bool} (hp : p none = true) :
    (endsOn side bs).all p = bs.all fun b ↦ (side b).all fun e ↦ p (some e) := by
  have hgiven : (bs.filterMap side).all (fun e ↦ p (some e)) =
      bs.all fun b ↦ (side b).all fun e ↦ p (some e) := by
    rw [List.all_filterMap]
    refine all_congr_of_mem fun b _ ↦ ?_
    cases side b <;> rfl
  rw [← hgiven, endsOn]
  split_ifs with hnil
  · rw [List.isEmpty_iff.mp hnil, List.all_cons, hp]
    rfl
  · rw [List.all_map]
    rfl

/-- A bound is an end on one of the two sides. -/
theorem bound_eq_ends (q : ℚ) (b : Bound) :
    ((b.lowerEnd.all fun e ↦ lowerHolds server M q (some e)) &&
      b.upperEnd.all fun e ↦ upperHolds server M q (some e)) = boundHolds server M q b := by
  obtain ⟨parameter, operator⟩ := b
  cases operator with
  | lt => exact Bool.true_and _
  | lte => exact Bool.true_and _
  | gt => exact Bool.and_true _
  | gte => exact Bool.and_true _

/-- Every pairing of a lower and an upper end holds when all bounds do. -/
theorem all_ends (q : ℚ) (bs : List Bound) :
    ((endsOn Bound.lowerEnd bs).all (lowerHolds server M q) &&
      (endsOn Bound.upperEnd bs).all (upperHolds server M q)) =
      bs.all (boundHolds server M q) := by
  rw [all_endsOn Bound.lowerEnd bs rfl, all_endsOn Bound.upperEnd bs rfl]
  induction bs with
  | nil => rfl
  | cons b bs ih =>
      rw [List.all_cons, List.all_cons, List.all_cons, ← ih, ← bound_eq_ends q b]
      ac_rfl

theorem all_pairs {α β : Type} {xs : List α} {ys : List β} (hys : ys ≠ []) (hxs : xs ≠ [])
    (p : α → Bool) (p' : β → Bool) :
    (xs.all fun x ↦ ys.all fun y ↦ p x && p' y) = (xs.all p && ys.all p') := by
  rw [Bool.eq_iff_iff, Bool.and_eq_true]
  simp only [List.all_eq_true, Bool.and_eq_true]
  constructor
  · intro h
    obtain ⟨x, hx⟩ := List.exists_mem_of_ne_nil xs hxs
    obtain ⟨y, hy⟩ := List.exists_mem_of_ne_nil ys hys
    exact ⟨fun x hx ↦ (h x hx y hy).1, fun y hy ↦ (h x hx y hy).2⟩
  · exact fun h x hx y hy ↦ ⟨h.1 x hx, h.2 y hy⟩

/-- The intervals hold together when the bounds do. -/
theorem all_intervals (field : String) (bs : List Bound) :
    ((intervals field bs).all fun r ↦ clauseHolds server M d (.plain r)) =
      (d.number field).any fun q ↦ bs.all (boundHolds server M q) := by
  cases hq : d.number field with
  | none =>
      obtain ⟨r, hr⟩ := List.exists_mem_of_ne_nil _ (intervals_ne_nil field bs)
      refine Bool.eq_false_iff.mpr fun hall ↦ ?_
      have htrue := List.all_eq_true.mp hall r hr
      obtain ⟨lo, -, hr⟩ := List.mem_flatMap.mp hr
      obtain ⟨hi, -, rfl⟩ := List.mem_map.mp hr
      rw [clauseHolds, hq] at htrue
      cases htrue
  | some q =>
      rw [Option.any_some, ← all_ends, ← all_pairs (endsOn_ne_nil _ bs) (endsOn_ne_nil _ bs),
        intervals, List.all_flatMap]
      simp only [List.all_map]
      refine all_congr_of_mem fun lo _ ↦ all_congr_of_mem fun hi _ ↦ ?_
      show clauseHolds server M d (.plain (.range field lo hi)) = _
      rw [clauseHolds, hq, Option.any_some]

theorem all_boundHolds {bs : List Bound} {bounds : List (Operator × FilterParamValue)}
    (h : List.Forall₂ (fun (b : Bound) e ↦ b.operator = e.1 ∧ M.get b.parameter = some e.2)
      bs bounds) (q : ℚ) :
    bs.all (boundHolds server M q) =
      bounds.all fun b ↦ (server.number b.2).any (admits b.1 q) := by
  induction h with
  | nil => rfl
  | cons hb _ ih =>
      rw [List.all_cons, List.all_cons, ih, boundHolds, numberAt_of_get hb.2, hb.1]

/-- The clauses of a leaf are true of the documents that it is true of. -/
theorem eval_eq_conditionHolds {a : Condition} {w : BoolTree Clause} (h : Says .plain M a w) :
    w.eval (clauseHolds server M d) = conditionHolds server d a := by
  cases a with
  | tags field values =>
      obtain ⟨ps, rfl, hps⟩ := h
      rw [BoolTree.eval_leaf, clauseHolds]
      exact any_stringAt hps (d.hasTag field)
  | numbers field values =>
      obtain ⟨ps, rfl, hps⟩ := h
      rw [BoolTree.eval_collapse_any, List.any_map, ← any_pointLeaf hps]
      exact any_congr_of_mem fun p _ ↦ BoolTree.eval_leaf _
  | text field terms =>
      obtain ⟨p, rfl, hp⟩ := h
      rw [BoolTree.eval_leaf, clauseHolds, stringAt, hp]
      rfl
  | range field bounds =>
      obtain ⟨bs, rfl, hbs⟩ := h
      rw [BoolTree.eval_collapse_all, List.all_map]
      refine (all_congr_of_mem fun r _ ↦ BoolTree.eval_leaf (Clause.plain r)).trans ?_
      rw [all_intervals, conditionHolds]
      congr 1
      funext q
      exact all_boundHolds hbs q
  | geo field lon lat radius => cases h

end Clauses

/-! ## The query of a condition tree -/

section Query

variable {server : Server} {env : NumberEnv} {M : Params}

/-- A clause, or several in a group, with the truth of a leaf. -/
def Means (server : Server) (env : NumberEnv) (M : Params) (l : Leaf)
    (w : BoolTree Clause) : Prop :=
  ∀ d, w.eval (clauseHolds server M d) = leafHolds server env d l

/-- A well-formed leaf whose field is read back. -/
def Readable (env : NumberEnv) (l : Leaf) : Prop := WellFormed env l ∧ Plain l.field

theorem text_geoClause (field lon lat radius : String) :
    (geoClause field lon lat radius).text = (Clause.geo field lon lat radius).render := by
  have hat : "@".toList = ['@'] := rfl
  have hopening : ":[".toList = [':', '['] := rfl
  have hblank : " ".toList = [' '] := rfl
  have hclose : " m]".toList = [' ', 'm', ']'] := rfl
  simp only [geoClause, Query.text_cons, Query.text_nil, Piece.text, Clause.render, hat, hopening,
    hblank, hclose, refText, List.intercalate_cons_cons, List.intercalate_singleton,
    List.cons_append, List.nil_append, List.append_assoc]

/-- Clauses that say what `l` means have its truth. -/
theorem expresses_of_condition {l : Leaf} {a : Condition} {q : Query}
    (h : Expresses Clause.render (Says .plain M) (ClauseOk .plain) (.leaf a) q)
    (ha : ∀ d, conditionHolds server d a = leafHolds server env d l) :
    Expresses Clause.render (Means server env M) Clause.Ok (.leaf l) q := by
  obtain ⟨s, htext, ⟨w, halign, hflat⟩, hleaves⟩ := h
  have hsays := BoolTree.aligned_leaf.mp halign
  refine ⟨s, htext, ⟨w, .leaf fun d ↦ (eval_eq_conditionHolds hsays).trans (ha d), hflat⟩,
    fun x hx ↦ ?_⟩
  obtain ⟨r, rfl, hr⟩ := hleaves x hx
  exact hr

/-- A geo leaf has one clause. -/
theorem geo_expresses (hM : M.names.Nodup) {field : String} {criteria : Json} {c : ℕ}
    (h : ∀ key ∈ ["lon", "lat", "radius"],
      ((criteria.get key).bind (toNumber env)).isSome = true) (hfield : Plain field)
    (hbound : ∀ e ∈ allParams (leafFilter env ⟨field, "geo", criteria⟩ c).1, e ∈ M) :
    ∃ f, (leafFilter env ⟨field, "geo", criteria⟩ c).1 = [f] ∧
      Expresses Clause.render (Means server env M) Clause.Ok
        (.leaf ⟨field, "geo", criteria⟩) f.1 := by
  have hvalues : ∀ key ∈ ["lon", "lat", "radius"], ∃ v value, criteria.get key = some v ∧
      toNumber env v = some value := by
    intro key hkey
    obtain ⟨value, hvalue⟩ := Option.isSome_iff_exists.mp (h key hkey)
    obtain ⟨v, hv, hvalue⟩ := Option.bind_eq_some_iff.mp hvalue
    exact ⟨v, value, hv, hvalue⟩
  obtain ⟨lon, x, hlon, hx⟩ := hvalues "lon" (by decide)
  obtain ⟨lat, y, hlat, hy⟩ := hvalues "lat" (by decide)
  obtain ⟨radius, r, hradius, hr⟩ := hvalues "radius" (by decide)
  have hbuilt : (leafFilter env ⟨field, "geo", criteria⟩ c).1 =
      [(geoClause field (paramName field c ++ "_lon") (paramName field c ++ "_lat")
        (paramName field c ++ "_radius"), [(paramName field c ++ "_lon", x),
          (paramName field c ++ "_lat", y), (paramName field c ++ "_radius", r)])] := by
    show (buildGeoFilter env field criteria c).1.toList = _
    rw [buildGeoFilter_of_values env field c hlon hlat hradius]
    simp [geoEntries, hx, hy, hr]
  rw [hbuilt, allParams_singleton] at hbound
  rw [hbuilt]
  refine ⟨_, rfl, .one (.leaf (.geo field (paramName field c ++ "_lon")
    (paramName field c ++ "_lat") (paramName field c ++ "_radius"))), ?_,
    ⟨_, .leaf fun d ↦ ?_, rfl⟩,
    fun clause hclause ↦ ?_⟩
  · exact text_geoClause _ _ _ _
  · have hxM := Params.get_of_mem hM (hbound _ List.mem_cons_self)
    have hyM := Params.get_of_mem hM (hbound _ (List.mem_cons_of_mem _ List.mem_cons_self))
    have hrM := Params.get_of_mem hM
      (hbound _ (List.mem_cons_of_mem _ (List.mem_cons_of_mem _ List.mem_cons_self)))
    show BoolTree.eval _ (GroupSyntax.Sequence.tree _) = geoHolds server env d field criteria
    rw [GroupSyntax.Sequence.tree_one, GroupSyntax.Item.tree, BoolTree.eval_leaf, clauseHolds,
      numberAt_of_get hxM, numberAt_of_get hyM, numberAt_of_get hrM, geoHolds, hlon, hlat, hradius]
    simp only [Option.bind_some, converted, hx, hy, hr]
  · rw [GroupSyntax.Sequence.leaves, GroupSyntax.Item.leaves, List.mem_singleton] at hclause
    subst hclause
    refine ⟨hfield, ?_⟩
    rw [List.forall_mem_cons, List.forall_mem_cons, List.forall_mem_singleton]
    have hroles : ["lon", "lat", "radius"] ⊆ roles := by decide
    have hrole : ∀ role ∈ ["lon", "lat", "radius"], NameOk (paramName field c ++ "_" ++ role) :=
      fun role hrole ↦ nameOk_role hfield c (hroles hrole)
    simp only [String.append_assoc] at hrole
    exact ⟨hrole "lon" (by decide), hrole "lat" (by decide), hrole "radius" (by decide)⟩

variable (server) in
/-- The filter of every well-formed leaf renders clauses with its truth. -/
theorem leaves_expressed (hM : M.names.Nodup) :
    LeavesExpressed env Clause.render (Means server env M) Clause.Ok some (Readable env) M := by
  intro l _ c hl hreadable hbound
  cases hl
  obtain ⟨hwell, hfield⟩ := hreadable
  by_cases hgeo : l.op = "geo"
  · cases hwell with
    | geo field criteria h => exact geo_expresses hM h hfield hbound
    | _ => exact absurd hgeo (by simp)
  · obtain ⟨l', a, hl', hop, hfilter, ha, hholds⟩ := hwell.meant server hgeo
    rw [← hfilter c] at hbound ⊢
    have hrender : ∀ r, Clause.render (.plain r) = r.render := fun _ ↦ rfl
    obtain ⟨f, hf, hexpr⟩ := leafFilter_expresses hrender hM ha (hop ▸ hgeo)
      (hl' ▸ hfield) hbound
    exact ⟨f, hf, expresses_of_condition hexpr hholds⟩

/-- A query of a condition tree that is read, with its parameters resolved, as a filter of
exactly the documents the tree is true of. -/
def Preserves (server : Server) (env : NumberEnv) (conditions : Json) (t : BoolTree Leaf) : Prop :=
  ∃ query params w, parseConditions env conditions = some (query, params) ∧
    readQuery query.text = .ok w ∧
    ∀ d, w.eval (clauseHolds server params d) = t.eval (leafHolds server env d)

/-- The query of a tree of well-formed leaves keeps its meaning. -/
theorem parseConditions_preserves {conditions : Json} {t : BoolTree Leaf}
    (ht : conditionTree some conditions = some t) (hwell : ∀ l ∈ t.leaves, WellFormed env l)
    (hfields : ∀ l ∈ t.leaves, Plain l.field) : Preserves server env conditions t := by
  obtain ⟨query, hbuilt, s, htext, ⟨w, halign, hflat⟩, hleaves⟩ := parseConditions_expresses
    (leaves_expressed server (nodup_conditionParams env conditions)) ht
    fun l hl ↦ ⟨hwell l hl, hfields l hl⟩
  refine ⟨query, conditionParams env conditions, s.tree, hbuilt, ?_, fun d ↦ ?_⟩
  · rw [htext]
    exact readQuery_render hleaves
  · rw [← BoolTree.eval_flatten, hflat, BoolTree.eval_flatten]
    exact halign.eval_eq fun l w hw ↦ hw d

end Query

/-! ## Examples -/

section Examples

def plainServer : Server := ⟨.ofInt⟩

/-- A group with both keys in a disjunction of a group with both keys. -/
def nested : Json :=
  .object [("and", .array [leafEntry "k" "match" [("any", .array [.string "x", .string "a|b"])],
      leafEntry "t" "match" [("text", .string " word ")]]),
    ("or", .array [leafEntry "n" "range" [("gt", .ofNat 1), ("lte", .ofNat 5), ("gte", .ofNat 0)],
      .object [("and", .array [leafEntry "p" "geo" [("lon", .ofNat 2), ("lat", .ofNat 3),
          ("radius", .ofNat 9)]]),
        ("or", .array [leafEntry "n" "match" [("any", .array [.ofNat 7, .ofNat 8])],
          leafEntry "b" "match" [("value", .bool true)]])]])]

def nestedTree : BoolTree Leaf :=
  .all [.all [.leaf ⟨"k", "match", .object [("any", .array [.string "x", .string "a|b"])]⟩,
      .leaf ⟨"t", "match", .object [("text", .string " word ")]⟩],
    .any [.leaf ⟨"n", "range", .object [("gt", .ofNat 1), ("lte", .ofNat 5), ("gte", .ofNat 0)]⟩,
      .all [.all [.leaf ⟨"p", "geo", .object [("lon", .ofNat 2), ("lat", .ofNat 3),
          ("radius", .ofNat 9)]⟩],
        .any [.leaf ⟨"n", "match", .object [("any", .array [.ofNat 7, .ofNat 8])]⟩,
          .leaf ⟨"b", "match", .object [("value", .bool true)]⟩]]]]

theorem only_single {key : String} (hkey : key ∈ matchKeys) (v : Json) :
    Only (.object [(key, v)]) key v where
  mem := hkey
  get := by rw [Json.get, Json.getEntry, if_pos rfl]
  others k _ hne := by rw [Json.get, Json.getEntry, if_neg (Ne.symm hne), Json.getEntry]

theorem wellFormed_nested : ∀ l ∈ nestedTree.leaves, WellFormed noNumbers l := by
  have hleaves : nestedTree.leaves =
      [⟨"k", "match", .object [("any", .array [.string "x", .string "a|b"])]⟩,
        ⟨"t", "match", .object [("text", .string " word ")]⟩,
        ⟨"n", "range", .object [("gt", .ofNat 1), ("lte", .ofNat 5), ("gte", .ofNat 0)]⟩,
        ⟨"p", "geo", .object [("lon", .ofNat 2), ("lat", .ofNat 3), ("radius", .ofNat 9)]⟩,
        ⟨"n", "match", .object [("any", .array [.ofNat 7, .ofNat 8])]⟩,
        ⟨"b", "match", .object [("value", .bool true)]⟩] := rfl
  rw [hleaves]
  simp only [List.forall_mem_cons]
  refine ⟨@WellFormed.strings _ _ _ ["x", "a|b"] (only_single (by decide) _) ?_ ?_,
    .text _ (only_single (by decide) _) ?_, .range _ _ ?_ ?_, .geo _ _ ?_,
    .ints _ (only_single (by decide) _) ?_ ?_, .value _ (only_single (by decide) _) rfl,
    List.forall_mem_nil _⟩
  · exact List.cons_ne_nil _ _
  · decide
  · decide
  · exact ⟨("gt", .gt), by decide, rfl⟩
  · decide
  · decide
  · exact List.cons_ne_nil _ _
  · decide

theorem plain_nested : ∀ l ∈ nestedTree.leaves, Plain l.field := by
  have hfields : (nestedTree.leaves.map Leaf.field).all fun f ↦
      f.toList.all fun c ↦ !delimiters.contains c := by
    decide
  intro l hl c hc
  have hnot := List.all_eq_true.mp (List.all_eq_true.mp hfields _ (List.mem_map_of_mem hl)) c hc
  rwa [Bool.not_eq_true', ← Bool.not_eq_true, List.contains_iff_mem] at hnot

theorem parseConditions_preserves_nested : Preserves plainServer noNumbers nested nestedTree :=
  parseConditions_preserves (by rfl : conditionTree some nested = some nestedTree)
    wellFormed_nested plain_nested

set_option maxRecDepth 4000 in
example : (parseConditions noNumbers nested).map (fun f ↦ f.1.text) =
    some ("(@k:\x7b$k_0 | $k_1\x7d @t:($t_2)) (@n:[($n_3_gt $n_3_lte] ".toList ++
      ("@n:[$n_3_gte $n_3_lte] | (@p:[$p_4_lon $p_4_lat $p_4_radius m]) ".toList ++
        "((@n:[$n_5 $n_5] | @n:[$n_6 $n_6]) | @b:\x7b$b_7\x7d))".toList)) := rfl

/-- A field with a blank in its name. -/
def spaced : Json := .object [("and", .array [leafEntry "a b" "match" [("value", .ofNat 1)]])]

def spacedLeaf : Leaf := ⟨"a b", "match", .object [("value", .ofNat 1)]⟩

/-- A list of an integer that is no `i64`. -/
def large : Json :=
  .object [("and", .array [leafEntry "n" "match" [("any", .array [.ofNat (2 ^ 63)])]])]

def largeLeaf : Leaf := ⟨"n", "match", .object [("any", .array [.ofNat (2 ^ 63)])]⟩

theorem not_preserves {server : Server} {env : NumberEnv} {conditions : Json} {t : BoolTree Leaf}
    (h : ((parseConditions env conditions).any fun f ↦ (readQuery f.1.text).isOk) = false) :
    ¬Preserves server env conditions t := by
  rintro ⟨query, params, w, hbuilt, hread, -⟩
  rw [hbuilt, Option.any_some, hread] at h
  cases h

/-- A field name is inserted as it is; a list of larger integers is sent as a clause and its
negation. -/
theorem parseConditions_spacedOrLarge :
    (conditionTree some spaced = some (.all [.leaf spacedLeaf]) ∧
      WellFormed noNumbers spacedLeaf ∧
      ¬Preserves plainServer noNumbers spaced (.all [.leaf spacedLeaf])) ∧
    (conditionTree some large = some (.all [.leaf largeLeaf]) ∧
      ¬Preserves plainServer noNumbers large (.all [.leaf largeLeaf]) ∧
      (parseConditions noNumbers large).map (fun f ↦ String.ofList f.1.text) =
        some "((@n:\x7b$n_0\x7d -@n:\x7b$n_0\x7d))") := by
  refine ⟨⟨rfl, .value _ (only_single (by decide) _) rfl,
    not_preserves (by with_unfolding_all decide)⟩,
    rfl, not_preserves (by with_unfolding_all decide), by decide⟩

end Examples

end VectorDbBenchmark.RedisQuery
