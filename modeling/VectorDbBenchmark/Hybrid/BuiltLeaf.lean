import VectorDbBenchmark.Hybrid.CheckSound
import VectorDbBenchmark.JsonEq
import VectorDbBenchmark.Kit.Merging
import VectorDbBenchmark.Redis.LeafClauses

/-!
# The clauses of a compiled leaf

`check_hybrid_filter` of the Redis engine checks the filter that `parse_conditions` builds
against the compiled predicate.  Here: what the leaf builder renders for a compiled leaf is
accepted for this leaf.
-/

namespace VectorDbBenchmark

open Kit Msmarco

theorem F64.isEqv_self {xs : List F64} (h : ∀ x ∈ xs, x ≠ .nan) : xs.isEqv xs F64.eq = true := by
  induction xs with
  | nil => rfl
  | cons x xs ih =>
      obtain ⟨hx, hxs⟩ := List.forall_mem_cons.mp h
      exact Bool.and_eq_true_iff.mpr ⟨eq_iff.mpr ⟨rfl, hx⟩, ih hxs⟩

theorem F64.ofInt_ne_nan (i : ℤ) : F64.ofInt i ≠ .nan := by
  rintro ⟨⟩

namespace Hybrid

open Redis

/-! ## The check -/

def toRedisParam : FilterParamValue → RedisParam
  | .str s => .str s
  | .int i => .num (F64.ofInt i)
  | .float f => .num f

/-- The parameters of a filter as the check reads them. -/
def resolve (M : Params) (name : String) : Option RedisParam := (M.get name).map toRedisParam

def checkHybridFilter (debug : Debug) (p : Predicate) (f : ParsedFilter) : Except String Unit :=
  checkRedisFilter debug (resolve f.2) p f.1.text

/-- The operands of a `match` are nonempty strings, or integers. -/
def uniform : LeafOp → Bool
  | .match ops => ((ints ops).isEmpty && !(words ops).contains "") || (words ops).isEmpty
  | .range .. => true
  | .text _ => true

theorem uniform_match {ops : List Operand} (h : uniform (.match ops) = true) :
    (ints ops = [] ∧ "" ∉ words ops) ∨ words ops = [] := by
  rw [uniform, Bool.or_eq_true, Bool.and_eq_true, Bool.not_eq_true', List.isEmpty_iff,
    List.isEmpty_iff] at h
  refine h.imp_left fun h ↦ ⟨h.1, fun hmem ↦ ?_⟩
  rw [List.contains_iff_mem.mpr hmem] at h
  cases h.2

/-! ## Operands -/

section Operands

variable (ss : List String) (ns : List ℤ)

@[simp] theorem words_keywords : words (ss.map .keyword) = ss := by
  rw [words, List.filterMap_map]
  exact List.filterMap_some

@[simp] theorem ints_keywords : ints (ss.map .keyword) = [] := by
  rw [ints, List.filterMap_map]
  exact List.filterMap_eq_nil_iff.mpr fun s _ ↦ rfl

@[simp] theorem words_ints : words (ns.map .int) = [] := by
  rw [words, List.filterMap_map]
  exact List.filterMap_eq_nil_iff.mpr fun n _ ↦ rfl

@[simp] theorem ints_ints : ints (ns.map .int) = ns.map F64.ofInt := by
  rw [ints, List.filterMap_map]
  change ns.filterMap (some ∘ F64.ofInt) = _
  rw [List.filterMap_eq_map]

variable {ops : List Operand}

theorem eq_keywords (h : ints ops = []) : ops = (words ops).map .keyword := by
  induction ops with
  | nil => rfl
  | cons op ops ih =>
      cases op with
      | keyword s => exact congrArg (.keyword s :: ·) (ih h)
      | int n => cases h

theorem exists_eq_ints (h : words ops = []) : ∃ ns : List ℤ, ops = ns.map .int := by
  induction ops with
  | nil => exact ⟨[], rfl⟩
  | cons op ops ih =>
      cases op with
      | keyword s => cases h
      | int n =>
          obtain ⟨ns, rfl⟩ := ih h
          exact ⟨n :: ns, rfl⟩

end Operands

/-! ## Accepted nodes -/

section Accepted

variable {debug : Debug} {M : Params} {field : String} {ps : List String}

theorem walkLeaf_tags {ss : List String} (hne : ss ≠ [])
    (h : List.Forall₂ (fun p v ↦ M.get p = some (.str v)) ps ss) :
    walkLeaf debug (resolve M) ⟨field, .match (ss.map .keyword)⟩ (.leaf (.tag field ps)) =
      .ok () := by
  have hwords : words (ss.map .keyword) ≠ [] ∧ ints (ss.map .keyword) = [] := by
    rw [words_keywords]
    exact ⟨hne, ints_keywords ss⟩
  have hgot : ps.mapM (text debug (resolve M)) = .ok ss := by
    refine mapM_eq_ok.mpr (h.imp fun p v hp ↦ text_eq_ok.mpr ?_)
    rw [resolve, hp]
    rfl
  rw [walkLeaf_match, if_pos hwords]
  unfold walkWords
  dsimp only
  rw [hgot, words_keywords]
  exact if_pos ⟨rfl, rfl⟩

theorem points_collapse {fs : List F64} {ns : List RNode} (hlen : fs.length = ns.length)
    (hne : ns ≠ []) : points fs (BoolTree.collapse .any ns) = some ns := by
  rcases ns with _ | ⟨n, _ | ⟨n', ns⟩⟩
  · exact absurd rfl hne
  · unfold points
    rw [hlen]
    cases n <;> rfl
  · unfold points
    rw [hlen]
    exact if_pos (Nat.succ_lt_succ (Nat.succ_pos _))

theorem point_pointLeaf {p : Predicate} {n : RNode} {name : String} {i : ℤ}
    (h : M.get name = some (.int i)) :
    point debug (resolve M) p n field (.leaf (pointLeaf field name)) = .ok (F64.ofInt i) := by
  have hnum : num debug (resolve M) name = .ok (F64.ofInt i) := by
    rw [num_eq_ok, resolve, h]
    rfl
  unfold point pointLeaf
  dsimp only
  rw [if_neg (not_not.mpr rfl), hnum]
  exact if_pos (F64.eq_iff.mpr ⟨rfl, F64.ofInt_ne_nan i⟩)

theorem walkLeaf_ints {ns : List ℤ} (hne : ns ≠ [])
    (h : List.Forall₂ (fun p n ↦ M.get p = some (.int n)) ps ns) :
    walkLeaf debug (resolve M) ⟨field, .match (ns.map .int)⟩
      (BoolTree.collapse .any (ps.map fun p ↦ .leaf (pointLeaf field p))) = .ok () := by
  have hwords : ¬(words (ns.map .int) ≠ [] ∧ ints (ns.map .int) = []) := by
    rw [words_ints]
    exact fun h ↦ h.1 rfl
  have hlen : (ns.map F64.ofInt).length =
      (ps.map fun p ↦ (.leaf (pointLeaf field p) : RNode)).length := by
    rw [List.length_map, List.length_map, h.length_eq]
  have hpts : ps.map (fun p ↦ (.leaf (pointLeaf field p) : RNode)) ≠ [] := by
    intro hnil
    rw [hnil, List.length_map] at hlen
    exact hne (List.length_eq_zero_iff.mp hlen)
  have hgot : ∀ p n, (ps.map fun p ↦ (.leaf (pointLeaf field p) : RNode)).mapM
      (point debug (resolve M) p n field) = .ok (ns.map F64.ofInt) := by
    intro p n
    rw [mapM_eq_ok, List.forall₂_map_left_iff, List.forall₂_map_right_iff]
    exact h.imp fun p i hp ↦ point_pointLeaf hp
  have hfinite : ∀ x ∈ (ns.map F64.ofInt).mergeSort totalLe, x ≠ .nan := by
    intro x hx
    obtain ⟨i, -, rfl⟩ := List.mem_map.mp (List.mem_mergeSort.mp hx)
    exact F64.ofInt_ne_nan i
  rw [walkLeaf_match, if_neg hwords]
  unfold walkInts
  rw [ints_ints, points_collapse hlen hpts]
  dsimp only
  rw [hgot]
  exact if_pos (F64.isEqv_self hfinite)

theorem walkLeaf_term {p term : String} (h : M.get p = some (.str term)) :
    walkLeaf debug (resolve M) ⟨field, .text term⟩ (.leaf (.text field p)) = .ok () := by
  have htext : text debug (resolve M) p = .ok term := by
    rw [text_eq_ok, resolve, h]
    rfl
  unfold walkLeaf
  dsimp only
  rw [if_neg (not_not.mpr rfl), htext]
  exact if_pos rfl

theorem sameEnd_of_resolved (debug : Debug) {params : String → Option RedisParam}
    {s : Option (String × Bool)}
    {want : Option (F64 × Bool)} (h : Resolved params s want) (hfin : ∀ e ∈ want, e.1 ≠ .nan) :
    ∃ e, got debug params s = .ok e ∧ sameEnd e want = true := by
  rcases h with ⟨rfl, rfl⟩ | ⟨p, x, exclusive, rfl, rfl, hp⟩
  · exact ⟨none, rfl, rfl⟩
  · refine ⟨some (x, exclusive), ?_, ?_⟩
    · rw [got, num_eq_ok.mpr hp]
      rfl
    · exact Bool.and_eq_true_iff.mpr
        ⟨F64.eq_iff.mpr ⟨rfl, hfin _ rfl⟩, decide_eq_true rfl⟩

/-- One interval with the bounds of a range leaf. -/
theorem walkLeaf_interval {params : String → Option RedisParam} {gt gte lt lte : Option F64}
    {lo hi : Option (String × Bool)}
    (hlo : Resolved params lo ((gt.map fun v ↦ (v, true)).or (gte.map fun v ↦ (v, false))))
    (hhi : Resolved params hi ((lt.map fun v ↦ (v, true)).or (lte.map fun v ↦ (v, false))))
    (hlofin : ∀ e ∈ (gt.map fun v ↦ (v, true)).or (gte.map fun v ↦ (v, false)), e.1 ≠ .nan)
    (hhifin : ∀ e ∈ (lt.map fun v ↦ (v, true)).or (lte.map fun v ↦ (v, false)), e.1 ≠ .nan) :
    walkLeaf debug params ⟨field, .range gt gte lt lte⟩ (.leaf (.range field lo hi)) =
      .ok () := by
  obtain ⟨lower, hlower, hsame⟩ := sameEnd_of_resolved debug hlo hlofin
  obtain ⟨upper, hupper, hsame'⟩ := sameEnd_of_resolved debug hhi hhifin
  unfold walkLeaf
  dsimp only
  rw [if_neg (not_not.mpr rfl), walkRange, hlower, ok_bind, hsame, hupper, ok_bind, hsame']
  rfl

end Accepted

/-! ## Match leaves -/

/-- A leaf says something, and all clauses that say it are accepted. -/
def Answered (debug : Debug) (env : NumberEnv) (M : Params) (l : Redis.Leaf) (op : LeafOp) : Prop :=
  ∃ a, leafCondition env l = some a ∧
    ∀ w, Says id M a w → walkLeaf debug (resolve M) ⟨l.field, op⟩ w = .ok ()

section Match

variable {display : Json → String} {debug : Debug} {env : NumberEnv} {M : Params} {field : String}

theorem eq_string_of_asStr {v : Json} {s : String} (h : v.asStr = some s) : v = .string s := by
  cases v <;> cases h
  rfl

theorem operand_keyword {v : Json} {s : String}
    (h : operand display field v = .ok (.keyword s)) : v = .string s := by
  rw [operand] at h
  split at h
  · next s' hs =>
      cases h
      exact eq_string_of_asStr hs
  · dsimp only at h
    split at h
    · split_ifs at h
      cases h
    · cases h

theorem operand_int {v : Json} {n : ℤ} (h : operand display field v = .ok (.int n)) :
    v.asBool = none ∧ v.asStr = none ∧ v.asI64 = some n := by
  rw [operand] at h
  split at h
  · cases h
  · next hstr =>
      dsimp only at h
      split at h
      · next n' hn =>
          split_ifs at h
          cases h
          cases v with
          | number x => exact ⟨rfl, rfl, hn⟩
          | _ => cases hn
      · cases h

theorem answered_text {t : String} (h : validateTerm t.toList = .ok ()) :
    Answered debug env M ⟨field, "match", .object [("text", .string t)]⟩ (.text t) := by
  obtain ⟨hmin, -, hlower⟩ := validateTerm_eq_ok h
  have htrim : trim t.toList = t.toList :=
    trim_of_blankless fun c hc ↦
      not_isWhiteSpace_of_isLower (List.all_eq_true.mp hlower c hc)
  have hblank : ¬(trim t.toList).isEmpty = true := by
    rw [htrim, List.isEmpty_iff]
    intro hnil
    rw [hnil] at hmin
    exact absurd hmin (by decide)
  refine ⟨.text field t, ?_, ?_⟩
  · change textCondition field t = _
    rw [textCondition, if_neg hblank, htrim, String.ofList_toList]
  · rintro w ⟨p, rfl, hp⟩
    exact walkLeaf_term hp

theorem says_tags {ss : List String} (hne : ss ≠ []) {w : RNode}
    (h : Says id M (.tags field ss) w) :
    walkLeaf debug (resolve M) ⟨field, .match (ss.map .keyword)⟩ w = .ok () := by
  obtain ⟨ps, rfl, hps⟩ := h
  exact walkLeaf_tags hne hps

theorem says_numbers {ns : List ℤ} (hne : ns ≠ []) {w : RNode}
    (h : Says id M (.numbers field (ns.map .int)) w) :
    walkLeaf debug (resolve M) ⟨field, .match (ns.map .int)⟩ w = .ok () := by
  obtain ⟨ps, rfl, hps⟩ := h
  rw [List.forall₂_map_right_iff] at hps
  exact walkLeaf_ints hne hps

theorem answered_value {v : Json} {op : Operand} (h : operand display field v = .ok op) :
    Answered debug env M ⟨field, "match", .object [("value", v)]⟩ (.match [op]) := by
  cases op with
  | keyword s =>
      cases operand_keyword h
      exact ⟨.tags field [s], rfl, fun w hw ↦ says_tags (List.cons_ne_nil s []) hw⟩
  | int n =>
      obtain ⟨hbool, hstr, hint⟩ := operand_int h
      refine ⟨.numbers field [.int n], ?_, fun w hw ↦ says_numbers (List.cons_ne_nil n []) hw⟩
      change valueCondition field v = _
      rw [valueCondition, hbool]
      dsimp only
      rw [hstr]
      dsimp only
      rw [hint]

theorem filterMap_eq_of_forall₂ {α β : Type} {f : α → Option β} {xs : List α} {ys : List β}
    (h : List.Forall₂ (fun x y ↦ f x = some y) xs ys) : xs.filterMap f = ys := by
  induction h with
  | nil => rfl
  | cons hx _ ih => rw [List.filterMap_cons_some hx, ih]

theorem answered_any {vs : List Json} {ops : List Operand} (hne : vs ≠ [])
    (h : vs.mapM (operand display field) = .ok ops) (hu : uniform (.match ops) = true) :
    Answered debug env M ⟨field, "match", .object [("any", .array vs)]⟩ (.match ops) := by
  have hops := mapM_eq_ok.mp h
  have hempty : ¬vs.isEmpty = true := fun hnil ↦ hne (List.isEmpty_iff.mp hnil)
  rcases uniform_match hu with ⟨hints, hblank⟩ | hwords
  · obtain ⟨ss, rfl⟩ : ∃ ss : List String, ops = ss.map .keyword := ⟨_, eq_keywords hints⟩
    rw [words_keywords] at hblank
    have hvs : vs = ss.map .string := by
      have heach := (List.forall₂_map_right_iff.mp hops).imp fun v s hv ↦ operand_keyword hv
      exact forall₂_eq_map.mp heach.flip
    subst hvs
    have hss : ss ≠ [] := fun hnil ↦ hne (List.map_eq_nil_iff.mpr hnil)
    have hints : ¬((ss.map Json.string).all fun v ↦ v.asI64.isSome) = true := by
      cases ss with
      | nil => exact absurd rfl hss
      | cons s ss => exact Bool.false_ne_true
    have hstrs : ((ss.map Json.string).all fun v ↦ v.asStr.any fun s ↦ !s.isEmpty) = true := by
      rw [List.all_map, List.all_eq_true]
      intro s hs
      refine (Bool.not_eq_true' _).mpr (Bool.eq_false_iff.mpr fun hnil ↦ hblank ?_)
      rwa [← String.isEmpty_iff.mp hnil]
    refine ⟨.tags field ss, ?_, fun w hw ↦ says_tags hss hw⟩
    change anyCondition field (ss.map .string) = _
    rw [anyCondition, if_neg hempty, if_neg hints, if_pos hstrs, List.filterMap_map]
    exact congrArg (fun ss ↦ some (Condition.tags field ss)) List.filterMap_some
  · obtain ⟨ns, rfl⟩ := exists_eq_ints hwords
    rw [List.forall₂_map_right_iff] at hops
    have heach := hops.imp fun v n hv ↦ (operand_int hv).2.2
    have hall : (vs.all fun v ↦ v.asI64.isSome) = true := by
      rw [List.all_eq_true]
      intro v hv
      obtain ⟨n, -, hn⟩ := exists_of_mem_right heach.flip hv
      rw [hn]
      rfl
    have hvalues : vs.filterMap Json.asI64 = ns := filterMap_eq_of_forall₂ heach
    have hns : ns ≠ [] := by
      rintro rfl
      cases heach
      exact hne rfl
    refine ⟨.numbers field (ns.map .int), ?_, fun w hw ↦ says_numbers hns hw⟩
    change anyCondition field vs = _
    rw [anyCondition, if_neg hempty, if_pos hall, hvalues]

end Match

/-! ## Range leaves -/

/-- A bound that has been read, by its operator. -/
def boundAt (b : RangeBounds) : Operator → Option F64
  | .lt => b.lt
  | .gt => b.gt
  | .lte => b.lte
  | .gte => b.gte

/-- A key and an operator determine each other. -/
theorem rangeKeys_iff : ∀ k ∈ rangeKeys, ∀ k' ∈ rangeKeys, k.1 = k'.1 ↔ k.2 = k'.2 := by decide

section Range

variable {debug : Debug} {env : NumberEnv} {M : Params} {field : String}

/-- One round sets one bound. -/
theorem boundAt_of_rangeBound {acc out : RangeBounds} {key : String} {v : Json}
    (h : rangeBound debug.string field acc (key, v) = .ok out) :
    ∃ o x, (key, o) ∈ rangeKeys ∧ exactNumber v = some x ∧
      ∀ o', boundAt out o' = if o' = o then some x else boundAt acc o' := by
  unfold rangeBound at h
  split at h
  · cases h
  · next x hx =>
      dsimp only at h hx
      split_ifs at h with hgt hgte hlt hlte <;> cases h
      · refine ⟨.gt, x, hgt ▸ by decide, hx, ?_⟩
        intro o'
        cases o' <;> rfl
      · refine ⟨.gte, x, hgte ▸ by decide, hx, ?_⟩
        intro o'
        cases o' <;> rfl
      · refine ⟨.lt, x, hlt ▸ by decide, hx, ?_⟩
        intro o'
        cases o' <;> rfl
      · refine ⟨.lte, x, hlte ▸ by decide, hx, ?_⟩
        intro o'
        cases o' <;> rfl

/-- The loop reads each bound from the entry under its key. -/
theorem boundAt_of_foldlM {es : List (String × Json)} (hnodup : (es.map Prod.fst).Nodup)
    {acc out : RangeBounds} (h : es.foldlM (rangeBound debug.string field) acc = .ok out) :
    (∀ e ∈ es, (∃ o, (e.1, o) ∈ rangeKeys) ∧ ∃ x, exactNumber e.2 = some x) ∧
      ∀ k ∈ rangeKeys, boundAt out k.2 =
        match Json.getEntry k.1 es with
        | some v => exactNumber v
        | none => boundAt acc k.2 := by
  induction es generalizing acc with
  | nil =>
      cases h
      exact ⟨fun e he ↦ absurd he List.not_mem_nil, fun k hk ↦ rfl⟩
  | cons e es ih =>
      obtain ⟨key, v⟩ := e
      rw [List.foldlM_cons] at h
      obtain ⟨acc', hround, h⟩ := bind_eq_ok.mp h
      obtain ⟨o, x, ho, hx, hset⟩ := boundAt_of_rangeBound hround
      rw [List.map_cons, List.nodup_cons] at hnodup
      obtain ⟨hall, hbounds⟩ := ih hnodup.2 h
      refine ⟨List.forall_mem_cons.mpr ⟨⟨⟨o, ho⟩, ⟨x, hx⟩⟩, hall⟩, fun k hk ↦ ?_⟩
      rw [hbounds k hk, hset, Json.getEntry]
      by_cases hkey : key = k.1
      · have heq : k.2 = o := ((rangeKeys_iff _ ho _ hk).mp hkey).symm
        rw [if_pos hkey, Json.getEntry_eq_none_iff.mpr (hkey ▸ hnodup.1), if_pos heq]
        exact hx.symm
      · have hne : k.2 ≠ o := fun heq ↦ hkey ((rangeKeys_iff _ ho _ hk).mpr heq.symm)
        rw [if_neg hkey, if_neg hne]

/-- A value and the number that it is for the check. -/
def Converts (v : FilterParamValue) (x : F64) : Prop := toRedisParam v = .num x ∧ x ≠ .nan

theorem toNumber_of_exactNumber (env : NumberEnv) {v : Json} {x : F64}
    (h : exactNumber v = some x) :
    ∃ value, toNumber env v = some value ∧ Converts value x := by
  unfold exactNumber at h
  split at h
  · next q hq =>
      split_ifs at h
      cases h
      rw [toNumber]
      cases hint : v.asI64 with
      | some i =>
          refine ⟨.int i, rfl, congrArg RedisParam.num ?_, F64.noConfusion⟩
          cases v with
          | number n =>
              rcases n with ⟨n, hn⟩ | ⟨j, hj⟩ | q'
              · change (if n < 2 ^ 63 then some (n : ℤ) else none) = some i at hint
                split_ifs at hint
                cases hint
                exact Option.some.inj hq
              · cases hint
                exact Option.some.inj hq
              · cases hint
          | _ => cases hint
      | none =>
          dsimp only
          rw [hq]
          exact ⟨.float (.fin q), rfl, rfl, F64.noConfusion⟩
  · cases h

/-- The given bounds with the values they are bound as. -/
def givenBounds (env : NumberEnv) (criteria : Json) : List (Operator × FilterParamValue) :=
  rangeKeys.filterMap fun k ↦ ((criteria.get k.1).bind (toNumber env)).map fun v ↦ (k.2, v)

/-- The value of a bound on the left, exclusive or not. -/
def lowerValue (e : Operator × FilterParamValue) : Option (FilterParamValue × Bool) :=
  match e.1 with
  | .gt => some (e.2, true)
  | .gte => some (e.2, false)
  | .lt | .lte => none

def upperValue (e : Operator × FilterParamValue) : Option (FilterParamValue × Bool) :=
  match e.1 with
  | .lt => some (e.2, true)
  | .lte => some (e.2, false)
  | .gt | .gte => none

/-- An end with its value. -/
def EndBound (M : Params) (s : String × Bool) (want : FilterParamValue × Bool) : Prop :=
  s.2 = want.2 ∧ M.get s.1 = some want.1

/-- The value that stands on one side, when there is at most one. -/
theorem exists_end {side : Bound → Option (String × Bool)} {bs : List Bound}
    {tx ti : Option FilterParamValue} {x i : Option F64} (hx : Option.Rel Converts tx x)
    (hi : Option.Rel Converts ti i) (hone : x = none ∨ i = none)
    (h : List.Forall₂ (EndBound M) (bs.filterMap side)
      ((tx.map fun v ↦ (v, true)).toList ++ (ti.map fun v ↦ (v, false)).toList)) :
    ∃ s, endsOn side bs = [s] ∧
      Resolved (resolve M) s ((x.map fun v ↦ (v, true)).or (i.map fun v ↦ (v, false))) ∧
      ∀ e ∈ (x.map fun v ↦ (v, true)).or (i.map fun v ↦ (v, false)), e.1 ≠ .nan := by
  have hsingle : ∀ {v y exclusive}, Converts v y →
      List.Forall₂ (EndBound M) (bs.filterMap side) [(v, exclusive)] →
      ∃ s, endsOn side bs = [s] ∧ Resolved (resolve M) s (some (y, exclusive)) ∧
        ∀ e ∈ some (y, exclusive), e.1 ≠ .nan := by
    intro v y exclusive hv h
    generalize hends : bs.filterMap side = ends at h
    rcases h with _ | ⟨hend, ⟨⟩⟩
    next s =>
      obtain ⟨p, e⟩ := s
      obtain ⟨rfl, hget⟩ := hend
      refine ⟨some (p, e), ?_, .inr ⟨p, y, e, rfl, rfl, ?_⟩, ?_⟩
      · rw [endsOn, hends]
        rfl
      · rw [resolve, hget]
        exact congrArg some hv.1
      · rintro e ⟨⟩
        exact hv.2
  rcases hx with hv | _ <;> rcases hi with hv' | _
  · rcases hone with ⟨⟨⟩⟩ | ⟨⟨⟩⟩
  · exact hsingle hv h
  · exact hsingle hv' h
  · generalize hends : bs.filterMap side = ends at h
    cases h
    refine ⟨none, ?_, .inl ⟨rfl, rfl⟩, ?_⟩
    · rw [endsOn, hends]
      rfl
    · rintro e ⟨⟩

/-- The bounds of a compiled range, by the values they are bound as. -/
theorem rel_boundAt (env : NumberEnv) {es : List (String × Json)} (hnodup : (es.map Prod.fst).Nodup)
    {out : RangeBounds} (h : es.foldlM (rangeBound debug.string field) {} = .ok out)
    {k : String × Operator} (hk : k ∈ rangeKeys) :
    Option.Rel Converts (((Json.object es).get k.1).bind (toNumber env)) (boundAt out k.2) := by
  obtain ⟨hall, hbounds⟩ := boundAt_of_foldlM hnodup h
  rw [hbounds k hk, Json.get]
  cases hentry : Json.getEntry k.1 es with
  | none =>
      obtain ⟨key, _ | _ | _ | _⟩ := k <;> exact .none
  | some v =>
      obtain ⟨-, x, hx⟩ := hall (k.1, v) (Json.mem_of_getEntry hentry)
      obtain ⟨value, hvalue, hconv⟩ := toNumber_of_exactNumber env hx
      dsimp only [Option.bind_some]
      rw [hx, hvalue]
      exact .some hconv

theorem givenBounds_lower (criteria : Json) : (givenBounds env criteria).filterMap lowerValue =
    (((criteria.get "gt").bind (toNumber env)).map fun v ↦ (v, true)).toList ++
      (((criteria.get "gte").bind (toNumber env)).map fun v ↦ (v, false)).toList := by
  rw [givenBounds, rangeKeys]
  simp only [List.filterMap_cons, List.filterMap_nil]
  generalize (criteria.get "lt").bind (toNumber env) = lt
  generalize (criteria.get "gt").bind (toNumber env) = gt
  generalize (criteria.get "lte").bind (toNumber env) = lte
  generalize (criteria.get "gte").bind (toNumber env) = gte
  cases lt <;> cases gt <;> cases lte <;> cases gte <;> rfl

theorem givenBounds_upper (criteria : Json) : (givenBounds env criteria).filterMap upperValue =
    (((criteria.get "lt").bind (toNumber env)).map fun v ↦ (v, true)).toList ++
      (((criteria.get "lte").bind (toNumber env)).map fun v ↦ (v, false)).toList := by
  rw [givenBounds, rangeKeys]
  simp only [List.filterMap_cons, List.filterMap_nil]
  generalize (criteria.get "lt").bind (toNumber env) = lt
  generalize (criteria.get "gt").bind (toNumber env) = gt
  generalize (criteria.get "lte").bind (toNumber env) = lte
  generalize (criteria.get "gte").bind (toNumber env) = gte
  cases lt <;> cases gt <;> cases lte <;> cases gte <;> rfl

theorem rangeCondition_of_given {es : List (String × Json)}
    (hne : givenBounds env (.object es) ≠ [])
    (hall : ∀ k ∈ rangeKeys, ∀ v, (Json.object es).get k.1 = some v → (toNumber env v).isSome) :
    rangeCondition env field (.object es) = some (.range field (givenBounds env (.object es))) := by
  have hgiven : ((rangeKeys.filterMap fun k ↦ ((Json.object es).get k.1).map fun v ↦ (k, v))
      |>.filterMap fun b ↦ (toNumber env b.2).map fun value ↦ (b.1.2, value)) =
      givenBounds env (.object es) := by
    rw [List.filterMap_filterMap, givenBounds]
    apply congrArg (rangeKeys.filterMap ·)
    funext k
    cases (Json.object es).get k.1 <;> rfl
  have hcond :
      ¬((rangeKeys.filterMap fun k ↦ ((Json.object es).get k.1).map fun v ↦ (k, v)).isEmpty ||
      !(rangeKeys.filterMap fun k ↦ ((Json.object es).get k.1).map fun v ↦ (k, v)).all fun b ↦
        (toNumber env b.2).isSome) = true := by
    rw [Bool.or_eq_true, not_or, Bool.not_eq_true', Bool.not_eq_false]
    constructor
    · intro hnil
      rw [List.isEmpty_iff.mp hnil] at hgiven
      exact hne hgiven.symm
    · rw [List.all_eq_true]
      intro b hb
      obtain ⟨k, hk, hb⟩ := List.mem_filterMap.mp hb
      obtain ⟨v, hv, rfl⟩ := Option.map_eq_some_iff.mp hb
      exact hall k hk v hv
  rw [rangeCondition, if_neg hcond, hgiven]

theorem endBound_lower (b : Bound) (e : Operator × FilterParamValue)
    (h : b.operator = e.1 ∧ M.get b.parameter = some e.2) :
    Option.Rel (EndBound M) b.lowerEnd (lowerValue e) := by
  obtain ⟨parameter, operator⟩ := b
  obtain ⟨_, value⟩ := e
  obtain ⟨rfl, hget⟩ := h
  cases operator
  · exact .none
  · exact .some ⟨rfl, hget⟩
  · exact .none
  · exact .some ⟨rfl, hget⟩

theorem endBound_upper (b : Bound) (e : Operator × FilterParamValue)
    (h : b.operator = e.1 ∧ M.get b.parameter = some e.2) :
    Option.Rel (EndBound M) b.upperEnd (upperValue e) := by
  obtain ⟨parameter, operator⟩ := b
  obtain ⟨_, value⟩ := e
  obtain ⟨rfl, hget⟩ := h
  cases operator
  · exact .some ⟨rfl, hget⟩
  · exact .none
  · exact .some ⟨rfl, hget⟩
  · exact .none

theorem none_or_none {α β : Type} {o : Option α} {o' : Option β}
    (h : ¬(o.isSome = true ∧ o'.isSome = true)) : o = none ∨ o' = none := by
  cases o with
  | none => exact .inl rfl
  | some a =>
      refine .inr (Option.not_isSome_iff_eq_none.mp fun hs ↦ ?_)
      exact h ⟨rfl, hs⟩

/-- A range leaf, whose criteria have distinct keys. -/
theorem answered_range {criteria : Json} {op : LeafOp}
    (hnodup : ∀ es, criteria = .object es → (es.map Prod.fst).Nodup)
    (h : rangeLeaf debug.string field criteria = .ok op) :
    Answered debug env M ⟨field, "range", criteria⟩ op := by
  unfold rangeLeaf at h
  split at h
  · next b bs =>
      obtain ⟨out, hout, h⟩ := bind_eq_ok.mp h
      split_ifs at h with hboth
      cases h
      obtain ⟨hlower, hupper⟩ := not_or.mp hboth
      have hdistinct := hnodup _ rfl
      obtain ⟨hall, -⟩ := boundAt_of_foldlM hdistinct hout
      have hconvert : ∀ k ∈ rangeKeys, ∀ v, (Json.object (b :: bs)).get k.1 = some v →
          (toNumber env v).isSome := by
        intro k _ v hv
        obtain ⟨-, x, hx⟩ := hall _ (Json.mem_of_getEntry hv)
        obtain ⟨value, hvalue, -⟩ := toNumber_of_exactNumber env hx
        rw [hvalue]
        rfl
      have hgiven : givenBounds env (.object (b :: bs)) ≠ [] := by
        obtain ⟨⟨o, ho⟩, -⟩ := hall b List.mem_cons_self
        have hget : (Json.object (b :: bs)).get b.1 = some b.2 := if_pos rfl
        obtain ⟨value, hvalue⟩ := Option.isSome_iff_exists.mp (hconvert _ ho _ hget)
        refine List.ne_nil_of_mem (a := (o, value)) (List.mem_filterMap.mpr ⟨_, ho, ?_⟩)
        rw [hget, Option.bind_some, hvalue]
        rfl
      refine ⟨_, rangeCondition_of_given hgiven hconvert, ?_⟩
      rintro w ⟨bs', rfl, hbs⟩
      have hlowers := forall₂_filterMap hbs endBound_lower
      have huppers := forall₂_filterMap hbs endBound_upper
      rw [givenBounds_lower] at hlowers
      rw [givenBounds_upper] at huppers
      have hrel := fun k hk ↦ rel_boundAt env (k := k) hdistinct hout hk
      obtain ⟨lo, hlo, hlores, hlofin⟩ := exists_end (hrel ("gt", .gt) (by decide))
        (hrel ("gte", .gte) (by decide)) (none_or_none hlower) hlowers
      obtain ⟨hi, hhi, hhires, hhifin⟩ := exists_end (hrel ("lt", .lt) (by decide))
        (hrel ("lte", .lte) (by decide)) (none_or_none hupper) huppers
      have hone : intervals field bs' = [.range field lo hi] := by
        rw [intervals, hlo, hhi]
        rfl
      rw [hone]
      exact walkLeaf_interval hlores hhires hlofin hhifin
  · cases h

end Range

/-! ## One leaf -/

section Leaf

variable {display : Json → String} {debug : Debug} {env : NumberEnv} {M : Params} {field : String}
  {op : LeafOp}

theorem answered_match {criteria : Json} (hu : uniform op = true)
    (h : matchLeaf display field criteria = .ok op) :
    Answered debug env M ⟨field, "match", criteria⟩ op := by
  unfold matchLeaf at h
  split at h
  · next kind v =>
      split_ifs at h with htext hvalue hany
      · subst htext
        split at h
        · cases h
        · next t ht =>
            cases eq_string_of_asStr ht
            obtain ⟨⟨⟩, hterm, h⟩ := bind_eq_ok.mp h
            cases h
            exact answered_text (mapError_eq_ok.mp hterm)
      · subst hvalue
        obtain ⟨o, ho, rfl⟩ := map_eq_ok.mp h
        exact answered_value ho
      · subst hany
        split at h
        · next e es =>
            obtain ⟨ops, hops, rfl⟩ := map_eq_ok.mp h
            exact answered_any (List.cons_ne_nil e es) hops hu
        · cases h
  · cases h

/-- A compiled leaf says something to the builder, and the check accepts all clauses that
say it. -/
theorem answered_leaf (env : NumberEnv) (M : Params) {opName : String} {criteria : Json}
    (hnodup : ∀ es, criteria = .object es → (es.map Prod.fst).Nodup) (hu : uniform op = true)
    (h : leaf display debug.string field (.object [(opName, criteria)]) = .ok op) :
    Answered debug env M ⟨field, opName, criteria⟩ op ∧ opName ≠ "geo" := by
  rw [leaf] at h
  split_ifs at h with hmatch hrange
  · subst hmatch
    exact ⟨answered_match hu h, by decide⟩
  · subst hrange
    exact ⟨answered_range hnodup h, by decide⟩

end Leaf

end Hybrid

end VectorDbBenchmark
