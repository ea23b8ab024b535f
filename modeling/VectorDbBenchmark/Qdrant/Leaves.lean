import VectorDbBenchmark.Kit.Fallible
import VectorDbBenchmark.Qdrant.Filter

/-!
# The conditions of leaves

A match with one criterion and a range become conditions that represent them and say what they
say.
-/

namespace VectorDbBenchmark.Qdrant

open Kit Redis ConditionTree

variable {env : Env} {S : Server}

/-! ## Matches -/

theorem any_filterMap_of_forall {α β : Type} {f : α → Option β} {p : β → Bool} {q : α → Bool}
    {xs : List α} (h : ∀ x ∈ xs, ∃ y, f x = some y ∧ p y = q x) :
    (xs.filterMap f).any p = xs.any q := by
  induction xs with
  | nil => rfl
  | cons x xs ih =>
      rw [List.forall_mem_cons] at h
      obtain ⟨⟨y, hy, hpq⟩, hxs⟩ := h
      rw [List.filterMap_cons_some hy, List.any_cons, List.any_cons, hpq, ih hxs]

theorem payloadValue_of_asI64 {v : Json} {i : ℤ} (h : v.asI64 = some i) :
    payloadValue v = some (.integer i) := by
  cases v with
  | number n =>
      have hn : n.asI64 = some i := h
      rw [payloadValue, hn]
      rfl
  | null => cases h
  | bool _ => cases h
  | string _ => cases h
  | array _ => cases h
  | object _ => cases h

theorem payloadValue_of_asStr {v : Json} {s : String} (h : v.asStr = some s) :
    payloadValue v = some (.string s) := by
  cases v with
  | string s => cases h; rfl
  | null => cases h
  | bool _ => cases h
  | number _ => cases h
  | array _ => cases h
  | object _ => cases h

theorem payloadValue_of_asBool {v : Json} {b : Bool} (h : v.asBool = some b) :
    payloadValue v = some (.string (boolToken v)) := by
  cases v with
  | bool b => cases b <;> rfl
  | null => cases h
  | number _ => cases h
  | string _ => cases h
  | array _ => cases h
  | object _ => cases h

theorem decide_eq_decide_some (x y : PayloadValue) :
    decide (x = y) = decide (some y = some x) := by
  rw [decide_eq_decide, Option.some.injEq]
  exact eq_comm

/-- What a match value of a criterion says. -/
structure Says (S : Server) (key : String) (v : Json) (value : MatchValue) : Prop where
  keyEq : value.key = key
  holds : ∀ xs : List PayloadValue, xs.any (fun x ↦ value.holds S x) = criterionHolds S xs key v

theorem says_any {field conditionType : String} {criteria any : Json} {value : MatchValue}
    (h : matchAny env field conditionType criteria any = .ok value) : Says S "any" any value := by
  unfold matchAny at h
  split at h
  · cases h
  · next vs hvs =>
      have htold : ∀ {value : MatchValue}, value.key = "any" →
          (∀ x, value.holds S x = vs.any fun e ↦ payloadValue e = some x) →
          Says S "any" any value := by
        intro value hkey hvalue
        refine ⟨hkey, fun xs ↦ congrArg xs.any (funext fun x ↦ ?_)⟩
        rw [hvalue, hvs, Option.any_some]
      split_ifs at h with hints hbools hstrs
      · cases h
        apply htold rfl
        intro x
        rw [Bool.and_eq_true, List.all_eq_true] at hints
        refine any_filterMap_of_forall fun e he ↦ ?_
        obtain ⟨i, hi⟩ := Option.isSome_iff_exists.mp (hints.2 e he)
        refine ⟨i, hi, ?_⟩
        rw [payloadValue_of_asI64 hi]
        exact decide_eq_decide_some _ _
      · cases h
        apply htold rfl
        intro x
        rw [Bool.and_eq_true, List.all_eq_true] at hbools
        rw [MatchValue.holds, List.any_map]
        refine any_congr_of_mem fun e he ↦ ?_
        obtain ⟨b, hb⟩ := Option.isSome_iff_exists.mp (hbools.2 e he)
        rw [Function.comp_apply, payloadValue_of_asBool hb]
        exact decide_eq_decide_some _ _
      · cases h
      · cases h
        apply htold rfl
        intro x
        rw [Bool.not_eq_true', Bool.not_eq_false, List.all_eq_true] at hstrs
        refine any_filterMap_of_forall fun e he ↦ ?_
        obtain ⟨s, hs⟩ := Option.isSome_iff_exists.mp (hstrs e he)
        refine ⟨s, hs, ?_⟩
        rw [payloadValue_of_asStr hs]
        exact decide_eq_decide_some _ _

theorem says_text {field conditionType : String} {text : Json} {value : MatchValue}
    (h : matchText env field conditionType text = .ok value) : Says S "text" text value := by
  unfold matchText at h
  split at h
  · cases h
  · next t ht =>
      cases h
      refine ⟨rfl, fun xs ↦ congrArg xs.any (funext fun x ↦ ?_)⟩
      rw [ht, Option.any_some]
      rfl

theorem says_exact {field conditionType : String} {v : Json} {value : MatchValue}
    (h : matchExact env field conditionType v = .ok value) : Says S "value" v value := by
  have htold : ∀ {value : MatchValue} {y : PayloadValue}, value.key = "value" →
      payloadValue v = some y → (∀ x, value.holds S x = decide (x = y)) →
      Says S "value" v value := by
    intro value y hkey hy hvalue
    refine ⟨hkey, fun xs ↦ congrArg xs.any (funext fun x ↦ ?_)⟩
    rw [hvalue, hy]
    exact decide_eq_decide_some _ _
  unfold matchExact at h
  split at h
  · cases h
    exact htold rfl rfl fun x ↦ rfl
  · next b =>
      cases h
      exact htold rfl (payloadValue_of_asBool rfl) fun x ↦ rfl
  · split at h
    · next n hn =>
        cases h
        exact htold rfl (payloadValue_of_asI64 hn) fun x ↦ rfl
    · cases h

/-- The value of a match with one criterion says what the criterion says. -/
theorem says_buildMatch {field conditionType key : String} {v : Json} {value : MatchValue}
    (h : buildMatch env field conditionType (.object [(key, v)]) = .ok value) :
    Says S key v value := by
  have hget : ∀ k w, Json.getEntry k [(key, v)] = some w → key = k ∧ v = w := by
    intro k w hw
    rw [Json.getEntry] at hw
    split_ifs at hw with hk
    · cases hw
      exact ⟨hk, rfl⟩
    · cases hw
  unfold buildMatch at h
  rw [Json.asObject] at h
  dsimp only at h
  split at h
  · cases h
  · split at h
    · next any hany =>
        obtain ⟨rfl, rfl⟩ := hget _ _ hany
        exact says_any h
    · split at h
      · next text htext =>
          obtain ⟨rfl, rfl⟩ := hget _ _ htext
          exact says_text h
      · split at h
        · next value hvalue =>
            obtain ⟨rfl, rfl⟩ := hget _ _ hvalue
            exact says_exact h
        · cases h

/-! ## Ranges -/

/-- What is read of a bound. -/
theorem optionalBound_eq {α : Type} {read : String → Json → Except String α}
    {obj : List (String × Json)} {k : String} {b : Option α}
    (h : optionalBound read obj k = .ok b) :
    given obj k = none ∧ b = none ∨
      ∃ v x, given obj k = some v ∧ read k v = .ok x ∧ b = some x := by
  unfold optionalBound at h
  unfold given
  split at h
  · next hnone =>
      cases h
      rw [hnone]
      exact .inl ⟨rfl, rfl⟩
  · next hnull =>
      cases h
      rw [hnull]
      exact .inl ⟨rfl, rfl⟩
  · next v hnull hv =>
      rw [hv]
      right
      rcases hread : read k v with e | x
      · rw [hread] at h
        cases h
      · rw [hread] at h
        cases h
        refine ⟨v, x, ?_, hread, rfl⟩
        split
        · next hv' => cases hv'; exact absurd rfl hnull
        · rfl

/-- Bounds that are read from those that are given. -/
structure ReadsBounds {α : Type} (read : String → Json → Except String α)
    (obj : List (String × Json)) (bounds : Bounds α) : Prop where
  bound : ∀ k ∈ boundNames, optionalBound read obj k = .ok (bounds.get k)

theorem ReadsBounds.keys_eq {α : Type} {read : String → Json → Except String α}
    {obj : List (String × Json)} {bounds : Bounds α} (h : ReadsBounds read obj bounds) :
    bounds.keys = boundNames.filter fun k ↦ (given obj k).isSome := by
  refine List.filter_congr fun k hk ↦ ?_
  rcases optionalBound_eq (h.bound k hk) with ⟨hgiven, hb⟩ | ⟨v, x, hgiven, -, hb⟩
  · rw [hgiven, hb]
    rfl
  · rw [hgiven, hb]
    rfl

theorem ReadsBounds.holds_eq {α : Type} {read : String → Json → Except String α}
    {readExact : Json → Option α} {lt le : α → α → Bool}
    {obj : List (String × Json)} {bounds : Bounds α} (h : ReadsBounds read obj bounds)
    (hexact : ∀ k ∈ boundNames, ∀ v x, given obj k = some v → read k v = .ok x →
      readExact v = some x) (x : α) :
    bounds.holds lt le x = boundsHold readExact lt le obj x := by
  refine all_congr_of_mem fun k hk ↦ ?_
  rcases optionalBound_eq (h.bound k hk) with ⟨hgiven, hb⟩ | ⟨v, y, hgiven, hread, hb⟩
  · rw [hgiven, hb]
    rfl
  · rw [hgiven, hb, Option.all_some, Option.all_some, hexact k hk v y hgiven hread]
    rfl

theorem readsBounds_datetime {field : String} {obj : List (String × Json)}
    {bounds : Bounds Timestamp} (h : datetimeBounds env field obj = .ok bounds) :
    ReadsBounds (datetimeBound env field) obj bounds := by
  unfold datetimeBounds at h
  obtain ⟨lt, hlt, h⟩ := bind_eq_ok.mp h
  obtain ⟨gt, hgt, h⟩ := bind_eq_ok.mp h
  obtain ⟨gte, hgte, h⟩ := bind_eq_ok.mp h
  obtain ⟨lte, hlte, h⟩ := bind_eq_ok.mp h
  cases h
  constructor
  simp only [boundNames, List.forall_mem_cons]
  exact ⟨hlt, hgt, hlte, hgte, fun k hk ↦ absurd hk List.not_mem_nil⟩

theorem readsBounds_numeric {field conditionType : String} {obj : List (String × Json)}
    {bounds : Bounds F64} (h : numericBounds env field conditionType obj = .ok bounds) :
    ReadsBounds (numberBound env field conditionType) obj bounds := by
  unfold numericBounds at h
  obtain ⟨lt, hlt, h⟩ := bind_eq_ok.mp h
  obtain ⟨gt, hgt, h⟩ := bind_eq_ok.mp h
  obtain ⟨lte, hlte, h⟩ := bind_eq_ok.mp h
  obtain ⟨gte, hgte, h⟩ := bind_eq_ok.mp h
  cases h
  constructor
  simp only [boundNames, List.forall_mem_cons]
  exact ⟨hlt, hgt, hlte, hgte, fun k hk ↦ absurd hk List.not_mem_nil⟩

/-! ## Leaves -/

/-- A condition that represents a leaf and says what it says. -/
structure SaysLeaf (env : Env) (S : Server) (l : Leaf) (c : FieldCondition) : Prop where
  represents : Represents c l
  holds : ∀ p, c.holds S p = leafHolds env S p l

theorem saysLeaf_match {field key : String} {v : Json} {value : MatchValue}
    (h : buildMatch env field "match" (.object [(key, v)]) = .ok value) :
    SaysLeaf env S ⟨field, "match", .object [(key, v)]⟩ (.matches field value) := by
  have hvalue := says_buildMatch (S := S) h
  refine ⟨⟨rfl, rfl, congrArg (fun k ↦ [k]) hvalue.keyEq⟩, fun p ↦ ?_⟩
  exact (hvalue.holds (p field)).trans (Bool.and_true _).symm

/-- All keys of bounds that are built are those of bounds. -/
theorem keys_of_unknownKey {obj : List (String × Json)}
    (h : unknownKey boundNames obj = none) :
    (obj.map Prod.fst).filter (fun k ↦ !boundNames.contains k) = [] := by
  rw [unknownKey, List.find?_eq_none] at h
  rw [List.filter_eq_nil_iff, List.forall_mem_map]
  exact h

theorem given_eq_get {obj : List (String × Json)} {k : String} {v : Json}
    (h : given obj k = some v) : Json.getEntry k obj = some v := by
  unfold given at h
  split at h
  · cases h
  · exact h

theorem exactNumber_of_numberBound {field conditionType k : String} {v : Json} {x : F64}
    (hexact : ∀ n, v = .number n → n.asF64 = some (.fin n.value))
    (h : numberBound env field conditionType k v = .ok x) : exactNumber v = some x := by
  unfold numberBound at h
  split at h
  · next y hy =>
      cases h
      cases v with
      | number n => exact (hexact n rfl).symm.trans hy
      | null => cases hy
      | bool _ => cases hy
      | string _ => cases hy
      | array _ => cases hy
      | object _ => cases hy
  · cases h

theorem timestamp_of_datetimeBound {field k : String} {v : Json} {t : Timestamp}
    (h : datetimeBound env field k v = .ok t) :
    v.asStr.bind (parseRfc3339Timestamp env) = some t := by
  unfold datetimeBound at h
  split at h
  · next t ht =>
      cases h
      exact ht
  · cases h

theorem saysLeaf_range {field : String} {criteria : Json} {c : FieldCondition}
    (h : buildRange env field "range" criteria = .ok c)
    (hplain : Plain ⟨field, "range", criteria⟩) :
    SaysLeaf env S ⟨field, "range", criteria⟩ c := by
  unfold buildRange at h
  split at h
  · cases h
  · next obj hobj =>
      split at h
      · cases h
      · next hunknown =>
          have hkeys : ∀ {α : Type} {read : String → Json → Except String α} {b : Bounds α},
              ReadsBounds read obj b → b.keys = leafKeys ⟨field, "range", criteria⟩ := by
            intro α read b hb
            have hleaf : leafKeys ⟨field, "range", criteria⟩ =
                boundNames.filter (fun k ↦ (given obj k).isSome) ++
                  (obj.map Prod.fst).filter fun k ↦ !boundNames.contains k := by
              rw [leafKeys, hobj]
              rfl
            rw [hleaf, keys_of_unknownKey hunknown, List.append_nil, hb.keys_eq]
          have hholds : ∀ p, leafHolds env S p ⟨field, "range", criteria⟩ =
              rangeHolds env S (p field) obj := by
            intro p
            rw [leafHolds, hobj]
            rfl
          split_ifs at h with hdatetime
          · obtain ⟨bounds, hbounds, rfl⟩ := map_eq_ok.mp h
            have hread := readsBounds_datetime hbounds
            refine ⟨⟨rfl, rfl, hkeys hread⟩, fun p ↦ ?_⟩
            rw [hholds, rangeHolds, if_pos hdatetime]
            refine congrArg (p field).any (funext fun x ↦ congrArg (Option.any · _) ?_)
            exact funext (hread.holds_eq fun k _ v x _ hv ↦ timestamp_of_datetimeBound hv)
          · obtain ⟨bounds, hbounds, h⟩ := bind_eq_ok.mp h
            split_ifs at h
            · cases h
            · cases h
              have hread := readsBounds_numeric hbounds
              refine ⟨⟨rfl, rfl, hkeys hread⟩, fun p ↦ ?_⟩
              rw [hholds, rangeHolds, if_neg hdatetime]
              refine congrArg (p field).any (funext fun x ↦ congrArg (Option.any · _) ?_)
              refine funext (hread.holds_eq fun k hk v x hgiven hv ↦ ?_)
              refine exactNumber_of_numberBound (fun n hn ↦ hplain.exactBounds k hk n ?_) hv
              show criteria.get k = _
              rw [Json.get_of_asObject hobj, given_eq_get hgiven, hn]

theorem saysLeaf_build {l : Leaf} {c : FieldCondition}
    (h : buildQdrantFilter env l.field l.op l.criteria = .ok c) (hwhole : Whole l)
    (hplain : Plain l) : SaysLeaf env S l c := by
  obtain ⟨field, op, criteria⟩ := l
  rcases hwhole with ⟨rfl, key, v, rfl⟩ | rfl
  · obtain ⟨value, hvalue, rfl⟩ := map_eq_ok.mp h
    exact saysLeaf_match hvalue
  · exact saysLeaf_range h hplain

/-- A leaf that is represented is a match with one criterion or a range. -/
theorem Represents.whole {l : Leaf} {c : FieldCondition} (h : Represents c l) (hplain : Plain l) :
    Whole l := by
  obtain ⟨field, op, criteria⟩ := l
  have hop : c.op = op := h.op
  rcases c with ⟨_, value⟩ | ⟨_, _⟩ | ⟨_, _⟩ | ⟨_, _, _, _⟩
  · have hop : op = "match" := hop.symm
    subst hop
    refine .inl ⟨rfl, ?_⟩
    have hkeys : [value.key] = leafKeys ⟨field, "match", criteria⟩ := h.keys
    cases criteria with
    | object es =>
        have hlen : es.length = 1 := by
          rw [← List.length_map (f := Prod.fst)]
          exact congrArg List.length hkeys.symm
        obtain ⟨⟨key, v⟩, rfl⟩ := List.length_eq_one_iff.mp hlen
        exact ⟨key, v, rfl⟩
    | null => cases hkeys
    | bool _ => cases hkeys
    | number _ => cases hkeys
    | string _ => cases hkeys
    | array _ => cases hkeys
  · exact .inr hop.symm
  · exact .inr hop.symm
  · exact absurd hop.symm hplain.notGeo

end VectorDbBenchmark.Qdrant
