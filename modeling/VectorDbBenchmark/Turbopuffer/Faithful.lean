import VectorDbBenchmark.JsonEq
import VectorDbBenchmark.SpreadTree
import VectorDbBenchmark.Turbopuffer.Kept

/-!
# The Turbopuffer filter of a condition tree

The filter selects the documents of the tree when the conditions are one group of entries with
one operation each and the fields they name are stored as they are.  Other conditions lose a
part, and when no two operations are on one field some document shows it.
-/

namespace VectorDbBenchmark.Turbopuffer

open Kit Redis ConditionTree

/-! ## What the leaves mean -/

/-- Whether a metadata value is a value, or labels that hold it. -/
def metadataIs : Readers.MetadataValue → Json → Bool
  | .string s, .string t => s = t
  | .string s, .bool b => s = if b then "true" else "false"
  | .int i, .number n => (i : ℚ) = n.value
  | .float f, .number n => f = .fin n.value
  | .labels ls, .string t => ls.contains t
  | _, _ => false

def Comparison.ordersF64 : Comparison → F64 → F64 → Bool
  | .gt, x, b => b.lt x
  | .gte, x, b => b.le x
  | .lt, x, b => x.lt b
  | .lte, x, b => x.le b
  | _, _, _ => false

def Comparison.metadataOrders (c : Comparison) : Readers.MetadataValue → Json → Bool
  | .int i, .number n => c.orders (i : ℚ) n.value
  | .float f, .number n => c.ordersF64 f (.fin n.value)
  | .string s, .string t => c.orders s t
  | _, _ => false

/-- The truth of a leaf for the metadata of a document. -/
def leafHolds (d : Document) (l : Leaf) : Bool :=
  (d l.field).any fun v ↦ leafTruth (metadataIs v) (fun c ↦ c.metadataOrders v) l

/-- A filter, if there is one, is true of the attributes of a document whose metadata
satisfies the tree, and of no other. -/
def Selects (env : NumberEnv) (conditions : Json) (t : BoolTree Leaf) (d : Document) : Prop :=
  ∀ f, parseTurbopufferFilter conditions = some f →
    ∃ w, readFilter f = some w ∧ w.eval (atomHolds (attributes env d)) = t.eval (leafHolds d)

/-! ## Values that are stored as they are -/

/-- A value that compares with operands as what is stored of it does: a string that reads as
no number and is not the text of a boolean operand, or labels none of which is an operand. -/
def StoredAsIs (env : NumberEnv) (operands : List Json) : Readers.MetadataValue → Prop
  | .string s => parseI64 s.toList = none ∧ env.parseF64 s = none ∧
    ∀ b, .bool b ∈ operands → s ≠ if b then "true" else "false"
  | .int i => -2 ^ 63 ≤ i ∧ i < 2 ^ 63
  | .float f => f.isFinite = true
  | .labels labels => ∀ s ∈ labels, .string s ∉ operands
  | .geo _ _ => True

theorem exists_ofF64 {f : F64} (h : f.isFinite = true) :
    ∃ q, f = .fin q ∧ Json.ofF64 f = .number (.float q) := by
  cases f with
  | fin q => exact ⟨q, rfl, rfl⟩
  | nan => cases h
  | negInf => cases h
  | posInf => cases h

variable {env : NumberEnv} {operands : List Json} {v : Readers.MetadataValue} {b : Json}

theorem metadataValueToJson_string {s : String} (h : StoredAsIs env operands (.string s)) :
    metadataValueToJson env (.string s) = .string s := by
  simp only [metadataValueToJson, h.1, h.2.1]

theorem typedEq_metadata (h : StoredAsIs env operands v) (hb : b ∈ operands) :
    typedEq (metadataValueToJson env v) b = metadataIs v b := by
  cases v with
  | string s =>
      rw [metadataValueToJson_string h]
      cases b with
      | bool b => exact (decide_eq_false (h.2.2 b hb)).symm
      | null => rfl
      | number _ => rfl
      | string _ => rfl
      | array _ => rfl
      | object _ => rfl
  | int i =>
      obtain ⟨n, hn, hvalue⟩ := Json.exists_ofI64 h
      rw [metadataValueToJson, hn]
      cases b with
      | number m => simp only [typedEq, metadataIs, hvalue]
      | null => rfl
      | bool _ => rfl
      | string _ => rfl
      | array _ => rfl
      | object _ => rfl
  | float f =>
      obtain ⟨q, rfl, hq⟩ := exists_ofF64 h
      rw [metadataValueToJson, hq]
      cases b with
      | number m =>
          apply decide_eq_decide.mpr
          rw [F64.fin.injEq]
          rfl
      | null => rfl
      | bool _ => rfl
      | string _ => rfl
      | array _ => rfl
      | object _ => rfl
  | labels ls =>
      cases b with
      | string t =>
          have hnot : t ∉ ls := fun ht ↦ h t ht hb
          rw [metadataIs, List.contains_eq_mem, decide_eq_false hnot]
          rfl
      | null => rfl
      | bool _ => rfl
      | number _ => rfl
      | array _ => rfl
      | object _ => rfl
  | geo lon lat => cases b <;> rfl

theorem ordersF64_fin (c : Comparison) (x y : ℚ) :
    c.ordersF64 (.fin x) (.fin y) = c.orders x y := by
  cases c <;> rfl

theorem typedOrders_metadata (c : Comparison) (h : StoredAsIs env operands v) :
    c.typedOrders (metadataValueToJson env v) b = c.metadataOrders v b := by
  cases v with
  | string s =>
      rw [metadataValueToJson_string h]
      cases b <;> rfl
  | int i =>
      obtain ⟨n, hn, hvalue⟩ := Json.exists_ofI64 h
      rw [metadataValueToJson, hn]
      cases b with
      | number m => simp only [Comparison.typedOrders, Comparison.metadataOrders, hvalue]
      | null => rfl
      | bool _ => rfl
      | string _ => rfl
      | array _ => rfl
      | object _ => rfl
  | float f =>
      obtain ⟨q, rfl, hq⟩ := exists_ofF64 h
      rw [metadataValueToJson, hq]
      cases b with
      | number m => exact (ordersF64_fin c q m.value).symm
      | null => rfl
      | bool _ => rfl
      | string _ => rfl
      | array _ => rfl
      | object _ => rfl
  | labels ls => cases b <;> rfl
  | geo lon lat => cases b <;> rfl

/-- The field of an operation holds a value that is stored as it is, or none. -/
def Plain (env : NumberEnv) (d : Document) (l : Leaf) : Prop :=
  ∀ v, d l.field = some v → StoredAsIs env (matchOperands l.criteria) v

/-- A leaf means the same for the attributes as for the metadata. -/
theorem Plain.storedHolds_eq {d : Document} {l : Leaf} (h : Plain env d l) :
    storedHolds env d l = leafHolds d l := by
  rw [storedHolds, leafHolds, attributes]
  rcases hv : d l.field with _ | v
  · rfl
  · rw [Option.map_some, Option.any_some, Option.any_some]
    have horders : (fun c : Comparison ↦ c.typedOrders (metadataValueToJson env v)) =
        fun c ↦ c.metadataOrders v := by
      funext c b
      exact typedOrders_metadata c (h v hv)
    have hmatch : (matchOperands l.criteria).any (typedEq (metadataValueToJson env v)) =
        (matchOperands l.criteria).any (metadataIs v) := by
      apply any_congr_of_mem
      intro b hb
      exact typedEq_metadata (h v hv) hb
    unfold leafTruth
    rw [horders, hmatch]

/-! ## Conditions that are kept as a whole -/

def IsGroup (v : Json) : Prop :=
  ∃ obj, v = .object obj ∧ (containsKey "and" obj || containsKey "or" obj) = true

/-- An entry with one operation on one field. -/
def OneOperation (v : Json) : Prop :=
  ∃ obj, v = .object obj ∧ (containsKey "and" obj || containsKey "or" obj) = false ∧
    (fieldLeaves obj).length = 1

/-- One operation, or one group of entries with one operation each. -/
inductive Simple : Json → Prop
  | entry {v : Json} (h : OneOperation v) : Simple v
  | and {vs : List Json} {es : List (String × Json)} (hes : "or" ∉ es.map Prod.fst)
    (h : ∀ v ∈ vs, OneOperation v) : Simple (.object (("and", .array vs) :: es))
  | or {vs : List Json} {es : List (String × Json)} (hes : "and" ∉ es.map Prod.fst)
    (h : ∀ v ∈ vs, OneOperation v) : Simple (.object (("or", .array vs) :: es))

/-- Conditions for which there is no filter: a geo leaf is mentioned, or the first group has
groups only. -/
inductive Refused : Json → Prop
  | geo {v : Json} (h : Chroma.conditionsMentionGeo v = true) : Refused v
  | groups {key : String} {vs : List Json} {es : List (String × Json)}
    (hkey : key = "and" ∨ key = "or") (h : ∀ v ∈ vs, IsGroup v) :
    Refused (.object ((key, .array vs) :: es))

theorem ofEntries_of_ofArray {vs : List Json} {ts : List (BoolTree Leaf)}
    (h : ofArray (.array vs) = some ts) : ofEntries vs = some ts := by
  cases vs with
  | nil => cases h
  | cons v vs => exact h

theorem exists_ofEntry_of_mem {vs : List Json} {ts : List (BoolTree Leaf)}
    (hts : ofEntries vs = some ts) {v : Json} (hv : v ∈ vs) : ∃ t, ofEntry v = some t := by
  induction vs generalizing ts with
  | nil => cases hv
  | cons w vs ih =>
      rw [ofEntries] at hts
      obtain ⟨t, ht, hts⟩ := Option.bind_eq_some_iff.mp hts
      obtain ⟨us, hus, -⟩ := Option.bind_eq_some_iff.mp hts
      rcases List.mem_cons.mp hv with rfl | hv
      · exact ⟨t, ht⟩
      · exact ih hus hv

/-- What is kept of an entry: nothing of a group, and else the first of its operations. -/
theorem firstLeaf_cases {v : Json} {t : BoolTree Leaf} (ht : ofEntry v = some t) :
    (IsGroup v ∧ firstLeaf v = none) ∨ ∃ l ls, firstLeaf v = some l ∧
      t = .all ((l :: ls).map .leaf) ∧ (OneOperation v ↔ ls = []) := by
  cases v with
  | object obj =>
      rw [firstLeaf]
      cases hgroup : containsKey "and" obj || containsKey "or" obj with
      | true => exact .inl ⟨⟨obj, rfl, hgroup⟩, rfl⟩
      | false =>
          obtain ⟨-, hne, rfl⟩ := ofEntry_fields hgroup ht
          obtain ⟨l, ls, hleaves⟩ := List.exists_cons_of_ne_nil hne
          rw [hleaves]
          refine .inr ⟨l, ls, rfl, rfl, ?_⟩
          constructor
          · rintro ⟨obj', hobj, -, hone⟩
            cases hobj
            rw [hleaves, List.length_cons] at hone
            exact List.eq_nil_of_length_eq_zero (Nat.succ.inj hone)
          · rintro rfl
            exact ⟨obj, rfl, hgroup, congrArg List.length hleaves⟩
  | null => cases ht
  | bool _ => cases ht
  | number _ => cases ht
  | string _ => cases ht
  | array _ => cases ht

/-- What is kept of the entries of a group. -/
theorem sublist_filterMap_firstLeaf {vs : List Json} {ts : List (BoolTree Leaf)}
    (hts : ofEntries vs = some ts) :
    (vs.filterMap firstLeaf).Sublist (ts.flatMap BoolTree.leaves) ∧
      ((ts.flatMap BoolTree.leaves).length ≤ (vs.filterMap firstLeaf).length →
        ∀ v ∈ vs, OneOperation v) := by
  induction vs generalizing ts with
  | nil =>
      cases hts
      exact ⟨.slnil, fun _ ↦ List.forall_mem_nil _⟩
  | cons v vs ih =>
      rw [ofEntries] at hts
      obtain ⟨t, ht, hts⟩ := Option.bind_eq_some_iff.mp hts
      obtain ⟨us, hus, hts⟩ := Option.bind_eq_some_iff.mp hts
      cases hts
      obtain ⟨hsub, hall⟩ := ih hus
      rw [List.flatMap_cons]
      obtain ⟨-, hfirst⟩ | ⟨l, ls, hfirst, rfl, hone⟩ := firstLeaf_cases ht
      · -- A group has operations, and all of them are lost.
        have hpos := List.length_pos_of_ne_nil (filled_of_ofEntry ht).leaves_ne_nil
        rw [List.filterMap_cons_none hfirst]
        refine ⟨hsub.trans (List.sublist_append_right _ _), fun hlen ↦ absurd hlen ?_⟩
        have hle := hsub.length_le
        rw [List.length_append]
        omega
      · have hleaves : (BoolTree.all ((l :: ls).map .leaf)).leaves = l :: ls := by
          rw [BoolTree.leaves_all, List.flatMap_map]
          simp
        rw [List.filterMap_cons_some hfirst, hleaves]
        refine ⟨(hsub.trans (List.sublist_append_right ls _)).cons_cons l, fun hlen ↦ ?_⟩
        have hle := hsub.length_le
        rw [List.cons_append, List.length_cons, List.length_cons, List.length_append] at hlen
        rw [List.forall_mem_cons]
        exact ⟨hone.mpr (List.eq_nil_of_length_eq_zero (by omega)), hall (by omega)⟩

/-- Conditions by what is kept of them: nothing, one operation, or the first group. -/
theorem kept_cases {v : Json} {t : BoolTree Leaf} (ht : ofEntry v = some t) :
    (Refused v ∧ kept v = none) ∨
    (∃ l ls, ¬IsGroup v ∧ kept v = some (.leaf l) ∧ t = .all ((l :: ls).map .leaf) ∧
      (OneOperation v ↔ ls = [])) ∨
    (∃ vs es ts us, v = .object (("and", .array vs) :: es) ∧ ofEntries vs = some ts ∧
      ofKey "or" es = some us ∧ groupTree (some ts) us = some t ∧
      kept v = some (.all ((vs.filterMap firstLeaf).map .leaf))) ∨
    (∃ vs es ts us, v = .object (("or", .array vs) :: es) ∧ ofEntries vs = some us ∧
      ofKey "and" es = some ts ∧ groupTree ts (some us) = some t ∧
      kept v = some (.any ((vs.filterMap firstLeaf).map .leaf))) := by
  cases v with
  | object obj =>
      obtain ⟨⟨key, w⟩, es, rfl⟩ := List.exists_cons_of_ne_nil (ne_nil_of_ofEntry ht)
      -- A group of which nothing is kept has groups only.
      have hgroups : ∀ {ts : List (BoolTree Leaf)} (group : List (BoolTree Leaf) → BoolTree Leaf),
          ofArray w = some ts → ∃ vs, w = .array vs ∧ ofEntries vs = some ts ∧
            ((∀ v ∈ vs, IsGroup v) ∧ keptGroup group w = none ∨
              keptGroup group w = some (group ((vs.filterMap firstLeaf).map .leaf))) := by
        intro ts group hts
        obtain ⟨vs, rfl⟩ : ∃ vs, w = .array vs := by
          cases w with
          | array vs => exact ⟨vs, rfl⟩
          | null => cases hts
          | bool _ => cases hts
          | number _ => cases hts
          | string _ => cases hts
          | object _ => cases hts
        refine ⟨vs, rfl, ofEntries_of_ofArray hts, ?_⟩
        rw [keptGroup, Json.asArray, Option.getD_some]
        cases hls : vs.filterMap firstLeaf with
        | nil =>
            refine .inl ⟨fun v hv ↦ ?_, rfl⟩
            obtain ⟨t, ht⟩ := exists_ofEntry_of_mem (ofEntries_of_ofArray hts) hv
            obtain ⟨hgroup, -⟩ | ⟨l, -, hfirst, -⟩ := firstLeaf_cases ht
            · exact hgroup
            · rw [List.filterMap_eq_nil_iff.mp hls v hv] at hfirst
              cases hfirst
        | cons l ls => exact .inr rfl
      rw [kept]
      split_ifs with hgeo hand hor
      · exact .inl ⟨.geo hgeo, rfl⟩
      · subst hand
        obtain ⟨-, ts, us, hts, hus, htree⟩ := exists_group_of_ofEntry rfl ht
        rw [ofKey, if_pos rfl] at hts
        rw [ofKey, if_neg (by simp)] at hus
        obtain ⟨ts', hts', rfl⟩ := Option.map_eq_some_iff.mp hts
        obtain ⟨vs, rfl, hvs, ⟨hall, hnone⟩ | hsome⟩ := hgroups .all hts'
        · exact .inl ⟨.groups (.inl rfl) hall, hnone⟩
        · exact .inr (.inr (.inl ⟨vs, es, ts', us, rfl, hvs, hus, htree, hsome⟩))
      · subst hor
        have hgroup : (containsKey "and" (("or", w) :: es) || containsKey "or" (("or", w) :: es)) =
            true := Bool.or_true _
        obtain ⟨-, ts, us, hts, hus, htree⟩ := exists_group_of_ofEntry hgroup ht
        rw [ofKey, if_pos rfl] at hus
        rw [ofKey, if_neg (by simp)] at hts
        obtain ⟨us', hus', rfl⟩ := Option.map_eq_some_iff.mp hus
        obtain ⟨vs, rfl, hvs, ⟨hall, hnone⟩ | hsome⟩ := hgroups .any hus'
        · exact .inl ⟨.groups (.inr rfl) hall, hnone⟩
        · exact .inr (.inr (.inr ⟨vs, es, ts, us', rfl, hvs, hts, htree, hsome⟩))
      · have hnot : ¬IsGroup (.object ((key, w) :: es)) := by
          rintro ⟨obj, hobj, hgroup⟩
          cases hobj
          obtain ⟨hkeys, -⟩ := exists_group_of_ofEntry hgroup ht
          rw [groupKeys, List.all_cons, Bool.and_eq_true] at hkeys
          simp [hand, hor] at hkeys
        obtain ⟨hgroup, -⟩ | ⟨l, ls, hfirst, htree, hone⟩ := firstLeaf_cases ht
        · exact absurd hgroup hnot
        · exact .inr (.inl ⟨l, ls, hnot, congrArg (Option.map BoolTree.leaf) hfirst, htree, hone⟩)
  | null => cases ht
  | bool _ => cases ht
  | number _ => cases ht
  | string _ => cases ht
  | array _ => cases ht

/-- Nothing is kept of conditions that are refused, and only of them. -/
theorem kept_eq_none_iff {v : Json} {t : BoolTree Leaf} (ht : ofEntry v = some t) :
    kept v = none ↔ Refused v := by
  constructor
  · intro hnone
    obtain ⟨hrefused, -⟩ | ⟨_, _, -, hk, -⟩ | ⟨_, _, _, _, -, -, -, -, hk⟩ |
      ⟨_, _, _, _, -, -, -, -, hk⟩ := kept_cases ht
    · exact hrefused
    · cases hnone.symm.trans hk
    · cases hnone.symm.trans hk
    · cases hnone.symm.trans hk
  · intro h
    cases h with
    | geo hgeo =>
        cases v with
        | object obj =>
            cases obj with
            | nil => rfl
            | cons e es => rw [kept, if_pos hgeo]
        | _ => cases ht
    | @groups key vs es hkey hall =>
        have hnil : vs.filterMap firstLeaf = [] := by
          rw [List.filterMap_eq_nil_iff]
          intro v hv
          obtain ⟨obj, rfl, hgroup⟩ := hall v hv
          rw [firstLeaf, if_pos hgroup]
        have hnone : ∀ group, keptGroup group (.array vs) = none := by
          intro group
          rw [keptGroup, Json.asArray, Option.getD_some, hnil]
        rw [kept]
        split_ifs with hgeo hand hor
        · rfl
        · exact hnone .all
        · exact hnone .any
        · exact absurd hkey (not_or.mpr ⟨hand, hor⟩)

theorem leaves_group {ls : List Leaf} : (BoolTree.all (ls.map .leaf)).leaves = ls ∧
    (BoolTree.any (ls.map .leaf)).leaves = ls := by
  rw [BoolTree.leaves_all, BoolTree.leaves_any, List.flatMap_map]
  simp

/-- A group always has operations. -/
theorem notMem_of_leaves {key : String} {es : List (String × Json)}
    {ts : Option (List (BoolTree Leaf))} (hts : ofKey key es = some ts)
    (h : ((ts.getD []).flatMap BoolTree.leaves).length = 0) : key ∉ es.map Prod.fst := by
  intro hkey
  cases ts with
  | none =>
      exact Json.getEntry_eq_none_iff.mp (getEntry_of_ofKey_none hts) hkey
  | some ts =>
      obtain ⟨v, vs, -, -, hvs⟩ := exists_cons_of_ofKey hts
      obtain ⟨t, hmem⟩ := List.exists_mem_of_ne_nil ts (ne_nil_of_ofEntries hvs)
      have hnil := List.flatMap_eq_nil_iff.mp (List.eq_nil_of_length_eq_zero h) t hmem
      exact (filled_of_ofEntries hvs t hmem).leaves_ne_nil hnil

/-- The operations that are kept, and that they are all only if the conditions are simple. -/
theorem sublist_kept {v : Json} {t k : BoolTree Leaf} (ht : ofEntry v = some t)
    (hk : kept v = some k) :
    k.leaves.Sublist t.leaves ∧ (t.leaves.length ≤ k.leaves.length → Simple v) := by
  obtain ⟨-, hnone⟩ | ⟨l, ls, -, hkept, rfl, hone⟩ | ⟨vs, es, ts, us, rfl, hts, hus, htree, hkept⟩ |
    ⟨vs, es, ts, us, rfl, hus, hts, htree, hkept⟩ := kept_cases ht
  · cases hnone.symm.trans hk
  · obtain rfl := Option.some.inj (hkept.symm.trans hk)
    rw [BoolTree.leaves_leaf, leaves_group.1]
    refine ⟨List.singleton_sublist.mpr List.mem_cons_self, fun hlen ↦ .entry (hone.mpr ?_)⟩
    rw [List.length_cons, List.length_singleton] at hlen
    exact List.eq_nil_of_length_eq_zero (by omega)
  · obtain rfl := Option.some.inj (hkept.symm.trans hk)
    obtain ⟨hsub, hall⟩ := sublist_filterMap_firstLeaf hts
    have hle := hsub.length_le
    rw [leaves_groupTree htree, leaves_group.1, Option.getD_some, List.length_append]
    refine ⟨hsub.trans (List.sublist_append_left _ _), fun hlen ↦ .and ?_ (hall (by omega))⟩
    exact notMem_of_leaves hus (by omega)
  · obtain rfl := Option.some.inj (hkept.symm.trans hk)
    obtain ⟨hsub, hall⟩ := sublist_filterMap_firstLeaf hus
    have hle := hsub.length_le
    rw [leaves_groupTree htree, leaves_group.2, Option.getD_some, List.length_append]
    refine ⟨hsub.trans (List.sublist_append_right _ _), fun hlen ↦ .or ?_ (hall (by omega))⟩
    exact notMem_of_leaves hts (by omega)

theorem ofEntries_oneOperation {vs : List Json} {ts : List (BoolTree Leaf)}
    (hts : ofEntries vs = some ts) (h : ∀ v ∈ vs, OneOperation v) :
    ts = (vs.filterMap firstLeaf).map fun l ↦ .all [.leaf l] := by
  induction vs generalizing ts with
  | nil =>
      cases hts
      rfl
  | cons v vs ih =>
      rw [List.forall_mem_cons] at h
      rw [ofEntries] at hts
      obtain ⟨t, ht, hts⟩ := Option.bind_eq_some_iff.mp hts
      obtain ⟨us, hus, hts⟩ := Option.bind_eq_some_iff.mp hts
      cases hts
      obtain ⟨⟨obj, hobj, hgroup⟩, -⟩ | ⟨l, ls, hfirst, rfl, hone⟩ := firstLeaf_cases ht
      · obtain ⟨obj', hobj', hnot, -⟩ := h.1
        cases hobj.symm.trans hobj'
        cases hgroup.symm.trans hnot
      · rw [List.filterMap_cons_some hfirst, hone.mp h.1, ih hus h.2]
        rfl

theorem isGroup_and {v : Json} {es : List (String × Json)} : IsGroup (.object (("and", v) :: es)) :=
  ⟨_, rfl, rfl⟩

theorem isGroup_or {v : Json} {es : List (String × Json)} : IsGroup (.object (("or", v) :: es)) :=
  ⟨_, rfl, Bool.or_true _⟩

theorem Simple.of_and {vs : List Json} {es : List (String × Json)}
    (h : Simple (.object (("and", .array vs) :: es))) :
    "or" ∉ es.map Prod.fst ∧ ∀ v ∈ vs, OneOperation v := by
  generalize hv : Json.object (("and", .array vs) :: es) = v at h
  cases h with
  | entry hone =>
      obtain ⟨obj, rfl, hnot, -⟩ := hone
      cases hv
      cases hnot
  | and hes h =>
      cases hv
      exact ⟨hes, h⟩
  | or => simp at hv

theorem Simple.of_or {vs : List Json} {es : List (String × Json)}
    (h : Simple (.object (("or", .array vs) :: es))) :
    "and" ∉ es.map Prod.fst ∧ ∀ v ∈ vs, OneOperation v := by
  generalize hv : Json.object (("or", .array vs) :: es) = v at h
  cases h with
  | entry hone =>
      obtain ⟨obj, rfl, hnot, -⟩ := hone
      cases hv
      rw [Bool.or_eq_false_iff] at hnot
      cases hnot.2
  | and => simp at hv
  | or hes h =>
      cases hv
      exact ⟨hes, h⟩

/-- What is kept of simple conditions is true where they are. -/
theorem Simple.eval_kept {v : Json} {t k : BoolTree Leaf} (hsimple : Simple v)
    (ht : ofEntry v = some t) (hk : kept v = some k) (f : Leaf → Bool) : k.eval f = t.eval f := by
  obtain ⟨-, hnone⟩ | ⟨l, ls, hnot, hkept, rfl, hone⟩ |
    ⟨vs, es, ts, us, rfl, hts, hus, htree, hkept⟩ |
    ⟨vs, es, ts, us, rfl, hus, hts, htree, hkept⟩ := kept_cases ht
  · cases hnone.symm.trans hk
  · obtain rfl := Option.some.inj (hkept.symm.trans hk)
    cases hsimple with
    | entry h =>
        rw [hone.mp h, List.map_singleton, BoolTree.eval_all]
        exact (Bool.and_true _).symm
    | and => exact absurd isGroup_and hnot
    | or => exact absurd isGroup_or hnot
  · obtain rfl := Option.some.inj (hkept.symm.trans hk)
    obtain ⟨hes, h⟩ := hsimple.of_and
    cases (ofKey_eq_none hes).symm.trans hus
    cases htree
    rw [ofEntries_oneOperation hts h, BoolTree.eval_all, BoolTree.eval_all, List.all_map,
      List.all_map]
    apply all_congr_of_mem
    intro l _
    simp
  · obtain rfl := Option.some.inj (hkept.symm.trans hk)
    obtain ⟨hes, h⟩ := hsimple.of_or
    cases (ofKey_eq_none hes).symm.trans hts
    cases htree
    rw [ofEntries_oneOperation hus h, BoolTree.eval_any, BoolTree.eval_any, List.any_map,
      List.any_map]
    apply any_congr_of_mem
    intro l _
    simp

/-! ## The filter -/

/-- The filter selects a document as what is kept says of its attributes. -/
theorem selects_iff_kept (env : NumberEnv) {conditions : Json} {t : BoolTree Leaf}
    (ht : ofEntry conditions = some t) (hleaves : ∀ l ∈ t.leaves, WellFormed l) (d : Document) :
    Selects env conditions t d ↔
      ∀ k, kept conditions = some k → k.eval (storedHolds env d) = t.eval (leafHolds d) := by
  have hfilter := says_parseTurbopufferFilter ht hleaves
  constructor
  · intro h k hk
    rw [hk] at hfilter
    cases hparse : parseTurbopufferFilter conditions with
    | none => rw [hparse] at hfilter; cases hfilter
    | some f =>
        rw [hparse] at hfilter
        cases hfilter with
        | some htold =>
            obtain ⟨w, hw, heval⟩ := htold
            obtain ⟨w', hw', heval'⟩ := h f hparse
            obtain rfl : w' = w := Option.some.inj (hw'.symm.trans hw)
            exact (heval env d).symm.trans heval'
  · intro h f hparse
    rw [hparse] at hfilter
    cases hk : kept conditions with
    | none => rw [hk] at hfilter; cases hfilter
    | some k =>
        rw [hk] at hfilter
        cases hfilter with
        | some htold =>
            obtain ⟨w, hw, heval⟩ := htold
            exact ⟨w, hw, (heval env d).trans (h k hk)⟩

/-- A document whose operations are true as they are said to be, where each is true of some
value and no two are on one field. -/
theorem exists_document {ls : List Leaf} (hfields : (ls.map Leaf.field).Nodup)
    (hsat : ∀ l ∈ ls, ∃ v, StoredAsIs env (matchOperands l.criteria) v ∧
      leafHolds (fun _ ↦ some v) l = true) (truth : Leaf → Bool) :
    ∃ d : Document, ∀ l ∈ ls, Plain env d l ∧ leafHolds d l = truth l := by
  have hvalues : Nonempty Readers.MetadataValue := ⟨.int 0⟩
  choose! value hvalue using hsat
  obtain ⟨d, hd⟩ :=
    BoolTree.exists_eq_on_keys hfields fun l ↦ if truth l then some (value l) else none
  refine ⟨d, fun l hl ↦ ?_⟩
  obtain ⟨hstored, hholds⟩ := hvalue l hl
  rw [Plain, leafHolds, hd l hl]
  cases truth l with
  | true =>
      refine ⟨fun w hw ↦ ?_, hholds⟩
      cases hw
      exact hstored
  | false => exact ⟨fun w hw ↦ absurd hw (by simp), rfl⟩

/-- The filter, if there is one, selects every document whose fields are stored as they are
when the conditions are simple; and where no two operations are on one field, and each is true
of some such value, only then. -/
theorem selects_iff (env : NumberEnv) {conditions : Json} {t : BoolTree Leaf}
    (ht : ofEntry conditions = some t) (hleaves : ∀ l ∈ t.leaves, WellFormed l) :
    (Refused conditions ∨ Simple conditions →
      ∀ d, (∀ l ∈ t.leaves, Plain env d l) → Selects env conditions t d) ∧
    ((t.leaves.map Leaf.field).Nodup →
      (∀ l ∈ t.leaves, ∃ v, StoredAsIs env (matchOperands l.criteria) v ∧
        leafHolds (fun _ ↦ some v) l = true) →
      (∀ d, (∀ l ∈ t.leaves, Plain env d l) → Selects env conditions t d) →
      Refused conditions ∨ Simple conditions) := by
  constructor
  · intro hconditions d hplain
    rw [selects_iff_kept env ht hleaves]
    intro k hk
    rcases hconditions with hrefused | hsimple
    · cases ((kept_eq_none_iff ht).mpr hrefused).symm.trans hk
    · rw [hsimple.eval_kept ht hk]
      apply BoolTree.eval_congr_leaves
      intro l hl
      exact (hplain l hl).storedHolds_eq
  · intro hfields hsat h
    classical
    cases hk : kept conditions with
    | none => exact .inl ((kept_eq_none_iff ht).mp hk)
    | some k =>
        obtain ⟨hsub, hsimple⟩ := sublist_kept ht hk
        refine .inr (hsimple ?_)
        by_contra hlt
        -- One operation is left out; the documents differ in it only.
        have hnodup : t.leaves.Nodup := .of_map _ hfields
        obtain ⟨l, hl, hlk⟩ : ∃ l ∈ t.leaves, l ∉ k.leaves := by
          by_contra hall
          push Not at hall
          exact hlt (hnodup.subperm hall).length_le
        obtain ⟨v, hv⟩ := (filled_of_ofEntry ht).exists_pivot hnodup hl
        have hboth : ∀ b, k.eval v = b := by
          intro b
          obtain ⟨d, hd⟩ := exists_document hfields hsat (Function.update v l b)
          have heval := (selects_iff_kept env ht hleaves d).mp (h d fun l hl ↦ (hd l hl).1) k hk
          rw [BoolTree.eval_congr_leaves fun l hl ↦ (hd l hl).2, hv] at heval
          rw [← heval]
          apply BoolTree.eval_congr_leaves
          intro m hm
          obtain ⟨hplain, hholds⟩ := hd m (hsub.subset hm)
          have hne : m ≠ l := fun heq ↦ hlk (heq ▸ hm)
          rw [hplain.storedHolds_eq, hholds, Function.update_of_ne hne]
        exact Bool.false_ne_true ((hboth false).symm.trans (hboth true))

/-! ## Examples -/

section Examples

/-- Texts that are no numbers, and no datetimes either. -/
def redLeaf : Leaf := ⟨"color", "match", .object [("value", .string "red")]⟩

def largeLeaf : Leaf := ⟨"size", "range", .object [("gte", .ofNat 2)]⟩

def entryOf (l : Leaf) : Json := .object [(l.field, .object [(l.op, l.criteria)])]

def redOrLarge : Json := .object [("or", .array [entryOf redLeaf, entryOf largeLeaf])]

/-- A group among the entries, which is left out. -/
def redGroupAndLarge : Json :=
  .object [("and", .array [.object [("or", .array [entryOf redLeaf])], entryOf largeLeaf])]

def redGroupAndLargeTree : BoolTree Leaf :=
  .all [.any [.all [.leaf redLeaf]], .all [.leaf largeLeaf]]

/-- A blue document of size 3. -/
def blueLarge : Document := fun field ↦
  if field = "color" then some (.string "blue") else if field = "size" then some (.int 3) else none

theorem wellFormed_redLeaf : WellFormed redLeaf := .value _ _ _ rfl rfl rfl

theorem wellFormed_largeLeaf : WellFormed largeLeaf := by
  refine .range "size" [("gte", .ofNat 2)] ?_ ⟨("gte", .gte), ?_, rfl⟩
  · intro k _ b hb
    have hmem := Json.mem_of_getEntry hb
    rw [List.mem_singleton, Prod.mk.injEq] at hmem
    rw [hmem.2]
    rfl
  · exact List.mem_cons_of_mem _ List.mem_cons_self

theorem wellFormed_leaves : ∀ l ∈ [redLeaf, largeLeaf], WellFormed l := by
  rw [List.forall_mem_cons, List.forall_mem_singleton]
  exact ⟨wellFormed_redLeaf, wellFormed_largeLeaf⟩

theorem oneOperation_entryOf {l : Leaf} (hand : l.field ≠ "and") (hor : l.field ≠ "or") :
    OneOperation (entryOf l) :=
  ⟨_, rfl, by simp [containsKey, hand, hor], rfl⟩

theorem storedAsIs_string {s t : String} (h : parseI64 s.toList = none) :
    StoredAsIs noNumbers [.string t] (.string s) :=
  ⟨h, rfl, fun b hb ↦ by simp at hb⟩

theorem selects_iff_redOrLarge :
    Selects noNumbers redOrLarge (.any [.all [.leaf redLeaf], .all [.leaf largeLeaf]]) blueLarge ∧
    ¬∀ d, (∀ l ∈ redGroupAndLargeTree.leaves, Plain noNumbers d l) →
      Selects noNumbers redGroupAndLarge redGroupAndLargeTree d := by
  have hthree : StoredAsIs noNumbers [] (.int 3) := ⟨by norm_num, by norm_num⟩
  have htree : ofEntry redOrLarge =
    some (.any [.all [.leaf redLeaf], .all [.leaf largeLeaf]]) := rfl
  have htree' : ofEntry redGroupAndLarge = some redGroupAndLargeTree := rfl
  constructor
  · refine (selects_iff noNumbers htree wellFormed_leaves).1 (.inr (.or (by simp) ?_)) blueLarge ?_
    · rw [List.forall_mem_cons, List.forall_mem_singleton]
      exact ⟨oneOperation_entryOf (by simp [redLeaf]) (by simp [redLeaf]),
        oneOperation_entryOf (by simp [largeLeaf]) (by simp [largeLeaf])⟩
    · show ∀ l ∈ [redLeaf, largeLeaf], Plain noNumbers blueLarge l
      rw [List.forall_mem_cons, List.forall_mem_singleton]
      constructor
      · rintro v ⟨⟩
        exact storedAsIs_string rfl
      · rintro v ⟨⟩
        exact hthree
  · intro h
    have hfields : ([redLeaf, largeLeaf].map Leaf.field).Nodup := by simp [redLeaf, largeLeaf]
    have hsat : ∀ l ∈ [redLeaf, largeLeaf], ∃ v, StoredAsIs noNumbers (matchOperands l.criteria) v ∧
        leafHolds (fun _ ↦ some v) l = true := by
      rw [List.forall_mem_cons, List.forall_mem_singleton]
      exact ⟨⟨.string "red", storedAsIs_string rfl, rfl⟩, .int 3, hthree, by decide⟩
    obtain hrefused | hsimple := (selects_iff noNumbers htree' wellFormed_leaves).2 hfields hsat h
    · cases hrefused with
      | geo hgeo => exact absurd hgeo (by decide)
      | groups _ hall =>
          obtain ⟨obj, hobj, hgroup⟩ := hall (entryOf largeLeaf) (by simp)
          cases hobj
          cases hgroup
    · obtain ⟨obj, hobj, hnot, -⟩ := hsimple.of_and.2 (.object [("or", .array [entryOf redLeaf])])
        (by simp)
      cases hobj
      cases hnot

/-- A group among the entries is left out. -/
theorem not_selects_nestedGroup :
    ∃ conditions t, ofEntry conditions = some t ∧ (∀ l ∈ t.leaves, WellFormed l) ∧
      ¬Selects noNumbers conditions t blueLarge := by
  refine ⟨redGroupAndLarge, redGroupAndLargeTree, rfl, wellFormed_leaves, fun h ↦ ?_⟩
  obtain ⟨w, hw, heval⟩ := h _ rfl
  cases hw
  exact absurd heval (by decide)

end Examples

end VectorDbBenchmark.Turbopuffer
