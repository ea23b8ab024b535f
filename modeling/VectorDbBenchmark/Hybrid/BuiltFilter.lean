import VectorDbBenchmark.Hybrid.BuiltLeaf

/-!
# The filter of a compiled predicate

When the filter that `parse_conditions` builds for a compiled conditions value passes the
check against the predicate.  The builder renders an integer `match.any` as a group of
alternatives of its own; the check flattens it into an `or` group that stands around it.
-/

namespace VectorDbBenchmark

open Kit Msmarco

namespace Hybrid

open Redis

variable {display : Json → String} {debug : Debug} {env : NumberEnv}

/-! ## The predicate as the tree of the conditions -/

/-- A leaf as it is compiled. -/
def compiledLeaf (display : Json → String) (debug : Debug) (l : Redis.Leaf) :
    Option PredicateLeaf :=
  if l.criteria.keysDistinct then
    (leaf display debug.string l.field (.object [(l.op, l.criteria)])).toOption.map
      fun op ↦ ⟨l.field, op⟩
  else none

theorem fieldTree_of_leaf {field : String} {body : Json} {op : LeafOp}
    (h : leaf display debug.string field body = .ok op) (hkeys : body.keysDistinct = true) :
    fieldTree (compiledLeaf display debug) [(field, body)] = some (.leaf ⟨field, op⟩) := by
  unfold leaf at h
  split at h
  · next opName criteria =>
      have hcompiled : compiledLeaf display debug ⟨field, opName, criteria⟩ = some ⟨field, op⟩ := by
        rw [compiledLeaf, if_pos (Json.keysDistinct_of_singleton hkeys), leaf, h]
        rfl
      rw [fieldTree, hcompiled]
      rfl
  · cases h

theorem treesAt_self {α : Type} (leaf : Redis.Leaf → Option α) (key : String) (v : Json) :
    treesAt leaf key [(key, v)] = (arrayTrees leaf v).map some := by
  rw [treesAt, if_pos rfl]

theorem treesAt_other {α : Type} {leaf : Redis.Leaf → Option α} {key k : String} {v : Json}
    (h : k ≠ key) : treesAt leaf key [(k, v)] = some none := by
  rw [treesAt, if_neg h, treesAt]

mutual

theorem entryTree_of_node {v : Json} {p : Predicate} (h : node display debug.string v = .ok p)
    (hkeys : v.keysDistinct = true) : entryTree (compiledLeaf display debug) v = some p := by
  match v with
  | .object [(key, body)] =>
      have hbody := Json.keysDistinct_of_singleton hkeys
      rw [node] at h
      split_ifs at h with hgroup hand
      · subst hand
        obtain ⟨ps, hps, h⟩ := bind_eq_ok.mp h
        cases h
        have hcond : (containsKey "and" [("and", body)] || containsKey "or" [("and", body)]) =
            true := rfl
        rw [entryTree, if_pos hcond, treesAt_self, treesAt_other (by decide),
          arrayTrees_of_children hps hbody]
        rfl
      · have hor := hgroup.resolve_left hand
        subst hor
        obtain ⟨ps, hps, h⟩ := bind_eq_ok.mp h
        cases h
        have hcond : (containsKey "and" [("or", body)] || containsKey "or" [("or", body)]) =
            true := rfl
        rw [entryTree, if_pos hcond, treesAt_self, treesAt_other (by decide),
          arrayTrees_of_children hps hbody]
        rfl
      · obtain ⟨op, hop, rfl⟩ := map_eq_ok.mp h
        obtain ⟨hand, hor⟩ := not_or.mp hgroup
        have hnone : ¬(containsKey "and" [(key, body)] || containsKey "or" [(key, body)]) =
          true := by
          simp [containsKey, hand, hor]
        rw [entryTree, if_neg hnone]
        exact fieldTree_of_leaf hop hbody
  | .object [] => cases h
  | .object (_ :: _ :: _) => cases h
  | .null => cases h
  | .bool _ => cases h
  | .number _ => cases h
  | .string _ => cases h
  | .array _ => cases h

theorem arrayTrees_of_children {key : String} {v : Json} {ps : List Predicate}
    (h : children display debug.string key v = .ok ps) (hkeys : v.keysDistinct = true) :
    arrayTrees (compiledLeaf display debug) v = some ps := by
  match v with
  | .array (e :: es) =>
      rw [children] at h
      rw [Json.keysDistinct] at hkeys
      rw [arrayTrees]
      exact entryTrees_of_nodes h hkeys
  | .array [] => cases h
  | .null => cases h
  | .bool _ => cases h
  | .number _ => cases h
  | .string _ => cases h
  | .object _ => cases h

theorem entryTrees_of_nodes {vs : List Json} {ps : List Predicate}
    (h : nodes display debug.string vs = .ok ps) (hkeys : Json.keysDistinctEach vs = true) :
    entryTrees (compiledLeaf display debug) vs = some ps := by
  match vs with
  | [] =>
      rw [nodes] at h
      cases h
      rw [entryTrees]
  | v :: vs =>
      rw [nodes] at h
      obtain ⟨p, hp, h⟩ := bind_eq_ok.mp h
      obtain ⟨ps', hps, h⟩ := bind_eq_ok.mp h
      cases h
      rw [Json.keysDistinctEach, Bool.and_eq_true] at hkeys
      rw [entryTrees, entryTree_of_node hp hkeys.1, entryTrees_of_nodes hps hkeys.2]
      rfl

end

theorem conditionTree_of_compile {conditions : Json} {p : Predicate}
    (h : compile display debug.string conditions = .ok p) (hkeys : conditions.keysDistinct = true) :
    conditionTree (compiledLeaf display debug) conditions = some p := by
  unfold compile at h
  split at h
  · next obj =>
      split_ifs at h with hgroup
      have hcond : (containsKey "and" obj || containsKey "or" obj) = true := hgroup
      rw [conditionTree, if_pos hcond]
      exact entryTree_of_node h hkeys
  · cases h

/-! ## The leaves of the predicate -/

/-- A field name that is read back, and operands of one kind. -/
def Checkable (l : PredicateLeaf) : Prop := Plain l.field ∧ uniform l.leaf = true

theorem leavesExpressed_compiledLeaf {M : Params} (hM : M.names.Nodup) :
    LeavesExpressed env RLeaf.render
      (fun l n ↦ walkLeaf debug (resolve M) l n = .ok ()) (ClauseOk id)
      (compiledLeaf display debug) Checkable M := by
  intro l a c hl hA hbound
  obtain ⟨hfield, hu⟩ := hA
  rw [compiledLeaf] at hl
  split_ifs at hl with hkeys
  obtain ⟨op, hop, rfl⟩ := Option.map_eq_some_iff.mp hl
  have hnodup : ∀ es, l.criteria = .object es → (es.map Prod.fst).Nodup := by
    intro es hes
    rw [hes] at hkeys
    exact Json.nodup_of_keysDistinct hkeys
  obtain ⟨⟨cond, hcond, hwalk⟩, hgeo⟩ := answered_leaf env M hnodup hu
    (toOption_eq_some.mp hop)
  obtain ⟨f, hf, s, htext, ⟨w, halign, hflat⟩, hleaves⟩ :=
    leafFilter_expresses (fun _ ↦ rfl) hM hcond hgeo hfield hbound
  refine ⟨f, hf, s, htext, ⟨w, .leaf (hwalk w ?_), hflat⟩, hleaves⟩
  exact BoolTree.aligned_leaf.mp halign

/-- A `match` of several integers, for which the builder renders a group. -/
def severalInts (l : PredicateLeaf) : Bool :=
  match l.leaf with
  | .match ops => decide (1 < (ints ops).length)
  | .range .. => false
  | .text _ => false

section Shape

variable {params : String → Option RedisParam} {l : PredicateLeaf} {n : RNode}

theorem exists_leaf_of_point {p : Predicate} {field : String} {pt : RNode} {x : F64}
    (h : point debug params p n field pt = .ok x) : ∃ r, pt = .leaf r := by
  unfold point at h
  split at h
  · exact ⟨_, rfl⟩
  · exact absurd h not_mismatch

theorem exists_leaves_of_mapM {p : Predicate} {field : String} {pts : List RNode} {got : List F64}
    (h : pts.mapM (point debug params p n field) = .ok got) :
    ∃ rs : List RLeaf, pts = rs.map .leaf := by
  have heach := mapM_eq_ok.mp h
  clear h
  induction heach with
  | nil => exact ⟨[], rfl⟩
  | cons hpt _ ih =>
      obtain ⟨r, rfl⟩ := exists_leaf_of_point hpt
      obtain ⟨rs, rfl⟩ := ih
      exact ⟨r :: rs, rfl⟩

theorem exists_shape_of_walkInts {p : Predicate} {field : String} {ops : List Operand}
    (h : walkInts debug params p field ops n = .ok ()) :
    (¬1 < (ints ops).length ∧ ∃ r, n = .leaf r) ∨
      1 < (ints ops).length ∧ ∃ rs : List RLeaf, 1 < rs.length ∧ n = .any (rs.map .leaf) := by
  unfold walkInts at h
  split at h
  · exact absurd h not_mismatch
  · next pts hpts =>
      obtain ⟨got, hgot, h⟩ := bind_eq_ok.mp h
      split_ifs at h with hsame
      · have hperm := perm_of_mergeSort (F64.eq_of_isEqv hsame)
        have hlen := (mapM_eq_ok.mp hgot).length_eq.trans hperm.length_eq
        obtain ⟨rs, rfl⟩ := exists_leaves_of_mapM hgot
        rw [List.length_map] at hlen
        have hsingle : some [n] = some (rs.map BoolTree.leaf) → (ints ops).length = 1 →
            ¬1 < (ints ops).length ∧ ∃ r, n = .leaf r := by
          intro heq hone
          rw [hone]
          refine ⟨lt_irrefl 1, ?_⟩
          rcases rs with _ | ⟨r, rs⟩
          · cases heq
          · exact ⟨r, (List.cons.inj (Option.some.inj heq)).1⟩
        unfold points at hpts
        split at hpts
        · split_ifs at hpts with hmany hone
          · cases hpts
            exact .inr ⟨hmany, rs, hlen ▸ hmany, rfl⟩
          · exact .inl (hsingle hpts hone)
        · split_ifs at hpts with hone
          exact .inl (hsingle hpts hone)
      · exact absurd h not_mismatch

/-- An accepted node is a leaf, or for several integers a group of them. -/
theorem exists_shape_of_walkLeaf (h : walkLeaf debug params l n = .ok ()) :
    (severalInts l = false ∧ ∃ r, n = .leaf r) ∨
      severalInts l = true ∧ ∃ rs : List RLeaf, 1 < rs.length ∧ n = .any (rs.map .leaf) := by
  obtain ⟨field, ops | ⟨gt, gte, lt, lte⟩ | term⟩ := l
  · rw [walkLeaf_match] at h
    split_ifs at h with hwords
    · have hnone : severalInts ⟨field, .match ops⟩ = false := by
        change decide (1 < (ints ops).length) = false
        rw [hwords.2]
        rfl
      unfold walkWords at h
      split at h
      · exact .inl ⟨hnone, _, rfl⟩
      · exact absurd h not_mismatch
    · exact (exists_shape_of_walkInts h).imp
        (fun h ↦ ⟨decide_eq_false h.1, h.2⟩) fun h ↦ ⟨decide_eq_true h.1, h.2⟩
  · obtain ⟨lo, hi, rfl, -⟩ := walkLeaf_range h
    exact .inl ⟨rfl, _, rfl⟩
  · obtain ⟨p, rfl, -⟩ := walkLeaf_text h
    exact .inl ⟨rfl, _, rfl⟩

theorem atoms_walkLeaf :
    BoolTree.Atoms severalInts fun l n ↦ walkLeaf debug params l n = .ok () where
  flatten l n h := by
    rcases exists_shape_of_walkLeaf h with ⟨-, r, rfl⟩ | ⟨-, rs, hlen, rfl⟩
    · exact BoolTree.flatten_leaf r
    · exact BoolTree.flatten_any_leaves hlen.ne'
  conjuncts l n h := by
    rcases exists_shape_of_walkLeaf h with ⟨-, r, rfl⟩ | ⟨-, rs, -, rfl⟩ <;> rfl
  narrow l n h hnarrow := by
    rcases exists_shape_of_walkLeaf h with ⟨-, r, rfl⟩ | ⟨hwide, -⟩
    · rfl
    · rw [hnarrow] at hwide
      cases hwide
  wide l n h hwide := by
    rcases exists_shape_of_walkLeaf h with ⟨hnarrow, -⟩ | ⟨-, rs, hlen, rfl⟩
    · rw [hnarrow] at hwide
      cases hwide
    · rw [BoolTree.disjuncts, List.length_map]
      exact hlen

end Shape

/-! ## The whole filter -/

/-- The filter of a compiled predicate is accepted exactly when no `match` of several
integers is an alternative of an `or` group, single groups and groups in groups of their
kind aside. -/
theorem checkHybridFilter_eq_ok_iff {conditions : Json} {p : Predicate}
    (hcompile : compile display debug.string conditions = .ok p)
    (hkeys : conditions.keysDistinct = true) (hleaves : ∀ l ∈ p.leaves, Checkable l) :
    ∃ f, parseConditions env conditions = some f ∧
      (checkHybridFilter debug p f = .ok () ↔ p.flatten.separate severalInts = true) := by
  obtain ⟨query, hparse, s, htext, ⟨w, halign, hflat⟩, hok⟩ := parseConditions_expresses
    (leavesExpressed_compiledLeaf (nodup_conditionParams env conditions))
    (conditionTree_of_compile hcompile hkeys) hleaves
  refine ⟨_, hparse, ?_⟩
  have hread : parseRedisFilter debug query.text = .ok s.tree := by
    rw [htext]
    refine parseRedisFilter_render debug (a := .one s) fun l hl ↦ ?_
    obtain ⟨r, rfl, hr⟩ := hok l hl
    exact hr
  rw [checkHybridFilter, checkRedisFilter, hread, ok_bind, walk_eq_ok, hflat]
  exact halign.flatten_iff atoms_walkLeaf

theorem checkHybridFilter_eq_ok_iff_textOrTier :
    ∃ f, parseConditions ⟨fun _ ↦ none, fun _ ↦ none⟩ textOrTier = some f ∧
      (checkHybridFilter ⟨id, fun _ ↦ "", fun _ ↦ "", fun _ ↦ ""⟩ textOrTierPredicate f = .ok () ↔
        textOrTierPredicate.flatten.separate severalInts = true) := by
  have hcompile : compile (fun _ ↦ "") id textOrTier = .ok textOrTierPredicate := rfl
  refine checkHybridFilter_eq_ok_iff hcompile rfl ?_
  intro l hl
  have hleaves : textOrTierPredicate.leaves =
      [⟨"title", .text "corpus"⟩, ⟨"tier", .range none none none (some (.fin 4))⟩] := rfl
  rw [hleaves] at hl
  rcases List.mem_cons.mp hl with rfl | hl
  · exact ⟨forall_mem_of_all (by decide), rfl⟩
  · rw [List.mem_singleton.mp hl]
    exact ⟨forall_mem_of_all (by decide), rfl⟩

/-- A list of two integers beside another alternative. -/
def idsOrTier : Json :=
  .object [("or", .array
    [.object [("id", .object [("match", .object [("any", .array
        [.ofNat 3, .ofNat 4])])])],
      .object [("tier", .object [("range", .object
        [("lte", .ofNat 4)])])]])]

def idsOrTierPredicate : Predicate :=
  .any [.leaf ⟨"id", .match [.int 3, .int 4]⟩,
    .leaf ⟨"tier", .range none none none (some (.fin 4))⟩]

/-- Its filter is refused: the alternatives are three, of which the predicate has two. -/
theorem checkHybridFilter_refuses_idsOrTier :
    compile (fun _ ↦ "") id idsOrTier = .ok idsOrTierPredicate ∧
      (∀ l ∈ idsOrTierPredicate.leaves, Checkable l) ∧
      ∃ f, parseConditions ⟨fun _ ↦ none, fun _ ↦ none⟩ idsOrTier = some f ∧
        checkHybridFilter ⟨id, fun _ ↦ "", fun _ ↦ "", fun _ ↦ ""⟩ idsOrTierPredicate f ≠
          .ok () := by
  refine ⟨rfl, ?_, _, rfl, by decide +kernel⟩
  intro l hl
  have hleaves : idsOrTierPredicate.leaves = [⟨"id", .match [.int 3, .int 4]⟩,
      ⟨"tier", .range none none none (some (.fin 4))⟩] := rfl
  rw [hleaves] at hl
  rcases List.mem_cons.mp hl with rfl | hl
  · exact ⟨forall_mem_of_all (by decide), rfl⟩
  · rw [List.mem_singleton.mp hl]
    exact ⟨forall_mem_of_all (by decide), rfl⟩

end Hybrid

end VectorDbBenchmark
