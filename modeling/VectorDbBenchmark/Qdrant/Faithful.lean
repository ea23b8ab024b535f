import VectorDbBenchmark.Qdrant.Leaves

/-!
# What a Qdrant filter leaves out

A filter that is built represents every operation of its conditions value and is true of the
same payloads exactly when no key stands beside `and` and `or`, no match has several criteria,
and operations of one entry of an `or` group may as well be alternatives.
-/

namespace VectorDbBenchmark.Qdrant

open Kit Redis ConditionTree

variable {env : Env} {S : Server}

/-! ## Entries -/

/-- A condition that represents the leaves of a tree and says what the tree says. -/
structure SaysTree (env : Env) (S : Server) (t : BoolTree Leaf) (c : Condition) : Prop where
  represents : List.Forall₂ Represents c.tree.leaves t.leaves
  holds : ∀ p, c.tree.eval (FieldCondition.holds S p) = t.eval (leafHolds env S p)

/-- Conditions for entries that are no leaves, in which conjunctions of leaves are spliced. -/
structure SaysEntries (env : Env) (S : Server) (ts : List (BoolTree Leaf)) (cs : List Condition) :
    Prop where
  noLeaf : ∀ t ∈ ts, t.isLeaf = false
  conditions : List.Forall₂ (SaysTree env S) (ts.flatMap fun t ↦ t.spread.splice) cs

/-- A leaf that is built without loss. -/
def Kept (l : Leaf) : Prop := Whole l ∧ Plain l

theorem not_kept_stray (key : String) (v : Json) : ¬Kept ⟨key, "", v⟩ := by
  rintro ⟨⟨hop, -⟩ | hop, -⟩
  · simp at hop
  · simp at hop

/-- The conditions of operations, one for each. -/
theorem buildOps_eq {field : String} {ops : List (String × Json)} {cs : List Condition}
    (h : buildOps env field ops = .ok cs) :
    cs.length = ops.length ∧ ((∀ o ∈ ops, Kept ⟨field, o.1, o.2⟩) →
      List.Forall₂ (SaysTree env S) (ops.map fun o ↦ .leaf ⟨field, o.1, o.2⟩) cs) := by
  induction ops generalizing cs with
  | nil =>
      cases h
      exact ⟨rfl, fun _ ↦ .nil⟩
  | cons o ops ih =>
      obtain ⟨op, criteria⟩ := o
      rw [buildOps] at h
      obtain ⟨c, hc, h⟩ := bind_eq_ok.mp h
      obtain ⟨cs', hcs, h⟩ := bind_eq_ok.mp h
      cases h
      obtain ⟨hlen, htold⟩ := ih hcs
      refine ⟨congrArg (· + 1) hlen, fun hkept ↦ ?_⟩
      rw [List.forall_mem_cons] at hkept
      have hleaf : SaysLeaf env S ⟨field, op, criteria⟩ c :=
        saysLeaf_build hc hkept.1.1 hkept.1.2
      refine .cons ⟨?_, fun p ↦ ?_⟩ (htold hkept.2)
      · rw [Condition.tree, BoolTree.leaves_leaf, BoolTree.leaves_leaf]
        exact .cons hleaf.represents .nil
      · rw [Condition.tree, BoolTree.eval_leaf, BoolTree.eval_leaf]
        exact hleaf.holds p

theorem buildFields_eq {obj : List (String × Json)} {cs : List Condition}
    (h : buildFields env obj = .ok cs) :
    cs.length = (fieldParts obj).length ∧ (obj ≠ [] → cs ≠ []) ∧
      ((∀ l ∈ fieldParts obj, Kept l) →
        List.Forall₂ (SaysTree env S) ((fieldParts obj).map .leaf) cs) := by
  induction obj generalizing cs with
  | nil =>
      cases h
      exact ⟨rfl, fun hne ↦ absurd rfl hne, fun _ ↦ .nil⟩
  | cons e obj ih =>
      obtain ⟨field, v⟩ := e
      rw [buildFields] at h
      split at h
      · cases h
      · next ops hops =>
          split_ifs at h with hempty
          obtain ⟨cs₁, hcs₁, h⟩ := bind_eq_ok.mp h
          obtain ⟨cs₂, hcs₂, h⟩ := bind_eq_ok.mp h
          cases h
          obtain ⟨hlen₁, htold₁⟩ := buildOps_eq hcs₁
          obtain ⟨hlen₂, -, htold₂⟩ := ih hcs₂
          have hparts : fieldParts ((field, v) :: obj) =
              ops.map (fun o ↦ ⟨field, o.1, o.2⟩) ++ fieldParts obj := by
            cases v with
            | object es => cases hops; rfl
            | null => cases hops
            | bool _ => cases hops
            | number _ => cases hops
            | string _ => cases hops
            | array _ => cases hops
          refine ⟨?_, fun _ ↦ ?_, fun hkept ↦ ?_⟩
          · rw [hparts, List.length_append, List.length_append, List.length_map, hlen₁, hlen₂]
          · apply List.append_ne_nil_of_left_ne_nil
            rw [← List.length_pos_iff, hlen₁, List.length_pos_iff]
            exact mt List.isEmpty_iff.mpr hempty
          · rw [hparts, List.forall_mem_append, List.forall_mem_map] at hkept
            rw [hparts, List.map_append, List.map_map]
            exact List.rel_append (htold₁ hkept.1) (htold₂ hkept.2)

/-! ## Groups -/

theorem conditionTrees_eq (cs : List Condition) : conditionTrees cs = cs.map Condition.tree := by
  induction cs with
  | nil => rw [conditionTrees, List.map_nil]
  | cons c cs ih => rw [conditionTrees, ih, List.map_cons]

theorem leaves_alternatives {L : Type} (ts : List (BoolTree L)) :
    (alternatives ts).flatMap BoolTree.leaves = ts.flatMap BoolTree.leaves := by
  cases ts with
  | nil => rfl
  | cons t ts =>
      exact (List.flatMap_singleton _ _).trans (BoolTree.leaves_any _)

theorem leaves_filter (must should : List Condition) :
    (Condition.filter must should).tree.leaves =
      (must ++ should).flatMap fun c ↦ c.tree.leaves := by
  rw [Condition.tree, BoolTree.leaves_all, List.flatMap_append, leaves_alternatives,
    conditionTrees_eq, conditionTrees_eq, List.flatMap_map, List.flatMap_map, List.flatMap_append]

namespace SaysEntries

variable {ts us : List (BoolTree Leaf)} {cs must should : List Condition}

theorem leaves (h : SaysEntries env S ts cs) :
    List.Forall₂ Represents (cs.flatMap fun c ↦ c.tree.leaves) (ts.flatMap BoolTree.leaves) := by
  have hleaves : ts.flatMap BoolTree.leaves =
      (ts.flatMap fun t ↦ t.spread.splice).flatMap BoolTree.leaves := by
    rw [List.flatMap_assoc]
    refine List.flatMap_congr fun t _ ↦ ?_
    rw [BoolTree.leaves_splice, BoolTree.leaves_spread]
  rw [hleaves]
  obtain ⟨-, htold⟩ := h
  generalize (ts.flatMap fun t ↦ t.spread.splice) = us at htold
  induction htold with
  | nil => exact .nil
  | cons hu _ ih => exact List.rel_append hu.represents ih

theorem evals (h : SaysEntries env S ts cs) (p : Payload) :
    cs.map (fun c ↦ c.tree.eval (FieldCondition.holds S p)) =
      (ts.flatMap fun t ↦ t.spread.splice).map (BoolTree.eval (leafHolds env S p)) := by
  obtain ⟨-, htold⟩ := h
  generalize (ts.flatMap fun t ↦ t.spread.splice) = us at htold
  induction htold with
  | nil => rfl
  | cons hu _ ih => rw [List.map_cons, List.map_cons, hu.holds, ih]

theorem all_eq (h : SaysEntries env S ts cs) (p : Payload) :
    (cs.all fun c ↦ c.tree.eval (FieldCondition.holds S p)) =
      ts.all fun t ↦ t.spread.eval (leafHolds env S p) := by
  have hall := congrArg (List.all · id) (h.evals p)
  rw [List.all_map, List.all_map, List.all_flatMap] at hall
  refine hall.trans (all_congr_of_mem fun t _ ↦ BoolTree.all_splice _)

theorem any_eq (h : SaysEntries env S ts cs) (p : Payload) :
    (cs.any fun c ↦ c.tree.eval (FieldCondition.holds S p)) =
      (BoolTree.any ts).spread.eval (leafHolds env S p) := by
  have hany := congrArg (List.any · id) (h.evals p)
  rw [List.any_map, List.any_map] at hany
  rw [BoolTree.spread_any, BoolTree.eval_any]
  exact hany

theorem nil_iff (h : SaysEntries env S ts cs) : cs = [] ↔ ts = [] := by
  have hnil := h.conditions
  constructor
  · rintro rfl
    rw [List.forall₂_nil_right_iff, List.flatMap_eq_nil_iff] at hnil
    by_contra hne
    obtain ⟨t, ht⟩ := List.exists_mem_of_ne_nil ts hne
    exact BoolTree.splice_ne_nil _ (hnil t ht)
  · rintro rfl
    exact List.forall₂_nil_left_iff.mp hnil

end SaysEntries

theorem eval_filter {v : FieldCondition → Bool} (must should : List Condition) :
    (Condition.filter must should).tree.eval v =
      ((must.all fun c ↦ c.tree.eval v) &&
        (should.isEmpty || should.any fun c ↦ c.tree.eval v)) := by
  rw [Condition.tree, BoolTree.eval_all, List.all_append, conditionTrees_eq, conditionTrees_eq,
    List.all_map]
  cases should with
  | nil => rfl
  | cons c should =>
      show (must.all _ && ((BoolTree.any ((c :: should).map Condition.tree)).eval v && true)) = _
      rw [Bool.and_true, BoolTree.eval_any, List.any_map]
      rfl

/-- The tree of a group of entries that are no leaves is not spliced. -/
theorem splice_group {ts us : List (BoolTree Leaf)} {g : BoolTree Leaf}
    (hts : ∀ t ∈ ts, t.isLeaf = false)
    (hg : groupParts (armParts .all (some ts) ++ armParts .any (some us)) = [g]) :
    g.isLeaf = false ∧ g.spread.splice = [g.spread] ∧
      ∀ v, g.spread.eval v =
        ((ts.all fun t ↦ t.spread.eval v) && (us.isEmpty || (BoolTree.any us).spread.eval v)) := by
  rcases ts with _ | ⟨t, ts⟩
  · rcases us with _ | ⟨u, us⟩
    · cases hg
    · cases hg
      refine ⟨rfl, ?_, fun v ↦ rfl⟩
      rw [BoolTree.spread_any]
      rfl
  · rcases us with _ | ⟨u, us⟩
    · cases hg
      refine ⟨rfl, ?_, fun v ↦ ?_⟩
      · rw [BoolTree.spread_all]
        apply BoolTree.splice_all_groups
        rw [List.forall_mem_map]
        exact fun t ht ↦ (BoolTree.isLeaf_spread t).trans (hts t ht)
      · rw [BoolTree.spread_all, BoolTree.eval_all, List.all_map]
        exact (Bool.and_true _).symm
    · have hg : [BoolTree.all [.all (t :: ts), .any (u :: us)]] = [g] := hg
      cases hg
      refine ⟨rfl, ?_, fun v ↦ ?_⟩
      · rw [BoolTree.spread_all]
        apply BoolTree.splice_all_groups
        rw [List.forall_mem_map, List.forall_mem_cons, List.forall_mem_singleton,
          BoolTree.isLeaf_spread, BoolTree.isLeaf_spread]
        exact ⟨rfl, rfl⟩
      · rw [BoolTree.spread_all, BoolTree.eval_all, List.map_cons, List.map_singleton,
          List.all_cons, List.all_cons, List.all_nil, Bool.and_true, BoolTree.spread_all,
          BoolTree.eval_all, List.all_map]
        rfl

/-- The condition of a group says what the group says. -/
theorem saysTree_group {ts us : List (BoolTree Leaf)} {must should : List Condition}
    (hand : SaysEntries env S ts must) (hor : SaysEntries env S us should) {g : BoolTree Leaf}
    (hg : groupParts (armParts .all (some ts) ++ armParts .any (some us)) = [g]) :
    SaysTree env S g.spread (.filter must should) := by
  obtain ⟨-, -, heval⟩ := splice_group hand.noLeaf hg
  constructor
  · have hleaves := congrArg (List.flatMap BoolTree.leaves) hg
    rw [leaves_groupParts, List.flatMap_append, leaves_armParts BoolTree.leaves_all,
      leaves_armParts BoolTree.leaves_any, List.flatMap_singleton] at hleaves
    rw [leaves_filter, BoolTree.leaves_spread, ← hleaves, List.flatMap_append]
    exact List.rel_append hand.leaves hor.leaves
  · intro p
    have hempty : should.isEmpty = us.isEmpty := by
      rw [Bool.eq_iff_iff, List.isEmpty_iff, List.isEmpty_iff]
      exact hor.nil_iff
    rw [eval_filter, heval, hand.all_eq, hor.any_eq, hempty]

/-- Conditions that are there, for the entries of a group. -/
structure SaysArm (env : Env) (S : Server) (cs : List Condition) (ts : List (BoolTree Leaf)) :
    Prop where
  conditions : cs ≠ []
  entries : ts ≠ []
  read : (∀ l ∈ ts.flatMap BoolTree.leaves, Kept l) → SaysEntries env S ts cs

theorem saysEntries_of_rel {cs : Option (List Condition)} {ts : Option (List (BoolTree Leaf))}
    (h : Option.Rel (SaysArm env S) cs ts)
    (hkept : ∀ l ∈ (ts.getD []).flatMap BoolTree.leaves, Kept l) :
    SaysEntries env S (ts.getD []) (cs.getD []) := by
  cases h with
  | none => exact ⟨fun t ht ↦ absurd ht List.not_mem_nil, .nil⟩
  | some h => exact h.read hkept

/-- The filter of the two arms of a group. -/
theorem saysGroup {obj : List (String × Json)} {must should : Option (List Condition)}
    {ts us : Option (List (BoolTree Leaf))} {f : Filter}
    (hand : Option.Rel (SaysArm env S) must ts) (hor : Option.Rel (SaysArm env S) should us)
    (hf : filterOfArms must should = some f) :
    ∃ t, (treeBuilder.group obj ts us).run = [t] ∧ ((∀ l ∈ t.leaves, Kept l) →
      t.isLeaf = false ∧ t.spread.splice = [t.spread] ∧
        SaysTree env S t.spread (.filter f.must f.should)) := by
  have hgroup : (treeBuilder.group obj ts us).run =
      groupParts (armParts .all ts ++ armParts .any us ++ strays obj) := rfl
  unfold filterOfArms at hf
  split_ifs at hf with hnone
  cases hf
  have hne : (treeBuilder.group obj ts us).run ≠ [] := by
    rw [hgroup]
    apply groupParts_ne_nil
    apply List.append_ne_nil_of_left_ne_nil
    rcases hand with h | _
    · apply List.append_ne_nil_of_left_ne_nil
      exact armParts_ne_nil h.entries
    · rcases hor with h | _
      · exact armParts_ne_nil h.entries
      · exact absurd rfl hnone
  obtain ⟨t, ht⟩ := List.exists_cons_of_ne_nil hne
  obtain ⟨rest, ht⟩ := ht
  have hsingle : (treeBuilder.group obj ts us).run = [t] := by
    rw [hgroup] at ht ⊢
    exact groupParts_eq_singleton (by rw [ht, List.head?_cons])
  refine ⟨t, hsingle, fun hkept ↦ ?_⟩
  rw [← List.flatMap_singleton BoolTree.leaves t, ← hsingle] at hkept
  obtain ⟨hparts, hts, hus⟩ := group_of_forall not_kept_stray hkept
  rw [hsingle, ← armParts_getD .all, ← armParts_getD .any] at hparts
  have hmust := saysEntries_of_rel hand hts
  have hshould := saysEntries_of_rel hor hus
  obtain ⟨hleaf, hsplice, -⟩ := splice_group hmust.noLeaf hparts.symm
  exact ⟨hleaf, hsplice, saysTree_group hmust hshould hparts.symm⟩

/-- A nested group has a condition. -/
theorem group_eq_ok {obj : List (String × Json)} {must should : Option (List Condition)}
    {cs : List Condition} (h : (qdrantBuilder env).group obj must should = .ok cs) :
    ∃ f, filterOfArms must should = some f ∧ cs = [.filter f.must f.should] := by
  cases hf : filterOfArms must should with
  | none =>
      simp only [qdrantBuilder, hf] at h
      cases h
  | some f =>
      simp only [qdrantBuilder, hf, Except.ok.injEq] at h
      exact ⟨f, rfl, h.symm⟩

/-- What is built of any value represents its tree, if all of its leaves are kept. -/
theorem simulates_qdrantBuilder :
    GroupBuilder.Simulates (qdrantBuilder env) treeBuilder
      (fun x ts ↦ ∀ cs, x = .ok cs → (cs ≠ [] → ts.run ≠ []) ∧
        ((∀ l ∈ ts.run.flatMap BoolTree.leaves, Kept l) → SaysEntries env S ts.run cs))
      (fun x ts ↦ ∀ cs, x = .ok cs → Option.Rel (SaysArm env S) cs ts.run) where
  isGroup _ := rfl
  other v cs h := by cases h
  leaf obj cs h := by
    have hbuild : (if obj.isEmpty then
        .error (unrepresentable "an empty filter clause \x7b\x7d" "it names no field")
      else buildFields env obj) = Except.ok cs := h
    split_ifs at hbuild with hempty
    obtain ⟨hlen, hne, htold⟩ := buildFields_eq (S := S) hbuild
    have hcs : cs ≠ [] := hne (mt List.isEmpty_iff.mpr hempty)
    have hparts : fieldParts obj ≠ [] := by
      rwa [← List.length_pos_iff, ← hlen, List.length_pos_iff]
    have hleaf : (treeBuilder.leaf obj).run = [.all ((fieldParts obj).map .leaf)] :=
      if_neg (mt List.isEmpty_iff.mp hparts)
    rw [hleaf]
    refine ⟨fun _ ↦ List.cons_ne_nil _ _, fun hkept ↦ ⟨?_, ?_⟩⟩
    · rw [List.forall_mem_singleton]
      rfl
    · rw [List.flatMap_singleton, BoolTree.leaves_all, List.flatMap_map] at hkept
      have hspread : ((fieldParts obj).map BoolTree.leaf).map BoolTree.spread =
          (fieldParts obj).map .leaf := by
        rw [List.map_map]
        exact List.map_congr_left fun l _ ↦ BoolTree.spread_leaf l
      rw [List.flatMap_singleton, BoolTree.spread_all, hspread, BoolTree.splice_leaves hparts]
      exact htold fun l hl ↦ hkept l (List.mem_flatMap.mpr ⟨l, hl, by simp⟩)
  nil cs h := by
    cases h
    exact ⟨fun hne ↦ absurd rfl hne, fun _ ↦ ⟨fun t ht ↦ absurd ht List.not_mem_nil, .nil⟩⟩
  cons {x x' y y'} hx hx' cs h := by
    obtain ⟨cs₁, hcs₁, h⟩ := bind_eq_ok.mp h
    obtain ⟨cs₂, hcs₂, h⟩ := bind_eq_ok.mp h
    cases h
    obtain ⟨hne₁, htold₁⟩ := hx cs₁ hcs₁
    obtain ⟨hne₂, htold₂⟩ := hx' cs₂ hcs₂
    have hrun : (do
        let ts ← y
        let ts' ← y'
        pure (ts ++ ts')).run = y.run ++ y'.run := rfl
    rw [hrun]
    refine ⟨fun hne ↦ ?_, fun hkept ↦ ?_⟩
    · rw [Ne, List.append_eq_nil_iff] at hne ⊢
      rintro ⟨hnil₁, hnil₂⟩
      exact hne ⟨by_contra fun h ↦ hne₁ h hnil₁, by_contra fun h ↦ hne₂ h hnil₂⟩
    · rw [List.flatMap_append, List.forall_mem_append] at hkept
      have h₁ := htold₁ hkept.1
      have h₂ := htold₂ hkept.2
      refine ⟨List.forall_mem_append.mpr ⟨h₁.noLeaf, h₂.noLeaf⟩, ?_⟩
      rw [List.flatMap_append]
      exact List.rel_append h₁.conditions h₂.conditions
  absent cs h := by
    cases h
    exact .none
  array {key vs x y} hx cs h := by
    obtain ⟨_, -, h⟩ := bind_eq_ok.mp h
    obtain ⟨cs', hcs, h⟩ := bind_eq_ok.mp h
    obtain ⟨_, hcheck, h⟩ := bind_eq_ok.mp h
    cases h
    obtain ⟨hne, htold⟩ := hx cs' hcs
    have hcheck : checkConditions key cs' = .ok _ := hcheck
    unfold checkConditions at hcheck
    split_ifs at hcheck with hempty
    have hcs' : cs' ≠ [] := mt List.isEmpty_iff.mpr hempty
    exact .some ⟨hcs', hne hcs', htold⟩
  notArray {key v} hv cs h := by
    obtain ⟨_, hcheck, -⟩ := bind_eq_ok.mp h
    have hcheck : checkArm env key v = .ok _ := hcheck
    rw [checkArm, hv] at hcheck
    cases hcheck
  group {obj x x' y y'} hx hx' cs h := by
    obtain ⟨must, hmust, h⟩ := bind_eq_ok.mp h
    obtain ⟨should, hshould, h⟩ := bind_eq_ok.mp h
    obtain ⟨f, hf, rfl⟩ := group_eq_ok h
    obtain ⟨t, ht, htold⟩ := saysGroup (hx must hmust) (hx' should hshould) hf
    have hrun : (do
        let ands ← y
        let ors ← y'
        treeBuilder.group obj ands ors).run = [t] := ht
    rw [hrun]
    refine ⟨fun _ ↦ List.cons_ne_nil _ _, fun hkept ↦ ?_⟩
    rw [List.flatMap_singleton] at hkept
    obtain ⟨hleaf, hsplice, htree⟩ := htold hkept
    refine ⟨List.forall_mem_singleton.mpr hleaf, ?_⟩
    rw [List.flatMap_singleton, hsplice]
    exact .cons htree .nil

/-! ## Filters -/

/-- Every operation of a tree has a condition, and the filter is true of the payloads the tree
is true of. -/
structure Faithful (env : Env) (S : Server) (f : Filter) (t : BoolTree Leaf) : Prop where
  represents : List.Forall₂ Represents f.tree.leaves t.leaves
  holds : ∀ p, f.tree.eval (FieldCondition.holds S p) = t.eval (leafHolds env S p)

theorem array_ne_none (key : String) (v : Json) : (qdrantBuilder env).array key v ≠ .ok none := by
  intro h
  cases v with
  | array vs =>
      rw [GroupBuilder.array] at h
      obtain ⟨_, -, h⟩ := bind_eq_ok.mp h
      obtain ⟨_, -, h⟩ := bind_eq_ok.mp h
      obtain ⟨_, -, h⟩ := bind_eq_ok.mp h
      cases h
  | null => cases h
  | bool _ => cases h
  | number _ => cases h
  | string _ => cases h
  | object _ => cases h

/-- Nothing is built only where there is no such key. -/
theorem getEntry_of_arrayAt {key : String} {obj : List (String × Json)}
    (h : (qdrantBuilder env).arrayAt key obj = .ok none) : Json.getEntry key obj = none := by
  induction obj with
  | nil => rfl
  | cons e obj ih =>
      obtain ⟨k, v⟩ := e
      rw [GroupBuilder.arrayAt] at h
      rw [Json.getEntry]
      split_ifs at h ⊢
      · exact absurd h (array_ne_none key v)
      · exact ih h

/-- What is built of an object that is not empty is the filter of its two arms. -/
theorem arms_of_parseQdrantConditions {obj : List (String × Json)} {f : Option Filter}
    (hne : obj ≠ []) (h : parseQdrantConditions env (.object obj) = .ok f) :
    ∃ must should, (qdrantBuilder env).arrayAt "and" obj = .ok must ∧
      (qdrantBuilder env).arrayAt "or" obj = .ok should ∧ filterOfArms must should = f := by
  have hparse : parseQdrantConditions env (.object obj) = (do
      let must ← (qdrantBuilder env).arrayAt "and" obj
      let should ← (qdrantBuilder env).arrayAt "or" obj
      .ok (filterOfArms must should)) := if_neg (mt List.isEmpty_iff.mp hne)
  rw [hparse] at h
  obtain ⟨must, hmust, h⟩ := bind_eq_ok.mp h
  obtain ⟨should, hshould, h⟩ := bind_eq_ok.mp h
  exact ⟨must, should, hmust, hshould, Except.ok.inj h⟩

/-- A filter that is built says what its value's tree says, if all leaves are kept. -/
theorem exists_tree {conditions : Json} {f : Filter}
    (h : parseQdrantConditions env conditions = .ok (some f)) :
    ∃ t, treeOf conditions = some t ∧ ((∀ l ∈ t.leaves, Kept l) →
      SaysTree env S t.spread (.filter f.must f.should)) := by
  cases conditions with
  | object obj =>
      have hne : obj ≠ [] := by
        rintro rfl
        cases h
      obtain ⟨must, should, hmust, hshould, hf⟩ := arms_of_parseQdrantConditions hne h
      have hand := (simulates_qdrantBuilder (S := S)).arrayAt "and" obj must hmust
      have hor := (simulates_qdrantBuilder (S := S)).arrayAt "or" obj should hshould
      obtain ⟨t, ht, htold⟩ := saysGroup hand hor hf
      exact ⟨t, congrArg List.head? ht, fun hkept ↦ (htold hkept).2.2⟩
  | null => cases h
  | bool _ => cases h
  | number _ => cases h
  | string _ => cases h
  | array _ => cases h

/-- No filter is built only where there is neither an `and` nor an `or`. -/
theorem get_of_parseQdrantConditions {conditions : Json}
    (h : parseQdrantConditions env conditions = .ok none) :
    conditions.get "and" = none ∧ conditions.get "or" = none := by
  cases conditions with
  | object obj =>
      rcases eq_or_ne obj [] with rfl | hne
      · exact ⟨rfl, rfl⟩
      · obtain ⟨must, should, hmust, hshould, harms⟩ := arms_of_parseQdrantConditions hne h
        have hnone : must = none ∧ should = none := by
          unfold filterOfArms at harms
          split_ifs at harms with hnone
          rwa [Bool.and_eq_true, Option.isNone_iff_eq_none, Option.isNone_iff_eq_none] at hnone
        obtain ⟨rfl, rfl⟩ := hnone
        exact ⟨getEntry_of_arrayAt hmust, getEntry_of_arrayAt hshould⟩
  | null => exact ⟨rfl, rfl⟩
  | bool _ => exact ⟨rfl, rfl⟩
  | number _ => exact ⟨rfl, rfl⟩
  | string _ => exact ⟨rfl, rfl⟩
  | array _ => exact ⟨rfl, rfl⟩

/-- A filter is faithful exactly when no key stands beside `and` and `or`, no match has several
criteria, and operations of one entry may as well be alternatives where an `or` group has them;
the last is so when no entry of an `or` group has several. -/
theorem faithful_iff (env : Env) (S : Server) (conditions : Json) :
    (parseQdrantConditions env conditions = .ok none →
      conditions.get "and" = none ∧ conditions.get "or" = none) ∧
    ∀ f, parseQdrantConditions env conditions = .ok (some f) →
      ∃ t, treeOf conditions = some t ∧ ((∀ l ∈ t.leaves, Plain l) →
        (Faithful env S f t ↔ (∀ l ∈ t.leaves, Whole l) ∧
          ∀ p, t.spread.eval (leafHolds env S p) = true → t.eval (leafHolds env S p) = true) ∧
        ((∀ l ∈ t.leaves, Whole l) → t.Single → Faithful env S f t)) := by
  refine ⟨get_of_parseQdrantConditions, fun f hf ↦ ?_⟩
  obtain ⟨t, ht, htold⟩ := exists_tree (S := S) hf
  refine ⟨t, ht, fun hplain ↦ ?_⟩
  have hspread : (∀ l ∈ t.leaves, Whole l) →
      (Faithful env S f t ↔
        ∀ p, t.spread.eval (leafHolds env S p) = true → t.eval (leafHolds env S p) = true) := by
    intro hwhole
    have htold := htold fun l hl ↦ ⟨hwhole l hl, hplain l hl⟩
    constructor
    · intro hfaithful p hp
      rwa [← hfaithful.holds p, Filter.tree, htold.holds p]
    · intro himp
      refine ⟨?_, fun p ↦ ?_⟩
      · rw [← BoolTree.leaves_spread t]
        exact htold.represents
      · rw [Filter.tree, htold.holds p, Bool.eq_iff_iff]
        exact ⟨himp p, BoolTree.eval_spread_of_eval⟩
  refine ⟨⟨fun hfaithful ↦ ?_, fun h ↦ (hspread h.1).mpr h.2⟩, fun hwhole hsingle ↦ ?_⟩
  · have hwhole : ∀ l ∈ t.leaves, Whole l := by
      intro l hl
      obtain ⟨c, -, hc⟩ := exists_of_mem_right hfaithful.represents hl
      exact hc.whole (hplain l hl)
    exact ⟨hwhole, (hspread hwhole).mp hfaithful⟩
  · rw [hspread hwhole]
    intro p hp
    rwa [hsingle.eval_spread] at hp

/-! ### Two conditions values -/

section Examples

/-- An environment whose parsers read nothing. -/
def plainEnv : Env := ⟨noNumbers, fun _ ↦ none, fun _ ↦ "", id⟩

/-- A server without text indexes. -/
def plainServer : Server := ⟨fun _ _ ↦ false, fun _ ↦ none, fun _ _ _ _ ↦ false⟩

def colorIs (color : String) : Json :=
  .object [("color", .object [("match", .object [("value", .string color)])])]

def redOrBlue : Json := .object [("or", .array [colorIs "red", colorIs "blue"])]

/-- A size beside the group. -/
def redBeside : Json :=
  .object [("and", .array [colorIs "red"]),
    ("size", .object [("match", .object [("value", .string "big")])])]

def colorLeaf (color : String) : Leaf :=
  ⟨"color", "match", .object [("value", .string color)]⟩

theorem plain_of_value {field : String} {v : Json} :
    Plain ⟨field, "match", .object [("value", v)]⟩ where
  notGeo := by simp
  exactBounds := by simp [boundNames, Json.get, Json.getEntry]

theorem faithful_redOrBlue : ∃ f t, parseQdrantConditions plainEnv redOrBlue = .ok (some f) ∧
    treeOf redOrBlue = some t ∧ Faithful plainEnv plainServer f t := by
  have hparse : parseQdrantConditions plainEnv redOrBlue = .ok (some ⟨[],
      [.field (.matches "color" (.keyword "red")), .field (.matches "color" (.keyword "blue"))]⟩) :=
    rfl
  obtain ⟨t, ht, hfaithful⟩ := (faithful_iff plainEnv plainServer redOrBlue).2 _ hparse
  have htree : t = .any [.all [.leaf (colorLeaf "red")], .all [.leaf (colorLeaf "blue")]] :=
    Option.some.inj ht.symm
  subst htree
  have hleaves : ∀ {P : Leaf → Prop}, (∀ color, P (colorLeaf color)) →
      ∀ l ∈ [colorLeaf "red", colorLeaf "blue"], P l := by
    intro P hP
    rw [List.forall_mem_cons, List.forall_mem_singleton]
    exact ⟨hP "red", hP "blue"⟩
  refine ⟨_, _, hparse, ht, (hfaithful (hleaves fun color ↦ plain_of_value)).2 ?_ ?_⟩
  · exact hleaves fun color ↦ .inl ⟨rfl, "value", .string color, rfl⟩
  · have hentry : ∀ l : Leaf, (BoolTree.all [.leaf l]).Single := by
      intro l
      exact .all (List.forall_mem_singleton.mpr (.leaf l))
    apply BoolTree.Single.any
    · rw [List.forall_mem_cons, List.forall_mem_singleton]
      exact ⟨hentry _, hentry _⟩
    · rw [List.forall_mem_cons, List.forall_mem_singleton]
      exact ⟨rfl, rfl⟩

/-- The size beside the group is left out. -/
theorem not_faithful_redBeside : ∃ f t, parseQdrantConditions plainEnv redBeside = .ok (some f) ∧
    treeOf redBeside = some t ∧ (∀ l ∈ t.leaves, Plain l) ∧
      ¬Faithful plainEnv plainServer f t := by
  have htree : treeOf redBeside = some (.all [.all [.all [.leaf (colorLeaf "red")]],
      .leaf ⟨"size", "", .object [("match", .object [("value", .string "big")])]⟩]) := rfl
  refine ⟨⟨[.field (.matches "color" (.keyword "red"))], []⟩, _, rfl, htree, ?_, ?_⟩
  · show ∀ l ∈ [colorLeaf "red", ⟨"size", "", .object [("match", _)]⟩], Plain l
    rw [List.forall_mem_cons, List.forall_mem_singleton]
    refine ⟨plain_of_value, by simp, ?_⟩
    simp [boundNames, Json.get, Json.getEntry]
  · rintro ⟨hrepresents, -⟩
    exact absurd hrepresents.length_eq (by decide)

end Examples

end VectorDbBenchmark.Qdrant
