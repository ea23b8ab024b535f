import VectorDbBenchmark.Kit.Fallible
import VectorDbBenchmark.Mongo.Mql

/-!
# The two dialects of a MongoDB filter

What the search operators of a conditions value say, and when the MQL filter of the same value
selects the same documents.
-/

namespace VectorDbBenchmark.Mongo

open Kit Redis ConditionTree

/-! ## Operators -/

/-- A document that is read as operators for all leaves of a tree, in the same groups. -/
def SaysSearch (t : BoolTree Leaf) (m : Document) : Prop :=
  ∃ w, readSearch (.document m) = some w ∧ w.leaves.map some = t.leaves.map leafAtoms ∧
    ∀ d, w.eval (operatorHolds d) = t.eval (leafSays d)

theorem saysSearch_leaf {l : Leaf} {m : Document} {atoms : List Atom}
    (hread : readSearch (.document m) = some (.leaf atoms)) (hatoms : leafAtoms l = some atoms) :
    SaysSearch (.leaf l) m := by
  refine ⟨.leaf atoms, hread, ?_, fun d ↦ ?_⟩
  · rw [BoolTree.leaves_leaf, BoolTree.leaves_leaf, List.map_singleton, List.map_singleton, hatoms]
  · rw [BoolTree.eval_leaf, BoolTree.eval_leaf, leafSays, hatoms, Option.all_some]

def searchKeys : List (String × String × Comparison) :=
  [("gt", "gt", .gt), ("gte", "gte", .gte), ("lt", "lt", .lt), ("lte", "lte", .lte)]

theorem readOps_searchBounds (field : String) (criteria : Json) :
    readOps searchComparison field (boundDoc criteria searchBounds) =
      some (boundAtoms field criteria) := by
  have hkeys : ∀ k ∈ searchKeys, searchComparison k.2.1 = some k.2.2 := by
    simp [searchKeys, searchComparison]
  exact readOps_boundDoc searchComparison field criteria searchKeys hkeys

/-- The operator of a leaf that these filters have. -/
theorem exists_searchOperator {l : Leaf} (h : (leafAtoms l).isSome) :
    ∃ m, searchOperator l.field l.op l.criteria = .ok (some m) ∧ SaysSearch (.leaf l) m := by
  obtain ⟨atoms, hatoms⟩ := Option.isSome_iff_exists.mp h
  rcases leafAtoms_eq_some hatoms with ⟨hop, any, hany, rfl⟩ | ⟨hop, hany, v, hv, rfl⟩ |
    ⟨hop, hempty, rfl⟩
  · rw [hop]
    show ∃ m, Except.ok (searchMatch l.field l.criteria) = .ok (some m) ∧ _
    rw [searchMatch, hany]
    exact ⟨_, rfl, saysSearch_leaf rfl hatoms⟩
  · rw [hop]
    show ∃ m, Except.ok (searchMatch l.field l.criteria) = .ok (some m) ∧ _
    rw [searchMatch, hany, hv]
    exact ⟨_, rfl, saysSearch_leaf rfl hatoms⟩
  · rw [hop]
    show ∃ m, Except.ok (searchRange l.field l.criteria) = .ok (some m) ∧ _
    have hread := readOps_searchBounds l.field l.criteria
    have hrange : searchRange l.field l.criteria = some [("range",
        .document (("path", .string l.field) :: boundDoc l.criteria searchBounds))] := by
      refine if_neg fun hlen ↦ Bool.eq_false_iff.mp hempty ?_
      have hnil : boundDoc l.criteria searchBounds = [] := by simpa using hlen
      rw [hnil] at hread
      rw [← Option.some.inj hread]
      rfl
    rw [hrange]
    refine ⟨_, rfl, saysSearch_leaf ?_ hatoms⟩
    rw [readSearch, readSearchEntries, if_neg (by simp), readOperator, if_pos rfl, hread]
    rfl

theorem searchOps_eq {field : String} {ops : List (String × Json)}
    (h : ∀ o ∈ ops, (leafAtoms ⟨field, o.1, o.2⟩).isSome) :
    ∃ ms, searchOps field ops = .ok (some ms) ∧
      List.Forall₂ SaysSearch (ops.map fun o ↦ .leaf ⟨field, o.1, o.2⟩) ms := by
  induction ops with
  | nil => exact ⟨[], rfl, .nil⟩
  | cons o ops ih =>
      rw [List.forall_mem_cons] at h
      obtain ⟨m, hm, htold⟩ := exists_searchOperator h.1
      obtain ⟨ms, hms, hmore⟩ := ih h.2
      refine ⟨m :: ms, ?_, .cons htold hmore⟩
      have hop : searchOperator field o.1 o.2 = .ok (some m) := hm
      rw [searchOps, hop, ok_bind]
      dsimp only
      rw [hms]
      rfl

theorem searchFields_eq {obj : List (String × Json)}
    (h : ∀ l ∈ fieldParts obj, (leafAtoms l).isSome) :
    ∃ ms, searchFields obj = .ok (some ms) ∧
      List.Forall₂ SaysSearch ((fieldParts obj).map .leaf) ms := by
  induction obj with
  | nil => exact ⟨[], rfl, .nil⟩
  | cons e obj ih =>
      obtain ⟨field, v⟩ := e
      rw [fieldParts, List.flatMap_cons, ← fieldParts] at h ⊢
      rw [List.forall_mem_append] at h
      have hobject : ∀ v : Json,
          ¬∀ l ∈ [(⟨field, "", v⟩ : Leaf)], (leafAtoms l).isSome = true := by
        intro v hv
        cases hv _ (List.mem_singleton_self _)
      cases v with
      | object ops =>
          have hops : ∀ o ∈ ops, (leafAtoms ⟨field, o.1, o.2⟩).isSome :=
            fun o ho ↦ h.1 _ (List.mem_map_of_mem ho)
          obtain ⟨ms, hms, htold⟩ := searchOps_eq hops
          obtain ⟨ns, hns, hmore⟩ := ih h.2
          refine ⟨ms ++ ns, ?_, ?_⟩
          · rw [searchFields]
            show (searchOps field ops >>= _) = _
            rw [hms, ok_bind]
            dsimp only
            rw [hns]
            rfl
          · rw [List.map_append, List.map_map]
            exact List.rel_append htold hmore
      | null => exact absurd h.1 (hobject _)
      | bool _ => exact absurd h.1 (hobject _)
      | number _ => exact absurd h.1 (hobject _)
      | string _ => exact absurd h.1 (hobject _)
      | array _ => exact absurd h.1 (hobject _)

/-! ## Groups -/

theorem exists_readSearches {ts : List (BoolTree Leaf)} {ds : List Document}
    (h : List.Forall₂ SaysSearch ts ds) :
    ∃ ws, readSearches (ds.map .document) = some ws ∧
      (ws.flatMap BoolTree.leaves).map some = (ts.flatMap BoolTree.leaves).map leafAtoms ∧
      ∀ d, ws.map (BoolTree.eval (operatorHolds d)) = ts.map (BoolTree.eval (leafSays d)) := by
  induction h with
  | nil => exact ⟨[], rfl, rfl, fun d ↦ rfl⟩
  | cons ht _ ih =>
      obtain ⟨w, hw, hleaves, heval⟩ := ht
      obtain ⟨ws, hws, hmore, hevals⟩ := ih
      refine ⟨w :: ws, ?_, ?_, fun d ↦ ?_⟩
      · rw [List.map_cons, readSearches, hw, hws]
        rfl
      · rw [List.flatMap_cons, List.flatMap_cons, List.map_append, List.map_append, hleaves, hmore]
      · rw [List.map_cons, List.map_cons, heval, hevals]

theorem saysSearch_filter {ts : List (BoolTree Leaf)} {ds : List Document} (hne : ts ≠ [])
    (h : List.Forall₂ SaysSearch ts ds) :
    ∃ m, filterClause ds = some m ∧ SaysSearch (.all ts) m := by
  rcases h with _ | ⟨ht, hts⟩
  · exact absurd rfl hne
  · rcases hts with _ | ⟨ht', hts⟩
    · obtain ⟨w, hw, hleaves, heval⟩ := ht
      refine ⟨_, rfl, w, hw, ?_, fun d ↦ ?_⟩
      · rw [hleaves, BoolTree.leaves_all, List.flatMap_singleton]
      · rw [heval, BoolTree.eval_all]
        exact (Bool.and_true _).symm
    · obtain ⟨ws, hws, hleaves, heval⟩ := exists_readSearches (.cons ht (.cons ht' hts))
      refine ⟨_, rfl, .all ws, ?_, ?_, fun d ↦ ?_⟩
      · rw [readSearch, readSearchEntries, if_pos rfl, readCompound, readClauses, if_pos rfl,
          readOperators, hws]
        rfl
      · rw [BoolTree.leaves_all, BoolTree.leaves_all, hleaves]
      · have hall := congrArg (List.all · id) (heval d)
        rw [List.all_map, List.all_map] at hall
        rwa [BoolTree.eval_all, BoolTree.eval_all]

theorem saysSearch_should {ts : List (BoolTree Leaf)} {ds : List Document} (hne : ts ≠ [])
    (h : List.Forall₂ SaysSearch ts ds) :
    ∃ m, shouldClause (some ds) = [m] ∧ SaysSearch (.any ts) m := by
  obtain ⟨ws, hws, hleaves, heval⟩ := exists_readSearches h
  rcases h with _ | ⟨ht, hts⟩
  · exact absurd rfl hne
  · refine ⟨_, rfl, .any ws, ?_, ?_, fun d ↦ ?_⟩
    · rw [readSearch, readSearchEntries, if_pos rfl, readCompound, readClauses, if_pos (by simp),
        readOperators, hws]
      rfl
    · rw [BoolTree.leaves_any, BoolTree.leaves_any, hleaves]
    · have hany := congrArg (List.any · id) (heval d)
      rw [List.any_map, List.any_map] at hany
      rwa [BoolTree.eval_any, BoolTree.eval_any]

theorem combines_search : Combines SaysSearch filterClause shouldClause where
  nil := rfl
  one _ := rfl
  none := rfl
  empty := rfl
  all := saysSearch_filter
  any := saysSearch_should
  nest {ts ds u o d} _ _ h := by
    obtain ⟨w, hw, hleaves, heval⟩ := h
    have hpair : [BoolTree.all ts, u].flatMap BoolTree.leaves =
        (BoolTree.all ts).leaves ++ [u].flatMap BoolTree.leaves := List.flatMap_cons
    have hall : ∀ v : Leaf → Bool, [BoolTree.all ts, u].all (BoolTree.eval v) =
        ((BoolTree.all ts).eval v && [u].all (BoolTree.eval v)) := fun v ↦ List.all_cons
    refine ⟨w, hw, ?_, fun d ↦ ?_⟩
    · rw [hleaves, BoolTree.leaves_all, BoolTree.leaves_all, List.flatMap_append, hpair,
        BoolTree.leaves_all]
    · rw [heval, BoolTree.eval_all, BoolTree.eval_all, List.all_append, hall, BoolTree.eval_all]

/-- Where the operators of a value are built, they stand for all leaves of its tree, if there
are operators for these leaves. -/
theorem simulates_searchBuilder :
    GroupBuilder.Simulates searchBuilder treeBuilder
      (fun ds ts ↦ ∀ ms, ds = .ok ms →
        (∀ l ∈ ts.run.flatMap BoolTree.leaves, (leafAtoms l).isSome) →
        List.Forall₂ SaysSearch ts.run ms)
      (fun ds ts ↦ ∀ ms, ds = .ok ms →
        (∀ l ∈ (ts.run.getD []).flatMap BoolTree.leaves, (leafAtoms l).isSome) →
        List.Forall₂ SaysSearch (ts.run.getD []) (ms.getD [])) where
  isGroup _ := rfl
  other v ms _ hP := by
    have hmem : (⟨"", "", v⟩ : Leaf) ∈ (treeBuilder.other v).run.flatMap BoolTree.leaves := by
      simp [treeBuilder, stray, Id.run]
    cases hP _ hmem
  leaf obj ms hms hP := by
    have hleaf : (treeBuilder.leaf obj).run =
        if (fieldParts obj).isEmpty then [] else [.all ((fieldParts obj).map .leaf)] := rfl
    obtain ⟨clauses, hclauses, hms⟩ := map_eq_ok.mp hms
    rw [hleaf] at hP ⊢
    subst hms
    split_ifs at hP ⊢ with hempty
    · rw [List.isEmpty_iff] at hempty
      have hnone : ∀ l ∈ fieldParts obj, (leafAtoms l).isSome := by simp [hempty]
      obtain ⟨ms, hms, htold⟩ := searchFields_eq hnone
      rw [hms] at hclauses
      cases hclauses
      rw [hempty] at htold
      cases htold
      exact .nil
    · rw [List.flatMap_singleton, BoolTree.leaves_all, List.flatMap_map] at hP
      obtain ⟨ms, hms, htold⟩ := searchFields_eq fun l hl ↦
        hP l (List.mem_flatMap.mpr ⟨l, hl, by simp⟩)
      rw [hms] at hclauses
      cases hclauses
      have hne : (fieldParts obj).map BoolTree.leaf ≠ [] :=
        mt List.map_eq_nil_iff.mp (mt List.isEmpty_iff.mpr hempty)
      obtain ⟨m, hm, hfilter⟩ := saysSearch_filter hne htold
      rw [Option.bind_some, hm]
      exact .cons hfilter .nil
  nil ms hms _ := by
    cases hms
    exact .nil
  cons {x x' y y'} h h' ms hms hP := by
    obtain ⟨as, has, hms⟩ := bind_eq_ok.mp hms
    obtain ⟨bs, hbs, hms⟩ := bind_eq_ok.mp hms
    cases hms
    have happ : ∀ l ∈ (y.run ++ y'.run).flatMap BoolTree.leaves, (leafAtoms l).isSome := hP
    rw [List.flatMap_append, List.forall_mem_append] at happ
    exact List.rel_append (h as has happ.1) (h' bs hbs happ.2)
  absent ms hms _ := by
    cases hms
    exact .nil
  array {key vs x y} h ms hms hP := by
    obtain ⟨_, -, hms⟩ := bind_eq_ok.mp hms
    obtain ⟨as, has, hms⟩ := bind_eq_ok.mp hms
    obtain ⟨_, -, hms⟩ := bind_eq_ok.mp hms
    cases hms
    exact h as has hP
  notArray _ ms hms _ := by
    cases hms
    exact .nil
  group {obj x x' y y'} h h' ms hms hP := by
    obtain ⟨as, has, hms⟩ := bind_eq_ok.mp hms
    obtain ⟨bs, hbs, hms⟩ := bind_eq_ok.mp hms
    cases hms
    have hleaves : ∀ l ∈ (treeBuilder.group obj y.run y'.run).run.flatMap BoolTree.leaves,
        (leafAtoms l).isSome := hP
    have hstray : ∀ key v, ¬(leafAtoms ⟨key, "", v⟩).isSome = true := by
      intro key v h
      cases h
    obtain ⟨hgroup, hand, hor⟩ := group_of_forall hstray hleaves
    have hparts := combines_search.group (h as has hand) (h' bs hbs hor)
    rw [← hgroup] at hparts
    exact hparts

/-- A value with operators has a tree. -/
theorem simulates_ne_nil :
    GroupBuilder.Simulates searchBuilder treeBuilder
      (fun ds ts ↦ ∀ ms, ds = .ok ms → ms ≠ [] → ts.run ≠ [])
      (fun ds ts ↦ ∀ ms, ds = .ok ms → ms.getD [] ≠ [] → ts.run.getD [] ≠ []) where
  isGroup _ := rfl
  other _ _ _ _ := List.cons_ne_nil _ _
  leaf obj ms hms hne := by
    have hleaf : (treeBuilder.leaf obj).run =
        if (fieldParts obj).isEmpty then [] else [.all ((fieldParts obj).map .leaf)] := rfl
    rw [hleaf]
    split_ifs with hempty
    · rw [List.isEmpty_iff] at hempty
      have hnone : ∀ l ∈ fieldParts obj, (leafAtoms l).isSome := by simp [hempty]
      obtain ⟨ns, hns, htold⟩ := searchFields_eq hnone
      obtain ⟨clauses, hclauses, rfl⟩ := map_eq_ok.mp hms
      rw [hns] at hclauses
      cases hclauses
      rw [hempty] at htold
      cases htold
      exact absurd rfl hne
    · exact List.cons_ne_nil _ _
  nil ms hms hne := by
    cases hms
    exact absurd rfl hne
  cons {x x' y y'} h h' ms hms hne := by
    obtain ⟨as, has, hms⟩ := bind_eq_ok.mp hms
    obtain ⟨bs, hbs, hms⟩ := bind_eq_ok.mp hms
    cases hms
    show y.run ++ y'.run ≠ []
    rw [Ne, List.append_eq_nil_iff, not_and_or] at hne ⊢
    exact hne.imp (h as has) (h' bs hbs)
  absent ms hms hne := by
    cases hms
    exact absurd rfl hne
  array {key vs x y} h ms hms hne := by
    obtain ⟨_, -, hms⟩ := bind_eq_ok.mp hms
    obtain ⟨as, has, hms⟩ := bind_eq_ok.mp hms
    obtain ⟨_, -, hms⟩ := bind_eq_ok.mp hms
    cases hms
    exact h as has hne
  notArray _ ms hms hne := by
    cases hms
    exact absurd rfl hne
  group {obj x x' y y'} h h' ms hms hne := by
    obtain ⟨as, has, hms⟩ := bind_eq_ok.mp hms
    obtain ⟨bs, hbs, hms⟩ := bind_eq_ok.mp hms
    cases hms
    show groupParts (armParts .all y.run ++ armParts .any y'.run ++ strays obj) ≠ []
    apply groupParts_ne_nil
    rw [Ne, List.append_eq_nil_iff, List.append_eq_nil_iff, not_and_or, not_and_or]
    left
    by_cases has' : as.getD [] = []
    · right
      refine armParts_ne_nil (h' bs hbs fun hnil ↦ hne ?_)
      have hshould : shouldClause bs = [] := by
        rcases bs with _ | _ | ⟨b, bs⟩
        · rfl
        · rfl
        · cases hnil
      rw [buildSearchGroup, has', hshould]
      rfl
    · exact .inl (armParts_ne_nil (h as has has'))

/-! ## Agreement -/

/-- The MQL filter of a value selects the same documents as its operators, which stand for all
leaves of its tree. -/
def Agrees (conditions : Json) (s : Document) (t : BoolTree Leaf) : Prop :=
  ∃ m w u, parseMongoConditions conditions = some m ∧ readSearch (.document s) = some w ∧
    readMql (.document m) = some u ∧
    (∀ d, w.eval (operatorHolds d) = u.eval (atomHolds d)) ∧
    w.leaves.map some = t.leaves.map leafAtoms

/-- A value with operators has a tree, and they stand for its leaves. -/
theorem exists_treeOf {conditions : Json} {s : Document}
    (hs : parseMongoSearchConditions conditions = .ok (some s)) :
    ∃ t, treeOf conditions = some t ∧
      ((∀ l ∈ t.leaves, (leafAtoms l).isSome) → SaysSearch t s) := by
  have hobject : ∃ obj, conditions = .object obj := by
    cases conditions with
    | object obj => exact ⟨obj, rfl⟩
    | null => cases hs
    | bool _ => cases hs
    | number _ => cases hs
    | string _ => cases hs
    | array _ => cases hs
  obtain ⟨obj, rfl⟩ := hobject
  have hbuild : (if obj.isEmpty then .ok none
      else do
        let ands ← searchBuilder.arrayAt "and" obj
        let ors ← searchBuilder.arrayAt "or" obj
        .ok (buildSearchGroup ands ors)) = Except.ok (some s) := hs
  split_ifs at hbuild
  · cases hbuild
  obtain ⟨as, has, hbuild⟩ := bind_eq_ok.mp hbuild
  obtain ⟨bs, hbs, hbuild⟩ := bind_eq_ok.mp hbuild
  have hsearch : (do
      let ands ← searchBuilder.arrayAt "and" obj
      let ors ← searchBuilder.arrayAt "or" obj
      searchBuilder.group obj ands ors) = Except.ok [s] := by
    rw [has, hbs]
    show Except.ok (buildSearchGroup as bs).toList = _
    rw [Except.ok.inj hbuild]
    rfl
  have hne := simulates_ne_nil.group (simulates_ne_nil.arrayAt "and" obj)
    (simulates_ne_nil.arrayAt "or" obj) [s] hsearch (List.cons_ne_nil _ _)
  have hparts := simulates_searchBuilder.group (simulates_searchBuilder.arrayAt "and" obj)
    (simulates_searchBuilder.arrayAt "or" obj) [s] hsearch
  have hgroup : (treeBuilder.group obj (treeBuilder.arrayAt "and" obj)
      (treeBuilder.arrayAt "or" obj)).run ≠ [] := hne
  obtain ⟨t, ts, hts⟩ := List.exists_cons_of_ne_nil hgroup
  have htree : treeOf (.object obj) = some t := congrArg List.head? hts
  obtain ⟨obj', hobj, -, hsingle⟩ := exists_object_of_treeOf htree
  cases hobj
  refine ⟨t, htree, fun hatoms ↦ ?_⟩
  have hforall : List.Forall₂ SaysSearch [t] [s] := by
    rw [← hsingle]
    refine hparts ?_
    show ∀ l ∈ (treeBuilder.group obj (treeBuilder.arrayAt "and" obj)
      (treeBuilder.arrayAt "or" obj)).run.flatMap BoolTree.leaves, _
    rwa [hsingle, List.flatMap_singleton]
  exact (List.forall₂_cons.mp hforall).1

/-- Where there are operators for a value whose values are plain, its MQL filter agrees with
them exactly when each leaf is an operation the filters have, and the operations that the MQL
filter replaces follow from the others. -/
theorem agrees_iff {conditions : Json} {s : Document}
    (hs : parseMongoSearchConditions conditions = .ok (some s)) :
    ∃ t, treeOf conditions = some t ∧ ((∀ l ∈ t.leaves, PlainValue l) →
      (Agrees conditions s t ↔ (∀ l ∈ t.leaves, (leafAtoms l).isSome) ∧
        ∀ d, (t.settle Leaf.field).eval (leafSays d) = true → t.eval (leafSays d) = true)) := by
  obtain ⟨t, ht, htold⟩ := exists_treeOf hs
  refine ⟨t, ht, fun hplain ↦ ⟨?_, ?_⟩⟩
  · rintro ⟨m, w, u, hm, hw, hu, heval, hleaves⟩
    have hatoms : ∀ l ∈ t.leaves, (leafAtoms l).isSome := by
      intro l hl
      have hmem : leafAtoms l ∈ w.leaves.map some := by
        rw [hleaves]
        exact List.mem_map_of_mem hl
      obtain ⟨atoms, -, hatoms⟩ := List.mem_map.mp hmem
      rw [← hatoms, Option.isSome_some]
    refine ⟨hatoms, fun d hd ↦ ?_⟩
    obtain ⟨w', hw', -, hweval⟩ := htold hatoms
    rw [hw] at hw'
    cases hw'
    obtain ⟨m', hm', -, u', hu', hueval⟩ :=
      exists_parseMongoConditions ht fun l hl ↦ ⟨hatoms l hl, hplain l hl⟩
    rw [hm] at hm'
    cases hm'
    rw [hu] at hu'
    cases hu'
    rw [← hweval, heval, hueval, hd]
  · rintro ⟨hatoms, himp⟩
    obtain ⟨w, hw, hleaves, hweval⟩ := htold hatoms
    obtain ⟨m, hm, -, u, hu, hueval⟩ :=
      exists_parseMongoConditions ht fun l hl ↦ ⟨hatoms l hl, hplain l hl⟩
    refine ⟨m, w, u, hm, hw, hu, fun d ↦ ?_, hleaves⟩
    rw [hweval, hueval, Bool.eq_iff_iff]
    exact ⟨BoolTree.eval_settle_of_eval, himp d⟩


/-! ## Examples -/

section Examples

/-- `{"equals": {"path": …, "value": …}}`. -/
def equalsOperator (path : String) (value : Bson) : Document :=
  [("equals", .document [("path", .string path), ("value", value)])]

def matchOne : Json := .object [("a", .object [("match", .object [("value", number 1)])])]

/-- A match and a range whose only bound is `null`. -/
def emptyRange : Json :=
  .object [("and", .array [matchOne, .object [("b", .object [("range",
    .object [("gt", .null)])])]])]

theorem agrees_iff_matchOne :
    ∃ t, treeOf (.object [("and", .array [matchOne])]) = some t ∧
      ((∀ l ∈ t.leaves, PlainValue l) →
        (Agrees (.object [("and", .array [matchOne])]) (equalsOperator "a" (.int64 1)) t ↔
          (∀ l ∈ t.leaves, (leafAtoms l).isSome) ∧
          ∀ d, (t.settle Leaf.field).eval (leafSays d) = true → t.eval (leafSays d) = true)) :=
  agrees_iff rfl

theorem plainValue_number (field op key : String) (n : ℕ) :
    PlainValue ⟨field, op, .object [(key, number n)]⟩ := by
  intro _ v hv
  have hmem := Json.mem_of_getEntry hv
  rw [List.mem_singleton, Prod.mk.injEq] at hmem
  rw [hmem.2]
  exact ⟨rfl, rfl⟩

/-- A leaf without an operator is dropped; of two operations on one field, the MQL filter has
only the second one. -/
theorem not_agrees :
    (∃ s t, parseMongoSearchConditions emptyRange = .ok (some s) ∧ treeOf emptyRange = some t ∧
      (∀ l ∈ t.leaves, PlainValue l) ∧ ¬Agrees emptyRange s t) ∧
    ∃ s t, parseMongoSearchConditions twoOps = .ok (some s) ∧ treeOf twoOps = some t ∧
      (∀ l ∈ t.leaves, PlainValue l) ∧ ¬Agrees twoOps s t := by
  refine ⟨⟨equalsOperator "a" (.int64 1), _, rfl, rfl, ?_, ?_⟩, ⟨_, _, rfl, rfl, ?_, ?_⟩⟩
  · show ∀ l ∈ ([⟨"a", "match", .object [("value", number 1)]⟩,
      ⟨"b", "range", .object [("gt", .null)]⟩] : List Leaf), PlainValue l
    rw [List.forall_mem_cons, List.forall_mem_singleton]
    exact ⟨plainValue_number _ _ _ _, fun hop ↦ by simp at hop⟩
  · rintro ⟨m, w, u, hm, hw, hu, heval, hleaves⟩
    cases hw
    cases hleaves
  · show ∀ l ∈ sizeOps.map fun o ↦ (⟨"size", o.1, o.2⟩ : Leaf), PlainValue l
    rw [sizeOps, List.map_cons, List.map_singleton, List.forall_mem_cons,
      List.forall_mem_singleton]
    exact ⟨plainValue_number _ _ _ _, plainValue_number _ _ _ _⟩
  · rintro ⟨m, w, u, hm, hw, hu, heval, hleaves⟩
    cases hm
    cases hw
    cases hu
    have hdiffers := heval size7
    exact absurd hdiffers (by decide)

end Examples

end VectorDbBenchmark.Mongo
