import VectorDbBenchmark.ConditionParts
import VectorDbBenchmark.Mongo.Filter

/-!
# What an MQL filter says

The filter of a tree of operations is read as the tree in which, of several operations on one
field of an entry, the last one is left.
-/

namespace VectorDbBenchmark.Mongo

open Kit Redis ConditionTree

/-! ## Operands -/

/-- A scalar stands for the same value in a filter. -/
theorem scalar_jsonToBson {v : Json} (h : (scalar v).isSome) :
    (jsonToBson v).scalar = scalar v := by
  cases v with
  | bool b => rw [jsonToBson]; rfl
  | string s => rw [jsonToBson]; rfl
  | number n =>
      rw [jsonToBson, numberToBson, scalar]
      rcases n.asI64 with _ | i
      · rcases n.asF64 with _ | f <;> rfl
      · rfl
  | null => cases h
  | array _ => cases h
  | object _ => cases h

/-- The value that a field is equal to is no document and no array. -/
def PlainValue (l : Leaf) : Prop :=
  l.op = "match" → ∀ v, l.criteria.get "value" = some v → v.asArray = none ∧ v.asObject = none

/-- An operation these filters have, with a plain value. -/
structure Readable (l : Leaf) : Prop where
  isSome : (leafAtoms l).isSome
  plain : PlainValue l

/-! ## Clauses -/

/-- The clause of an operation on a field. -/
def leafClause (l : Leaf) : Option Bson :=
  match l.op with
  | "match" => matchClause l.criteria
  | "range" => rangeClause l.criteria
  | _ => none

/-- The bounds of a document of operators, whatever their order. -/
theorem readOps_boundDoc (comparison : String → Option Comparison) (field : String)
    (criteria : Json) (keys : List (String × String × Comparison))
    (h : ∀ k ∈ keys, comparison k.2.1 = some k.2.2) :
    readOps comparison field (boundDoc criteria (keys.map fun k ↦ (k.1, k.2.1))) =
      some (keys.filterMap fun k ↦
        (given criteria k.1).map fun b ↦ ⟨field, k.2.2, jsonToBson b⟩) := by
  rw [boundDoc, List.filterMap_map]
  induction keys with
  | nil => rfl
  | cons k keys ih =>
      rw [List.forall_mem_cons] at h
      rw [List.filterMap_cons, List.filterMap_cons, Function.comp_apply]
      rcases given criteria k.1 with _ | b
      · exact ih h.2
      · show readOps comparison field ((k.2.1, jsonToBson b) :: _) = _
        rw [readOps, h.1, ih h.2]
        rfl

def mqlKeys : List (String × String × Comparison) :=
  [("gt", "$gt", .gt), ("lt", "$lt", .lt), ("gte", "$gte", .gte), ("lte", "$lte", .lte)]

theorem readOps_mqlBounds (field : String) (criteria : Json) :
    ∃ atoms, readOps mqlComparison field (boundDoc criteria mqlBounds) = some atoms ∧
      atoms.Perm (boundAtoms field criteria) := by
  have hkeys : ∀ k ∈ mqlKeys, mqlComparison k.2.1 = some k.2.2 := by
    simp [mqlKeys, mqlComparison]
  refine ⟨_, readOps_boundDoc mqlComparison field criteria mqlKeys hkeys, ?_⟩
  have hperm : (mqlKeys.map fun k ↦ (k.1, k.2.2)).Perm comparisons := by
    rw [mqlKeys, comparisons]
    exact .cons _ (.swap _ _ _)
  have hmap := hperm.filterMap fun k ↦
    (given criteria k.1).map fun b ↦ (⟨field, k.2, jsonToBson b⟩ : Atom)
  rwa [List.filterMap_map] at hmap

theorem isEmpty_boundDoc (field : String) (criteria : Json) :
    (boundDoc criteria mqlBounds).isEmpty = (boundAtoms field criteria).isEmpty := by
  simp only [boundDoc, boundAtoms, mqlBounds, comparisons, List.filterMap_cons, List.filterMap_nil]
  rcases given criteria "gt" with _ | _ <;> rcases given criteria "lt" with _ | _ <;>
    rcases given criteria "gte" with _ | _ <;> rcases given criteria "lte" with _ | _ <;> rfl

theorem readMqlEntry_plain (key : String) {v : Json} (harray : v.asArray = none)
    (hobject : v.asObject = none) :
    readMqlEntry key (jsonToBson v) = some (.leaf ⟨key, .eq, jsonToBson v⟩) := by
  cases v with
  | array _ => cases harray
  | object _ => cases hobject
  | null => rw [jsonToBson, readMqlEntry] <;> simp
  | bool b => rw [jsonToBson, readMqlEntry] <;> simp
  | string s => rw [jsonToBson, readMqlEntry] <;> simp
  | number n =>
      rw [jsonToBson, numberToBson]
      rcases n.asI64 with _ | i
      · rcases n.asF64 with _ | f
        · rw [readMqlEntry] <;> simp
        · rw [readMqlEntry] <;> simp
      · rw [readMqlEntry] <;> simp

/-- What the comparisons of a leaf are. -/
theorem leafAtoms_eq_some {l : Leaf} {atoms : List Atom} (h : leafAtoms l = some atoms) :
    (l.op = "match" ∧ ∃ any, (l.criteria.get "any").bind Json.asArray = some any ∧
      atoms = [⟨l.field, .isIn, .array (any.map jsonToBson)⟩]) ∨
    (l.op = "match" ∧ (l.criteria.get "any").bind Json.asArray = none ∧
      ∃ v, l.criteria.get "value" = some v ∧ atoms = [⟨l.field, .eq, jsonToBson v⟩]) ∨
    (l.op = "range" ∧ (boundAtoms l.field l.criteria).isEmpty = false ∧
      atoms = boundAtoms l.field l.criteria) := by
  unfold leafAtoms at h
  split at h
  · next hop =>
      cases hany : (l.criteria.get "any").bind Json.asArray with
      | some any =>
          rw [hany] at h
          exact .inl ⟨hop, any, rfl, (Option.some.inj h).symm⟩
      | none =>
          rw [hany] at h
          obtain ⟨v, hv, rfl⟩ := Option.map_eq_some_iff.mp h
          exact .inr (.inl ⟨hop, rfl, v, hv, rfl⟩)
  · next hop =>
      split_ifs at h with hempty
      exact .inr (.inr ⟨hop, Bool.eq_false_iff.mpr hempty, (Option.some.inj h).symm⟩)
  · cases h

/-- The clause of an operation is read as its comparisons. -/
theorem exists_leafClause {l : Leaf} (h : Readable l) :
    ∃ b w, leafClause l = some b ∧ readMqlEntry l.field b = some w ∧
      ∀ d, w.eval (atomHolds d) = leafSays d l := by
  obtain ⟨atoms, hatoms⟩ := Option.isSome_iff_exists.mp h.isSome
  have htold : ∀ d, leafSays d l = operatorHolds d atoms := by
    intro d
    rw [leafSays, hatoms, Option.all_some]
  unfold leafClause
  rcases leafAtoms_eq_some hatoms with ⟨hop, any, hany, rfl⟩ | ⟨hop, hany, v, hv, rfl⟩ |
    ⟨hop, hempty, rfl⟩
  · refine ⟨.document [("$in", .array (any.map jsonToBson))],
      .all [.leaf ⟨l.field, .isIn, .array (any.map jsonToBson)⟩], ?_, ?_, ?_⟩
    · rw [hop, matchClause, hany]
      rfl
    · rw [readMqlEntry]
      rfl
    · intro d
      rw [htold, BoolTree.eval_all]
      simp [operatorHolds]
  · obtain ⟨harray, hobject⟩ := h.plain hop v hv
    refine ⟨jsonToBson v, .leaf ⟨l.field, .eq, jsonToBson v⟩, ?_, ?_, ?_⟩
    · rw [hop, matchClause, hany, hv]
      rfl
    · exact readMqlEntry_plain l.field harray hobject
    · intro d
      rw [htold, BoolTree.eval_leaf]
      simp [operatorHolds]
  · obtain ⟨atoms, hread, hperm⟩ := readOps_mqlBounds l.field l.criteria
    refine ⟨.document (boundDoc l.criteria mqlBounds), .all (atoms.map .leaf), ?_, ?_, ?_⟩
    · rw [hop, rangeClause, isEmpty_boundDoc l.field, hempty, if_neg Bool.false_ne_true]
      rfl
    · rw [readMqlEntry, hread]
      rfl
    · intro d
      rw [htold, BoolTree.eval_all, List.all_map, operatorHolds, ← hperm.all_eq]
      rfl

/-! ## Entries -/

/-- Entries are read one after another. -/
theorem exists_readMqlEntries {es : Document}
    (h : ∀ e ∈ es, ∃ w, readMqlEntry e.1 e.2 = some w) :
    ∃ ws, readMqlEntries es = some ws ∧
      ∀ d, ws.all (BoolTree.eval (atomHolds d)) = true ↔
        ∀ e ∈ es, ∀ w, readMqlEntry e.1 e.2 = some w → w.eval (atomHolds d) = true := by
  induction es with
  | nil => exact ⟨[], rfl, fun d ↦ by simp⟩
  | cons e es ih =>
      rw [List.forall_mem_cons] at h
      obtain ⟨w, hw⟩ := h.1
      obtain ⟨ws, hws, heval⟩ := ih h.2
      refine ⟨w :: ws, ?_, fun d ↦ ?_⟩
      · rw [readMqlEntries, hw, hws]
        rfl
      · rw [List.all_cons, Bool.and_eq_true, heval, List.forall_mem_cons, hw]
        simp

/-- An entry of a filter that is read as the comparisons of an operation. -/
structure EntryOf (l : Leaf) (e : String × Bson) : Prop where
  field : e.1 = l.field
  reads : ∃ w, readMqlEntry e.1 e.2 = some w ∧ ∀ d, w.eval (atomHolds d) = leafSays d l

/-- The clauses of operations are inserted one after another. -/
theorem foldlM_addClause {field : String} {ops : List (String × Json)} (clauses : Document)
    (h : ∀ o ∈ ops, Readable ⟨field, o.1, o.2⟩) :
    ∃ new, ops.foldlM (addClause field) clauses = some (insertKeys clauses new) ∧
      List.Forall₂ EntryOf (ops.map fun o ↦ ⟨field, o.1, o.2⟩) new := by
  induction ops generalizing clauses with
  | nil => exact ⟨[], rfl, .nil⟩
  | cons o ops ih =>
      rw [List.forall_mem_cons] at h
      obtain ⟨b, w, hb, hread, heval⟩ := exists_leafClause h.1
      obtain ⟨new, hnew, hclauses⟩ := ih (insertKey field b clauses) h.2
      refine ⟨(field, b) :: new, ?_, .cons ⟨rfl, w, hread, heval⟩ hclauses⟩
      have hadd : addClause field clauses o = some (insertKey field b clauses) := by
        unfold leafClause at hb
        rw [addClause]
        split at hb
        · next hop =>
            have hop : o.1 = "match" := hop
            have hb : matchClause o.2 = some b := hb
            rw [hop, hb]
            rfl
        · next hop =>
            have hop : o.1 = "range" := hop
            have hb : rangeClause o.2 = some b := hb
            rw [hop, hb]
            rfl
        · cases hb
      rw [List.foldlM_cons, hadd]
      exact hnew

theorem addFields_eq {obj : List (String × Json)} (clauses : Document)
    (h : ∀ l ∈ fieldParts obj, Readable l) :
    ∃ new, addFields clauses obj = some (insertKeys clauses new) ∧
      List.Forall₂ EntryOf (fieldParts obj) new := by
  induction obj generalizing clauses with
  | nil => exact ⟨[], rfl, .nil⟩
  | cons e obj ih =>
      obtain ⟨field, v⟩ := e
      rw [fieldParts, List.flatMap_cons, ← fieldParts] at h ⊢
      rw [List.forall_mem_append] at h
      have hobject : ∀ v : Json, (∀ l ∈ [(⟨field, "", v⟩ : Leaf)], Readable l) → False := by
        intro v hv
        have hl := (hv _ (List.mem_singleton_self _)).isSome
        cases hl
      cases v with
      | object ops =>
          have hops : ∀ o ∈ ops, Readable ⟨field, o.1, o.2⟩ :=
            fun o ho ↦ h.1 _ (List.mem_map_of_mem ho)
          obtain ⟨new, hnew, hclauses⟩ := foldlM_addClause clauses hops
          obtain ⟨rest, hrest, hmore⟩ := ih (insertKeys clauses new) h.2
          refine ⟨new ++ rest, ?_, List.rel_append hclauses hmore⟩
          rw [addFields, insertKeys_append, ← hrest]
          show (ops.foldlM (addClause field) clauses).bind _ = _
          rw [hnew]
          rfl
      | null => exact absurd h.1 fun hv ↦ hobject _ hv
      | bool _ => exact absurd h.1 fun hv ↦ hobject _ hv
      | number _ => exact absurd h.1 fun hv ↦ hobject _ hv
      | string _ => exact absurd h.1 fun hv ↦ hobject _ hv
      | array _ => exact absurd h.1 fun hv ↦ hobject _ hv

/-! ## Groups -/

/-- A document that is read as what is left of a tree, which is no single operation. -/
structure SaysMql (t : BoolTree Leaf) (m : Document) : Prop where
  group : t.leafKey Leaf.field = none
  reads : ∃ w, readMql (.document m) = some w ∧
    ∀ d, w.eval (atomHolds d) = (t.settle Leaf.field).eval (leafSays d)

theorem SaysMql.congr {t u : BoolTree Leaf} {m : Document} (h : SaysMql t m)
    (hu : u.leafKey Leaf.field = none)
    (heval : ∀ d, (t.settle Leaf.field).eval (leafSays d) =
      (u.settle Leaf.field).eval (leafSays d)) : SaysMql u m := by
  obtain ⟨w, hw, hweval⟩ := h.reads
  exact ⟨hu, w, hw, fun d ↦ (hweval d).trans (heval d)⟩

/-- The clauses of an entry, of which the last one for each field is left. -/
theorem saysMql_fields {obj : List (String × Json)} (hne : fieldParts obj ≠ [])
    (h : ∀ l ∈ fieldParts obj, Readable l) :
    ∃ m, buildMongoFields obj = some m ∧ SaysMql (.all ((fieldParts obj).map .leaf)) m := by
  obtain ⟨new, hnew, hclauses⟩ := addFields_eq [] h
  have hlasts : List.Forall₂ EntryOf (lastsBy (fun l ↦ some l.field) (fieldParts obj))
      (lastsBy (fun e ↦ some e.1) new) :=
    forall₂_lastsBy (fun l e hl ↦ congrArg some hl.field.symm) hclauses
  have hread : ∀ e ∈ insertKeys [] new, ∃ w, readMqlEntry e.1 e.2 = some w := by
    intro e he
    obtain ⟨l, -, hl⟩ := exists_of_mem_right hlasts (mem_insertKeys_nil.mp he)
    obtain ⟨w, hw, -⟩ := hl.reads
    exact ⟨w, hw⟩
  obtain ⟨ws, hws, heval⟩ := exists_readMqlEntries hread
  have hempty : insertKeys [] new ≠ [] := by
    apply insertKeys_ne_nil
    right
    rintro rfl
    exact hne (List.forall₂_nil_right_iff.mp hclauses)
  refine ⟨insertKeys [] new, ?_, rfl, .all ws, ?_, fun d ↦ ?_⟩
  · rw [buildMongoFields, hnew]
    exact if_neg (mt List.isEmpty_iff.mp hempty)
  · rw [readMql, hws]
    rfl
  · rw [BoolTree.settle_all_leaves, BoolTree.eval_all, BoolTree.eval_all, Bool.eq_iff_iff, heval,
      List.all_map, List.all_eq_true]
    have hentries : (∀ l ∈ lastsBy (fun l ↦ some l.field) (fieldParts obj),
        (BoolTree.leaf l).eval (leafSays d) = true) ↔
        ∀ e ∈ lastsBy (fun e ↦ some e.1) new, ∀ w, readMqlEntry e.1 e.2 = some w →
          w.eval (atomHolds d) = true := by
      refine forall_mem_iff_of_forall₂ hlasts fun l e hl ↦ ?_
      obtain ⟨w, hw, hweval⟩ := hl.reads
      rw [BoolTree.eval_leaf, hw, ← hweval]
      simp
    exact (forall_congr' fun e ↦ imp_congr_left mem_insertKeys_nil).trans hentries.symm

theorem exists_readMqls {ts : List (BoolTree Leaf)} {ds : List Document}
    (h : List.Forall₂ SaysMql ts ds) :
    ∃ ws, readMqls (ds.map .document) = some ws ∧ ∀ d, ws.map (BoolTree.eval (atomHolds d)) =
      (ts.map (BoolTree.settle Leaf.field)).map (BoolTree.eval (leafSays d)) := by
  induction h with
  | nil => exact ⟨[], rfl, fun d ↦ rfl⟩
  | cons ht _ ih =>
      obtain ⟨w, hw, heval⟩ := ht.reads
      obtain ⟨ws, hws, hevals⟩ := ih
      refine ⟨w :: ws, ?_, fun d ↦ ?_⟩
      · rw [List.map_cons, readMqls, hw, hws]
        rfl
      · rw [List.map_cons, List.map_cons, List.map_cons, heval, hevals]

theorem eval_settle_all {ts : List (BoolTree Leaf)} {ds : List Document}
    (h : List.Forall₂ SaysMql ts ds) (d : Record) :
    ((BoolTree.all ts).settle Leaf.field).eval (leafSays d) =
      ((ts.map (BoolTree.settle Leaf.field)).map (BoolTree.eval (leafSays d))).all id := by
  have hkeys : ∀ t ∈ ts, t.leafKey Leaf.field = none := by
    intro t ht
    obtain ⟨m, -, hm⟩ := exists_of_mem_right h.flip ht
    exact hm.group
  rw [BoolTree.settle_all_groups hkeys, BoolTree.eval_all, List.all_map, List.all_map,
    List.all_map]
  rfl

theorem saysMql_and {ts : List (BoolTree Leaf)} {ds : List Document} (hne : ts ≠ [])
    (h : List.Forall₂ SaysMql ts ds) : ∃ m, andClause ds = some m ∧ SaysMql (.all ts) m := by
  rcases h with _ | ⟨ht, hts⟩
  · exact absurd rfl hne
  · rcases hts with _ | ⟨ht', hts⟩
    · refine ⟨_, rfl, ht.congr rfl fun d ↦ ?_⟩
      rw [eval_settle_all (.cons ht .nil)]
      exact (Bool.and_true _).symm
    · have hall := List.Forall₂.cons ht (.cons ht' hts)
      obtain ⟨ws, hws, heval⟩ := exists_readMqls hall
      refine ⟨_, rfl, rfl, .all [.all ws], ?_, fun d ↦ ?_⟩
      · rw [readMql, readMqlEntries, readMqlEntry, if_pos rfl, hws]
        rfl
      · rw [eval_settle_all hall, ← heval, BoolTree.eval_all, List.all_cons, List.all_nil,
          Bool.and_true, BoolTree.eval_all, List.all_map]
        rfl

theorem saysMql_or {ts : List (BoolTree Leaf)} {ds : List Document} (hne : ts ≠ [])
    (h : List.Forall₂ SaysMql ts ds) : ∃ m, orClause (some ds) = [m] ∧ SaysMql (.any ts) m := by
  obtain ⟨ws, hws, heval⟩ := exists_readMqls h
  rcases h with _ | ⟨ht, hts⟩
  · exact absurd rfl hne
  · refine ⟨_, rfl, rfl, .all [.any ws], ?_, fun d ↦ ?_⟩
    · rw [readMql, readMqlEntries, readMqlEntry, if_neg (by simp), if_pos rfl, hws]
      rfl
    · have hany := congrArg (List.any · id) (heval d)
      rw [BoolTree.settle_any, BoolTree.eval_any, BoolTree.eval_all, List.all_cons, List.all_nil,
        Bool.and_true, BoolTree.eval_any]
      rwa [List.any_map, List.any_map] at hany

theorem combines_mql : Combines SaysMql andClause orClause where
  nil := rfl
  one _ := rfl
  none := rfl
  empty := rfl
  all := saysMql_and
  any := saysMql_or
  nest {ts ds u o d} hts hu h := by
    have hall := List.rel_append hts (.cons hu .nil)
    refine h.congr rfl fun d ↦ ?_
    have hkeys : ∀ t ∈ [BoolTree.all ts, u], t.leafKey Leaf.field = Option.none := by
      rw [List.forall_mem_cons, List.forall_mem_singleton]
      exact ⟨rfl, hu.group⟩
    rw [eval_settle_all hall, BoolTree.settle_all_groups hkeys, BoolTree.eval_all,
      List.map_cons, List.map_singleton, List.all_cons, eval_settle_all hts, List.map_append,
      List.map_append, List.all_append]
    rfl

/-- An operation these filters have is one on a field. -/
theorem not_readable_stray (key : String) (v : Json) : ¬Readable ⟨key, "", v⟩ := by
  intro h
  cases h.isSome

/-- The filter of the readable operations of any value says what is left of its tree. -/
theorem simulates_mongoBuilder :
    GroupBuilder.Simulates mongoBuilder treeBuilder
      (fun ds ts ↦ (∀ l ∈ ts.run.flatMap BoolTree.leaves, Readable l) →
        List.Forall₂ SaysMql ts.run ds.run)
      (fun ds ts ↦ (∀ l ∈ (ts.run.getD []).flatMap BoolTree.leaves, Readable l) →
        List.Forall₂ SaysMql (ts.run.getD []) (ds.run.getD [])) where
  isGroup _ := rfl
  other v h := by
    have hmem : (⟨"", "", v⟩ : Leaf) ∈ (treeBuilder.other v).run.flatMap BoolTree.leaves := by
      simp [treeBuilder, stray, Id.run]
    exact absurd (h _ hmem) (not_readable_stray "" v)
  leaf obj hP := by
    have hleaf : (treeBuilder.leaf obj).run =
        if (fieldParts obj).isEmpty then [] else [.all ((fieldParts obj).map .leaf)] := rfl
    rw [hleaf] at hP ⊢
    show List.Forall₂ SaysMql _ (buildMongoFields obj).toList
    split_ifs at hP ⊢ with hempty
    · rw [List.isEmpty_iff] at hempty
      have hreadable : ∀ l ∈ fieldParts obj, Readable l := by simp [hempty]
      obtain ⟨new, hnew, hclauses⟩ := addFields_eq [] hreadable
      rw [hempty] at hclauses
      cases hclauses
      rw [buildMongoFields, hnew]
      exact .nil
    · rw [List.flatMap_singleton, BoolTree.leaves_all, List.flatMap_map] at hP
      obtain ⟨m, hm, htold⟩ := saysMql_fields (mt List.isEmpty_iff.mpr hempty) fun l hl ↦
        hP l (List.mem_flatMap.mpr ⟨l, hl, by simp⟩)
      rw [hm]
      exact .cons htold .nil
  nil _ := .nil
  cons {x x' y y'} h h' hP := by
    have happ : ∀ l ∈ (y.run ++ y'.run).flatMap BoolTree.leaves, Readable l := hP
    rw [List.flatMap_append, List.forall_mem_append] at happ
    exact List.rel_append (h happ.1) (h' happ.2)
  absent _ := .nil
  array h hP := h hP
  notArray _ _ := .nil
  group {obj x x' y y'} h h' hP := by
    have hleaves : ∀ l ∈ (treeBuilder.group obj y.run y'.run).run.flatMap BoolTree.leaves,
        Readable l := hP
    obtain ⟨hgroup, hand, hor⟩ := group_of_forall not_readable_stray hleaves
    have hparts := combines_mql.group (h hand) (h' hor)
    rw [← hgroup] at hparts
    exact hparts

/-- The filter of readable operations is there and says what is left of their tree. -/
theorem exists_parseMongoConditions {v : Json} {t : BoolTree Leaf} (ht : treeOf v = some t)
    (hP : ∀ l ∈ t.leaves, Readable l) : ∃ m, parseMongoConditions v = some m ∧ SaysMql t m := by
  obtain ⟨obj, rfl, hne, hgroup⟩ := exists_object_of_treeOf ht
  have hand := simulates_mongoBuilder.arrayAt "and" obj
  have hor := simulates_mongoBuilder.arrayAt "or" obj
  have hleaves : ∀ l ∈ [t].flatMap BoolTree.leaves, Readable l := by
    rwa [List.flatMap_singleton]
  rw [← hgroup] at hleaves
  have hfilter : List.Forall₂ SaysMql [t] (buildMongoGroup (mongoBuilder.arrayAt "and" obj)
      (mongoBuilder.arrayAt "or" obj)).toList :=
    hgroup ▸ simulates_mongoBuilder.group hand hor hleaves
  have hparse : parseMongoConditions (.object obj) = buildMongoGroup
      (mongoBuilder.arrayAt "and" obj) (mongoBuilder.arrayAt "or" obj) :=
    if_neg (mt List.isEmpty_iff.mp hne)
  rw [hparse]
  rcases hm : buildMongoGroup _ _ with _ | m
  · rw [hm] at hfilter
    cases hfilter
  · rw [hm] at hfilter
    exact ⟨m, rfl, (List.forall₂_cons.mp hfilter).1⟩

/-! ## The filter of a condition tree -/

theorem atomHolds_of_ne {d : Record} {a : Atom} (h : a.op ≠ .isIn) :
    atomHolds d a = d.compares a.field a.op a.operand.scalar := by
  unfold atomHolds
  split
  · next hop _ => exact absurd hop h
  · next hop _ => exact absurd hop h
  · rfl

theorem boundAtoms_holds {field : String} {criteria : Json} (d : Record)
    (h : ∀ k ∈ comparisons, ∀ b, given criteria k.1 = some b → (scalar b).isSome) :
    operatorHolds d (boundAtoms field criteria) = comparisons.all fun k ↦
      (given criteria k.1).all fun b ↦ d.compares field k.2 (scalar b) := by
  have hne : ∀ k ∈ comparisons, k.2 ≠ .isIn := by simp [comparisons]
  rw [operatorHolds, boundAtoms, List.all_filterMap]
  refine all_congr_of_mem fun k hk ↦ ?_
  rcases hb : given criteria k.1 with _ | b
  · rfl
  · rw [Option.map_some, Option.all_some]
    exact (atomHolds_of_ne (hne k hk)).trans (by rw [scalar_jsonToBson (h k hk b hb)])

theorem leafAtoms_range {field : String} {criteria : Json}
    (h : boundAtoms field criteria ≠ []) :
    leafAtoms ⟨field, "range", criteria⟩ = some (boundAtoms field criteria) :=
  if_neg (mt List.isEmpty_iff.mp h)

theorem boundAtoms_ne_nil {field : String} {criteria : Json}
    (h : ∃ k ∈ comparisons, (given criteria k.1).isSome) : boundAtoms field criteria ≠ [] := by
  obtain ⟨k, hk, hsome⟩ := h
  obtain ⟨b, hb⟩ := Option.isSome_iff_exists.mp hsome
  have hmem : ⟨field, k.2, jsonToBson b⟩ ∈ boundAtoms field criteria :=
    List.mem_filterMap.mpr ⟨k, hk, by rw [hb, Option.map_some]⟩
  exact List.ne_nil_of_mem hmem

theorem WellFormed.readable {l : Leaf} (h : WellFormed l) : Readable l := by
  have hplain : ∀ {v : Json}, (scalar v).isSome → v.asArray = none ∧ v.asObject = none := by
    intro v hv
    cases v with
    | array _ => cases hv
    | object _ => cases hv
    | null => cases hv
    | bool _ => exact ⟨rfl, rfl⟩
    | number _ => exact ⟨rfl, rfl⟩
    | string _ => exact ⟨rfl, rfl⟩
  cases h with
  | any field vs h =>
      refine ⟨rfl, fun _ v hv ↦ ?_⟩
      simp [Json.get, Json.getEntry] at hv
  | value field v h =>
      refine ⟨rfl, fun _ w hw ↦ ?_⟩
      cases hw
      exact hplain h
  | range field criteria hbounds hsome =>
      refine ⟨?_, fun hop ↦ by simp at hop⟩
      rw [leafAtoms_range (boundAtoms_ne_nil hsome)]
      rfl

/-- A well-formed leaf means what its comparisons say. -/
theorem WellFormed.leafSays_eq {l : Leaf} (h : WellFormed l) (d : Record) :
    leafSays d l = leafHolds d l := by
  cases h with
  | any field vs h =>
      have hvs : (vs.map jsonToBson).any (fun v ↦ d.compares field .eq v.scalar) =
          vs.any fun v ↦ d.compares field .eq (scalar v) := by
        rw [List.any_map]
        refine any_congr_of_mem fun v hv ↦ ?_
        rw [Function.comp_apply, scalar_jsonToBson (h v hv)]
      exact (Bool.and_true _).trans hvs
  | value field v h =>
      have hatom : atomHolds d ⟨field, .eq, jsonToBson v⟩ = d.compares field .eq (scalar v) := by
        rw [← scalar_jsonToBson h]
        exact atomHolds_of_ne (by simp)
      exact (Bool.and_true _).trans hatom
  | range field criteria hbounds hsome =>
      rw [leafSays, leafAtoms_range (boundAtoms_ne_nil hsome), Option.all_some,
        boundAtoms_holds d hbounds]
      rfl

/-- The filter of a value is there and is true of the documents the tree is true of. -/
def Preserves (conditions : Json) (t : BoolTree Leaf) : Prop :=
  ∃ m w, parseMongoConditions conditions = some m ∧ readMql (.document m) = some w ∧
    ∀ d, w.eval (atomHolds d) = t.eval (leafHolds d)

/-- The filter of a condition tree keeps its meaning exactly when the operations that are
replaced, by a later one on the same field of the same entry, follow from the others; none is
replaced when no entry has two operations on one field. -/
theorem preserves_iff {conditions : Json} {t : BoolTree Leaf}
    (hkeys : conditions.keysDistinct = true) (ht : ofConditions conditions = some t)
    (hwell : ∀ l ∈ t.leaves, WellFormed l) :
    (Preserves conditions t ↔ ∀ d, (t.settle Leaf.field).eval (leafHolds d) = true →
      t.eval (leafHolds d) = true) ∧
    (t.Settled Leaf.field → Preserves conditions t) := by
  obtain ⟨m, hm, -, w, hw, heval⟩ :=
    exists_parseMongoConditions (treeOf_eq_some hkeys ht) fun l hl ↦ (hwell l hl).readable
  have hread : ∀ d, w.eval (atomHolds d) = (t.settle Leaf.field).eval (leafHolds d) := by
    intro d
    rw [heval]
    refine BoolTree.eval_congr_leaves fun l hl ↦ ?_
    exact (hwell l (BoolTree.leaves_settle_subset hl)).leafSays_eq d
  have hiff : Preserves conditions t ↔ ∀ d, (t.settle Leaf.field).eval (leafHolds d) = true →
      t.eval (leafHolds d) = true := by
    constructor
    · rintro ⟨m', w', hm', hw', heval'⟩ d hd
      rw [hm] at hm'
      cases hm'
      rw [hw] at hw'
      cases hw'
      rw [← heval', hread, hd]
    · intro himp
      refine ⟨m, w, hm, hw, fun d ↦ ?_⟩
      rw [hread, Bool.eq_iff_iff]
      exact ⟨himp d, BoolTree.eval_settle_of_eval⟩
  refine ⟨hiff, fun hsettled ↦ hiff.mpr fun d hd ↦ ?_⟩
  rwa [hsettled.settle_eq] at hd

/-! ## Examples -/

section Examples

def number (n : ℕ) : Json := .ofNat n

/-- `{"size": {"match": {"value": 5}}}` and `{"size": {"range": {"gt": 3}}}`. -/
def sizeOps : List (String × Json) :=
  [("match", .object [("value", number 5)]), ("range", .object [("gt", number 3)])]

/-- Two operations on one field. -/
def twoOps : Json := .object [("and", .array [.object [("size", .object sizeOps)]])]

def twoOpsTree : BoolTree Leaf :=
  .all [.all (sizeOps.map fun o ↦ .leaf ⟨"size", o.1, o.2⟩)]

/-- The same in two entries. -/
def oneOpEach : Json :=
  .object [("and", .array (sizeOps.map fun o ↦ .object [("size", .object [o])]))]

def oneOpEachTree : BoolTree Leaf :=
  .all (sizeOps.map fun o ↦ .all [.leaf ⟨"size", o.1, o.2⟩])

theorem wellFormed_sizeOps : ∀ o ∈ sizeOps, WellFormed ⟨"size", o.1, o.2⟩ := by
  rw [sizeOps, List.forall_mem_cons, List.forall_mem_singleton]
  refine ⟨.value _ _ rfl, .range _ _ ?_ ⟨("gt", .gt), by simp [comparisons], rfl⟩⟩
  intro k hk b hb
  have hb : some b = some (number 3) := by
    simp only [comparisons, List.mem_cons, List.not_mem_nil, or_false] at hk
    rcases hk with rfl | rfl | rfl | rfl
    · exact hb.symm
    · cases hb
    · cases hb
    · cases hb
  cases hb
  rfl

theorem preserves_iff_oneOpEach :
    (Preserves oneOpEach oneOpEachTree ↔
      ∀ d, (oneOpEachTree.settle Leaf.field).eval (leafHolds d) = true →
        oneOpEachTree.eval (leafHolds d) = true) ∧
    (oneOpEachTree.Settled Leaf.field → Preserves oneOpEach oneOpEachTree) := by
  have hleaves : oneOpEachTree.leaves = sizeOps.map fun o ↦ ⟨"size", o.1, o.2⟩ := rfl
  refine preserves_iff (by decide) rfl ?_
  rw [hleaves]
  exact List.forall_mem_map.mpr wellFormed_sizeOps

/-- A document of size 7, which the range selects and the match does not. -/
def size7 : Record := fun field ↦ if field = "size" then [.number (.fin 7)] else []

theorem not_preserves_twoOps :
    ofConditions twoOps = some twoOpsTree ∧ (∀ l ∈ twoOpsTree.leaves, WellFormed l) ∧
      ¬Preserves twoOps twoOpsTree := by
  have hleaves : twoOpsTree.leaves = sizeOps.map fun o ↦ ⟨"size", o.1, o.2⟩ := rfl
  refine ⟨rfl, ?_, ?_⟩
  · rw [hleaves]
    exact List.forall_mem_map.mpr wellFormed_sizeOps
  · rintro ⟨m, w, hm, hw, heval⟩
    have htrue : ((parseMongoConditions twoOps).bind fun m ↦ readMql (.document m)).map
        (BoolTree.eval (atomHolds size7)) = some true := by
      decide
    have hfalse : twoOpsTree.eval (leafHolds size7) = false := by
      decide
    rw [hm, Option.bind_some, hw, Option.map_some, heval, hfalse] at htrue
    cases htrue

end Examples

end VectorDbBenchmark.Mongo
