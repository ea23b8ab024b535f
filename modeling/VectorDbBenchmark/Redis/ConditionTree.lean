import VectorDbBenchmark.Kit.GroupSyntax
import VectorDbBenchmark.Kit.TreeWalk
import VectorDbBenchmark.Redis.Hygiene

/-!
# Condition trees

The and/or tree of a conditions value, and the text the filter builder renders for it: when
the filter of every leaf is the rendering of some clauses, so is the filter of the whole
tree, and its clauses make up the same tree.
-/

namespace VectorDbBenchmark.Redis

open Kit GroupSyntax

/-! ## The tree of a conditions value -/

section Tree

variable {α : Type} (leaf : Leaf → Option α)

/-- The tree of a group, from the children under its two keys. -/
def groupTree : Option (List (BoolTree α)) → Option (List (BoolTree α)) → Option (BoolTree α)
  | some ts, none => some (.all ts)
  | none, some us => some (.any us)
  | some ts, some us => some (.all [.all ts, .any us])
  | none, none => none

/-- An entry with one field and one operation. -/
def fieldTree : List (String × Json) → Option (BoolTree α)
  | [(field, .object [(op, criteria)])] => (leaf ⟨field, op, criteria⟩).map .leaf
  | _ => none

/-- Nothing but the two kinds of groups. -/
def groupKeys (obj : List (String × Json)) : Bool := obj.all fun e ↦ e.1 = "and" || e.1 = "or"

mutual

/-- The tree of an entry: a group of nonempty arrays, or one operation on one field. -/
def entryTree : Json → Option (BoolTree α)
  | .object obj =>
    if containsKey "and" obj || containsKey "or" obj then do
      guard (groupKeys obj)
      let ts ← treesAt "and" obj
      let us ← treesAt "or" obj
      groupTree ts us
    else fieldTree leaf obj
  | _ => none

def entryTrees : List Json → Option (List (BoolTree α))
  | [] => some []
  | entry :: entries => do
    let t ← entryTree entry
    let ts ← entryTrees entries
    some (t :: ts)

/-- The trees under a key, none when there is no such key. -/
def treesAt (key : String) : List (String × Json) → Option (Option (List (BoolTree α)))
  | [] => some none
  | (k, v) :: entries => if k = key then (arrayTrees v).map some else treesAt key entries

def arrayTrees : Json → Option (List (BoolTree α))
  | .array (entry :: entries) => entryTrees (entry :: entries)
  | _ => none

end

/-- The tree of a conditions value, which is a group. -/
def conditionTree : Json → Option (BoolTree α)
  | .object obj =>
    if containsKey "and" obj || containsKey "or" obj then entryTree leaf (.object obj) else none
  | _ => none

end Tree

/-! ## Text -/

theorem Query.text_join (sep : String) (qs : List Query) :
    (join sep qs).text = sep.toList.intercalate (qs.map text) := by
  induction qs with
  | nil => rfl
  | cons q qs ih =>
      cases qs with
      | nil =>
          rw [join_singleton]
          exact (List.append_nil _).symm
      | cons q' qs =>
          rw [join_cons_cons, text_append, text_cons, ih, List.map_cons, List.map_cons,
            List.map_cons, List.intercalate_cons_cons, List.append_assoc]
          rfl

/-- A clause in parentheses. -/
theorem Query.text_parens (q : Query) :
    text ([.lit "("] ++ q ++ [.lit ")"]) = '(' :: (q.text ++ [')']) := by
  rw [text_append, text_append]
  rfl

section Expresses

variable {α L : Type} (leafText : L → Text) (R : α → BoolTree L → Prop) (P : L → Prop)

/-- A tree of clauses with the normal form of a tree that is aligned with `t`. -/
def Stands (t : BoolTree α) (u : BoolTree L) : Prop :=
  ∃ w, BoolTree.Aligned R t w ∧ u.flatten = w.flatten

/-- A query that renders clauses which make up the tree `t`. -/
def Expresses (t : BoolTree α) (q : Query) : Prop :=
  ∃ s : Sequence L, q.text = s.render leafText ∧ Stands R t s.tree ∧ ∀ x ∈ s.leaves, P x

/-- The same of one clause in parentheses. -/
def ExpressesGroup (t : BoolTree α) (q : Query) : Prop :=
  ∃ i : Item L, q.text = i.render leafText ∧ Stands R t i.tree ∧ ∀ x ∈ i.leaves, P x

variable {leafText R P}

/-- The clauses of the children. -/
theorem exists_sequences {ts : List (BoolTree α)} {fs : List ParsedFilter}
    (h : List.Forall₂ (fun t f ↦ Expresses leafText R P t f.1) ts fs) :
    ∃ (ss : List (Sequence L)) (ws : List (BoolTree L)),
      fs.map (fun f ↦ f.1.text) = ss.map (Sequence.render leafText) ∧
      List.Forall₂ (BoolTree.Aligned R) ts ws ∧
      (ss.map Sequence.tree).map BoolTree.flatten = ws.map BoolTree.flatten ∧
      ∀ x ∈ ss.flatMap Sequence.leaves, P x := by
  induction h with
  | nil => exact ⟨[], [], rfl, .nil, rfl, fun x hx ↦ absurd hx List.not_mem_nil⟩
  | cons ht _ ih =>
      obtain ⟨s, htext, ⟨w, halign, hflat⟩, hleaves⟩ := ht
      obtain ⟨ss, ws, htexts, haligns, hflats, hrest⟩ := ih
      refine ⟨s :: ss, w :: ws, ?_, .cons halign haligns, ?_, ?_⟩
      · rw [List.map_cons, List.map_cons, htext, htexts]
      · rw [List.map_cons, List.map_cons, List.map_cons, hflat, hflats]
      · intro x hx
        rw [List.flatMap_cons, List.mem_append] at hx
        exact hx.elim (hleaves x) (hrest x)

theorem expressesGroup_all {ts : List (BoolTree α)} {f : ParsedFilter} {fs : List ParsedFilter}
    (h : List.Forall₂ (fun t f ↦ Expresses leafText R P t f.1) ts (f :: fs)) :
    ExpressesGroup leafText R P (.all ts)
      ([.lit "("] ++ Query.join " " ((f :: fs).map Prod.fst) ++ [.lit ")"]) := by
  obtain ⟨ss, ws, htexts, haligns, hflats, hleaves⟩ := exists_sequences h
  cases ss with
  | nil => cases htexts
  | cons s ss =>
      refine ⟨.allOf s ss, ?_, ⟨.all ws, .all haligns, ?_⟩, ?_⟩
      · rw [Query.text_parens, Query.text_join, List.map_map, Item.render_allOf, ← htexts]
        rfl
      · rw [Item.flatten_tree_allOf]
        exact BoolTree.flatten_all_congr hflats
      · rwa [Item.leaves_allOf]

theorem expressesGroup_any {ts : List (BoolTree α)} {f : ParsedFilter} {fs : List ParsedFilter}
    (h : List.Forall₂ (fun t f ↦ Expresses leafText R P t f.1) ts (f :: fs)) :
    ExpressesGroup leafText R P (.any ts)
      ([.lit "("] ++ Query.join " | " ((f :: fs).map Prod.fst) ++ [.lit ")"]) := by
  obtain ⟨ss, ws, htexts, haligns, hflats, hleaves⟩ := exists_sequences h
  cases ss with
  | nil => cases htexts
  | cons s ss =>
      refine ⟨.anyOf s ss, ?_, ⟨.any ws, .any haligns, ?_⟩, ?_⟩
      · rw [Query.text_parens, Query.text_join, List.map_map, Item.render_anyOf, ← htexts]
        rfl
      · rw [Item.flatten_tree_anyOf]
        exact BoolTree.flatten_any_congr hflats
      · rwa [Item.leaves_anyOf]

/-- One group alone. -/
theorem ExpressesGroup.expresses {t : BoolTree α} {q : Query}
    (h : ExpressesGroup leafText R P t q) : Expresses leafText R P t q := by
  obtain ⟨i, htext, hstands, hleaves⟩ := h
  refine ⟨.one i, ?_, ?_, ?_⟩
  · rw [htext, Sequence.render]
  · rwa [Sequence.tree_one]
  · rwa [Sequence.leaves]

/-- Two groups side by side. -/
theorem ExpressesGroup.pair {t t' : BoolTree α} {q q' : Query}
    (h : ExpressesGroup leafText R P t q) (h' : ExpressesGroup leafText R P t' q') :
    Expresses leafText R P (.all [t, t']) (Query.join " " [q, q']) := by
  obtain ⟨i, htext, ⟨w, halign, hflat⟩, hleaves⟩ := h
  obtain ⟨i', htext', ⟨w', halign', hflat'⟩, hleaves'⟩ := h'
  refine ⟨.cons i (.one i'), ?_, ⟨.all [w, w'], .all (.cons halign (.cons halign' .nil)), ?_⟩, ?_⟩
  · rw [Query.join_cons_cons, Query.join_singleton, Query.text_append, Query.text_cons, htext,
      htext', Sequence.render, Sequence.render]
    rfl
  · rw [Sequence.tree_pair]
    refine BoolTree.flatten_all_congr ?_
    rw [List.map_cons, List.map_singleton, hflat, hflat']
    rfl
  · intro x hx
    rw [Sequence.leaves, Sequence.leaves, List.mem_append] at hx
    exact hx.elim (hleaves x) (hleaves' x)

end Expresses

/-! ## What the builder renders -/

section Builder

variable {α L : Type} {leafText : L → Text} {R : α → BoolTree L → Prop} {P : L → Prop}
variable {leaf : Leaf → Option α} {A : α → Prop} {env : NumberEnv} {M : Params}

/-- The parameters of the leaves are in `M`. -/
def Supplied (env : NumberEnv) (M : Params) (ls : List Leaf) (c : ℕ) : Prop :=
  ∀ e ∈ allParams (leafFilters env ls c).1, e ∈ M

theorem Supplied.left {ls ls' : List Leaf} {c : ℕ} (h : Supplied env M (ls ++ ls') c) :
    Supplied env M ls c := by
  intro e he
  refine h e ?_
  rw [leafFilters_append, allParams_append]
  exact List.mem_append_left _ he

theorem Supplied.right {ls ls' : List Leaf} {c c' : ℕ} (h : Supplied env M (ls ++ ls') c)
    (hc : c' = (leafFilters env ls c).2) : Supplied env M ls' c' := by
  subst hc
  intro e he
  refine h e ?_
  rw [leafFilters_append, allParams_append]
  exact List.mem_append_right _ he

/-- The filter of every leaf renders clauses that stand for it. -/
def LeavesExpressed (env : NumberEnv) (leafText : L → Text) (R : α → BoolTree L → Prop)
    (P : L → Prop) (leaf : Leaf → Option α) (A : α → Prop) (M : Params) : Prop :=
  ∀ l a c, leaf l = some a → A a → (∀ e ∈ allParams (leafFilter env l c).1, e ∈ M) →
    ∃ f, (leafFilter env l c).1 = [f] ∧ Expresses leafText R P (.leaf a) f.1

/-- The clauses of the children of a group, in order. -/
abbrev ExpressesEach (leafText : L → Text) (R : α → BoolTree L → Prop) (P : L → Prop) :
    List (BoolTree α) → List ParsedFilter → Prop :=
  List.Forall₂ fun t f ↦ Expresses leafText R P t f.1

/-- The children under one key, and the filters that are built for them. -/
abbrev ExpressesAt (leafText : L → Text) (R : α → BoolTree L → Prop) (P : L → Prop) :
    Option (List (BoolTree α)) → Option (List ParsedFilter) → Prop :=
  Option.Rel fun ts fs ↦ ts ≠ [] ∧ ExpressesEach leafText R P ts fs

theorem exists_andClause {ts : List (BoolTree α)} {fs : List ParsedFilter} (hne : ts ≠ [])
    (h : ExpressesEach leafText R P ts fs) :
    ∃ q, groupClause " " (some fs) = [q] ∧ ExpressesGroup leafText R P (.all ts) q := by
  cases fs with
  | nil =>
      cases h
      exact absurd rfl hne
  | cons f fs => exact ⟨_, rfl, expressesGroup_all h⟩

theorem exists_orClause {us : List (BoolTree α)} {fs : List ParsedFilter} (hne : us ≠ [])
    (h : ExpressesEach leafText R P us fs) :
    ∃ q, groupClause " | " (some fs) = [q] ∧ ExpressesGroup leafText R P (.any us) q := by
  cases fs with
  | nil =>
      cases h
      exact absurd rfl hne
  | cons f fs => exact ⟨_, rfl, expressesGroup_any h⟩

/-- A group with clauses is their conjunction. -/
theorem exists_buildCondition {andFilters orFilters : Option (List ParsedFilter)}
    {q : Query} {qs : List Query}
    (h : groupClause " " andFilters ++ groupClause " | " orFilters = q :: qs) :
    ∃ ps, buildCondition andFilters orFilters = some (Query.join " " (q :: qs), ps) := by
  rw [buildCondition, h]
  exact ⟨_, if_neg Bool.false_ne_true⟩

theorem buildCondition_expresses {ts us : Option (List (BoolTree α))} {t : BoolTree α}
    {andFilters orFilters : Option (List ParsedFilter)} (ht : groupTree ts us = some t)
    (hand : ExpressesAt leafText R P ts andFilters) (hor : ExpressesAt leafText R P us orFilters) :
    ∃ f, buildCondition andFilters orFilters = some f ∧ Expresses leafText R P t f.1 := by
  rcases hand with ⟨hne, hts⟩ | _ <;> rcases hor with ⟨hne', hus⟩ | _
  · obtain ⟨q, hq, hgroup⟩ := exists_andClause hne hts
    obtain ⟨q', hq', hgroup'⟩ := exists_orClause hne' hus
    obtain ⟨ps, hbuild⟩ := exists_buildCondition (congrArg₂ (· ++ ·) hq hq')
    cases ht
    exact ⟨_, hbuild, hgroup.pair hgroup'⟩
  · obtain ⟨q, hq, hgroup⟩ := exists_andClause hne hts
    have hparts : groupClause " " (some _) ++ groupClause " | " none = [q] :=
      congrArg (· ++ groupClause " | " none) hq
    obtain ⟨ps, hbuild⟩ := exists_buildCondition hparts
    rw [Query.join_singleton] at hbuild
    cases ht
    exact ⟨_, hbuild, hgroup.expresses⟩
  · obtain ⟨q', hq', hgroup'⟩ := exists_orClause hne' hus
    have hparts : groupClause " " none ++ groupClause " | " (some _) = [q'] :=
      congrArg (groupClause " " none ++ ·) hq'
    obtain ⟨ps, hbuild⟩ := exists_buildCondition hparts
    rw [Query.join_singleton] at hbuild
    cases ht
    exact ⟨_, hbuild, hgroup'.expresses⟩
  · cases ht

theorem leaves_groupTree {ts us : Option (List (BoolTree α))} {t : BoolTree α}
    (h : groupTree ts us = some t) :
    t.leaves = (ts.getD []).flatMap BoolTree.leaves ++ (us.getD []).flatMap BoolTree.leaves := by
  rcases ts with _ | ts <;> rcases us with _ | us
  · cases h
  · cases h
    exact BoolTree.leaves_any us
  · cases h
    rw [BoolTree.leaves_all]
    exact (List.append_nil _).symm
  · cases h
    rw [BoolTree.leaves_all, List.flatMap_cons, List.flatMap_singleton, BoolTree.leaves_all,
      BoolTree.leaves_any]
    rfl

/-- An entry with one field and one operation is the filter of that leaf. -/
theorem buildLeaves_expresses (hleaf : LeavesExpressed env leafText R P leaf A M)
    {obj : List (String × Json)} {t : BoolTree α} {c : ℕ} (ht : fieldTree leaf obj = some t)
    (hA : ∀ a ∈ t.leaves, A a) (hM : Supplied env M (fieldLeaves obj) c) :
    ∃ f, (buildLeaves env obj c).1 = [f] ∧ Expresses leafText R P t f.1 := by
  unfold fieldTree at ht
  split at ht
  · next field op criteria =>
      obtain ⟨a, ha, rfl⟩ := Option.map_eq_some_iff.mp ht
      rw [BoolTree.leaves_leaf, List.forall_mem_singleton] at hA
      have hone : leafFilters env (fieldLeaves [(field, .object [(op, criteria)])]) c =
          ((leafFilter env ⟨field, op, criteria⟩ c).1 ++ [],
            (leafFilter env ⟨field, op, criteria⟩ c).2) := rfl
      rw [Supplied, hone, List.append_nil] at hM
      rw [buildLeaves_eq, hone, List.append_nil]
      exact hleaf _ a c ha hA hM
  · cases ht

mutual

theorem buildEntry_expresses (hleaf : LeavesExpressed env leafText R P leaf A M) {v : Json}
    {t : BoolTree α} {c : ℕ} (ht : entryTree leaf v = some t) (hA : ∀ a ∈ t.leaves, A a)
    (hM : Supplied env M (entryLeaves v) c) :
    ∃ f, (buildEntry env v c).1 = [f] ∧ Expresses leafText R P t f.1 := by
  match v with
  | .object obj =>
      rw [entryTree] at ht
      rw [entryLeaves] at hM
      rw [buildEntry]
      split_ifs at ht hM ⊢ with hgroup
      · obtain ⟨-, -, ht⟩ := Option.bind_eq_some_iff.mp ht
        obtain ⟨ts, hts, ht⟩ := Option.bind_eq_some_iff.mp ht
        obtain ⟨us, hus, ht⟩ := Option.bind_eq_some_iff.mp ht
        rw [leaves_groupTree ht, List.forall_mem_append] at hA
        have hcounter := (buildArrayAt_agrees env "and" obj c).counter
        obtain ⟨f, hf, hexpr⟩ := buildCondition_expresses ht
          (buildArrayAt_expresses hleaf hts hA.1 hM.left)
          (buildArrayAt_expresses hleaf hus hA.2 (hM.right hcounter))
        refine ⟨f, ?_, hexpr⟩
        dsimp only
        rw [hf]
        rfl
      · exact buildLeaves_expresses hleaf ht hA hM
  | .null => cases ht
  | .bool _ => cases ht
  | .number _ => cases ht
  | .string _ => cases ht
  | .array _ => cases ht

theorem buildSubfilters_expresses (hleaf : LeavesExpressed env leafText R P leaf A M)
    {vs : List Json} {ts : List (BoolTree α)} {c : ℕ}
    (ht : entryTrees leaf vs = some ts) (hA : ∀ a ∈ ts.flatMap BoolTree.leaves, A a)
    (hM : Supplied env M (subfilterLeaves vs) c) :
    ExpressesEach leafText R P ts (buildSubfilters env vs c).1 := by
  match vs with
  | [] =>
      rw [entryTrees] at ht
      cases ht
      exact .nil
  | v :: vs =>
      rw [entryTrees] at ht
      obtain ⟨t, hv, ht⟩ := Option.bind_eq_some_iff.mp ht
      obtain ⟨ts', hvs, ht⟩ := Option.bind_eq_some_iff.mp ht
      cases ht
      rw [subfilterLeaves] at hM
      rw [List.flatMap_cons, List.forall_mem_append] at hA
      obtain ⟨f, hf, hexpr⟩ := buildEntry_expresses hleaf hv hA.1 hM.left
      have hcounter := (buildEntry_agrees env v c).counter
      rw [buildSubfilters]
      dsimp only
      rw [hf]
      exact .cons hexpr (buildSubfilters_expresses hleaf hvs hA.2 (hM.right hcounter))

theorem buildArrayAt_expresses (hleaf : LeavesExpressed env leafText R P leaf A M)
    {key : String} {obj : List (String × Json)} {ts : Option (List (BoolTree α))} {c : ℕ}
    (ht : treesAt leaf key obj = some ts)
    (hA : ∀ a ∈ (ts.getD []).flatMap BoolTree.leaves, A a)
    (hM : Supplied env M (leavesAt key obj) c) :
    ExpressesAt leafText R P ts (buildArrayAt env key obj c).1 := by
  match obj with
  | [] =>
      rw [treesAt] at ht
      cases ht
      exact .none
  | (k, v) :: entries =>
      rw [treesAt] at ht
      rw [leavesAt] at hM
      rw [buildArrayAt]
      split_ifs at ht hM ⊢
      · obtain ⟨ts', hts, rfl⟩ := Option.map_eq_some_iff.mp ht
        exact buildArray_expresses hleaf hts hA hM
      · exact buildArrayAt_expresses hleaf ht hA hM

theorem buildArray_expresses (hleaf : LeavesExpressed env leafText R P leaf A M) {v : Json}
    {ts : List (BoolTree α)} {c : ℕ} (ht : arrayTrees leaf v = some ts)
    (hA : ∀ a ∈ ts.flatMap BoolTree.leaves, A a)
    (hM : Supplied env M (arrayLeaves v) c) :
    ExpressesAt leafText R P (some ts) (buildArray env v c).1 := by
  match v with
  | .array (e :: es) =>
      rw [arrayTrees] at ht
      rw [arrayLeaves] at hM
      refine .some ⟨?_, buildSubfilters_expresses hleaf ht hA hM⟩
      rintro rfl
      rw [entryTrees] at ht
      obtain ⟨t, -, ht⟩ := Option.bind_eq_some_iff.mp ht
      obtain ⟨ts', -, ht⟩ := Option.bind_eq_some_iff.mp ht
      cases ht
  | .array [] => cases ht
  | .null => cases ht
  | .bool _ => cases ht
  | .number _ => cases ht
  | .string _ => cases ht
  | .object _ => cases ht

end

/-- The parameters of a conditions value. -/
def conditionParams (env : NumberEnv) (conditions : Json) : Params :=
  allParams (leafFilters env (visitedLeaves conditions) 0).1

/-- A conditions value that is a tree has a filter, whose text renders clauses that make up
this tree. -/
theorem parseConditions_expresses {conditions : Json} {t : BoolTree α}
    (hleaf : LeavesExpressed env leafText R P leaf A (conditionParams env conditions))
    (ht : conditionTree leaf conditions = some t) (hA : ∀ a ∈ t.leaves, A a) :
    ∃ query, parseConditions env conditions = some (query, conditionParams env conditions) ∧
      Expresses leafText R P t query := by
  unfold conditionTree at ht
  split at ht
  · next obj =>
      split_ifs at ht with hgroup
      have hleaves : entryLeaves (.object obj) = visitedLeaves (.object obj) := by
        rw [entryLeaves, if_pos hgroup, visitedLeaves]
      have hne : obj.isEmpty = false := by
        cases obj with
        | nil => cases hgroup
        | cons e es => rfl
      have hM : Supplied env (conditionParams env (.object obj)) (entryLeaves (.object obj)) 0 := by
        rw [hleaves]
        exact fun e he ↦ he
      obtain ⟨f, hf, hexpr⟩ := buildEntry_expresses hleaf ht hA hM
      have hparse : parseConditions env (.object obj) = some f := by
        rw [buildEntry, if_pos hgroup] at hf
        rw [parseConditions, hne, if_neg Bool.false_ne_true, buildGroup]
        exact Option.toList_eq_singleton_iff.mp hf
      refine ⟨f.1, ?_, hexpr⟩
      rw [hparse, conditionParams, ← (parseConditions_agrees env hparse).2.1]
  · cases ht

theorem nodup_conditionParams (env : NumberEnv) (conditions : Json) :
    (conditionParams env conditions).names.Nodup :=
  (leafFilters_spread env (visitedLeaves conditions) 0).nodup

end Builder

end VectorDbBenchmark.Redis
