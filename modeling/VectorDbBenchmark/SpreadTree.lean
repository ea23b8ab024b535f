import VectorDbBenchmark.Kit.Projection
import VectorDbBenchmark.Kit.Splicing
import VectorDbBenchmark.TreeTruth

/-!
# Builders that list operations in the group around their entry

Where a builder adds the operations of an entry to the list of the group the entry stands in,
what it makes of a condition tree says what the spread tree says.
-/

namespace VectorDbBenchmark.ConditionTree

open Kit Redis

/-! ## Groups have members -/

theorem filled_groupTree {ts us : Option (List (BoolTree Leaf))} {t : BoolTree Leaf}
    (h : groupTree ts us = some t) (hts : ∀ ts' ∈ ts, ts' ≠ [] ∧ ∀ t ∈ ts', t.Filled)
    (hus : ∀ us' ∈ us, us' ≠ [] ∧ ∀ t ∈ us', t.Filled) : t.Filled := by
  rcases ts with _ | ts <;> rcases us with _ | us <;> cases h
  · exact .any (hus us rfl).1 (hus us rfl).2
  · exact .all (hts ts rfl).1 (hts ts rfl).2
  · refine .all (List.cons_ne_nil _ _) ?_
    rw [List.forall_mem_cons, List.forall_mem_singleton]
    exact ⟨.all (hts ts rfl).1 (hts ts rfl).2, .any (hus us rfl).1 (hus us rfl).2⟩

mutual

/-- No group of a tree is empty. -/
theorem filled_of_ofEntry {v : Json} {t : BoolTree Leaf} (h : ofEntry v = some t) : t.Filled := by
  match v with
  | .object obj =>
      cases hgroup : containsKey "and" obj || containsKey "or" obj with
      | false =>
          obtain ⟨-, hne, rfl⟩ := ofEntry_fields hgroup h
          exact .all (mt List.map_eq_nil_iff.mp hne) (List.forall_mem_map.mpr fun l _ ↦ .leaf l)
      | true =>
          obtain ⟨-, ts, us, hts, hus, htree⟩ := exists_group_of_ofEntry hgroup h
          exact filled_groupTree htree (filled_of_ofKey hts) (filled_of_ofKey hus)
  | .null => cases h
  | .bool _ => cases h
  | .number _ => cases h
  | .string _ => cases h
  | .array _ => cases h

theorem filled_of_ofEntries {vs : List Json} {ts : List (BoolTree Leaf)}
    (h : ofEntries vs = some ts) : ∀ t ∈ ts, t.Filled := by
  match vs with
  | [] =>
      cases h
      exact List.forall_mem_nil _
  | v :: vs =>
      rw [ofEntries] at h
      obtain ⟨t, ht, h⟩ := Option.bind_eq_some_iff.mp h
      obtain ⟨us, hus, h⟩ := Option.bind_eq_some_iff.mp h
      cases h
      exact List.forall_mem_cons.mpr ⟨filled_of_ofEntry ht, filled_of_ofEntries hus⟩

theorem filled_of_ofKey {key : String} {obj : List (String × Json)}
    {ts : Option (List (BoolTree Leaf))} (h : ofKey key obj = some ts) :
    ∀ ts' ∈ ts, ts' ≠ [] ∧ ∀ t ∈ ts', t.Filled := by
  match obj with
  | [] =>
      cases h
      rintro ts' ⟨⟩
  | (k, w) :: es =>
      rw [ofKey] at h
      split_ifs at h
      · obtain ⟨us, hus, rfl⟩ := Option.map_eq_some_iff.mp h
        rintro ts' ⟨⟩
        exact filled_of_ofArray hus
      · exact filled_of_ofKey h

theorem filled_of_ofArray {v : Json} {ts : List (BoolTree Leaf)} (h : ofArray v = some ts) :
    ts ≠ [] ∧ ∀ t ∈ ts, t.Filled := by
  match v with
  | .array (w :: ws) =>
      rw [ofArray] at h
      exact ⟨ne_nil_of_ofEntries h, filled_of_ofEntries h⟩
  | .array [] => cases h
  | .null => cases h
  | .bool _ => cases h
  | .number _ => cases h
  | .string _ => cases h
  | .object _ => cases h

end

/-- A tree has a leaf. -/
theorem exists_leaf_of_ofEntry {v : Json} {t : BoolTree Leaf} (h : ofEntry v = some t) :
    ∃ l, l ∈ t.leaves := List.exists_mem_of_ne_nil _ (filled_of_ofEntry h).leaves_ne_nil

namespace GroupBuilder

variable {m : Type → Type} [Monad m] {β D : Type}

/-- What a builder makes of a group, and of the operations of an entry. -/
structure Spreads (B : GroupBuilder m β) (o : Outcome m) (P : Leaf → Prop)
    (holds : D → Leaf → Bool) (Says : (D → Bool) → β → Prop) : Prop extends Groups B o Says where
  leaf : ∀ {obj}, (containsKey "and" obj || containsKey "or" obj) = false →
    (∀ e ∈ obj, e.2.asObject.isSome = true) → (∀ l ∈ fieldLeaves obj, P l) →
    o.Holds (List.Forall₂ Says ((fieldLeaves obj).map fun l d ↦ holds d l)) (B.leaf obj)

section Follows

variable (o : Outcome m) (holds : D → Leaf → Bool) (Says : (D → Bool) → β → Prop)

/-- What the clauses of entries say. -/
def truths (ts : List (BoolTree Leaf)) : List (D → Bool) :=
  (ts.flatMap fun t ↦ t.spread.splice).map fun u d ↦ u.eval (holds d)

/-- Clauses of entries, which are no leaves. -/
def SpreadEach (ts : List (BoolTree Leaf)) (x : m (List β)) : Prop :=
  (∀ t ∈ ts, t.isLeaf = false) ∧ o.Holds (List.Forall₂ Says (truths holds ts)) x

def SpreadArm (ts : Option (List (BoolTree Leaf))) (x : m (Option (List β))) : Prop :=
  (∀ t ∈ ts.getD [], t.isLeaf = false) ∧ o.Holds (Arm Says (ts.map (truths holds))) x

end Follows

variable {B : GroupBuilder m β} {o : Outcome m} {P : Leaf → Prop} {holds : D → Leaf → Bool}
  {Says : (D → Bool) → β → Prop}

theorem truths_append (ts us : List (BoolTree Leaf)) :
    truths holds (ts ++ us) = truths holds ts ++ truths holds us := by
  rw [truths, List.flatMap_append, List.map_append, truths, truths]

theorem truths_ne_nil {ts : List (BoolTree Leaf)} (hne : ts ≠ []) : truths holds ts ≠ [] := by
  obtain ⟨t, ts, rfl⟩ := List.exists_cons_of_ne_nil hne
  intro hnil
  rw [truths, List.map_eq_nil_iff, List.flatMap_cons, List.append_eq_nil_iff] at hnil
  exact BoolTree.splice_ne_nil _ hnil.1

variable (holds) in
theorem truths_all (ts : List (BoolTree Leaf)) (d : D) :
    ((truths holds ts).all fun f ↦ f d) = ts.all fun t ↦ t.spread.eval (holds d) := by
  rw [truths, List.all_map, List.all_flatMap]
  apply all_congr_of_mem
  intro t _
  exact BoolTree.all_splice t.spread

theorem truths_any (us : List (BoolTree Leaf)) (d : D) :
    ((truths holds us).any fun f ↦ f d) = (BoolTree.any us).spread.eval (holds d) := by
  rw [truths, List.any_map, BoolTree.spread_any, BoolTree.eval_any]
  rfl

variable (holds) in
/-- A group of entries is no leaf, and is spread as a whole. -/
theorem truths_group {ts us : Option (List (BoolTree Leaf))} {t : BoolTree Leaf}
    (htree : groupTree ts us = some t) (hts : ∀ t ∈ ts.getD [], t.isLeaf = false)
    (hus : ∀ t ∈ us.getD [], t.isLeaf = false) :
    t.isLeaf = false ∧
      truths holds [t] = [groupTruth (ts.map (truths holds)) (us.map (truths holds))] := by
  have hone : ∀ {t : BoolTree Leaf}, t.spread.splice = [t.spread] →
      truths holds [t] = [fun d ↦ t.spread.eval (holds d)] := by
    intro t ht
    rw [truths, List.flatMap_singleton, ht]
    rfl
  have hgroups : ∀ {ts : List (BoolTree Leaf)}, (∀ t ∈ ts, t.isLeaf = false) →
      (BoolTree.all ts).spread.splice = [(BoolTree.all ts).spread] := by
    intro ts hts
    rw [BoolTree.spread_all]
    apply BoolTree.splice_all_groups
    rw [List.forall_mem_map]
    exact fun t ht ↦ (BoolTree.isLeaf_spread t).trans (hts t ht)
  rcases ts with _ | ts <;> rcases us with _ | us
  · cases htree
  · cases htree
    refine ⟨rfl, ?_⟩
    rw [hone (by rw [BoolTree.spread_any]; rfl)]
    congr 1
    funext d
    exact (truths_any us d).symm
  · cases htree
    have hts : ∀ t ∈ ts, t.isLeaf = false := hts
    refine ⟨rfl, ?_⟩
    rw [hone (hgroups hts)]
    congr 1
    funext d
    rw [BoolTree.spread_all, BoolTree.eval_all, List.all_map]
    exact (truths_all holds ts d).symm.trans (Bool.and_true _).symm
  · cases htree
    refine ⟨rfl, ?_⟩
    have hpair : ∀ t ∈ [BoolTree.all ts, BoolTree.any us], t.isLeaf = false := by
      simp [BoolTree.isLeaf]
    rw [hone (hgroups hpair)]
    congr 1
    funext d
    rw [BoolTree.spread_all, BoolTree.eval_all, List.map_cons, List.map_singleton, List.all_cons,
      List.all_cons, List.all_nil, Bool.and_true, ← truths_any us d, BoolTree.spread_all,
      BoolTree.eval_all, List.all_map]
    exact congrArg (· && _) (truths_all holds ts d).symm

/-- Whatever such a builder makes of a tree says what the spread tree says. -/
theorem Spreads.follows (hB : Spreads B o P holds Says) :
    B.Follows P (fun t x ↦ SpreadEach o holds Says [t] x) (SpreadEach o holds Says)
      (SpreadArm o holds Says) where
  isGroup := hB.isGroup
  leaf {obj t} hnot _ ht hP := by
    obtain ⟨hfields, hne, rfl⟩ := ofEntry_fields hnot ht
    refine ⟨List.forall_mem_singleton.mpr rfl, ?_⟩
    have hspread : ((fieldLeaves obj).map BoolTree.leaf).map BoolTree.spread =
        (fieldLeaves obj).map BoolTree.leaf := by
      rw [List.map_map]
      exact List.map_congr_left fun l _ ↦ BoolTree.spread_leaf l
    have htruths : truths holds [.all ((fieldLeaves obj).map .leaf)] =
        (fieldLeaves obj).map fun l d ↦ holds d l := by
      rw [truths, List.flatMap_singleton, BoolTree.spread_all, hspread,
        BoolTree.splice_leaves hne, List.map_map]
      apply List.map_congr_left
      intro l _
      funext d
      exact BoolTree.eval_leaf l
    rw [htruths]
    apply hB.leaf hnot hfields
    intro l hl
    apply hP
    rw [BoolTree.leaves_all, List.flatMap_map]
    exact List.mem_flatMap.mpr ⟨l, hl, by simp⟩
  nil := ⟨List.forall_mem_nil _, o.pure .nil⟩
  cons {t ts x xs} hx hxs := by
    refine ⟨List.forall_mem_cons.mpr ⟨hx.1 t List.mem_cons_self, hxs.1⟩, ?_⟩
    apply o.bind hx.2
    intro bs hbs
    apply o.bind hxs.2
    intro cs hcs
    apply o.pure
    rw [← List.singleton_append, truths_append]
    exact List.rel_append hbs hcs
  absent := ⟨List.forall_mem_nil _, o.pure .none⟩
  array {key v vs ts x} hts hx := by
    refine ⟨hx.1, ?_⟩
    apply o.bind (hB.enter _ _)
    intro _ _
    apply o.bind hx.2
    intro bs hbs
    apply o.bind (hB.leave _ _)
    intro _ _
    exact o.pure (.some ⟨truths_ne_nil (ne_nil_of_ofEntries hts), hbs⟩)
  group {obj t ts us x y} hg _ hx hy := by
    have hwhole := truths_group holds hg.tree hx.1 hy.1
    refine ⟨List.forall_mem_singleton.mpr hwhole.1, ?_⟩
    rw [hwhole.2]
    apply o.bind hx.2
    intro ands hands
    apply o.bind hy.2
    intro ors hors
    refine hB.group hg ?_ hands hors
    rw [Option.isSome_map, Option.isSome_map]
    exact isSome_of_groupTree hg.tree

end GroupBuilder

end VectorDbBenchmark.ConditionTree
