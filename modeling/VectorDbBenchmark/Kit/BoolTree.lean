import Mathlib.Data.List.Basic
import VectorDbBenchmark.Kit.Pointwise

/-!
# And/or trees

Trees of conjunctions and disjunctions over leaves of any kind, their truth under a
valuation of the leaves, and the normal form in which no group has a single child or a
child of its own kind (`flatten`).
-/

namespace Kit

universe u v

section Congr

variable {α : Type u} {xs : List α} {p q : α → Bool}

theorem all_congr_of_mem (h : ∀ a ∈ xs, p a = q a) : xs.all p = xs.all q := by
  rw [Bool.eq_iff_iff, List.all_eq_true, List.all_eq_true]
  exact forall₂_congr fun a ha ↦ by rw [h a ha]

theorem any_congr_of_mem (h : ∀ a ∈ xs, p a = q a) : xs.any p = xs.any q := by
  rw [Bool.eq_iff_iff, List.any_eq_true, List.any_eq_true]
  exact exists_congr fun a ↦ and_congr_right fun ha ↦ by rw [h a ha]

end Congr

/-- A conjunction (`all`) or disjunction (`any`) of trees, or a leaf. -/
inductive BoolTree (L : Type u) : Type u where
  | leaf (l : L)
  | all (ts : List (BoolTree L))
  | any (ts : List (BoolTree L))
deriving Repr

namespace BoolTree

variable {L : Type u} {M : Type v}

/-- Induction with one hypothesis for each child of a group. -/
@[elab_as_elim, induction_eliminator]
theorem induct {motive : BoolTree L → Prop} (leaf : ∀ l, motive (.leaf l))
    (all : ∀ ts, (∀ t ∈ ts, motive t) → motive (.all ts))
    (any : ∀ ts, (∀ t ∈ ts, motive t) → motive (.any ts)) (t : BoolTree L) : motive t :=
  BoolTree.rec (motive_2 := fun ts ↦ ∀ t ∈ ts, motive t) leaf all any
    (fun _ h ↦ absurd h List.not_mem_nil)
    (fun _ _ ht hts t' ht' ↦ by
      rcases List.mem_cons.mp ht' with rfl | ht'
      · exact ht
      · exact hts t' ht') t

/-! ## Truth -/

mutual

/-- The truth of a tree. -/
def eval (v : L → Bool) : BoolTree L → Bool
  | leaf l => v l
  | all ts => evalAll v ts
  | any ts => evalAny v ts

/-- Every tree is true. -/
def evalAll (v : L → Bool) : List (BoolTree L) → Bool
  | [] => true
  | t :: ts => eval v t && evalAll v ts

/-- Some tree is true. -/
def evalAny (v : L → Bool) : List (BoolTree L) → Bool
  | [] => false
  | t :: ts => eval v t || evalAny v ts

end

variable {v : L → Bool}

@[simp] theorem eval_leaf (l : L) : (leaf l).eval v = v l := by rw [eval]

theorem evalAll_eq (ts : List (BoolTree L)) : evalAll v ts = ts.all (eval v) := by
  induction ts with
  | nil => rw [evalAll, List.all_nil]
  | cons t ts ih => rw [evalAll, List.all_cons, ih]

theorem evalAny_eq (ts : List (BoolTree L)) : evalAny v ts = ts.any (eval v) := by
  induction ts with
  | nil => rw [evalAny, List.any_nil]
  | cons t ts ih => rw [evalAny, List.any_cons, ih]

@[simp] theorem eval_all (ts : List (BoolTree L)) : (all ts).eval v = ts.all (eval v) := by
  rw [eval, evalAll_eq]

@[simp] theorem eval_any (ts : List (BoolTree L)) : (any ts).eval v = ts.any (eval v) := by
  rw [eval, evalAny_eq]

/-! ## Groups of one kind -/

/-- The children a conjunction takes over from a child. -/
def conjuncts : BoolTree L → List (BoolTree L)
  | all ts => ts
  | t => [t]

/-- The children a disjunction takes over from a child. -/
def disjuncts : BoolTree L → List (BoolTree L)
  | any ts => ts
  | t => [t]

theorem all_conjuncts (t : BoolTree L) : t.conjuncts.all (eval v) = t.eval v := by
  cases t with
  | all ts => exact (eval_all ts).symm
  | leaf l => exact Bool.and_true _
  | any ts => exact Bool.and_true _

theorem any_disjuncts (t : BoolTree L) : t.disjuncts.any (eval v) = t.eval v := by
  cases t with
  | any ts => exact (eval_any ts).symm
  | leaf l => exact Bool.or_false _
  | all ts => exact Bool.or_false _

/-- A single tree stands for itself, more are a group. -/
def collapse (group : List (BoolTree L) → BoolTree L) : List (BoolTree L) → BoolTree L
  | [t] => t
  | ts => group ts

theorem eval_collapse_all (ts : List (BoolTree L)) :
    (collapse all ts).eval v = ts.all (eval v) := by
  rcases ts with _ | ⟨t, _ | ⟨t', ts⟩⟩
  · exact eval_all []
  · exact (Bool.and_true _).symm
  · exact eval_all _

theorem eval_collapse_any (ts : List (BoolTree L)) :
    (collapse any ts).eval v = ts.any (eval v) := by
  rcases ts with _ | ⟨t, _ | ⟨t', ts⟩⟩
  · exact eval_any []
  · exact (Bool.or_false _).symm
  · exact eval_any _

/-! ## Groups of at least two -/

/-- Every group has at least two children, and every leaf satisfies `P`. -/
inductive Wide (P : L → Prop) : BoolTree L → Prop
  | leaf {l : L} (h : P l) : Wide P (.leaf l)
  | all {ts : List (BoolTree L)} (hlen : 2 ≤ ts.length) (h : ∀ t ∈ ts, Wide P t) :
    Wide P (.all ts)
  | any {ts : List (BoolTree L)} (hlen : 2 ≤ ts.length) (h : ∀ t ∈ ts, Wide P t) :
    Wide P (.any ts)

theorem Wide.mono {P Q : L → Prop} (hPQ : ∀ l, P l → Q l) {t : BoolTree L} (h : t.Wide P) :
    t.Wide Q := by
  induction h with
  | leaf hl => exact .leaf (hPQ _ hl)
  | all hlen _ ih => exact .all hlen ih
  | any hlen _ ih => exact .any hlen ih

/-- Collapsed groups have at least two children. -/
theorem Wide.collapse {P : L → Prop} {group : List (BoolTree L) → BoolTree L}
    (hgroup : ∀ ts, 2 ≤ ts.length → (∀ t ∈ ts, Wide P t) → Wide P (group ts))
    {ts : List (BoolTree L)} (hne : ts ≠ []) (h : ∀ t ∈ ts, Wide P t) :
    Wide P (BoolTree.collapse group ts) := by
  rcases ts with _ | ⟨t, _ | ⟨t', ts⟩⟩
  · exact absurd rfl hne
  · exact h t List.mem_cons_self
  · refine hgroup _ ?_ h
    rw [List.length_cons, List.length_cons]
    omega

/-! ## Flattening -/

mutual

/-- Single-child groups are their child, and a group takes over the children of a child
of its own kind. -/
def flatten : BoolTree L → BoolTree L
  | leaf l => leaf l
  | all ts => match ts with
    | [t] => flatten t
    | ts => all ((flattenEach ts).flatMap conjuncts)
  | any ts => match ts with
    | [t] => flatten t
    | ts => any ((flattenEach ts).flatMap disjuncts)

/-- `flatten` of each tree. -/
def flattenEach : List (BoolTree L) → List (BoolTree L)
  | [] => []
  | t :: ts => flatten t :: flattenEach ts

end

theorem flattenEach_eq (ts : List (BoolTree L)) : flattenEach ts = ts.map flatten := by
  induction ts with
  | nil => rw [flattenEach, List.map_nil]
  | cons t ts ih => rw [flattenEach, List.map_cons, ih]

@[simp] theorem flatten_leaf (l : L) : (leaf l).flatten = leaf l := by rw [flatten]

@[simp] theorem flatten_all_singleton (t : BoolTree L) : (all [t]).flatten = t.flatten := by
  rw [flatten]

@[simp] theorem flatten_any_singleton (t : BoolTree L) : (any [t]).flatten = t.flatten := by
  rw [flatten]

theorem flatten_all {ts : List (BoolTree L)} (h : ts.length ≠ 1) :
    (all ts).flatten = all ((ts.map flatten).flatMap conjuncts) := by
  rcases ts with _ | ⟨t, _ | ⟨t', ts⟩⟩
  · rw [flatten, flattenEach_eq]
    exact fun t ht ↦ nomatch ht
  · exact absurd rfl h
  · rw [flatten, flattenEach_eq]
    exact fun t ht ↦ nomatch ht

theorem flatten_any {ts : List (BoolTree L)} (h : ts.length ≠ 1) :
    (any ts).flatten = any ((ts.map flatten).flatMap disjuncts) := by
  rcases ts with _ | ⟨t, _ | ⟨t', ts⟩⟩
  · rw [flatten, flattenEach_eq]
    exact fun t ht ↦ nomatch ht
  · exact absurd rfl h
  · rw [flatten, flattenEach_eq]
    exact fun t ht ↦ nomatch ht

/-- A disjunction of leaves is flat. -/
theorem flatten_any_leaves {ls : List L} (h : ls.length ≠ 1) :
    (any (ls.map leaf)).flatten = any (ls.map leaf) := by
  rw [flatten_any (by rwa [List.length_map]), List.map_map, List.flatMap_map]
  refine congrArg any ?_
  rw [List.map_eq_flatMap]
  refine List.flatMap_congr fun l _ ↦ ?_
  rw [Function.comp_apply, flatten_leaf]
  rfl

/-- Flattening does not change the truth of a tree. -/
theorem eval_flatten (t : BoolTree L) : t.flatten.eval v = t.eval v := by
  induction t with
  | leaf l => rw [flatten_leaf]
  | all ts ih =>
      by_cases h : ts.length = 1
      · obtain ⟨t, rfl⟩ := List.length_eq_one_iff.mp h
        rw [flatten_all_singleton, ih t List.mem_cons_self, eval_all]
        exact (Bool.and_true _).symm
      · rw [flatten_all h, eval_all, eval_all, List.all_flatMap, List.all_map]
        refine all_congr_of_mem fun t ht ↦ ?_
        exact (all_conjuncts _).trans (ih t ht)
  | any ts ih =>
      by_cases h : ts.length = 1
      · obtain ⟨t, rfl⟩ := List.length_eq_one_iff.mp h
        rw [flatten_any_singleton, ih t List.mem_cons_self, eval_any]
        exact (Bool.or_false _).symm
      · rw [flatten_any h, eval_any, eval_any, List.any_flatMap, List.any_map]
        refine any_congr_of_mem fun t ht ↦ ?_
        exact (any_disjuncts _).trans (ih t ht)

/-- Collapsing single groups first makes no difference. -/
theorem flatten_collapse_all (ts : List (BoolTree L)) :
    (collapse all ts).flatten = (all ts).flatten := by
  rcases ts with _ | ⟨t, _ | ⟨t', ts⟩⟩
  · rfl
  · exact (flatten_all_singleton t).symm
  · rfl

theorem flatten_collapse_any (ts : List (BoolTree L)) :
    (collapse any ts).flatten = (any ts).flatten := by
  rcases ts with _ | ⟨t, _ | ⟨t', ts⟩⟩
  · rfl
  · exact (flatten_any_singleton t).symm
  · rfl

/-- The conjuncts of a conjunction are those of its children. -/
theorem conjuncts_flatten_collapse (ts : List (BoolTree L)) :
    (collapse all ts).flatten.conjuncts = (ts.map flatten).flatMap conjuncts := by
  rw [flatten_collapse_all]
  by_cases h : ts.length = 1
  · obtain ⟨t, rfl⟩ := List.length_eq_one_iff.mp h
    rw [flatten_all_singleton]
    exact (List.append_nil _).symm
  · rw [flatten_all h, conjuncts]

/-- Groups with children of the same normal forms have the same normal form. -/
theorem flatten_all_congr {ts us : List (BoolTree L)} (h : ts.map flatten = us.map flatten) :
    (all ts).flatten = (all us).flatten := by
  have hlen := congrArg List.length h
  rw [List.length_map, List.length_map] at hlen
  by_cases h1 : ts.length = 1
  · obtain ⟨t, rfl⟩ := List.length_eq_one_iff.mp h1
    obtain ⟨u, rfl⟩ := List.length_eq_one_iff.mp (hlen ▸ h1)
    rw [flatten_all_singleton, flatten_all_singleton]
    exact (List.cons.inj h).1
  · rw [flatten_all h1, flatten_all (hlen ▸ h1), h]

theorem flatten_any_congr {ts us : List (BoolTree L)} (h : ts.map flatten = us.map flatten) :
    (any ts).flatten = (any us).flatten := by
  have hlen := congrArg List.length h
  rw [List.length_map, List.length_map] at hlen
  by_cases h1 : ts.length = 1
  · obtain ⟨t, rfl⟩ := List.length_eq_one_iff.mp h1
    obtain ⟨u, rfl⟩ := List.length_eq_one_iff.mp (hlen ▸ h1)
    rw [flatten_any_singleton, flatten_any_singleton]
    exact (List.cons.inj h).1
  · rw [flatten_any h1, flatten_any (hlen ▸ h1), h]

/-- Children that are conjunctions themselves, nested or spelt out. -/
theorem flatten_all_flatMap {groups : List (List (BoolTree L))} (h : ∀ g ∈ groups, g ≠ []) :
    (all (groups.flatMap id)).flatten = (all (groups.map (collapse all))).flatten := by
  rcases groups with _ | ⟨g, _ | ⟨g', groups⟩⟩
  · rfl
  · rw [List.map_singleton, flatten_all_singleton, flatten_collapse_all]
    exact congrArg (fun ts ↦ (all ts).flatten) (List.append_nil g)
  · have hg := List.length_pos_of_ne_nil (h g List.mem_cons_self)
    have hg' := List.length_pos_of_ne_nil
      (h g' (List.mem_cons_of_mem _ List.mem_cons_self))
    have hlen : ((g :: g' :: groups).flatMap id).length ≠ 1 := by
      rw [List.flatMap_cons, List.flatMap_cons, List.length_append, List.length_append, id, id]
      omega
    have hlen' : ((g :: g' :: groups).map (collapse all)).length ≠ 1 := by
      rw [List.length_map, List.length_cons, List.length_cons]
      omega
    rw [flatten_all hlen, flatten_all hlen', List.map_map, List.map_flatMap, List.flatMap_assoc,
      List.flatMap_map]
    exact congrArg all (List.flatMap_congr fun g _ ↦ (conjuncts_flatten_collapse g).symm)

end BoolTree

end Kit
