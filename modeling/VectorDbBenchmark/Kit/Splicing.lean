import VectorDbBenchmark.Kit.TreeWalk

/-!
# Conjunctions of leaves that are spliced into their group

A conjunction of leaves may be left out as a group, and its leaves listed in the group around
it.  In a conjunction that makes no difference; in a disjunction it makes the tree weaker.
-/

namespace Kit

namespace BoolTree

universe u

variable {L : Type u} {v : L → Bool}

def isLeaf : BoolTree L → Bool
  | leaf _ => true
  | _ => false

/-- The leaves of a conjunction of leaves, or the tree itself. -/
def splice : BoolTree L → List (BoolTree L)
  | all (t :: ts) => if (t :: ts).all isLeaf then t :: ts else [all (t :: ts)]
  | t => [t]

mutual

/-- The tree in which the conjunctions of leaves are spliced into the disjunctions. -/
def spread : BoolTree L → BoolTree L
  | leaf l => leaf l
  | all ts => all (spreadEach ts)
  | any ts => any ((spreadEach ts).flatMap splice)

def spreadEach : List (BoolTree L) → List (BoolTree L)
  | [] => []
  | t :: ts => spread t :: spreadEach ts

end

theorem spreadEach_eq (ts : List (BoolTree L)) : spreadEach ts = ts.map spread := by
  induction ts with
  | nil => rfl
  | cons t ts ih => exact congrArg (t.spread :: ·) ih

@[simp] theorem spread_leaf (l : L) : (leaf l).spread = leaf l := rfl

@[simp] theorem spread_all (ts : List (BoolTree L)) : (all ts).spread = all (ts.map spread) :=
  congrArg all (spreadEach_eq ts)

@[simp] theorem spread_any (ts : List (BoolTree L)) :
    (any ts).spread = any (ts.flatMap fun t ↦ t.spread.splice) := by
  rw [← List.flatMap_map, ← spreadEach_eq]
  rfl

@[simp] theorem isLeaf_spread (t : BoolTree L) : t.spread.isLeaf = t.isLeaf := by
  cases t with
  | leaf l => rw [spread_leaf]
  | all ts => rw [spread_all]; rfl
  | any ts => rw [spread_any]; rfl

/-! ## Splicing -/

theorem splice_all_cons (t : BoolTree L) (ts : List (BoolTree L)) :
    (all (t :: ts)).splice = if (t :: ts).all isLeaf then t :: ts else [all (t :: ts)] := rfl

theorem splice_of_ne (t : BoolTree L) : t.splice = [t] ∨ ∃ ts, t = all ts ∧ t.splice = ts := by
  cases t with
  | leaf l => exact .inl rfl
  | any ts => exact .inl rfl
  | all ts =>
      cases ts with
      | nil => exact .inl rfl
      | cons t ts =>
          rw [splice_all_cons]
          split_ifs
          · exact .inr ⟨_, rfl, rfl⟩
          · exact .inl rfl

theorem splice_leaves {ls : List L} (h : ls ≠ []) : (all (ls.map leaf)).splice = ls.map leaf := by
  cases ls with
  | nil => exact absurd rfl h
  | cons l ls =>
      rw [List.map_cons, splice_all_cons, if_pos]
      rw [List.all_cons, List.all_map]
      simp [isLeaf]

/-- A group of groups is left as it is. -/
theorem splice_all_groups {ts : List (BoolTree L)} (h : ∀ t ∈ ts, t.isLeaf = false) :
    (all ts).splice = [all ts] := by
  cases ts with
  | nil => rfl
  | cons t ts =>
      rw [splice_all_cons, if_neg]
      rw [List.all_cons, h t List.mem_cons_self]
      exact Bool.false_ne_true

theorem splice_ne_nil (t : BoolTree L) : t.splice ≠ [] := by
  unfold splice
  split
  · split_ifs
    · exact List.cons_ne_nil _ _
    · exact List.cons_ne_nil _ _
  · exact List.cons_ne_nil _ _

theorem leaves_splice (t : BoolTree L) : t.splice.flatMap leaves = t.leaves := by
  rcases splice_of_ne t with h | ⟨ts, rfl, h⟩
  · rw [h, List.flatMap_singleton]
  · rw [h, leaves_all]

theorem all_splice (t : BoolTree L) : t.splice.all (eval v) = t.eval v := by
  rcases splice_of_ne t with h | ⟨ts, rfl, h⟩
  · rw [h]
    exact Bool.and_true _
  · rw [h, eval_all]

theorem any_splice_of_eval {t : BoolTree L} (h : t.eval v = true) :
    t.splice.any (eval v) = true := by
  rw [← all_splice, List.all_eq_true] at h
  obtain ⟨u, hu⟩ := List.exists_mem_of_ne_nil _ (splice_ne_nil t)
  exact List.any_eq_true.mpr ⟨u, hu, h u hu⟩

/-! ## Whole trees -/

@[simp] theorem leaves_spread (t : BoolTree L) : t.spread.leaves = t.leaves := by
  induction t with
  | leaf l => rw [spread_leaf]
  | all ts ih =>
      rw [spread_all, leaves_all, leaves_all, List.flatMap_map]
      exact List.flatMap_congr ih
  | any ts ih =>
      rw [spread_any, leaves_any, leaves_any, List.flatMap_assoc]
      exact List.flatMap_congr fun t ht ↦ (leaves_splice _).trans (ih t ht)

/-- A tree is no weaker than what it is spread to. -/
theorem eval_spread_of_eval {t : BoolTree L} (h : t.eval v = true) : t.spread.eval v = true := by
  induction t with
  | leaf l => rwa [spread_leaf]
  | all ts ih =>
      rw [eval_all, List.all_eq_true] at h
      rw [spread_all, eval_all, List.all_map, List.all_eq_true]
      exact fun t ht ↦ ih t ht (h t ht)
  | any ts ih =>
      rw [eval_any, List.any_eq_true] at h
      obtain ⟨t, ht, heval⟩ := h
      rw [spread_any, eval_any, List.any_flatMap, List.any_eq_true]
      exact ⟨t, ht, any_splice_of_eval (ih t ht heval)⟩

/-- No disjunction has a conjunction of several leaves. -/
inductive Single : BoolTree L → Prop
  | leaf (l : L) : Single (.leaf l)
  | all {ts : List (BoolTree L)} (h : ∀ t ∈ ts, Single t) : Single (.all ts)
  | any {ts : List (BoolTree L)} (h : ∀ t ∈ ts, Single t) (hone : ∀ t ∈ ts, t.splice.length = 1) :
    Single (.any ts)

theorem length_splice_spread (t : BoolTree L) : t.spread.splice.length = t.splice.length := by
  cases t with
  | leaf l => rw [spread_leaf]
  | any ts => rw [spread_any]; rfl
  | all ts =>
      rw [spread_all]
      cases ts with
      | nil => rfl
      | cons t ts =>
          have hall : (t.spread :: ts.map spread).all isLeaf = (t :: ts).all isLeaf := by
            rw [List.all_cons, List.all_cons, List.all_map, isLeaf_spread]
            exact congrArg _ (all_congr_of_mem fun u _ ↦ isLeaf_spread u)
          rw [List.map_cons, splice_all_cons, splice_all_cons, hall]
          split_ifs
          · rw [List.length_cons, List.length_cons, List.length_map]
          · rfl

theorem Single.eval_spread {t : BoolTree L} (h : t.Single) : t.spread.eval v = t.eval v := by
  induction h with
  | leaf l => rw [spread_leaf]
  | all _ ih =>
      rw [spread_all, eval_all, eval_all, List.all_map]
      exact all_congr_of_mem ih
  | any _ hone ih =>
      rw [spread_any, eval_any, eval_any, List.any_flatMap]
      refine any_congr_of_mem fun t ht ↦ ?_
      obtain ⟨u, hu⟩ := List.length_eq_one_iff.mp ((length_splice_spread t).trans (hone t ht))
      have hsplice := all_splice (v := v) t.spread
      rw [hu] at hsplice ⊢
      rw [← ih t ht, ← hsplice]
      exact (Bool.or_false _).trans (Bool.and_true _).symm

end BoolTree

end Kit
