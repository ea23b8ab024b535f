import Mathlib.Data.List.Nodup
import VectorDbBenchmark.Kit.TreeWalk

/-!
# Trees split by their leaves

The part of an and/or tree made of some of its leaves.  A tree is the conjunction of the two
complementary parts when no disjunction has leaves of both.

A tree may have parts without leaves, which are always true or always false.  What is left of
the tree without them may be weaker than the tree; whether it is can be told from the tree
itself.

In a tree of distinct leaves and without empty groups each leaf decides for some truth of the
others.
-/

namespace Kit

namespace BoolTree

universe u

variable {L : Type u}

/-- A group of what is left, nothing when nothing is. -/
def regroup (group : List (BoolTree L) → BoolTree L) (ts : List (BoolTree L)) :
    Option (BoolTree L) :=
  if ts.isEmpty then none else some (group ts)

section Project

variable (keep : L → Bool)

mutual

/-- The part of a tree that is made of leaves that are kept. -/
def project : BoolTree L → Option (BoolTree L)
  | leaf l => if keep l then some (leaf l) else none
  | all ts => regroup all (projectEach ts)
  | any ts => regroup any (projectEach ts)

def projectEach : List (BoolTree L) → List (BoolTree L)
  | [] => []
  | t :: ts => (project t).toList ++ projectEach ts

end

end Project

/-- No group is empty. -/
inductive Filled : BoolTree L → Prop
  | leaf (l : L) : Filled (.leaf l)
  | all {ts : List (BoolTree L)} (hne : ts ≠ []) (h : ∀ t ∈ ts, Filled t) : Filled (.all ts)
  | any {ts : List (BoolTree L)} (hne : ts ≠ []) (h : ∀ t ∈ ts, Filled t) : Filled (.any ts)

/-- No disjunction has both leaves that are kept and leaves that are not. -/
inductive Apart (keep : L → Bool) : BoolTree L → Prop
  | leaf (l : L) : Apart keep (.leaf l)
  | all {ts : List (BoolTree L)} (h : ∀ t ∈ ts, Apart keep t) : Apart keep (.all ts)
  | any {ts : List (BoolTree L)} (b : Bool) (h : ∀ l ∈ (BoolTree.any ts).leaves, keep l = b) :
    Apart keep (.any ts)

variable {keep : L → Bool} {v : L → Bool}

theorem projectEach_eq (ts : List (BoolTree L)) :
    projectEach keep ts = ts.flatMap fun t ↦ (project keep t).toList := by
  induction ts with
  | nil => rw [projectEach, List.flatMap_nil]
  | cons t ts ih => rw [projectEach, ih, List.flatMap_cons]

@[simp] theorem project_leaf (l : L) :
    project keep (leaf l) = if keep l then some (leaf l) else none := by rw [project]

theorem project_all (ts : List (BoolTree L)) :
    project keep (all ts) = regroup all (ts.flatMap fun t ↦ (project keep t).toList) := by
  rw [project, projectEach_eq]

theorem project_any (ts : List (BoolTree L)) :
    project keep (any ts) = regroup any (ts.flatMap fun t ↦ (project keep t).toList) := by
  rw [project, projectEach_eq]

theorem Filled.leaves_ne_nil {t : BoolTree L} (h : t.Filled) : t.leaves ≠ [] := by
  have hgroup : ∀ {ts : List (BoolTree L)}, ts ≠ [] → (∀ t ∈ ts, t.leaves ≠ []) →
      ts.flatMap leaves ≠ [] := by
    intro ts hne h hnil
    obtain ⟨t, ht⟩ := List.exists_mem_of_ne_nil ts hne
    exact h t ht (List.flatMap_eq_nil_iff.mp hnil t ht)
  induction h with
  | leaf l =>
      rw [leaves_leaf]
      exact List.cons_ne_nil l []
  | all hne _ ih =>
      rw [leaves_all]
      exact hgroup hne ih
  | any hne _ ih =>
      rw [leaves_any]
      exact hgroup hne ih

/-- Nothing is left of a tree none of whose leaves is kept. -/
theorem project_eq_none {t : BoolTree L} (h : ∀ l ∈ t.leaves, keep l = false) :
    project keep t = none := by
  have hgroup : ∀ {ts : List (BoolTree L)} {group : List (BoolTree L) → BoolTree L},
      (∀ t ∈ ts, project keep t = none) →
        regroup group (ts.flatMap fun t ↦ (project keep t).toList) = none := by
    intro ts group h
    have hnil : (ts.flatMap fun t ↦ (project keep t).toList) = [] := by
      refine List.flatMap_eq_nil_iff.mpr fun t ht ↦ ?_
      rw [h t ht]
      rfl
    rw [hnil]
    rfl
  induction t with
  | leaf l =>
      rw [leaves_leaf, List.forall_mem_singleton] at h
      rw [project_leaf, h, if_neg Bool.false_ne_true]
  | all ts ih =>
      rw [leaves_all] at h
      rw [project_all]
      exact hgroup fun t ht ↦ ih t ht fun l hl ↦ h l (List.mem_flatMap.mpr ⟨t, ht, hl⟩)
  | any ts ih =>
      rw [leaves_any] at h
      rw [project_any]
      exact hgroup fun t ht ↦ ih t ht fun l hl ↦ h l (List.mem_flatMap.mpr ⟨t, ht, hl⟩)

/-- A tree all of whose leaves are kept is left as it was. -/
theorem project_eq_self {t : BoolTree L} (ht : t.Filled) (h : ∀ l ∈ t.leaves, keep l = true) :
    project keep t = some t := by
  have hgroup : ∀ {ts : List (BoolTree L)} {group : List (BoolTree L) → BoolTree L}, ts ≠ [] →
      (∀ t ∈ ts, project keep t = some t) →
        regroup group (ts.flatMap fun t ↦ (project keep t).toList) = some (group ts) := by
    intro ts group hne h
    have hsame : (ts.flatMap fun t ↦ (project keep t).toList) = ts := by
      have hsingle : (ts.flatMap fun t ↦ (project keep t).toList) = ts.flatMap fun t ↦ [t] :=
        List.flatMap_congr fun t ht ↦ by rw [h t ht, Option.toList_some]
      rw [hsingle, List.flatMap_singleton']
    rw [hsame, regroup, if_neg (mt List.isEmpty_iff.mp hne)]
  induction ht with
  | leaf l =>
      rw [leaves_leaf, List.forall_mem_singleton] at h
      rw [project_leaf, if_pos h]
  | all hne _ ih =>
      rw [leaves_all] at h
      rw [project_all]
      exact hgroup hne fun t ht ↦ ih t ht fun l hl ↦ h l (List.mem_flatMap.mpr ⟨t, ht, hl⟩)
  | any hne _ ih =>
      rw [leaves_any] at h
      rw [project_any]
      exact hgroup hne fun t ht ↦ ih t ht fun l hl ↦ h l (List.mem_flatMap.mpr ⟨t, ht, hl⟩)

/-- The truth of what is left, which is true when nothing is. -/
theorem all_regroup_all (us : List (BoolTree L)) :
    (regroup all us).all (eval v) = us.all (eval v) := by
  cases us with
  | nil => rfl
  | cons u us => exact eval_all (u :: us)

theorem all_flatMap_project (ts : List (BoolTree L)) :
    (ts.flatMap fun t ↦ (project keep t).toList).all (eval v) =
      ts.all fun t ↦ (project keep t).all (eval v) := by
  rw [List.all_flatMap]
  refine all_congr_of_mem fun t _ ↦ ?_
  cases project keep t with
  | none => rfl
  | some u => exact Bool.and_true _

/-- A tree is the conjunction of its two parts. -/
theorem eval_eq_project {t : BoolTree L} (ht : t.Filled) (hapart : t.Apart keep) :
    t.eval v = ((project keep t).all (eval v) && (project (fun l ↦ !keep l) t).all (eval v)) := by
  induction hapart with
  | leaf l =>
      rw [project_leaf, project_leaf]
      cases keep l with
      | true => exact (Bool.and_true _).symm
      | false => rfl
  | all _ ih =>
      cases ht with
      | all _ hts =>
          rw [project_all, project_all, all_regroup_all, all_regroup_all, all_flatMap_project,
            all_flatMap_project, eval_all, Bool.eq_iff_iff, Bool.and_eq_true, List.all_eq_true,
            List.all_eq_true, List.all_eq_true, ← forall₂_and]
          refine forall₂_congr fun t ht ↦ ?_
          rw [ih t ht (hts t ht), Bool.and_eq_true]
  | @any ts b h =>
      cases b with
      | true =>
          have hnone : project (fun l ↦ !keep l) (any ts) = none :=
            project_eq_none fun l hl ↦ by rw [h l hl, Bool.not_true]
          rw [project_eq_self ht h, hnone]
          exact (Bool.and_true _).symm
      | false =>
          have hself : project (fun l ↦ !keep l) (any ts) = some (any ts) :=
            project_eq_self ht fun l hl ↦ by rw [h l hl, Bool.not_false]
          rw [project_eq_none h, hself]
          rfl

/-- A leaf that is kept is left. -/
theorem isSome_project {t : BoolTree L} {l : L} (hl : l ∈ t.leaves) (hkeep : keep l = true) :
    (project keep t).isSome = true := by
  have hgroup : ∀ {ts : List (BoolTree L)} {group : List (BoolTree L) → BoolTree L} {t},
      t ∈ ts → (project keep t).isSome = true →
        (regroup group (ts.flatMap fun t ↦ (project keep t).toList)).isSome = true := by
    intro ts group t ht hsome
    obtain ⟨u, hu⟩ := Option.isSome_iff_exists.mp hsome
    have hmem : u ∈ ts.flatMap fun t ↦ (project keep t).toList := by
      refine List.mem_flatMap.mpr ⟨t, ht, ?_⟩
      rw [hu]
      exact List.mem_singleton_self u
    rw [regroup, if_neg (mt List.isEmpty_iff.mp (List.ne_nil_of_mem hmem))]
    rfl
  induction t with
  | leaf m =>
      rw [leaves_leaf, List.mem_singleton] at hl
      rw [project_leaf, if_pos (hl ▸ hkeep)]
      rfl
  | all ts ih =>
      rw [leaves_all] at hl
      obtain ⟨t, ht, hl⟩ := List.mem_flatMap.mp hl
      rw [project_all]
      exact hgroup ht (ih t ht hl)
  | any ts ih =>
      rw [leaves_any] at hl
      obtain ⟨t, ht, hl⟩ := List.mem_flatMap.mp hl
      rw [project_any]
      exact hgroup ht (ih t ht hl)

/-! ## Parts without leaves -/

/-- A tree without its parts that have no leaves. -/
def prune : BoolTree L → Option (BoolTree L) := project fun _ ↦ true

/-- What is left of each tree. -/
def pruneEach : List (BoolTree L) → List (BoolTree L) := projectEach fun _ ↦ true

mutual

/-- Whether a tree is implied by what is left of it, and is always true when nothing is. -/
def keeps : BoolTree L → Bool
  | leaf _ => true
  | all ts => keepsAll ts
  | any ts => evalAny (fun _ ↦ false) ts || (prune (any ts)).isSome && keepsLeft ts

def keepsAll : List (BoolTree L) → Bool
  | [] => true
  | t :: ts => keeps t && keepsAll ts

/-- Whether the trees of which something is left are implied by it. -/
def keepsLeft : List (BoolTree L) → Bool
  | [] => true
  | t :: ts => ((prune t).isNone || keeps t) && keepsLeft ts

end

theorem pruneEach_eq (ts : List (BoolTree L)) : pruneEach ts = ts.flatMap fun t ↦ t.prune.toList :=
  projectEach_eq ts

theorem pruneEach_cons (t : BoolTree L) (ts : List (BoolTree L)) :
    pruneEach (t :: ts) = t.prune.toList ++ pruneEach ts := by
  rw [pruneEach, projectEach]
  rfl

@[simp] theorem pruneEach_singleton (t : BoolTree L) : pruneEach [t] = t.prune.toList :=
  (pruneEach_cons t []).trans (List.append_nil _)

@[simp] theorem prune_leaf (l : L) : (leaf l).prune = some (leaf l) := project_leaf l

theorem prune_all (ts : List (BoolTree L)) :
    (all ts).prune = regroup all (ts.flatMap fun t ↦ t.prune.toList) :=
  project_all ts

theorem prune_any (ts : List (BoolTree L)) :
    (any ts).prune = regroup any (ts.flatMap fun t ↦ t.prune.toList) :=
  project_any ts

theorem keepsAll_eq (ts : List (BoolTree L)) : keepsAll ts = ts.all keeps := by
  induction ts with
  | nil => rfl
  | cons t ts ih => rw [keepsAll, List.all_cons, ih]

theorem keepsLeft_eq (ts : List (BoolTree L)) :
    keepsLeft ts = ts.all fun t ↦ t.prune.isNone || t.keeps := by
  induction ts with
  | nil => rfl
  | cons t ts ih => rw [keepsLeft, List.all_cons, ih]

@[simp] theorem keeps_leaf (l : L) : (leaf l).keeps = true := by rw [keeps]

@[simp] theorem keeps_all (ts : List (BoolTree L)) : (all ts).keeps = ts.all keeps := by
  rw [keeps, keepsAll_eq]

theorem keeps_any (ts : List (BoolTree L)) : (any ts).keeps = ((any ts).eval (fun _ ↦ false) ||
    (any ts).prune.isSome && ts.all fun t ↦ t.prune.isNone || t.keeps) := by
  rw [keeps, keepsLeft_eq, eval]

/-- All leaves are left, in their order. -/
theorem leaves_prune (t : BoolTree L) : t.prune.toList.flatMap leaves = t.leaves := by
  have hgroup : ∀ {group : List (BoolTree L) → BoolTree L} {ts : List (BoolTree L)},
      (∀ ts, (group ts).leaves = ts.flatMap leaves) →
      (∀ t ∈ ts, t.prune.toList.flatMap leaves = t.leaves) →
      (regroup group (ts.flatMap fun t ↦ t.prune.toList)).toList.flatMap leaves =
        ts.flatMap leaves := by
    intro group ts hleaves ih
    have hts : (ts.flatMap fun t ↦ t.prune.toList).flatMap leaves = ts.flatMap leaves := by
      rw [List.flatMap_assoc]
      exact List.flatMap_congr ih
    rw [← hts, regroup]
    split_ifs with hempty
    · rw [List.isEmpty_iff.mp hempty]
      rfl
    · rw [Option.toList_some, List.flatMap_singleton, hleaves]
  induction t with
  | leaf l => rw [prune_leaf, Option.toList_some, List.flatMap_singleton]
  | all ts ih =>
      rw [prune_all, leaves_all]
      exact hgroup leaves_all ih
  | any ts ih =>
      rw [prune_any, leaves_any]
      exact hgroup leaves_any ih

theorem leaves_of_prune {t u : BoolTree L} (h : t.prune = some u) : u.leaves = t.leaves := by
  rw [← leaves_prune t, h, Option.toList_some, List.flatMap_singleton]

section Truth

variable {v w : L → Bool}

/-- The truth of what is left of a conjunction. -/
theorem all_prune_all (ts : List (BoolTree L)) :
    (all ts).prune.all (eval v) = ts.all fun t ↦ t.prune.all (eval v) := by
  rw [prune_all, all_regroup_all]
  exact all_flatMap_project ts

theorem any_prune_any {ts : List (BoolTree L)} {u : BoolTree L} (h : (any ts).prune = some u) :
    u.eval v = ts.any fun t ↦ t.prune.any (eval v) := by
  rw [prune_any, regroup] at h
  split_ifs at h
  cases h
  rw [eval_any, List.any_flatMap]
  refine any_congr_of_mem fun t _ ↦ ?_
  cases t.prune with
  | none => rfl
  | some u => exact Bool.or_false _

theorem eval_mono {t : BoolTree L} (hvw : ∀ l ∈ t.leaves, v l = true → w l = true)
    (h : t.eval v = true) : t.eval w = true := by
  induction t with
  | leaf l =>
      rw [eval_leaf] at h ⊢
      rw [leaves_leaf, List.forall_mem_singleton] at hvw
      exact hvw h
  | all ts ih =>
      rw [leaves_all] at hvw
      rw [eval_all, List.all_eq_true] at h ⊢
      exact fun t ht ↦ ih t ht (fun l hl ↦ hvw l (List.mem_flatMap.mpr ⟨t, ht, hl⟩)) (h t ht)
  | any ts ih =>
      rw [leaves_any] at hvw
      rw [eval_any, List.any_eq_true] at h ⊢
      obtain ⟨t, ht, heval⟩ := h
      exact ⟨t, ht, ih t ht (fun l hl ↦ hvw l (List.mem_flatMap.mpr ⟨t, ht, hl⟩)) heval⟩

/-- Without empty groups a tree is true when all its leaves are. -/
theorem all_prune_of_leaves {t : BoolTree L} (h : ∀ l ∈ t.leaves, v l = true) :
    t.prune.all (eval v) = true := by
  induction t with
  | leaf l =>
      rw [leaves_leaf, List.forall_mem_singleton] at h
      rw [prune_leaf, Option.all_some, eval_leaf, h]
  | all ts ih =>
      rw [leaves_all] at h
      rw [all_prune_all, List.all_eq_true]
      exact fun t ht ↦ ih t ht fun l hl ↦ h l (List.mem_flatMap.mpr ⟨t, ht, hl⟩)
  | any ts ih =>
      rw [leaves_any] at h
      cases hprune : (any ts).prune with
      | none => rfl
      | some u =>
          have hne : (ts.flatMap fun t ↦ t.prune.toList) ≠ [] := by
            rintro hnil
            rw [prune_any, hnil] at hprune
            cases hprune
          obtain ⟨u', hu'⟩ := List.exists_mem_of_ne_nil _ hne
          obtain ⟨t, ht, hmem⟩ := List.mem_flatMap.mp hu'
          have htu : t.prune = some u' := Option.mem_toList.mp hmem
          have heval := ih t ht fun l hl ↦ h l (List.mem_flatMap.mpr ⟨t, ht, hl⟩)
          rw [htu] at heval
          rw [Option.all_some, any_prune_any hprune, List.any_eq_true]
          exact ⟨t, ht, htu ▸ heval⟩

end Truth

/-! ### Implication -/

/-- What is left implies a tree that keeps all. -/
theorem eval_of_keeps {t : BoolTree L} (hkeeps : t.keeps = true) {v : L → Bool}
    (h : t.prune.all (eval v) = true) : t.eval v = true := by
  induction t with
  | leaf l =>
      rw [prune_leaf] at h
      exact h
  | all ts ih =>
      rw [keeps_all, List.all_eq_true] at hkeeps
      rw [all_prune_all, List.all_eq_true] at h
      rw [eval_all, List.all_eq_true]
      exact fun t ht ↦ ih t ht (hkeeps t ht) (h t ht)
  | any ts ih =>
      rw [keeps_any, Bool.or_eq_true, Bool.and_eq_true, List.all_eq_true] at hkeeps
      rcases hkeeps with halways | ⟨hsome, hleft⟩
      · exact eval_mono (fun _ _ hl ↦ absurd hl Bool.false_ne_true) halways
      · obtain ⟨u, hu⟩ := Option.isSome_iff_exists.mp hsome
        rw [hu, Option.all_some, any_prune_any hu, List.any_eq_true] at h
        obtain ⟨t, ht, heval⟩ := h
        have hkeeps := hleft t ht
        rw [eval_any, List.any_eq_true]
        refine ⟨t, ht, ih t ht ?_ ?_⟩
        · cases hprune : t.prune with
          | none =>
              rw [hprune] at heval
              cases heval
          | some u =>
              rw [hprune] at hkeeps
              exact hkeeps
        · cases hprune : t.prune with
          | none => rfl
          | some u => rwa [hprune] at heval

/-- Where all leaves have one truth value, so has the tree. -/
theorem Filled.eval_eq {t : BoolTree L} (ht : t.Filled) {b : Bool} (h : ∀ l ∈ t.leaves, v l = b) :
    t.eval v = b := by
  have hgroup : ∀ {ts : List (BoolTree L)}, ts ≠ [] → (∀ t ∈ ts, t.eval v = b) →
      ts.all (eval v) = b ∧ ts.any (eval v) = b := by
    intro ts hne h
    obtain ⟨t, ht⟩ := List.exists_mem_of_ne_nil ts hne
    cases b with
    | true => exact ⟨List.all_eq_true.mpr h, List.any_eq_true.mpr ⟨t, ht, h t ht⟩⟩
    | false =>
        refine ⟨List.all_eq_false.mpr ⟨t, ht, ?_⟩, List.any_eq_false.mpr fun t ht ↦ ?_⟩
        · rw [h t ht]
          exact Bool.false_ne_true
        · rw [h t ht]
          exact Bool.false_ne_true
  induction ht with
  | leaf l =>
      rw [leaves_leaf, List.forall_mem_singleton] at h
      rw [eval_leaf, h]
  | all hne _ ih =>
      rw [leaves_all] at h
      rw [eval_all]
      exact (hgroup hne fun t ht ↦ ih t ht fun l hl ↦ h l (List.mem_flatMap.mpr ⟨t, ht, hl⟩)).1
  | any hne _ ih =>
      rw [leaves_any] at h
      rw [eval_any]
      exact (hgroup hne fun t ht ↦ ih t ht fun l hl ↦ h l (List.mem_flatMap.mpr ⟨t, ht, hl⟩)).2

/-- Members of distinct leaves have no leaf in common. -/
theorem notMem_leaves_of_ne {t t' : BoolTree L} {ts : List (BoolTree L)}
    (hnodup : (ts.flatMap leaves).Nodup) (ht : t ∈ ts) (ht' : t' ∈ ts) (hne : t' ≠ t) :
    ∀ l ∈ t'.leaves, l ∉ t.leaves := by
  have hsymm : Std.Symm (Function.onFun List.Disjoint (leaves (L := L))) := ⟨fun _ _ h ↦ h.symm⟩
  intro l hl hl'
  exact (List.nodup_flatMap.mp hnodup).2.forall ht' ht hne hl hl'

section Distinct

variable [DecidableEq L]

/-- One valuation on some leaves, and another on the rest. -/
def splitAt (ls : List L) (v w : L → Bool) (l : L) : Bool := if l ∈ ls then v l else w l

variable {v w : L → Bool} {t : BoolTree L}

theorem eval_splitAt_of_subset {ls : List L} (h : ∀ l ∈ t.leaves, l ∈ ls) :
    t.eval (splitAt ls v w) = t.eval v :=
  eval_congr_leaves fun l hl ↦ if_pos (h l hl)

theorem all_prune_splitAt (t : BoolTree L) :
    t.prune.all (eval (splitAt t.leaves v w)) = t.prune.all (eval v) := by
  cases h : t.prune with
  | none => rfl
  | some u =>
      exact eval_splitAt_of_subset fun l hl ↦ leaves_of_prune h ▸ hl

/-- A leaf that stands nowhere else in a tree decides it, the others being true and false as
fits. -/
theorem Filled.exists_pivot (ht : t.Filled) (hnodup : t.leaves.Nodup) {l : L} (hl : l ∈ t.leaves) :
    ∃ v : L → Bool, ∀ b, t.eval (Function.update v l b) = b := by
  -- The leaves of the other members of a group are `c`.
  have hmembers : ∀ {ts : List (BoolTree L)} (c : Bool), (ts.flatMap leaves).Nodup →
      (∀ t ∈ ts, t.Filled) → (∀ t ∈ ts, t.leaves.Nodup → l ∈ t.leaves →
        ∃ v : L → Bool, ∀ b, t.eval (Function.update v l b) = b) → l ∈ ts.flatMap leaves →
      ∃ t ∈ ts, ∃ v : L → Bool, ∀ b, t.eval (Function.update v l b) = b ∧
        ∀ t' ∈ ts, t' ≠ t → t'.eval (Function.update v l b) = c := by
    intro ts c hnodup hfilled ih hl
    obtain ⟨t, ht, hl⟩ := List.mem_flatMap.mp hl
    obtain ⟨v, hv⟩ := ih t ht ((List.nodup_flatMap.mp hnodup).1 t ht) hl
    refine ⟨t, ht, splitAt t.leaves v fun _ ↦ c, fun b ↦ ⟨?_, fun t' ht' hne ↦ ?_⟩⟩
    · refine (eval_congr_leaves fun m hm ↦ ?_).trans (hv b)
      by_cases hml : m = l
      · rw [hml, Function.update_self, Function.update_self]
      · rw [Function.update_of_ne hml, Function.update_of_ne hml]
        exact if_pos hm
    · apply (hfilled t' ht').eval_eq
      intro m hm
      have hmt : m ∉ t.leaves := notMem_leaves_of_ne hnodup ht ht' hne m hm
      have hml : m ≠ l := fun hml ↦ hmt (hml.symm ▸ hl)
      rw [Function.update_of_ne hml]
      exact if_neg hmt
  induction ht with
  | leaf m =>
      rw [leaves_leaf, List.mem_singleton] at hl
      refine ⟨fun _ ↦ true, fun b ↦ ?_⟩
      rw [eval_leaf, hl, Function.update_self]
  | all hne hts ih =>
      rw [leaves_all] at hnodup hl
      obtain ⟨t, ht, v, hv⟩ := hmembers true hnodup hts ih hl
      refine ⟨v, fun b ↦ ?_⟩
      rw [eval_all, Bool.eq_iff_iff, List.all_eq_true]
      constructor
      · intro h
        rw [← (hv b).1]
        exact h t ht
      · intro hb t' ht'
        by_cases heq : t' = t
        · rw [heq, (hv b).1, hb]
        · exact (hv b).2 t' ht' heq
  | any hne hts ih =>
      rw [leaves_any] at hnodup hl
      obtain ⟨t, ht, v, hv⟩ := hmembers false hnodup hts ih hl
      refine ⟨v, fun b ↦ ?_⟩
      rw [eval_any, Bool.eq_iff_iff, List.any_eq_true]
      constructor
      · rintro ⟨t', ht', heval⟩
        by_cases heq : t' = t
        · rw [← (hv b).1, ← heq, heval]
        · rw [(hv b).2 t' ht' heq] at heval
          cases heval
      · intro hb
        exact ⟨t, ht, (hv b).1.trans hb⟩

section Judged

variable {K C : Type*} {key : L → K}

omit [DecidableEq L] in
/-- Where no two leaves have the same key, there is a value for each. -/
theorem exists_eq_on_keys {ls : List L} (hkeys : (ls.map key).Nodup) (f : L → Option C) :
    ∃ d : K → Option C, ∀ l ∈ ls, d (key l) = f l := by
  classical
  refine ⟨fun k ↦ if h : ∃ l ∈ ls, key l = k then f h.choose else none, fun l hl ↦ ?_⟩
  have hex : ∃ m ∈ ls, key m = key l := ⟨l, hl, rfl⟩
  dsimp only
  rw [dif_pos hex, List.inj_on_of_nodup_map hkeys hex.choose_spec.1 hl hex.choose_spec.2]

/-- Leaves are judged by the values of their keys in two ways, both false without a value.  The
ways differ on a tree of leaves with different keys if they do on a leaf, each leaf being true
of some value. -/
theorem Filled.exists_judged (ht : t.Filled) (hkeys : (t.leaves.map key).Nodup)
    (h h' : L → Option C → Bool) (hnone : ∀ l ∈ t.leaves, h' l none = false)
    (hsat : ∀ l ∈ t.leaves, ∃ c, h l (some c) = true) {l : L} (hl : l ∈ t.leaves) {c : C}
    (hc : h l (some c) = true) (hc' : h' l (some c) = false) :
    ∃ d : K → Option C, t.eval (fun m ↦ h m (d (key m))) = true ∧
      t.eval (fun m ↦ h' m (d (key m))) = false := by
  obtain ⟨v, hv⟩ := ht.exists_pivot (.of_map _ hkeys) hl
  have hchoice : ∀ m, ∃ o : Option C, m ∈ t.leaves →
      (Function.update v l true m = true → h m o = true) ∧
      (Function.update v l false m = false → h' m o = false) := by
    intro m
    by_cases hm : m ∈ t.leaves
    · by_cases hml : m = l
      · exact ⟨some c, fun _ ↦ ⟨fun _ ↦ hml ▸ hc, fun _ ↦ hml ▸ hc'⟩⟩
      · rw [Function.update_of_ne hml, Function.update_of_ne hml]
        cases v m with
        | true =>
            obtain ⟨c, hc⟩ := hsat m hm
            exact ⟨some c, fun _ ↦ ⟨fun _ ↦ hc, fun h ↦ absurd h.symm Bool.false_ne_true⟩⟩
        | false => exact ⟨none, fun _ ↦ ⟨fun h ↦ absurd h Bool.false_ne_true, fun _ ↦ hnone m hm⟩⟩
    · exact ⟨none, fun h ↦ absurd h hm⟩
  choose value hvalue using hchoice
  obtain ⟨d, hd⟩ := exists_eq_on_keys hkeys value
  refine ⟨d, eval_mono (fun m hm htrue ↦ ?_) (hv true), ?_⟩
  · rw [hd m hm]
    exact (hvalue m hm).1 htrue
  · by_contra hnot
    have htrue := eval_mono (w := Function.update v l false) (fun m hm htrue ↦ ?_)
      (Bool.eq_true_of_not_eq_false hnot)
    · rw [hv] at htrue
      cases htrue
    · by_contra hfalse
      rw [hd m hm, (hvalue m hm).2 (Bool.eq_false_of_not_eq_true hfalse)] at htrue
      cases htrue

end Judged

/-- A tree that is implied by what is left of it keeps all, when its leaves are distinct. -/
theorem exists_eval_of_not_keeps (hnodup : t.leaves.Nodup) (hkeeps : t.keeps = false) :
    ∃ v : L → Bool, t.prune.all (eval v) = true ∧ t.eval v = false := by
  induction t with
  | leaf l => cases (keeps_leaf l).symm.trans hkeeps
  | all ts ih =>
      rw [leaves_all] at hnodup
      rw [keeps_all, List.all_eq_false] at hkeeps
      obtain ⟨t, ht, hnot⟩ := hkeeps
      obtain ⟨v, hleft, heval⟩ :=
        ih t ht ((List.nodup_flatMap.mp hnodup).1 t ht) (Bool.not_eq_true _ |>.mp hnot)
      -- The leaves of the other members are true.
      refine ⟨splitAt t.leaves v fun _ ↦ true, ?_, ?_⟩
      · rw [all_prune_all, List.all_eq_true]
        intro t' ht'
        by_cases heq : t' = t
        · rw [heq, all_prune_splitAt, hleft]
        · exact all_prune_of_leaves fun l hl ↦ if_neg (notMem_leaves_of_ne hnodup ht ht' heq l hl)
      · rw [eval_all, List.all_eq_false]
        refine ⟨t, ht, ?_⟩
        rw [eval_splitAt_of_subset fun l hl ↦ hl, heval]
        exact Bool.false_ne_true
  | any ts ih =>
      rw [leaves_any] at hnodup
      rw [keeps_any, Bool.or_eq_false_iff] at hkeeps
      obtain ⟨hnever, hleft⟩ := hkeeps
      cases hprune : (any ts).prune with
      | none => exact ⟨fun _ ↦ false, rfl, hnever⟩
      | some u =>
          rw [hprune, Option.isSome_some, Bool.true_and, List.all_eq_false] at hleft
          obtain ⟨t, ht, hnot⟩ := hleft
          rw [Bool.not_eq_true, Bool.or_eq_false_iff] at hnot
          obtain ⟨v, hv, heval⟩ := ih t ht ((List.nodup_flatMap.mp hnodup).1 t ht) hnot.2
          -- The leaves of the other members are false.
          refine ⟨splitAt t.leaves v fun _ ↦ false, ?_, ?_⟩
          · rw [Option.all_some, any_prune_any hprune, List.any_eq_true]
            refine ⟨t, ht, ?_⟩
            rw [← all_prune_splitAt (w := fun _ ↦ false)] at hv
            cases htu : t.prune with
            | none =>
                rw [htu] at hnot
                cases hnot.1
            | some u' => rwa [htu] at hv
          · rw [eval_any, List.any_eq_false] at hnever ⊢
            intro t' ht'
            by_cases heq : t' = t
            · rw [heq, eval_splitAt_of_subset fun l hl ↦ hl, heval]
              exact Bool.false_ne_true
            · have hfalse : t'.eval (splitAt t.leaves v fun _ ↦ false) = t'.eval fun _ ↦ false :=
                eval_congr_leaves fun l hl ↦ if_neg (notMem_leaves_of_ne hnodup ht ht' heq l hl)
              rw [hfalse]
              exact hnever t' ht'

end Distinct

/-- A tree of distinct leaves is implied by what is left of it if and only if it keeps all. -/
theorem keeps_iff {t : BoolTree L} (hnodup : t.leaves.Nodup) : t.keeps = true ↔
    ∀ v : L → Bool, t.prune.all (eval v) = true → t.eval v = true := by
  classical
  refine ⟨fun h v ↦ eval_of_keeps h, fun h ↦ ?_⟩
  by_contra hnot
  obtain ⟨v, hleft, heval⟩ := exists_eval_of_not_keeps hnodup (Bool.not_eq_true _ |>.mp hnot)
  exact Bool.false_ne_true (heval.symm.trans (h v hleft))

end BoolTree

end Kit
