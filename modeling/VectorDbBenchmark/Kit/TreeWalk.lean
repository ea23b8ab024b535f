import VectorDbBenchmark.Kit.BoolTree

/-!
# Walks over and/or trees

The leaves of a tree, its evaluation from left to right with leaves that may fail (`run`),
and two trees compared node by node (`Aligned`).  A leaf may be aligned with a whole tree.
-/

namespace Kit

namespace BoolTree

universe u v w

variable {L : Type u} {M : Type v} {ε : Type w}

/-! ## Leaves -/

mutual

/-- The leaves of a tree, from left to right. -/
def leaves : BoolTree L → List L
  | leaf l => [l]
  | all ts => leavesEach ts
  | any ts => leavesEach ts

def leavesEach : List (BoolTree L) → List L
  | [] => []
  | t :: ts => leaves t ++ leavesEach ts

end

theorem leavesEach_eq (ts : List (BoolTree L)) : leavesEach ts = ts.flatMap leaves := by
  induction ts with
  | nil => rw [leavesEach, List.flatMap_nil]
  | cons t ts ih => rw [leavesEach, List.flatMap_cons, ih]

@[simp] theorem leaves_leaf (l : L) : (leaf l).leaves = [l] := by rw [leaves]

@[simp] theorem leaves_all (ts : List (BoolTree L)) : (all ts).leaves = ts.flatMap leaves := by
  rw [leaves, leavesEach_eq]

@[simp] theorem leaves_any (ts : List (BoolTree L)) : (any ts).leaves = ts.flatMap leaves := by
  rw [leaves, leavesEach_eq]

/-- Leaves of the same truth may be replaced. -/
theorem eval_congr_leaves {v v' : L → Bool} {t : BoolTree L} (h : ∀ l ∈ t.leaves, v l = v' l) :
    t.eval v = t.eval v' := by
  induction t with
  | leaf l =>
      rw [leaves_leaf, List.forall_mem_singleton] at h
      rw [eval_leaf, eval_leaf, h]
  | all ts ih =>
      rw [leaves_all] at h
      rw [eval_all, eval_all]
      exact all_congr_of_mem fun t ht ↦ ih t ht fun l hl ↦ h l (List.mem_flatMap.mpr ⟨t, ht, hl⟩)
  | any ts ih =>
      rw [leaves_any] at h
      rw [eval_any, eval_any]
      exact any_congr_of_mem fun t ht ↦ ih t ht fun l hl ↦ h l (List.mem_flatMap.mpr ⟨t, ht, hl⟩)

theorem leaves_conjuncts (t : BoolTree L) : t.conjuncts.flatMap leaves = t.leaves := by
  cases t with
  | all ts => exact (leaves_all ts).symm
  | leaf l => exact List.append_nil _
  | any ts => exact List.append_nil _

theorem leaves_disjuncts (t : BoolTree L) : t.disjuncts.flatMap leaves = t.leaves := by
  cases t with
  | any ts => exact (leaves_any ts).symm
  | leaf l => exact List.append_nil _
  | all ts => exact List.append_nil _

/-- Flattening keeps the leaves and their order. -/
@[simp] theorem leaves_flatten (t : BoolTree L) : t.flatten.leaves = t.leaves := by
  induction t with
  | leaf l => rw [flatten_leaf]
  | all ts ih =>
      by_cases h : ts.length = 1
      · obtain ⟨t, rfl⟩ := List.length_eq_one_iff.mp h
        rw [flatten_all_singleton, ih t List.mem_cons_self, leaves_all, List.flatMap_singleton]
      · rw [flatten_all h, leaves_all, leaves_all, List.flatMap_assoc, List.flatMap_map]
        refine List.flatMap_congr fun t ht ↦ ?_
        exact (leaves_conjuncts _).trans (ih t ht)
  | any ts ih =>
      by_cases h : ts.length = 1
      · obtain ⟨t, rfl⟩ := List.length_eq_one_iff.mp h
        rw [flatten_any_singleton, ih t List.mem_cons_self, leaves_any, List.flatMap_singleton]
      · rw [flatten_any h, leaves_any, leaves_any, List.flatMap_assoc, List.flatMap_map]
        refine List.flatMap_congr fun t ht ↦ ?_
        exact (leaves_disjuncts _).trans (ih t ht)

/-! ## Evaluation that may fail -/

mutual

/-- The truth of a tree whose leaves may fail: a conjunction stops at the first false
child, a disjunction at the first true one, and both at the first failure. -/
def run (f : L → Except ε Bool) : BoolTree L → Except ε Bool
  | leaf l => f l
  | all ts => runAll f ts
  | any ts => runAny f ts

def runAll (f : L → Except ε Bool) : List (BoolTree L) → Except ε Bool
  | [] => .ok true
  | t :: ts => do if ← run f t then runAll f ts else .ok false

def runAny (f : L → Except ε Bool) : List (BoolTree L) → Except ε Bool
  | [] => .ok false
  | t :: ts => do if ← run f t then .ok true else runAny f ts

end

variable {f : L → Except ε Bool}

@[simp] theorem run_leaf (l : L) : (leaf l).run f = f l := by rw [run]

theorem run_all (ts : List (BoolTree L)) : (all ts).run f = runAll f ts := by rw [run]

theorem run_any (ts : List (BoolTree L)) : (any ts).run f = runAny f ts := by rw [run]

theorem runAll_append (ts us : List (BoolTree L)) :
    runAll f (ts ++ us) = (do if ← runAll f ts then runAll f us else .ok false) := by
  induction ts with
  | nil => rfl
  | cons t ts ih =>
      rw [List.cons_append, runAll, runAll, ih]
      rcases run f t with e | ⟨_ | _⟩ <;> rfl

theorem runAny_append (ts us : List (BoolTree L)) :
    runAny f (ts ++ us) = (do if ← runAny f ts then .ok true else runAny f us) := by
  induction ts with
  | nil => rfl
  | cons t ts ih =>
      rw [List.cons_append, runAny, runAny, ih]
      rcases run f t with e | ⟨_ | _⟩ <;> rfl

theorem runAll_singleton (t : BoolTree L) : runAll f [t] = t.run f := by
  rw [runAll]
  rcases run f t with e | ⟨_ | _⟩ <;> rfl

theorem runAny_singleton (t : BoolTree L) : runAny f [t] = t.run f := by
  rw [runAny]
  rcases run f t with e | ⟨_ | _⟩ <;> rfl

theorem runAll_conjuncts (t : BoolTree L) : runAll f t.conjuncts = t.run f := by
  cases t with
  | all ts => exact (run_all ts).symm
  | leaf l => exact runAll_singleton _
  | any ts => exact runAll_singleton _

theorem runAny_disjuncts (t : BoolTree L) : runAny f t.disjuncts = t.run f := by
  cases t with
  | any ts => exact (run_any ts).symm
  | leaf l => exact runAny_singleton _
  | all ts => exact runAny_singleton _

/-- Children may be replaced by groups that run like them. -/
theorem runAll_flatMap {ts : List (BoolTree L)} {g : BoolTree L → List (BoolTree L)}
    (h : ∀ t ∈ ts, runAll f (g t) = t.run f) : runAll f (ts.flatMap g) = runAll f ts := by
  induction ts with
  | nil => rfl
  | cons t ts ih =>
      rw [List.flatMap_cons, runAll_append, h t List.mem_cons_self,
        ih fun t ht ↦ h t (List.mem_cons_of_mem _ ht), runAll]

theorem runAny_flatMap {ts : List (BoolTree L)} {g : BoolTree L → List (BoolTree L)}
    (h : ∀ t ∈ ts, runAny f (g t) = t.run f) : runAny f (ts.flatMap g) = runAny f ts := by
  induction ts with
  | nil => rfl
  | cons t ts ih =>
      rw [List.flatMap_cons, runAny_append, h t List.mem_cons_self,
        ih fun t ht ↦ h t (List.mem_cons_of_mem _ ht), runAny]

/-- Flattening keeps the result, a failure included: the leaves are asked in the same
order, and as few of them. -/
theorem run_flatten (t : BoolTree L) : t.flatten.run f = t.run f := by
  induction t with
  | leaf l => rw [flatten_leaf]
  | all ts ih =>
      by_cases h : ts.length = 1
      · obtain ⟨t, rfl⟩ := List.length_eq_one_iff.mp h
        rw [flatten_all_singleton, ih t List.mem_cons_self, run_all, runAll_singleton]
      · rw [flatten_all h, run_all, run_all, List.flatMap_map]
        exact runAll_flatMap fun t ht ↦ (runAll_conjuncts _).trans (ih t ht)
  | any ts ih =>
      by_cases h : ts.length = 1
      · obtain ⟨t, rfl⟩ := List.length_eq_one_iff.mp h
        rw [flatten_any_singleton, ih t List.mem_cons_self, run_any, runAny_singleton]
      · rw [flatten_any h, run_any, run_any, List.flatMap_map]
        exact runAny_flatMap fun t ht ↦ (runAny_disjuncts _).trans (ih t ht)

/-- Only what the leaves of the tree return counts. -/
theorem run_congr {g : L → Except ε Bool} {t : BoolTree L} (h : ∀ l ∈ t.leaves, f l = g l) :
    t.run f = t.run g := by
  induction t with
  | leaf l =>
      rw [leaves_leaf, List.forall_mem_singleton] at h
      rw [run_leaf, run_leaf, h]
  | all ts ih =>
      rw [leaves_all] at h
      rw [run_all, run_all]
      induction ts with
      | nil => rfl
      | cons t ts ihs =>
          rw [List.flatMap_cons, List.forall_mem_append] at h
          rw [runAll, runAll, ih t List.mem_cons_self h.1,
            ihs (fun u hu ↦ ih u (List.mem_cons_of_mem t hu)) h.2]
  | any ts ih =>
      rw [leaves_any] at h
      rw [run_any, run_any]
      induction ts with
      | nil => rfl
      | cons t ts ihs =>
          rw [List.flatMap_cons, List.forall_mem_append] at h
          rw [runAny, runAny, ih t List.mem_cons_self h.1,
            ihs (fun u hu ↦ ih u (List.mem_cons_of_mem t hu)) h.2]

theorem run_pure (v : L → Bool) (t : BoolTree L) :
    (t.run fun l ↦ (.ok (v l) : Except ε Bool)) = .ok (t.eval v) := by
  induction t with
  | leaf l => rw [run_leaf, eval_leaf]
  | all ts ih =>
      rw [run_all, eval_all]
      induction ts with
      | nil => rfl
      | cons t ts ihs =>
          rw [runAll, ih t List.mem_cons_self, ihs fun u hu ↦ ih u (List.mem_cons_of_mem t hu),
            List.all_cons]
          cases t.eval v <;> rfl
  | any ts ih =>
      rw [run_any, eval_any]
      induction ts with
      | nil => rfl
      | cons t ts ihs =>
          rw [runAny, ih t List.mem_cons_self, ihs fun u hu ↦ ih u (List.mem_cons_of_mem t hu),
            List.any_cons]
          cases t.eval v <;> rfl

/-- Where no leaf fails, stopping early makes no difference. -/
theorem run_eq_ok_eval {v : L → Bool} {t : BoolTree L} (h : ∀ l ∈ t.leaves, f l = .ok (v l)) :
    t.run f = .ok (t.eval v) :=
  (run_congr h).trans (run_pure v t)

/-! ## Node by node -/

/-- Groups of one kind with aligned children, down to leaves that are related to what they
are aligned with. -/
inductive Aligned (R : L → BoolTree M → Prop) : BoolTree L → BoolTree M → Prop
  | leaf {l : L} {n : BoolTree M} (h : R l n) : Aligned R (.leaf l) n
  | all {ts : List (BoolTree L)} {ns : List (BoolTree M)} (h : List.Forall₂ (Aligned R) ts ns) :
      Aligned R (.all ts) (.all ns)
  | any {ts : List (BoolTree L)} {ns : List (BoolTree M)} (h : List.Forall₂ (Aligned R) ts ns) :
      Aligned R (.any ts) (.any ns)

variable {R : L → BoolTree M → Prop} {v : M → Bool}

theorem aligned_leaf {l : L} {n : BoolTree M} : Aligned R (leaf l) n ↔ R l n := by
  constructor
  · rintro ⟨h⟩
    exact h
  · exact .leaf

theorem aligned_all {ts : List (BoolTree L)} {n : BoolTree M} :
    Aligned R (all ts) n ↔ ∃ ns, n = all ns ∧ List.Forall₂ (Aligned R) ts ns := by
  constructor
  · rintro (_ | h)
    exact ⟨_, rfl, h⟩
  · rintro ⟨ns, rfl, h⟩
    exact .all h

theorem aligned_any {ts : List (BoolTree L)} {n : BoolTree M} :
    Aligned R (any ts) n ↔ ∃ ns, n = any ns ∧ List.Forall₂ (Aligned R) ts ns := by
  constructor
  · rintro (_ | _ | h)
    exact ⟨_, rfl, h⟩
  · rintro ⟨ns, rfl, h⟩
    exact .any h

theorem forall₂_imp_of_mem {α : Type u} {β : Type v} {P Q : α → β → Prop} {xs : List α}
    {ys : List β} (h : List.Forall₂ P xs ys) (hPQ : ∀ x ∈ xs, ∀ y, P x y → Q x y) :
    List.Forall₂ Q xs ys := by
  induction h with
  | nil => exact .nil
  | cons hx _ ih =>
      refine .cons (hPQ _ List.mem_cons_self _ hx) (ih fun x hxs ↦ ?_)
      exact hPQ x (List.mem_cons_of_mem _ hxs)

theorem evalAll_of_runAll {ts : List (BoolTree L)} {ns : List (BoolTree M)} {b : Bool}
    (h : List.Forall₂ (fun t n ↦ ∀ b, t.run f = .ok b → n.eval v = b) ts ns)
    (hrun : runAll f ts = .ok b) : ns.all (eval v) = b := by
  induction h with
  | nil =>
      cases hrun
      rfl
  | @cons t n ts ns ht _ ih =>
      rw [runAll] at hrun
      rw [List.all_cons]
      rcases hr : run f t with e | c
      · rw [hr] at hrun
        cases hrun
      · rw [hr] at hrun
        rw [ht c hr]
        cases c with
        | false =>
            cases hrun
            rfl
        | true => exact ih hrun

theorem evalAny_of_runAny {ts : List (BoolTree L)} {ns : List (BoolTree M)} {b : Bool}
    (h : List.Forall₂ (fun t n ↦ ∀ b, t.run f = .ok b → n.eval v = b) ts ns)
    (hrun : runAny f ts = .ok b) : ns.any (eval v) = b := by
  induction h with
  | nil =>
      cases hrun
      rfl
  | @cons t n ts ns ht _ ih =>
      rw [runAny] at hrun
      rw [List.any_cons]
      rcases hr : run f t with e | c
      · rw [hr] at hrun
        cases hrun
      · rw [hr] at hrun
        rw [ht c hr]
        cases c with
        | true =>
            cases hrun
            rfl
        | false => exact ih hrun

/-- Where a run over a tree succeeds, an aligned tree has the truth it returns, when the
leaves do. -/
theorem Aligned.eval_of_run {t : BoolTree L} {n : BoolTree M} (halign : Aligned R t n)
    (h : ∀ l ∈ t.leaves, ∀ n b, R l n → f l = .ok b → n.eval v = b) {b : Bool}
    (hrun : t.run f = .ok b) : n.eval v = b := by
  induction t generalizing n b with
  | leaf l =>
      rw [run_leaf] at hrun
      exact h l (by rw [leaves_leaf]; exact List.mem_singleton_self l) n b
        (aligned_leaf.mp halign) hrun
  | all ts ih =>
      obtain ⟨ns, rfl, hts⟩ := aligned_all.mp halign
      rw [leaves_all] at h
      rw [run_all] at hrun
      rw [eval_all]
      refine evalAll_of_runAll (forall₂_imp_of_mem hts fun t ht n hn b hb ↦ ?_) hrun
      exact ih t ht hn (fun l hl ↦ h l (List.mem_flatMap.mpr ⟨t, ht, hl⟩)) hb
  | any ts ih =>
      obtain ⟨ns, rfl, hts⟩ := aligned_any.mp halign
      rw [leaves_any] at h
      rw [run_any] at hrun
      rw [eval_any]
      refine evalAny_of_runAny (forall₂_imp_of_mem hts fun t ht n hn b hb ↦ ?_) hrun
      exact ih t ht hn (fun l hl ↦ h l (List.mem_flatMap.mpr ⟨t, ht, hl⟩)) hb

/-- An aligned tree has the same truth when the leaves do. -/
theorem Aligned.eval_eq {t : BoolTree L} {n : BoolTree M} (halign : Aligned R t n)
    {w : L → Bool} (h : ∀ l n, R l n → n.eval v = w l) : n.eval v = t.eval w := by
  have hleaf : ∀ l ∈ t.leaves, ∀ n b, R l n → (Except.ok (w l) : Except Unit Bool) = .ok b →
      n.eval v = b := by
    intro l _ n b hn hb
    cases hb
    exact h l n hn
  exact halign.eval_of_run hleaf (run_pure w t)

end BoolTree

end Kit
