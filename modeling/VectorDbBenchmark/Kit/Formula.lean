import VectorDbBenchmark.Kit.BoolTree

/-!
# And/or/not trees

Trees of conjunctions, disjunctions and negations over leaves of any kind: their truth
under a valuation, their evaluation from left to right with leaves that may fail (`run`),
and when a reading of trees has the truth that a run returns.
-/

namespace Kit

universe u w

/-- A conjunction (`all`), a disjunction (`any`), a negation, or a leaf. -/
inductive Formula (L : Type u) : Type u where
  | leaf (l : L)
  | all (ts : List (Formula L))
  | any (ts : List (Formula L))
  | not (t : Formula L)
deriving Repr

namespace Formula

variable {L : Type u}

/-- Induction with one hypothesis for each child of a group. -/
@[elab_as_elim, induction_eliminator]
theorem induct {motive : Formula L → Prop} (leaf : ∀ l, motive (.leaf l))
    (all : ∀ ts, (∀ t ∈ ts, motive t) → motive (.all ts))
    (any : ∀ ts, (∀ t ∈ ts, motive t) → motive (.any ts))
    (not : ∀ t, motive t → motive (.not t)) (t : Formula L) : motive t :=
  Formula.rec (motive_2 := fun ts ↦ ∀ t ∈ ts, motive t) leaf all any not
    (fun _ h ↦ absurd h List.not_mem_nil)
    (fun _ _ ht hts t' ht' ↦ by
      rcases List.mem_cons.mp ht' with rfl | ht'
      · exact ht
      · exact hts t' ht') t

/-! ## Truth -/

mutual

/-- The truth of a tree. -/
def eval (v : L → Bool) : Formula L → Bool
  | leaf l => v l
  | all ts => evalAll v ts
  | any ts => evalAny v ts
  | not t => !eval v t

def evalAll (v : L → Bool) : List (Formula L) → Bool
  | [] => true
  | t :: ts => eval v t && evalAll v ts

def evalAny (v : L → Bool) : List (Formula L) → Bool
  | [] => false
  | t :: ts => eval v t || evalAny v ts

end

variable {v : L → Bool}

@[simp] theorem eval_leaf (l : L) : (leaf l).eval v = v l := by rw [eval]

@[simp] theorem eval_not (t : Formula L) : (not t).eval v = !t.eval v := by rw [eval]

@[simp] theorem eval_all (ts : List (Formula L)) : (all ts).eval v = ts.all (eval v) := by
  have heach : evalAll v ts = ts.all (eval v) := by
    induction ts with
    | nil => rw [evalAll, List.all_nil]
    | cons t ts ih => rw [evalAll, List.all_cons, ih]
  rw [eval, heach]

@[simp] theorem eval_any (ts : List (Formula L)) : (any ts).eval v = ts.any (eval v) := by
  have heach : evalAny v ts = ts.any (eval v) := by
    induction ts with
    | nil => rw [evalAny, List.any_nil]
    | cons t ts ih => rw [evalAny, List.any_cons, ih]
  rw [eval, heach]

/-! ## Trees all of whose groups have members -/

/-- No group is empty, and every leaf satisfies `P`. -/
inductive Filled (P : L → Prop) : Formula L → Prop
  | leaf {l : L} (h : P l) : Filled P (.leaf l)
  | all {ts : List (Formula L)} (hne : ts ≠ []) (h : ∀ t ∈ ts, Filled P t) : Filled P (.all ts)
  | any {ts : List (Formula L)} (hne : ts ≠ []) (h : ∀ t ∈ ts, Filled P t) : Filled P (.any ts)
  | not {t : Formula L} (h : Filled P t) : Filled P (.not t)

/-! ## Evaluation that may fail -/

variable {ε : Type w}

mutual

/-- The truth of a tree whose leaves may fail: a conjunction stops at the first false
child, a disjunction at the first true one, and both at the first failure. -/
def run (f : L → Except ε Bool) : Formula L → Except ε Bool
  | leaf l => f l
  | all ts => runAll f ts
  | any ts => runAny f ts
  | not t => (run f t).map Bool.not

def runAll (f : L → Except ε Bool) : List (Formula L) → Except ε Bool
  | [] => .ok true
  | t :: ts => do if ← run f t then runAll f ts else .ok false

def runAny (f : L → Except ε Bool) : List (Formula L) → Except ε Bool
  | [] => .ok false
  | t :: ts => do if ← run f t then .ok true else runAny f ts

end

section Run

variable {f : L → Except ε Bool} {g : Formula L → Bool} {ts : List (Formula L)} {b : Bool}

theorem all_of_runAll (h : ∀ t ∈ ts, ∀ b, t.run f = .ok b → g t = b)
    (hrun : runAll f ts = .ok b) : ts.all g = b := by
  induction ts with
  | nil =>
      rw [runAll] at hrun
      exact Except.ok.inj hrun
  | cons t ts ih =>
      rw [List.forall_mem_cons] at h
      rw [runAll] at hrun
      rw [List.all_cons]
      rcases hr : run f t with e | c
      · rw [hr] at hrun
        cases hrun
      · rw [hr] at hrun
        rw [h.1 c hr]
        cases c with
        | false => exact Except.ok.inj hrun
        | true => exact ih h.2 hrun

theorem any_of_runAny (h : ∀ t ∈ ts, ∀ b, t.run f = .ok b → g t = b)
    (hrun : runAny f ts = .ok b) : ts.any g = b := by
  induction ts with
  | nil =>
      rw [runAny] at hrun
      exact Except.ok.inj hrun
  | cons t ts ih =>
      rw [List.forall_mem_cons] at h
      rw [runAny] at hrun
      rw [List.any_cons]
      rcases hr : run f t with e | c
      · rw [hr] at hrun
        cases hrun
      · rw [hr] at hrun
        rw [h.1 c hr]
        cases c with
        | true => exact Except.ok.inj hrun
        | false => exact ih h.2 hrun

/-- A reading of trees as Booleans that takes the groups and negation for what they are. -/
structure Reading (g : Formula L → Bool) : Prop where
  all : ∀ ts, g (.all ts) = ts.all g
  any : ∀ ts, g (.any ts) = ts.any g
  not : ∀ t, g (.not t) = !g t

/-- Where a run over a tree succeeds, a reading gives the truth it returns, when it does so
at the leaves. -/
theorem Reading.eq_of_run (hg : Reading g) {P : L → Prop} {t : Formula L} (ht : t.Filled P)
    (hleaf : ∀ l, P l → ∀ b, f l = .ok b → g (.leaf l) = b) (hrun : t.run f = .ok b) :
    g t = b := by
  induction ht generalizing b with
  | leaf hl =>
      rw [run] at hrun
      exact hleaf _ hl b hrun
  | all _ _ ih =>
      rw [run] at hrun
      rw [hg.all]
      exact all_of_runAll (fun t ht b hb ↦ ih t ht hb) hrun
  | any _ _ ih =>
      rw [run] at hrun
      rw [hg.any]
      exact any_of_runAny (fun t ht b hb ↦ ih t ht hb) hrun
  | @not t _ ih =>
      rw [run] at hrun
      rw [hg.not]
      rcases hr : t.run f with e | c
      · rw [hr] at hrun
        cases hrun
      · rw [hr] at hrun
        rw [ih hr]
        exact Except.ok.inj hrun

end Run

end Formula

end Kit
