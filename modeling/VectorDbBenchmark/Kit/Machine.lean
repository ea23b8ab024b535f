import Mathlib.Algebra.BigOperators.Group.List.Basic
import Mathlib.Data.List.Basic
import Mathlib.Data.List.Nodup
import Mathlib.Data.List.Perm.Basic
import Mathlib.Tactic

/-!
# Machines that take one action at a time

A machine starts in one state and takes actions, each of which leads to at most one next
state; which action comes next is not determined, so a run is any list of actions that
are all enabled.  Safety of every interleaving is an invariant: it holds at the
start and no action breaks it.

A crew is a shared state and a list of workers, of which one acts at a time.  What the
workers hold together is a sum over them, or what their lists hold end to end; an action
changes one summand.
-/

namespace Kit

universe u v w x

structure Machine (σ : Type u) (α : Type v) where
  init : σ
  step : σ → α → Option σ

namespace Machine

variable {σ : Type u} {α : Type v} (m : Machine σ α)

/-- The state the actions lead to, when every one of them is enabled in turn. -/
def runFrom : σ → List α → Option σ
  | s, [] => some s
  | s, a :: as => (m.step s a).bind fun s' ↦ runFrom s' as

/-- `s'` can be reached from `s`. -/
def Leads (s s' : σ) : Prop := ∃ as, m.runFrom s as = some s'

def Reachable (s : σ) : Prop := m.Leads m.init s

variable {m}

theorem runFrom_cons {s s' : σ} {a : α} {as : List α} :
    m.runFrom s (a :: as) = some s' ↔ ∃ t, m.step s a = some t ∧ m.runFrom t as = some s' :=
  Option.bind_eq_some_iff

theorem Leads.refl (s : σ) : m.Leads s s := ⟨[], rfl⟩

theorem Leads.cons {s t s' : σ} {a : α} (hstep : m.step s a = some t) (h : m.Leads t s') :
    m.Leads s s' := by
  obtain ⟨as, has⟩ := h
  exact ⟨a :: as, runFrom_cons.mpr ⟨t, hstep, has⟩⟩

/-- What one action preserves, a run preserves. -/
theorem Leads.preserves {P : σ → Prop} (hstep : ∀ s a s', m.step s a = some s' → P s → P s')
    {s s' : σ} (h : m.Leads s s') (hs : P s) : P s' := by
  obtain ⟨as, has⟩ := h
  induction as generalizing s with
  | nil =>
      cases has
      exact hs
  | cons a as ih =>
      obtain ⟨t, ht, has⟩ := runFrom_cons.mp has
      exact ih (hstep s a t ht hs) has

/-- An invariant holds in every reachable state. -/
theorem Reachable.invariant {P : σ → Prop} (hinit : P m.init)
    (hstep : ∀ s a s', m.step s a = some s' → P s → P s') {s : σ} (h : m.Reachable s) : P s :=
  Leads.preserves hstep h hinit

/-- A run is no longer than what every action takes a part of. -/
theorem length_le_of_decreasing {μ : σ → ℕ}
    (hstep : ∀ s a s', m.step s a = some s' → μ s' < μ s) {s s' : σ} {as : List α}
    (h : m.runFrom s as = some s') : as.length + μ s' ≤ μ s := by
  induction as generalizing s with
  | nil =>
      cases h
      exact (Nat.zero_add _).le
  | cons a as ih =>
      obtain ⟨t, ht, has⟩ := runFrom_cons.mp h
      have hlt := hstep s a t ht
      have hle := ih has
      rw [List.length_cons]
      omega

end Machine

/-! ## Crews -/

structure Crew (σ : Type u) (ω : Type v) where
  shared : σ
  workers : List ω

namespace Crew

variable {σ : Type u} {ω : Type v} {α : Type w}

/-- The worker of the given number takes an action. -/
def step (act : σ → ω → α → Option (ω × σ)) (s : Crew σ ω) (a : ℕ × α) : Option (Crew σ ω) :=
  s.workers[a.1]?.bind fun w ↦
    (act s.shared w a.2).map fun (w, shared) ↦ ⟨shared, s.workers.set a.1 w⟩

/-- A step is an action of one worker. -/
theorem step_cases {act : σ → ω → α → Option (ω × σ)} {s s' : Crew σ ω} {a : ℕ × α}
    (h : step act s a = some s') :
    ∃ w w' shared, s.workers[a.1]? = some w ∧ act s.shared w a.2 = some (w', shared) ∧
      s' = ⟨shared, s.workers.set a.1 w'⟩ := by
  obtain ⟨w, hw, h⟩ := Option.bind_eq_some_iff.mp h
  obtain ⟨⟨w', shared⟩, hact, h⟩ := Option.map_eq_some_iff.mp h
  cases h
  exact ⟨w, w', shared, hw, hact, rfl⟩

end Crew

variable {ω : Type v} {ws : List ω} {i : ℕ} {w w' : ω}

/-- What every worker satisfies is kept when it holds of the one that moved. -/
theorem forall_mem_set {P : ω → Prop} (h : ∀ v ∈ ws, P v) (hw' : P w') :
    ∀ v ∈ ws.set i w', P v := by
  intro v hv
  rcases List.mem_or_eq_of_mem_set hv with hv | rfl
  · exact h v hv
  · exact hw'

/-- One summand changes. -/
theorem sum_map_set {M : Type x} [AddCommMonoid M] (f : ω → M) (hi : ws[i]? = some w) (w' : ω) :
    ((ws.set i w').map f).sum + f w = (ws.map f).sum + f w' := by
  induction ws generalizing i with
  | nil => cases hi
  | cons v ws ih =>
      cases i with
      | zero =>
          cases hi
          simp only [List.set_cons_zero, List.map_cons, List.sum_cons]
          rw [add_right_comm, add_comm (f w') (f w), add_right_comm]
      | succ i =>
          have hrest := ih hi
          simp only [List.set_cons_succ, List.map_cons, List.sum_cons]
          rw [add_assoc, hrest, add_assoc]

/-- One worker's list grows at its end. -/
theorem perm_flatMap_set {β : Type x} {f : ω → List β} {added : List β} (hi : ws[i]? = some w)
    (h : f w' = f w ++ added) : ((ws.set i w').flatMap f).Perm (ws.flatMap f ++ added) := by
  induction ws generalizing i with
  | nil => cases hi
  | cons v ws ih =>
      cases i with
      | zero =>
          cases hi
          rw [List.set_cons_zero, List.flatMap_cons, List.flatMap_cons, h, List.append_assoc,
            List.append_assoc]
          exact List.perm_append_comm.append_left _
      | succ i =>
          rw [List.set_cons_succ, List.flatMap_cons, List.flatMap_cons, List.append_assoc]
          exact (ih hi).append_left _

/-- What is in the lists once is in one list only. -/
theorem existsUnique_of_mem_flatMap {β : Type x} {f : ω → List β} {b : β}
    (hnodup : (ws.flatMap f).Nodup) (hb : b ∈ ws.flatMap f) :
    ∃! i : ℕ, ∃ w, ws[i]? = some w ∧ b ∈ f w := by
  obtain ⟨w, hw, hbw⟩ := List.mem_flatMap.mp hb
  obtain ⟨i, hi⟩ := List.mem_iff_getElem?.mp hw
  refine ⟨i, ⟨w, hi, hbw⟩, ?_⟩
  rintro j ⟨v, hj, hbv⟩
  have hpairwise := (List.nodup_flatMap.mp hnodup).2
  rw [List.pairwise_iff_getElem] at hpairwise
  obtain ⟨hi', rfl⟩ := List.getElem?_eq_some_iff.mp hi
  obtain ⟨hj', rfl⟩ := List.getElem?_eq_some_iff.mp hj
  rcases lt_trichotomy j i with hlt | heq | hlt
  · exact (hpairwise j i hj' hi' hlt hbv hbw).elim
  · exact heq
  · exact (hpairwise i j hi' hj' hlt hbw hbv).elim

end Kit
