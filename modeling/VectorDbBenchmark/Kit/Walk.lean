import Mathlib.Logic.Relation
import Mathlib.Tactic

/-!
# Walks

A deterministic step leads to the next state or to a result.  A walk takes steps as long as its
fuel lasts; it has a result exactly when its path comes to a state whose step is one.
-/

namespace Kit

namespace Walk

universe u v

variable {σ : Type u} {ρ : Type v}

/-- The result of a walk with that much fuel. -/
def run (step : σ → σ ⊕ ρ) : ℕ → σ → Option ρ
  | 0, _ => none
  | fuel + 1, s =>
    match step s with
    | .inl s' => run step fuel s'
    | .inr r => some r

/-- One step of a path. -/
def Next (step : σ → σ ⊕ ρ) (s s' : σ) : Prop := step s = .inl s'

/-- A path of any length. -/
abbrev Path (step : σ → σ ⊕ ρ) : σ → σ → Prop := Relation.ReflTransGen (Next step)

/-- The walk from a state has a result. -/
def Ends (step : σ → σ ⊕ ρ) (s : σ) (r : ρ) : Prop := ∃ fuel, run step fuel s = some r

variable {step : σ → σ ⊕ ρ} {s s' t : σ} {r r' : ρ}

theorem Next.rightUnique : Relator.RightUnique (Next step) := by
  intro a b c hb hc
  exact Sum.inl.inj (hb.symm.trans hc)

theorem run_of_next (h : Next step s s') (fuel : ℕ) :
    run step (fuel + 1) s = run step fuel s' := by
  show (match step s with
    | .inl s' => run step fuel s'
    | .inr r => some r) = run step fuel s'
  rw [h]

theorem run_of_result (h : step s = .inr r) (fuel : ℕ) : run step (fuel + 1) s = some r := by
  show (match step s with
    | .inl s' => run step fuel s'
    | .inr r => some r) = some r
  rw [h]

theorem ends_of_next (h : Next step s s') : Ends step s r ↔ Ends step s' r := by
  constructor
  · rintro ⟨fuel, hfuel⟩
    cases fuel with
    | zero => cases hfuel
    | succ fuel => exact ⟨fuel, (run_of_next h fuel).symm.trans hfuel⟩
  · rintro ⟨fuel, hfuel⟩
    exact ⟨fuel + 1, (run_of_next h fuel).trans hfuel⟩

theorem ends_of_result (h : step s = .inr r) : Ends step s r' ↔ r' = r := by
  constructor
  · rintro ⟨fuel, hfuel⟩
    cases fuel with
    | zero => cases hfuel
    | succ fuel => exact Option.some_inj.mp (hfuel.symm.trans (run_of_result h fuel))
  · rintro rfl
    exact ⟨1, run_of_result h 0⟩

theorem ends_of_path (h : Path step s t) : Ends step s r ↔ Ends step t r := by
  induction h with
  | refl => rfl
  | tail _ hnext ih => exact ih.trans (ends_of_next hnext)

/-- A walk ends where its path has a result. -/
theorem ends_iff : Ends step s r ↔ ∃ t, Path step s t ∧ step t = .inr r := by
  constructor
  · rintro ⟨fuel, hfuel⟩
    induction fuel generalizing s with
    | zero => cases hfuel
    | succ fuel ih =>
        cases hstep : step s with
        | inl s' =>
            rw [run_of_next hstep] at hfuel
            obtain ⟨t, hpath, hresult⟩ := ih hfuel
            exact ⟨t, .head hstep hpath, hresult⟩
        | inr r' =>
            rw [run_of_result hstep] at hfuel
            cases hfuel
            exact ⟨s, .refl, hstep⟩
  · rintro ⟨t, hpath, hresult⟩
    exact (ends_of_path hpath).mpr ((ends_of_result hresult).mpr rfl)

/-- What every step preserves holds on the whole path. -/
theorem Path.preserves {P : σ → Prop} (hstep : ∀ s s', P s → Next step s s' → P s')
    (h : Path step s t) (hs : P s) : P t := by
  induction h with
  | refl => exact hs
  | tail _ hnext ih => exact hstep _ _ ih hnext

/-- There is only one result. -/
theorem Ends.unique (h : Ends step s r) (h' : Ends step s r') : r = r' := by
  obtain ⟨t, hpath, hresult⟩ := ends_iff.mp h
  exact ((ends_of_result hresult).mp ((ends_of_path hpath).mp h')).symm

/-- Where a measure goes down at every step, the result is there with more fuel than that. -/
theorem exists_run {P : σ → Prop} {μ : σ → ℕ}
    (hstep : ∀ s s', P s → Next step s s' → P s' ∧ μ s' < μ s) (hs : P s) :
    ∃ r, ∀ fuel, μ s < fuel → run step fuel s = some r := by
  induction hn : μ s using Nat.strong_induction_on generalizing s with
  | _ n ih =>
      cases hnext : step s with
      | inl s' =>
          obtain ⟨hs', hlt⟩ := hstep s s' hs hnext
          obtain ⟨r, hr⟩ := ih (μ s') (hn ▸ hlt) hs' rfl
          refine ⟨r, fun fuel hfuel ↦ ?_⟩
          obtain ⟨fuel, rfl⟩ := Nat.exists_eq_succ_of_ne_zero (Nat.ne_zero_of_lt hfuel)
          rw [run_of_next hnext]
          exact hr fuel ((hn ▸ hlt).trans_le (Nat.le_of_lt_succ hfuel))
      | inr r =>
          refine ⟨r, fun fuel hfuel ↦ ?_⟩
          obtain ⟨fuel, rfl⟩ := Nat.exists_eq_succ_of_ne_zero (Nat.ne_zero_of_lt hfuel)
          rw [run_of_result hnext]

/-- A walk ends when a measure goes down at every step on its way. -/
theorem exists_ends {P : σ → Prop} {μ : σ → ℕ}
    (hstep : ∀ s s', P s → Next step s s' → P s' ∧ μ s' < μ s) (hs : P s) :
    ∃ r, Ends step s r := by
  obtain ⟨r, hr⟩ := exists_run hstep hs
  exact ⟨r, _, hr _ (Nat.lt_succ_self (μ s))⟩

/-- A walk that comes back to where it was has no result. -/
theorem not_ends_of_loop (h : Next step s s) : ¬Ends step s r := by
  have hstay : ∀ {t}, Path step s t → t = s := by
    intro t hpath
    induction hpath with
    | refl => rfl
    | tail _ hnext ih =>
        rw [ih] at hnext
        exact Next.rightUnique hnext h
  intro hends
  obtain ⟨t, hpath, hresult⟩ := ends_iff.mp hends
  rw [hstay hpath, h] at hresult
  cases hresult

end Walk

end Kit
