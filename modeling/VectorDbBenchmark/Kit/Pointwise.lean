import Mathlib.Data.List.Forall2
import Mathlib.Tactic

/-!
# Lists related element by element

What holds of two lists when it holds of any two of their elements that are related.
-/

namespace Kit

universe u v w x

variable {α : Type u} {β : Type v} {γ : Type w} {δ : Type x} {R : α → β → Prop} {xs : List α}
  {ys : List β}

theorem exists_of_mem_right (h : List.Forall₂ R xs ys) {y : β} (hy : y ∈ ys) :
    ∃ x ∈ xs, R x y := by
  induction h with
  | nil => exact absurd hy List.not_mem_nil
  | @cons x y' xs ys hx _ ih =>
      rcases List.mem_cons.mp hy with rfl | hy
      · exact ⟨x, List.mem_cons_self, hx⟩
      · obtain ⟨x', hx', hR⟩ := ih hy
        exact ⟨x', List.mem_cons_of_mem x hx', hR⟩

/-! ## The same of both lists -/

theorem all_congr_of_forall₂ {p : α → Bool} {q : β → Bool}
    (h : List.Forall₂ (fun x y ↦ q y = p x) xs ys) : ys.all q = xs.all p := by
  induction h with
  | nil => rfl
  | cons hx _ ih => rw [List.all_cons, List.all_cons, hx, ih]

theorem any_congr_of_forall₂ {p : α → Bool} {q : β → Bool}
    (h : List.Forall₂ (fun x y ↦ q y = p x) xs ys) : ys.any q = xs.any p := by
  induction h with
  | nil => rfl
  | cons hx _ ih => rw [List.any_cons, List.any_cons, hx, ih]

theorem map_eq_map_of_forall₂ {f : α → γ} {g : β → γ} (h : List.Forall₂ R xs ys)
    (hR : ∀ x y, R x y → f x = g y) : xs.map f = ys.map g := by
  induction h with
  | nil => rfl
  | cons hxy _ ih => rw [List.map_cons, List.map_cons, hR _ _ hxy, ih]

/-- What holds of related elements alike holds of all of the ones when of all of the others. -/
theorem forall_mem_iff_of_forall₂ {p : α → Prop} {q : β → Prop} (h : List.Forall₂ R xs ys)
    (hpq : ∀ x y, R x y → (p x ↔ q y)) : (∀ x ∈ xs, p x) ↔ ∀ y ∈ ys, q y := by
  induction h with
  | nil => simp
  | cons hx _ ih => rw [List.forall_mem_cons, List.forall_mem_cons, hpq _ _ hx, ih]

/-! ## Lists made of others -/

theorem forall₂_map {S : β → γ → Prop} {f : α → β} {g : α → γ} (h : ∀ x ∈ xs, S (f x) (g x)) :
    List.Forall₂ S (xs.map f) (xs.map g) := by
  rw [List.forall₂_map_left_iff, List.forall₂_map_right_iff, List.forall₂_same]
  exact h

theorem forall₂_filterMap {S : γ → δ → Prop} {f : α → Option γ} {g : β → Option δ}
    (h : List.Forall₂ R xs ys) (hfg : ∀ x y, R x y → Option.Rel S (f x) (g y)) :
    List.Forall₂ S (xs.filterMap f) (ys.filterMap g) := by
  induction h with
  | nil => exact .nil
  | @cons x y xs ys hx _ ih =>
      rw [List.filterMap_cons, List.filterMap_cons]
      rcases hfx : f x with _ | a <;> rcases hgy : g y with _ | b <;>
        have hrel := hfg x y hx <;> rw [hfx, hgy] at hrel <;> cases hrel
      · exact ih
      · next hab => exact .cons hab ih

end Kit
