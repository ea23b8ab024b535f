import Mathlib.Data.List.Basic

/-!
# Values that are handed out numbers

A computation that lists values and refers to each by a number, which counts the values that
were listed before.  What it refers to is found at its number whatever was listed before and
behind it; and two computations that list as many values can refer to them alike.
-/

namespace Kit

/-- A computation that is given the next number, and lists more values. -/
def Numbering (β α : Type) : Type := ℕ → α × List β

namespace Numbering

variable {α β γ : Type}

/-- Values are listed in the order of the computations. -/
instance instMonad : Monad (Numbering β) where
  pure a _ := (a, [])
  bind x f n :=
    ((f (x n).1 (n + (x n).2.length)).1, (x n).2 ++ (f (x n).1 (n + (x n).2.length)).2)

@[simp] theorem pure_apply (a : α) (n : ℕ) : (pure a : Numbering β α) n = (a, []) := rfl

@[simp] theorem bind_apply (x : Numbering β α) (f : α → Numbering β γ) (n : ℕ) :
    (x >>= f) n =
      ((f (x n).1 (n + (x n).2.length)).1, (x n).2 ++ (f (x n).1 (n + (x n).2.length)).2) := rfl

/-- Lists one value; the result is its number. -/
def next (v : β) : Numbering β ℕ := fun n ↦ (n, [v])

@[simp] theorem next_apply (v : β) (n : ℕ) : next v n = (n, [v]) := rfl

/-! ## Where the values are found -/

/-- The values are found from a number on. -/
def Agrees (b : ℕ → Option β) (n : ℕ) (vs : List β) : Prop :=
  ∀ i v, vs[i]? = some v → b (n + i) = some v

theorem agrees_singleton {b : ℕ → Option β} {n : ℕ} {v : β} :
    Agrees b n [v] ↔ b n = some v := by
  constructor
  · intro h
    exact h 0 v rfl
  · intro h i w hw
    cases i with
    | zero =>
        cases hw
        exact h
    | succ i => cases hw

theorem agrees_append {b : ℕ → Option β} {n : ℕ} {vs ws : List β} :
    Agrees b n (vs ++ ws) ↔ Agrees b n vs ∧ Agrees b (n + vs.length) ws := by
  constructor
  · intro h
    constructor
    · intro i v hv
      apply h
      rw [List.getElem?_append_left (List.getElem?_eq_some_iff.mp hv).1]
      exact hv
    · intro i v hv
      rw [Nat.add_assoc]
      apply h
      rw [List.getElem?_append_right (Nat.le_add_right _ _), Nat.add_sub_cancel_left]
      exact hv
  · rintro ⟨hvs, hws⟩ i v hv
    rcases Nat.lt_or_ge i vs.length with hi | hi
    · rw [List.getElem?_append_left hi] at hv
      exact hvs i v hv
    · rw [List.getElem?_append_right hi] at hv
      have hplace := hws _ v hv
      rwa [Nat.add_assoc, Nat.add_sub_cancel' hi] at hplace

/-- Values from a number on. -/
def placed (n : ℕ) (vs : List β) (k : ℕ) : Option β := if n ≤ k then vs[k - n]? else none

theorem agrees_placed (n : ℕ) (vs : List β) : Agrees (placed n vs) n vs := by
  intro i v h
  rw [placed, if_pos (Nat.le_add_right n i), Nat.add_sub_cancel_left]
  exact h

/-! ## Computations that list as many values -/

/-- Wherever they start, both have one result, and list as many values. -/
def Alike (x y : Numbering β α) : Prop :=
  ∀ n, (x n).1 = (y n).1 ∧ (x n).2.length = (y n).2.length

theorem Alike.refl (x : Numbering β α) : Alike x x := fun _ ↦ ⟨rfl, rfl⟩

theorem Alike.trans {x y z : Numbering β α} (h : Alike x y) (h' : Alike y z) : Alike x z :=
  fun n ↦ ⟨(h n).1.trans (h' n).1, (h n).2.trans (h' n).2⟩

theorem Alike.symm {x y : Numbering β α} (h : Alike x y) : Alike y x :=
  fun n ↦ ⟨(h n).1.symm, (h n).2.symm⟩

theorem alike_next (v w : β) : Alike (next v) (next w) := fun _ ↦ ⟨rfl, rfl⟩

theorem Alike.bind {x y : Numbering β α} {f g : α → Numbering β γ} (h : Alike x y)
    (hfg : ∀ a, Alike (f a) (g a)) : Alike (x >>= f) (y >>= g) := by
  intro n
  obtain ⟨hresult, hlength⟩ := h n
  obtain ⟨hresult', hlength'⟩ := hfg (y n).1 (n + (y n).2.length)
  simp only [bind_apply, hresult, hlength, List.length_append]
  exact ⟨hresult', congrArg _ hlength'⟩

end Numbering

end Kit
