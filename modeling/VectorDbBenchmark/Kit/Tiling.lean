import Mathlib.Tactic

/-!
# Tilings of an interval

Ranges of naturals, both ends included, that follow each other without a gap.  A counter decides
it for ranges that are sorted by where they start, and it says that every position is in exactly
one of them.
-/

namespace Kit

universe u

variable {α : Type u} (lo hi : α → ℕ)

/-- The ranges take up the positions from `a` to just before `b`, one after the other. -/
def Tiles (a : ℕ) (xs : List α) (b : ℕ) : Prop :=
  match xs with
  | [] => a = b
  | x :: xs => lo x = a ∧ Tiles (hi x + 1) xs b

/-- Whether a range holds a position. -/
def holds (p : ℕ) (x : α) : Bool := lo x ≤ p && p ≤ hi x

variable {lo hi} {a b p : ℕ} {x : α} {xs : List α}

theorem holds_iff : holds lo hi p x = true ↔ lo x ≤ p ∧ p ≤ hi x := by
  rw [holds, Bool.and_eq_true, decide_eq_true_eq, decide_eq_true_eq]

theorem Tiles.le (h : Tiles lo hi a xs b) (hle : ∀ x ∈ xs, lo x ≤ hi x) : a ≤ b := by
  induction xs generalizing a with
  | nil => exact le_of_eq h
  | cons x xs ih =>
      rw [List.forall_mem_cons] at hle
      obtain ⟨rfl, h⟩ := h
      exact (Nat.le_succ_of_le hle.1).trans (ih h hle.2)

theorem Tiles.le_lo (h : Tiles lo hi a xs b) (hle : ∀ x ∈ xs, lo x ≤ hi x) :
    ∀ x ∈ xs, a ≤ lo x := by
  induction xs generalizing a with
  | nil =>
      intro x hx
      cases hx
  | cons x xs ih =>
      rw [List.forall_mem_cons] at hle ⊢
      obtain ⟨rfl, h⟩ := h
      refine ⟨le_rfl, fun y hy ↦ ?_⟩
      exact (Nat.le_succ_of_le hle.1).trans (ih h hle.2 y hy)

theorem countP_holds_eq_zero (h : ∀ x ∈ xs, p < lo x) : xs.countP (holds lo hi p) = 0 := by
  rw [List.countP_eq_zero]
  intro x hx hholds
  exact absurd (holds_iff.mp hholds).1 (not_le.mpr (h x hx))

/-- Every position of a tiling is in one range. -/
theorem Tiles.countP_eq_one (h : Tiles lo hi a xs b) (hle : ∀ x ∈ xs, lo x ≤ hi x) (hap : a ≤ p)
    (hpb : p < b) : xs.countP (holds lo hi p) = 1 := by
  induction xs generalizing a with
  | nil => exact absurd (h ▸ hap) (not_le.mpr hpb)
  | cons x xs ih =>
      rw [List.forall_mem_cons] at hle
      obtain ⟨rfl, h⟩ := h
      rw [List.countP_cons]
      rcases Nat.lt_or_ge (hi x) p with hlt | hge
      · rw [ih h hle.2 hlt, if_neg]
        rw [holds_iff]
        exact fun hholds ↦ absurd hholds.2 (not_le.mpr hlt)
      · rw [if_pos (holds_iff.mpr ⟨hap, hge⟩), countP_holds_eq_zero]
        intro y hy
        exact (Nat.lt_succ_of_le hge).trans_le (h.le_lo hle.2 y hy)

/-- Sorted ranges up to `b` of which every position is in one are a tiling. -/
theorem tiles_of_countP_eq_one (hsorted : xs.Pairwise fun x y ↦ lo x ≤ lo y)
    (hle : ∀ x ∈ xs, lo x ≤ hi x) (hlo : ∀ x ∈ xs, a ≤ lo x) (hhi : ∀ x ∈ xs, hi x < b)
    (hab : a ≤ b) (hone : ∀ p, a ≤ p → p < b → xs.countP (holds lo hi p) = 1) :
    Tiles lo hi a xs b := by
  induction xs generalizing a with
  | nil =>
      refine le_antisymm hab (not_lt.mp fun hlt ↦ ?_)
      exact absurd (hone a le_rfl hlt) Nat.zero_ne_one
  | cons x xs ih =>
      rw [List.pairwise_cons] at hsorted
      rw [List.forall_mem_cons] at hle hlo hhi
      -- the range that holds `a` starts at it, and the first one starts no later
      have hstart : lo x = a := by
        have hpos : 0 < (x :: xs).countP (holds lo hi a) := by
          rw [hone a le_rfl (hlo.1.trans_lt (hle.1.trans_lt hhi.1))]
          exact Nat.one_pos
        obtain ⟨y, hy, hholds⟩ := List.countP_pos_iff.mp hpos
        have hya := (holds_iff.mp hholds).1
        rcases List.mem_cons.mp hy with rfl | hy
        · exact le_antisymm hya hlo.1
        · exact le_antisymm ((hsorted.1 y hy).trans hya) hlo.1
      -- a second range may not start inside the first
      have hnext : ∀ y ∈ xs, hi x + 1 ≤ lo y := by
        intro y hy
        refine not_lt.mp fun hlt ↦ ?_
        have hcount := hone (lo y) (hlo.2 y hy) ((hle.2 y hy).trans_lt (hhi.2 y hy))
        rw [List.countP_cons, if_pos (holds_iff.mpr ⟨hsorted.1 y hy, Nat.le_of_lt_succ hlt⟩)]
          at hcount
        have hpos : 0 < xs.countP (holds lo hi (lo y)) :=
          List.countP_pos_iff.mpr ⟨y, hy, holds_iff.mpr ⟨le_rfl, hle.2 y hy⟩⟩
        omega
      refine ⟨hstart, ih hsorted.2 hle.2 hnext hhi.2 hhi.1 fun p hp hpb ↦ ?_⟩
      have hcount := hone p (hlo.1.trans (hle.1.trans (Nat.le_of_succ_le hp))) hpb
      rwa [List.countP_cons, if_neg, add_zero] at hcount
      rw [holds_iff]
      exact fun hholds ↦ absurd hholds.2 (not_le.mpr hp)

/-- For sorted ranges below `b` to be a tiling is for every position to be in one of them. -/
theorem tiles_zero_iff (hsorted : xs.Pairwise fun x y ↦ lo x ≤ lo y) (hle : ∀ x ∈ xs, lo x ≤ hi x)
    (hhi : ∀ x ∈ xs, hi x < b) :
    Tiles lo hi 0 xs b ↔ ∀ p < b, xs.countP (holds lo hi p) = 1 := by
  constructor
  · intro h p hp
    exact h.countP_eq_one hle (Nat.zero_le p) hp
  · intro hone
    exact tiles_of_countP_eq_one hsorted hle (fun _ _ ↦ Nat.zero_le _) hhi (Nat.zero_le b)
      fun p _ hp ↦ hone p hp

end Kit
