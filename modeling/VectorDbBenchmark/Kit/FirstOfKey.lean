import Mathlib.Data.List.Basic
import Mathlib.Data.List.Range
import Mathlib.Order.Nat

/-!
# The first of every key

The positions of a list at which a test holds, in ascending order, and a pass over a list that
keeps the place of the first element with each key, remembers its
value, and finds out whether another element with that key has another value.
-/

namespace Kit

universe u v w

/-! ## Positions -/

section Positions

variable {α : Type u}

/-- The positions of the elements that pass a test. -/
def positions (f : α → Bool) (xs : List α) : List ℕ :=
  (xs.zipIdx.filter fun x ↦ f x.1).map Prod.snd

theorem pairwise_zipIdx (xs : List α) (n : ℕ) :
    (xs.zipIdx n).Pairwise fun p q ↦ p.2 < q.2 := by
  induction xs generalizing n with
  | nil => exact .nil
  | cons x xs ih =>
      rw [List.zipIdx_cons, List.pairwise_cons]
      exact ⟨fun p hp ↦ List.le_snd_of_mem_zipIdx hp, ih (n + 1)⟩

theorem mem_positions {f : α → Bool} {xs : List α} {i : ℕ} :
    i ∈ positions f xs ↔ ∃ x, xs[i]? = some x ∧ f x = true := by
  simp only [positions, List.mem_map, List.mem_filter, Prod.exists, exists_eq_right,
    List.mem_zipIdx_iff_getElem?]

theorem pairwise_positions (f : α → Bool) (xs : List α) : (positions f xs).Pairwise (· < ·) := by
  rw [positions, List.pairwise_map]
  exact (pairwise_zipIdx xs 0).sublist List.filter_sublist

end Positions

/-! ## First occurrences -/

variable {α : Type u} {κ : Type v} {β : Type w}

section Firsts

variable (key : α → κ) (val : α → β) (xs : List α)

/-- The element at `i` is the first with its key. -/
def IsFirst (i : ℕ) : Prop :=
  ∃ x, xs[i]? = some x ∧ ∀ j < i, ∀ y, xs[j]? = some y → key y ≠ key x

/-- Two elements with one key have different values. -/
def Conflict : Prop := ∃ x ∈ xs, ∃ y ∈ xs, key x = key y ∧ val x ≠ val y

/-- What has been found out about a list: the value of every key, and the places of the
first elements. -/
structure FirstsOf [BEq κ] (values : List (κ × β)) (selected : List ℕ) : Prop where
  agrees : ∀ x ∈ xs, values.lookup (key x) = some (val x)
  absent : ∀ k, (∀ x ∈ xs, key x ≠ k) → values.lookup k = none
  mem : ∀ i, i ∈ selected ↔ IsFirst key xs i
  ascending : selected.Pairwise (· < ·)

end Firsts

variable {key : α → κ} {val : α → β} {xs : List α}

theorem IsFirst.lt_length {i : ℕ} (h : IsFirst key xs i) : i < xs.length := by
  obtain ⟨x, hx, -⟩ := h
  exact (List.getElem?_eq_some_iff.mp hx).1

theorem isFirst_map {γ : Type u} {f : γ → α} {ys : List γ} {i : ℕ} :
    IsFirst key (ys.map f) i ↔ IsFirst (key ∘ f) ys i := by
  simp only [IsFirst, List.getElem?_map, Option.map_eq_some_iff, Function.comp_apply,
    forall_exists_index, and_imp, forall_apply_eq_imp_iff₂]
  constructor
  · rintro ⟨-, ⟨y, hy, rfl⟩, h⟩
    exact ⟨y, hy, h⟩
  · rintro ⟨y, hy, h⟩
    exact ⟨f y, ⟨y, hy, rfl⟩, h⟩

theorem conflict_map {γ : Type u} {f : γ → α} {ys : List γ} :
    Conflict key val (ys.map f) ↔ Conflict (key ∘ f) (val ∘ f) ys := by
  simp [Conflict]

/-- The places before the end stay what they are when an element is added. -/
theorem isFirst_concat_of_lt {x : α} {i : ℕ} (hi : i < xs.length) :
    IsFirst key (xs ++ [x]) i ↔ IsFirst key xs i := by
  have hplace : ∀ j ≤ i, (xs ++ [x])[j]? = xs[j]? := by
    intro j hj
    exact List.getElem?_append_left (lt_of_le_of_lt hj hi)
  constructor
  · rintro ⟨y, hy, h⟩
    refine ⟨y, hplace i le_rfl ▸ hy, fun j hj z hz ↦ h j hj z ?_⟩
    rw [hplace j hj.le, hz]
  · rintro ⟨y, hy, h⟩
    refine ⟨y, (hplace i le_rfl).trans hy, fun j hj z hz ↦ h j hj z ?_⟩
    rw [← hplace j hj.le, hz]

theorem isFirst_concat_length {x : α} :
    IsFirst key (xs ++ [x]) xs.length ↔ ∀ y ∈ xs, key y ≠ key x := by
  have hlast : (xs ++ [x])[xs.length]? = some x := List.getElem?_concat_length
  constructor
  · rintro ⟨y, hy, h⟩ z hz
    obtain rfl := Option.some.inj (hlast.symm.trans hy)
    obtain ⟨j, hj, rfl⟩ := List.getElem_of_mem hz
    apply h j hj
    rw [List.getElem?_append_left hj, List.getElem?_eq_getElem hj]
  · intro h
    refine ⟨x, hlast, fun j hj y hy ↦ ?_⟩
    rw [List.getElem?_append_left hj] at hy
    exact h y (List.mem_of_getElem? hy)

namespace FirstsOf

variable [BEq κ] {values : List (κ × β)} {selected : List ℕ}

theorem nil : FirstsOf key val [] [] [] where
  agrees := List.forall_mem_nil _
  absent _ _ := rfl
  mem i := by
    constructor
    · intro h
      cases h
    · rintro ⟨x, hx, -⟩
      cases hx
  ascending := .nil

theorem lt_length (h : FirstsOf key val xs values selected) {i : ℕ} (hi : i ∈ selected) :
    i < xs.length := ((h.mem i).mp hi).lt_length

theorem not_conflict (h : FirstsOf key val xs values selected) : ¬Conflict key val xs := by
  rintro ⟨x, hx, y, hy, hkey, hval⟩
  have hx := h.agrees x hx
  rw [hkey, h.agrees y hy, Option.some_inj] at hx
  exact hval hx.symm

/-- An element with a key that was there before, and with its value. -/
theorem skip (h : FirstsOf key val xs values selected) {x : α}
    (hx : values.lookup (key x) = some (val x)) :
    FirstsOf key val (xs ++ [x]) values selected where
  agrees := List.forall_mem_append.mpr ⟨h.agrees, List.forall_mem_singleton.mpr hx⟩
  absent k hk := h.absent k fun y hy ↦ hk y (List.mem_append_left _ hy)
  mem i := by
    rw [h.mem]
    rcases lt_trichotomy i xs.length with hi | rfl | hi
    · exact (isFirst_concat_of_lt hi).symm
    · rw [isFirst_concat_length]
      constructor
      · intro hfirst
        exact absurd hfirst.lt_length (lt_irrefl _)
      · intro hnone
        rw [h.absent _ hnone] at hx
        cases hx
    · constructor
      · intro hfirst
        exact absurd hfirst.lt_length hi.not_gt
      · intro hfirst
        have hlt := hfirst.lt_length
        rw [List.length_append, List.length_singleton] at hlt
        exact absurd hlt (not_lt.mpr hi)
  ascending := h.ascending

/-- An element with a key that was not there before. -/
theorem keep [LawfulBEq κ] (h : FirstsOf key val xs values selected) {x : α}
    (hx : values.lookup (key x) = none) :
    FirstsOf key val (xs ++ [x]) ((key x, val x) :: values) (selected ++ [xs.length]) := by
  have hnew : ∀ y ∈ xs, key y ≠ key x := by
    intro y hy hkey
    have hy := h.agrees y hy
    rw [hkey, hx] at hy
    cases hy
  constructor
  · rw [List.forall_mem_append, List.forall_mem_singleton]
    constructor
    · intro y hy
      rw [List.lookup_cons, beq_eq_false_iff_ne.mpr (hnew y hy)]
      exact h.agrees y hy
    · rw [List.lookup_cons, beq_self_eq_true]
  · intro k hk
    rw [List.forall_mem_append, List.forall_mem_singleton] at hk
    rw [List.lookup_cons, beq_eq_false_iff_ne.mpr hk.2.symm]
    exact h.absent k hk.1
  · intro i
    rw [List.mem_append, List.mem_singleton, h.mem]
    rcases lt_trichotomy i xs.length with hi | rfl | hi
    · rw [isFirst_concat_of_lt hi, or_iff_left hi.ne]
    · exact iff_of_true (.inr rfl) (isFirst_concat_length.mpr hnew)
    · apply iff_of_false
      · rintro (hfirst | rfl)
        · exact absurd hfirst.lt_length hi.not_gt
        · exact lt_irrefl _ hi
      · intro hfirst
        have hlt := hfirst.lt_length
        rw [List.length_append, List.length_singleton] at hlt
        exact absurd hlt (not_lt.mpr hi)
  · rw [List.pairwise_append]
    refine ⟨h.ascending, List.pairwise_singleton _ _, fun i hi j hj ↦ ?_⟩
    rw [List.mem_singleton.mp hj]
    exact h.lt_length hi

/-- An element with a key that was there before, and with another value. -/
theorem conflict (h : FirstsOf key val xs values selected) {x : α} {previous : β}
    (hx : values.lookup (key x) = some previous) (hne : previous ≠ val x) :
    Conflict key val (xs ++ [x]) := by
  by_contra hno
  apply hne
  have hone : ∃ y ∈ xs, key y = key x := by
    by_contra hnone
    rw [h.absent (key x) fun y hy hkey ↦ hnone ⟨y, hy, hkey⟩] at hx
    cases hx
  obtain ⟨y, hy, hkey⟩ := hone
  have hvalue := h.agrees y hy
  rw [hkey, hx, Option.some_inj] at hvalue
  rw [hvalue]
  by_contra hval
  exact hno ⟨y, List.mem_append_left _ hy, x, by simp, hkey, hval⟩

end FirstsOf

end Kit
