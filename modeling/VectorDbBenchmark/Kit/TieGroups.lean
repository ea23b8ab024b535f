import Mathlib.Data.List.Infix
import Mathlib.Tactic

/-!
# Groups of equal keys in a descending list

A list is in descending order of a key when each key is below those before it; nothing but
antisymmetry is asked of the order.  Elements with one key stand together, and a prefix holds all
elements with a key, unless it is the last key of the prefix.
-/

namespace Kit

universe u v

variable {α : Type u} {β : Type v} {r : β → β → Prop} {f : α → β} {xs ys : List α}

/-- Keys go down, as far as `r` tells. -/
def Descending (r : β → β → Prop) (f : α → β) (xs : List α) : Prop :=
  xs.Pairwise fun x y ↦ r (f y) (f x)

theorem Descending.take (h : Descending r f xs) (k : ℕ) : Descending r f (xs.take k) :=
  List.Pairwise.sublist (List.take_sublist k xs) h

theorem Descending.drop (h : Descending r f xs) (k : ℕ) : Descending r f (xs.drop k) :=
  List.Pairwise.sublist (List.drop_sublist k xs) h

variable (hanti : ∀ a b, r a b → r b a → a = b)

include hanti

/-- Rankings of the same elements have the same keys in the same order. -/
theorem Descending.map_eq_of_perm (hx : Descending r f xs) (hy : Descending r f ys)
    (h : xs.Perm ys) : xs.map f = ys.map f := by
  have hx' : (xs.map f).Pairwise fun a b ↦ r b a := List.pairwise_map.mpr hx
  have hy' : (ys.map f).Pairwise fun a b ↦ r b a := List.pairwise_map.mpr hy
  refine (h.map f).eq_of_pairwise ?_ hx' hy'
  intro a b _ _ hab hba
  exact hanti a b hba hab

variable [DecidableEq β]

/-- The first group of a list is all of its key. -/
theorem takeWhile_eq_filter_of_le {b : β} (h : Descending r f xs) (hb : ∀ x ∈ xs, r (f x) b) :
    xs.takeWhile (f · = b) = xs.filter (f · = b) := by
  induction xs with
  | nil => rfl
  | cons x xs ih =>
      rw [List.forall_mem_cons] at hb
      obtain ⟨hhead, htail⟩ := List.pairwise_cons.mp h
      by_cases hx : f x = b
      · rw [List.takeWhile_cons_of_pos (by simpa using hx),
          List.filter_cons_of_pos (by simpa using hx), ih htail hb.2]
      · rw [List.takeWhile_cons_of_neg (by simpa using hx),
          List.filter_cons_of_neg (by simpa using hx), eq_comm, List.filter_eq_nil_iff]
        intro y hy hyb
        refine hx (hanti _ _ hb.1 ?_)
        rw [← of_decide_eq_true hyb]
        exact hhead y hy

/-- The first group as a prefix. -/
theorem take_eq_filter_of_le {b : β} (h : Descending r f xs) (hb : ∀ x ∈ xs, r (f x) b) :
    xs.take (xs.takeWhile (f · = b)).length = xs.filter (f · = b) := by
  rw [← takeWhile_eq_filter_of_le hanti h hb]
  exact (List.prefix_iff_eq_take.mp (List.takeWhile_prefix _)).symm

/-- Behind the first group its key is gone, and the other groups are still there. -/
theorem filter_drop_eq {b c : β} (h : Descending r f xs) (hb : ∀ x ∈ xs, r (f x) b) :
    (xs.drop (xs.takeWhile (f · = b)).length).filter (f · = c) =
      if c = b then [] else xs.filter (f · = c) := by
  have hsplit := congrArg (List.filter (f · = c))
    (List.take_append_drop (xs.takeWhile (f · = b)).length xs)
  rw [List.filter_append, take_eq_filter_of_le hanti h hb, List.filter_filter] at hsplit
  split_ifs with hcb
  · rw [hcb] at hsplit ⊢
    simpa only [Bool.and_self, List.append_right_eq_self] using hsplit
  · rw [← hsplit, List.self_eq_append_left, List.filter_eq_nil_iff]
    intro x _ hx
    rw [Bool.and_eq_true, decide_eq_true_eq, decide_eq_true_eq] at hx
    exact hcb (hx.1.symm.trans hx.2)

/-- Behind a prefix there is no element with a key that the prefix has, but for its last one. -/
theorem filter_take_eq_filter {k : ℕ} {b : β} (h : Descending r f xs)
    (hmem : b ∈ (xs.take k).map f) (hlast : k < xs.length → (xs.take k).getLast?.map f ≠ some b) :
    (xs.take k).filter (f · = b) = xs.filter (f · = b) := by
  rcases Nat.lt_or_ge k xs.length with hk | hk
  · obtain ⟨x, hx, rfl⟩ := List.mem_map.mp hmem
    obtain ⟨l, hl⟩ : ∃ l, (xs.take k).getLast? = some l :=
      Option.isSome_iff_exists.mp (List.getLast?_isSome.mpr (List.ne_nil_of_mem hx))
    have hlx : f l ≠ f x := by
      intro heq
      refine hlast hk ?_
      rw [hl, Option.map_some, heq]
    have hsplit : Descending r f (xs.take k ++ xs.drop k) := by
      rwa [List.take_append_drop]
    obtain ⟨hinit, -, hbehind⟩ := List.pairwise_append.mp hsplit
    -- the last element of the prefix is not above `x`, and what is behind is not above it
    have hle : r (f l) (f x) := by
      obtain ⟨init, hinitEq⟩ := List.getLast?_eq_some_iff.mp hl
      rw [hinitEq] at hx hinit
      rcases List.mem_append.mp hx with hx | hx
      · exact (List.pairwise_append.mp hinit).2.2 x hx l List.mem_cons_self
      · exact absurd (congrArg f (List.mem_singleton.mp hx)).symm hlx
    conv_rhs => rw [← List.take_append_drop k xs, List.filter_append]
    rw [eq_comm, List.append_right_eq_self, List.filter_eq_nil_iff]
    intro y hy hyx
    refine hlx (hanti _ _ hle ?_)
    rw [← of_decide_eq_true hyx]
    exact hbehind l (List.mem_of_getLast? hl) y hy
  · rw [List.take_of_length_le hk]

end Kit
