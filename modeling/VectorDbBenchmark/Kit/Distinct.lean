import Mathlib.Data.Finset.Basic
import Mathlib.Data.Finset.Card
import Mathlib.Data.List.Sort
import Mathlib.Tactic

/-!
# First occurrences

`distinct xs` keeps the first occurrence of every element, in order: the loop
`xs.filter(|x| seen.insert(x))` over a growing set.  It commutes with
injective maps, which is how two rankings named in different id spaces are
compared.
-/

namespace Kit

universe u v

variable {α : Type u} {β : Type v} [DecidableEq α] [DecidableEq β]

/-- The elements of the list that are not in `seen`, each once, where it first
occurs. -/
def distinctFrom : List α → List α → List α
  | _, [] => []
  | seen, x :: xs => if x ∈ seen then distinctFrom seen xs else x :: distinctFrom (x :: seen) xs

def distinct (xs : List α) : List α := distinctFrom [] xs

theorem mem_distinctFrom {seen xs : List α} {x : α} :
    x ∈ distinctFrom seen xs ↔ x ∈ xs ∧ x ∉ seen := by
  induction xs generalizing seen with
  | nil => simp [distinctFrom]
  | cons y ys ih =>
      by_cases hy : y ∈ seen
      · rw [distinctFrom, if_pos hy, ih, List.mem_cons]
        constructor
        · exact fun ⟨h, hs⟩ ↦ ⟨Or.inr h, hs⟩
        · rintro ⟨rfl | h, hs⟩
          · exact absurd hy hs
          · exact ⟨h, hs⟩
      · rw [distinctFrom, if_neg hy, List.mem_cons, ih, List.mem_cons, List.mem_cons]
        constructor
        · rintro (rfl | ⟨h, hs⟩)
          · exact ⟨Or.inl rfl, hy⟩
          · exact ⟨Or.inr h, fun hc ↦ hs (Or.inr hc)⟩
        · rintro ⟨rfl | h, hs⟩
          · exact Or.inl rfl
          · by_cases hxy : x = y
            · exact Or.inl hxy
            · exact Or.inr ⟨h, not_or.mpr ⟨hxy, hs⟩⟩

@[simp] theorem mem_distinct {xs : List α} {x : α} : x ∈ distinct xs ↔ x ∈ xs := by
  simp [distinct, mem_distinctFrom]

theorem distinct_eq_nil {xs : List α} : distinct xs = [] ↔ xs = [] := by
  simp [List.eq_nil_iff_forall_not_mem]

theorem nodup_distinctFrom (seen xs : List α) : (distinctFrom seen xs).Nodup := by
  induction xs generalizing seen with
  | nil => exact List.nodup_nil
  | cons y ys ih =>
      by_cases hy : y ∈ seen
      · rw [distinctFrom, if_pos hy]; exact ih seen
      · rw [distinctFrom, if_neg hy, List.nodup_cons]
        exact ⟨fun h ↦ (mem_distinctFrom.mp h).2 List.mem_cons_self, ih _⟩

theorem nodup_distinct (xs : List α) : (distinct xs).Nodup := nodup_distinctFrom [] xs

/-- Only what was seen counts, not in which order. -/
theorem distinctFrom_congr {seen seen' : List α} (xs : List α) (h : ∀ x, x ∈ seen ↔ x ∈ seen') :
    distinctFrom seen xs = distinctFrom seen' xs := by
  induction xs generalizing seen seen' with
  | nil => rfl
  | cons y ys ih =>
      have hcons : ∀ x, x ∈ y :: seen ↔ x ∈ y :: seen' := by
        intro x
        rw [List.mem_cons, List.mem_cons, h]
      rw [distinctFrom, distinctFrom, ih h, ih hcons]
      simp only [h]

/-- What a longer list adds is not among the ids before. -/
theorem distinctFrom_append (seen xs ys : List α) :
    distinctFrom seen (xs ++ ys) = distinctFrom seen xs ++ distinctFrom (xs ++ seen) ys := by
  induction xs generalizing seen with
  | nil => rfl
  | cons x xs ih =>
      rw [List.cons_append, distinctFrom, distinctFrom]
      split_ifs with hx
      · rw [ih, distinctFrom_congr ys]
        intro y
        simp only [List.mem_append, List.cons_append, List.mem_cons]
        constructor
        · exact Or.inr
        · rintro (rfl | hy)
          · exact Or.inr hx
          · exact hy
      · rw [ih, List.cons_append, distinctFrom_congr ys]
        intro y
        simp only [List.mem_append, List.cons_append, List.mem_cons]
        exact or_left_comm

theorem distinct_append (xs ys : List α) :
    distinct (xs ++ ys) = distinct xs ++ distinctFrom xs ys := by
  rw [distinct, distinctFrom_append, List.append_nil]
  rfl

theorem distinctFrom_of_nodup {seen xs : List α} (h : (seen ++ xs).Nodup) :
    distinctFrom seen xs = xs := by
  induction xs generalizing seen with
  | nil => rfl
  | cons x xs ih =>
      have hx : x ∉ seen := fun hmem ↦
        (List.nodup_append.mp h).2.2 x hmem x List.mem_cons_self rfl
      rw [distinctFrom, if_neg hx, ih]
      exact List.perm_middle.nodup_iff.mp h

theorem distinct_of_nodup {xs : List α} (h : xs.Nodup) : distinct xs = xs := distinctFrom_of_nodup h

theorem distinctFrom_map {f : α → β} {seen xs : List α}
    (hf : ∀ x ∈ xs, ∀ y ∈ seen ++ xs, f x = f y → x = y) :
    distinctFrom (seen.map f) (xs.map f) = (distinctFrom seen xs).map f := by
  induction xs generalizing seen with
  | nil => rfl
  | cons x xs ih =>
      have hmem : f x ∈ seen.map f ↔ x ∈ seen := by
        constructor
        · intro h
          obtain ⟨y, hy, hxy⟩ := List.mem_map.mp h
          rw [hf x (by simp) y (by simp [hy]) hxy.symm]
          exact hy
        · exact List.mem_map_of_mem
      by_cases hx : x ∈ seen
      · rw [List.map_cons, distinctFrom, if_pos (hmem.mpr hx), distinctFrom, if_pos hx]
        exact ih fun a ha b hb ↦ hf a (List.mem_cons_of_mem _ ha) b (by
          rcases List.mem_append.mp hb with h | h <;> simp [h])
      · rw [List.map_cons, distinctFrom, if_neg (mt hmem.mp hx), distinctFrom, if_neg hx,
          List.map_cons, ← List.map_cons, ih]
        intro a ha b hb
        refine hf a (List.mem_cons_of_mem _ ha) b ?_
        rcases List.mem_append.mp hb with h | h
        · rcases List.mem_cons.mp h with rfl | h <;> simp [*]
        · simp [h]

/-- First occurrences are taken at the same places of a list renamed without
collisions. -/
theorem distinct_map {f : α → β} {xs : List α} (hf : ∀ x ∈ xs, ∀ y ∈ xs, f x = f y → x = y) :
    distinct (xs.map f) = (distinct xs).map f := by
  change distinctFrom (List.map f []) (xs.map f) = _
  exact distinctFrom_map hf

/-- An element is before those that first occur later. -/
theorem pairwise_idxOf_distinctFrom [BEq α] [LawfulBEq α] (seen xs : List α) :
    (distinctFrom seen xs).Pairwise fun a b ↦ xs.idxOf a < xs.idxOf b := by
  induction xs generalizing seen with
  | nil => exact .nil
  | cons x xs ih =>
      have hlater : ∀ seen, (x ∈ seen) → (distinctFrom seen xs).Pairwise fun a b ↦
          (x :: xs).idxOf a < (x :: xs).idxOf b := by
        intro seen hx
        refine (ih seen).imp_of_mem fun {a b} ha hb hlt ↦ ?_
        have hne : ∀ y ∈ distinctFrom seen xs, x ≠ y := by
          rintro y hy rfl
          exact (mem_distinctFrom.mp hy).2 hx
        rw [List.idxOf_cons_ne _ (hne a ha), List.idxOf_cons_ne _ (hne b hb)]
        exact Nat.succ_lt_succ hlt
      rw [distinctFrom]
      split_ifs with hx
      · exact hlater seen hx
      · refine List.Pairwise.cons ?_ (hlater (x :: seen) List.mem_cons_self)
        intro b hb
        have hne : x ≠ b := by
          rintro rfl
          exact (mem_distinctFrom.mp hb).2 List.mem_cons_self
        rw [List.idxOf_cons_self, List.idxOf_cons_ne _ hne]
        exact Nat.succ_pos _

theorem pairwise_idxOf_distinct [BEq α] [LawfulBEq α] (xs : List α) :
    (distinct xs).Pairwise fun a b ↦ xs.idxOf a < xs.idxOf b := pairwise_idxOf_distinctFrom [] xs

theorem distinctFrom_filter {p : α → Bool} {seen seen' xs : List α}
    (h : ∀ x, p x = true → (x ∈ seen ↔ x ∈ seen')) :
    distinctFrom seen (xs.filter p) = (distinctFrom seen' xs).filter p := by
  induction xs generalizing seen seen' with
  | nil => rfl
  | cons x xs ih =>
      rw [List.filter_cons, distinctFrom]
      by_cases hp : p x = true
      · rw [if_pos hp, distinctFrom]
        by_cases hx : x ∈ seen
        · rw [if_pos hx, if_pos ((h x hp).mp hx), ih h]
        · rw [if_neg hx, if_neg (mt (h x hp).mpr hx), List.filter_cons, if_pos hp]
          congr 1
          apply ih
          intro y hy
          rw [List.mem_cons, List.mem_cons, h y hy]
      · rw [if_neg hp]
        split_ifs with hx
        · exact ih h
        · rw [List.filter_cons, if_neg hp]
          apply ih
          intro y hy
          have hne : y ≠ x := by
            rintro rfl
            exact hp hy
          rw [List.mem_cons, h y hy]
          exact ⟨.inr, fun hmem ↦ hmem.resolve_left hne⟩

/-- Dropping elements and dropping repetitions commute. -/
theorem distinct_filter (p : α → Bool) (xs : List α) :
    distinct (xs.filter p) = (distinct xs).filter p := distinctFrom_filter fun _ _ ↦ Iff.rfl

/-- How many elements two lists have in common. -/
theorem countP_mem_comm {xs ys : List α} (hxs : xs.Nodup) (hys : ys.Nodup) :
    xs.countP (fun x ↦ x ∈ ys) = ys.countP fun y ↦ y ∈ xs := by
  rw [List.countP_eq_length_filter, List.countP_eq_length_filter]
  apply List.Perm.length_eq
  rw [List.perm_ext_iff_of_nodup (hxs.filter _) (hys.filter _)]
  intro a
  rw [List.mem_filter, List.mem_filter, decide_eq_true_eq, decide_eq_true_eq]
  exact and_comm

/-- What two lists have in common, counted in the one that has each element once. -/
theorem card_toFinset_inter {xs ys : List α} (hys : ys.Nodup) :
    (xs.toFinset ∩ ys.toFinset).card = ys.countP (· ∈ xs) := by
  have hinter : xs.toFinset ∩ ys.toFinset = (ys.filter (· ∈ xs)).toFinset := by
    ext x
    simp only [Finset.mem_inter, List.mem_toFinset, List.mem_filter, decide_eq_true_eq]
    exact and_comm
  rw [hinter, List.toFinset_card_of_nodup (hys.filter _), List.countP_eq_length_filter]

theorem card_toFinset_eq_length_distinct (xs : List α) :
    xs.toFinset.card = (distinct xs).length := by
  rw [← List.toFinset_card_of_nodup (nodup_distinct xs)]
  exact congrArg Finset.card (by ext; simp)

/-- Renaming a list without collisions keeps the number of its elements. -/
theorem card_toFinset_map {f : α → β} {xs : List α}
    (hf : ∀ x ∈ xs, ∀ y ∈ xs, f x = f y → x = y) :
    (xs.map f).toFinset.card = xs.toFinset.card := by
  rw [card_toFinset_eq_length_distinct, card_toFinset_eq_length_distinct, distinct_map hf,
    List.length_map]

end Kit
