import Mathlib.Algebra.BigOperators.Group.List.Lemmas
import Mathlib.Data.List.Sort
import Mathlib.Tactic
import VectorDbBenchmark.Kit.Distinct

/-!
# Sorted containers

Lists as an ordered set, an ordered map and a stable sort produce them.  What
they hold depends on the elements that went in and not on their order, which
is what makes a result computed through them independent of the input's order.
-/

namespace Kit

universe u v

variable {κ : Type u} {α : Type v} [LinearOrder κ]

/-! ## Stable sort by a key -/

def sortByKey (key : α → κ) (xs : List α) : List α :=
  xs.insertionSort fun a b ↦ key a ≤ key b

variable {key : α → κ} {xs ys : List α}

theorem perm_sortByKey (key : α → κ) (xs : List α) : (sortByKey key xs).Perm xs :=
  List.perm_insertionSort _ xs

@[simp] theorem mem_sortByKey {a : α} : a ∈ sortByKey key xs ↔ a ∈ xs :=
  (perm_sortByKey key xs).mem_iff

theorem pairwise_sortByKey (key : α → κ) (xs : List α) :
    (sortByKey key xs).Pairwise fun a b ↦ key a ≤ key b :=
  haveI : Std.Total fun a b : α ↦ key a ≤ key b := ⟨fun a b ↦ le_total (key a) (key b)⟩
  haveI : IsTrans α fun a b : α ↦ key a ≤ key b := ⟨fun _ _ _ ↦ le_trans⟩
  List.pairwise_insertionSort _ xs

/-- Where the key tells the elements apart, the sorted list does not depend on
the order they came in. -/
theorem sortByKey_eq_of_perm (h : xs.Perm ys)
    (hkey : ∀ a ∈ xs, ∀ b ∈ xs, key a = key b → a = b) : sortByKey key xs = sortByKey key ys := by
  refine List.Perm.eq_of_pairwise ?_ (pairwise_sortByKey key xs) (pairwise_sortByKey key ys)
    (((perm_sortByKey key xs).trans h).trans (perm_sortByKey key ys).symm)
  intro a b ha hb hab hba
  exact hkey a (mem_sortByKey.mp ha) b (h.mem_iff.mpr (mem_sortByKey.mp hb)) (le_antisymm hab hba)

/-- Sorting some of the elements is leaving the others out of the sorted list. -/
theorem sortByKey_filter (p : α → Bool) (hkey : ∀ a ∈ xs, ∀ b ∈ xs, key a = key b → a = b) :
    sortByKey key (xs.filter p) = (sortByKey key xs).filter p := by
  refine List.Perm.eq_of_pairwise ?_ (pairwise_sortByKey key _)
    ((pairwise_sortByKey key xs).filter p)
    ((perm_sortByKey key _).trans ((perm_sortByKey key xs).filter p).symm)
  intro a b ha hb hab hba
  have ha := List.mem_of_mem_filter (mem_sortByKey.mp ha)
  have hb := mem_sortByKey.mp (List.mem_of_mem_filter hb)
  exact hkey a ha b hb (le_antisymm hab hba)

/-- Sorting after a map that keeps the keys is mapping the sorted list. -/
theorem sortByKey_map {β : Type*} {f : α → β} {key' : β → κ} (h : ∀ a ∈ xs, key' (f a) = key a) :
    sortByKey key' (xs.map f) = (sortByKey key xs).map f := by
  refine (List.map_insertionSort (r := fun a b ↦ key a ≤ key b) (s := fun a b ↦ key' a ≤ key' b)
    f xs fun a ha b hb ↦ ?_).symm
  rw [h a ha, h b hb]

/-! ## Ordered sets -/

/-- The elements of a list, each once, in ascending order. -/
def sortedSet (xs : List κ) : List κ := (distinct xs).insertionSort (· ≤ ·)

@[simp] theorem mem_sortedSet {xs : List κ} {x : κ} : x ∈ sortedSet xs ↔ x ∈ xs := by
  rw [sortedSet, List.mem_insertionSort, mem_distinct]

theorem nodup_sortedSet (xs : List κ) : (sortedSet xs).Nodup :=
  (List.perm_insertionSort _ _).nodup_iff.mpr (nodup_distinct xs)

theorem pairwise_sortedSet (xs : List κ) : (sortedSet xs).Pairwise (· < ·) :=
  List.Pairwise.imp₂ (fun _ _ hle hne ↦ lt_of_le_of_ne hle hne)
    (List.pairwise_insertionSort (· ≤ ·) _) (nodup_sortedSet xs)

/-- An ordered set is determined by its members. -/
theorem sortedSet_congr {xs ys : List κ} (h : ∀ x, x ∈ xs ↔ x ∈ ys) :
    sortedSet xs = sortedSet ys :=
  (pairwise_sortedSet xs).eq_of_mem_iff (pairwise_sortedSet ys) fun x ↦ by
    rw [mem_sortedSet, mem_sortedSet, h]

theorem length_sortedSet (xs : List κ) : (sortedSet xs).length = xs.toFinset.card := by
  rw [card_toFinset_eq_length_distinct, sortedSet, List.length_insertionSort]

/-! ## Groups -/

/-- The elements by the value of `key`, in ascending order of it; within a group
in the order they came in. -/
def groupBy (key : α → κ) (xs : List α) : List (κ × List α) :=
  (sortedSet (xs.map key)).map fun k ↦ (k, xs.filter (key · = k))

/-- Groups of a list mapped without a change of the keys. -/
theorem groupBy_map {β : Type*} {f : α → β} {key' : β → κ} (h : ∀ x ∈ xs, key' (f x) = key x) :
    groupBy key' (xs.map f) = (groupBy key xs).map fun g ↦ (g.1, g.2.map f) := by
  have hkeys : (xs.map f).map key' = xs.map key := by
    rw [List.map_map]
    exact List.map_congr_left h
  rw [groupBy, groupBy, hkeys, List.map_map]
  refine List.map_congr_left fun k _ ↦ Prod.ext rfl ?_
  rw [List.filter_map]
  refine congrArg (List.map f) (List.filter_congr fun x hx ↦ ?_)
  rw [Function.comp_apply, h x hx]

/-- Every element is in exactly one group. -/
theorem sum_length_groupBy (key : α → κ) (xs : List α) :
    ((groupBy key xs).map (·.2.length)).sum = xs.length := by
  have hcount : (fun k ↦ (xs.filter (key · = k)).length) = fun k ↦ (xs.map key).count k := by
    funext k
    rw [List.count_eq_countP, List.countP_map, List.countP_eq_length_filter]
    rfl
  have hperm : (sortedSet (xs.map key)).Perm (xs.map key).dedup :=
    (List.perm_ext_iff_of_nodup (nodup_sortedSet _) (List.nodup_dedup _)).mpr fun k ↦ by
      rw [mem_sortedSet, List.mem_dedup]
  rw [groupBy, List.map_map]
  change ((sortedSet (xs.map key)).map fun k ↦ (xs.filter (key · = k)).length).sum = _
  rw [hcount, (hperm.map _).sum_eq, List.sum_map_count_dedup_eq_length, List.length_map]

/-! ## Nested sets -/

/-- Of sets that are nested in each other one is in all others. -/
theorem exists_strongest {ι : Type u} {s : ι → Set α} {is : List ι} (hne : is ≠ [])
    (h : ∀ i ∈ is, ∀ j ∈ is, s i ⊆ s j ∨ s j ⊆ s i) : ∃ i ∈ is, ∀ j ∈ is, s i ⊆ s j := by
  induction is with
  | nil => exact absurd rfl hne
  | cons i is ih =>
      rcases eq_or_ne is [] with rfl | his
      · exact ⟨i, List.mem_cons_self, List.forall_mem_singleton.mpr subset_rfl⟩
      · obtain ⟨m, hm, hleast⟩ := ih his fun j hj k hk ↦
          h j (List.mem_cons_of_mem i hj) k (List.mem_cons_of_mem i hk)
        rcases h i List.mem_cons_self m (List.mem_cons_of_mem i hm) with hle | hle
        · refine ⟨i, List.mem_cons_self, ?_⟩
          rw [List.forall_mem_cons]
          exact ⟨subset_rfl, fun j hj ↦ hle.trans (hleast j hj)⟩
        · refine ⟨m, List.mem_cons_of_mem i hm, ?_⟩
          rw [List.forall_mem_cons]
          exact ⟨hle, hleast⟩

end Kit
