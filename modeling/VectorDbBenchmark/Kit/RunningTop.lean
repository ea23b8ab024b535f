import Mathlib.Data.List.TakeWhile
import VectorDbBenchmark.Kit.Ordered

/-!
# Running top of a stream

Binary search as `slice::binary_search_by` does it, and the first `k` elements of a sorted
list kept while the elements arrive one by one: each is inserted at its place and the list
is cut again.
-/

namespace Kit

universe u v

/-! ## Binary search -/

section Search

variable {α : Type u}

/-- The rounds of the search, each of which halves the window; `f` compares the element at an
index with the target. -/
def searchBase (f : ℕ → Ordering) (base size : ℕ) : ℕ :=
  if 1 < size then
    searchBase f (if f (base + size / 2) = .gt then base else base + size / 2) (size - size / 2)
  else base
termination_by size

/-- `xs.binary_search_by(f)`: where the target is, or where it can be inserted. -/
def binarySearchBy (f : α → Ordering) (xs : List α) : Except ℕ ℕ :=
  let probe := fun i ↦ (xs[i]?.map f).getD .gt
  if xs.isEmpty then .error 0
  else
    let base := searchBase probe 0 xs.length
    match probe base with
    | .eq => .ok base
    | .lt => .error (base + 1)
    | .gt => .error base

/-- The search ends next to the first index that is not below the target. -/
theorem searchBase_spec {f : ℕ → Ordering} {p base size : ℕ} (hsize : 0 < size) (hbase : base ≤ p)
    (hp : p ≤ base + size) (hlt : ∀ i < p, f i = .lt)
    (hgt : ∀ i, p ≤ i → i < base + size → f i = .gt) :
    searchBase f base size ≤ p ∧ p ≤ searchBase f base size + 1 ∧
      searchBase f base size < base + size := by
  induction base, size using searchBase.induct f with
  | case1 base size hmany ih =>
      rw [searchBase, if_pos hmany]
      have hhalf : size / 2 < size := Nat.div_lt_self hsize (by decide)
      by_cases hmid : p ≤ base + size / 2
      · have hf : f (base + size / 2) = .gt := hgt _ hmid (Nat.add_lt_add_left hhalf base)
        rw [dif_pos hf] at ih
        rw [if_pos hf]
        obtain ⟨h1, h2, h3⟩ := ih (by omega) hbase (by omega) fun i hi hlast ↦ hgt i hi (by omega)
        exact ⟨h1, h2, by omega⟩
      · have hf : f (base + size / 2) = .lt := hlt _ (not_le.mp hmid)
        have hne : f (base + size / 2) ≠ .gt := by
          rw [hf]
          rintro ⟨⟩
        rw [dif_neg hne] at ih
        rw [if_neg hne]
        obtain ⟨h1, h2, h3⟩ := ih (by omega) (by omega) (by omega)
          fun i hi hlast ↦ hgt i hi (by omega)
        exact ⟨h1, h2, by omega⟩
  | case2 base size hone =>
      rw [searchBase, if_neg hone]
      exact ⟨hbase, by omega, by omega⟩

/-- Elements below the target before elements above it: the target goes between them. -/
theorem binarySearchBy_append {f : α → Ordering} {front back : List α}
    (hfront : ∀ x ∈ front, f x = .lt) (hback : ∀ x ∈ back, f x = .gt) :
    binarySearchBy f (front ++ back) = .error front.length := by
  rw [binarySearchBy]
  by_cases hempty : (front ++ back).isEmpty = true
  · rw [if_pos hempty]
    rw [List.isEmpty_iff, List.append_eq_nil_iff] at hempty
    rw [hempty.1]
    rfl
  · have hlen : 0 < (front ++ back).length :=
      List.length_pos_of_ne_nil fun hnil ↦ hempty (List.isEmpty_iff.mpr hnil)
    have hlt : ∀ i < front.length, ((front ++ back)[i]?.map f).getD .gt = .lt := by
      intro i hi
      rw [List.getElem?_append_left hi, List.getElem?_eq_getElem hi]
      exact hfront _ (List.getElem_mem hi)
    have hgt : ∀ i, front.length ≤ i → i < 0 + (front ++ back).length →
        ((front ++ back)[i]?.map f).getD .gt = .gt := by
      intro i hi hlast
      rw [Nat.zero_add, List.length_append] at hlast
      have hindex : i - front.length < back.length := by omega
      rw [List.getElem?_append_right hi, List.getElem?_eq_getElem hindex]
      exact hback _ (List.getElem_mem hindex)
    have hle : front.length ≤ 0 + (front ++ back).length := by
      rw [Nat.zero_add, List.length_append]
      exact Nat.le_add_right _ _
    obtain ⟨h1, h2, h3⟩ := searchBase_spec hlen (Nat.zero_le _) hle hlt hgt
    rw [if_neg hempty]
    dsimp only
    generalize searchBase _ 0 (front ++ back).length = base at h1 h2 h3 ⊢
    rcases Nat.lt_or_eq_of_le h1 with hbelow | heq
    · rw [hlt base hbelow]
      exact congrArg Except.error (by omega)
    · rw [hgt base heq.ge h3]
      exact congrArg Except.error heq

theorem insertIdx_length_append (xs ys : List α) (x : α) :
    (xs ++ ys).insertIdx xs.length x = xs ++ x :: ys := by
  induction xs with
  | nil => rfl
  | cons y xs ih => rw [List.cons_append, List.length_cons, List.insertIdx_succ_cons, ih,
      List.cons_append]

end Search

/-! ## The first `k` elements -/

section Top

variable {κ : Type u} {α : Type v} [LinearOrder κ] (key : α → κ)

/-- Insert an element after those with a smaller key. -/
def insertByKey (x : α) (xs : List α) : List α :=
  xs.takeWhile (fun y ↦ key y < key x) ++ x :: xs.dropWhile fun y ↦ key y < key x

/-- One more element for a sorted list of at most `k`. -/
def insertTop (k : ℕ) (top : List α) (x : α) : List α := (insertByKey key x top).take k

variable {key} {x : α} {xs ys : List α}

theorem insertByKey_cons_of_lt {y : α} (h : key y < key x) :
    insertByKey key x (y :: xs) = y :: insertByKey key x xs := by
  rw [insertByKey, insertByKey, List.takeWhile_cons, List.dropWhile_cons,
    if_pos (decide_eq_true h), if_pos (decide_eq_true h), List.cons_append]

theorem insertByKey_cons_of_not_lt {y : α} (h : ¬key y < key x) :
    insertByKey key x (y :: xs) = x :: y :: xs := by
  have hfalse : ¬decide (key y < key x) = true := fun hlt ↦ h (of_decide_eq_true hlt)
  rw [insertByKey, List.takeWhile_cons, List.dropWhile_cons, if_neg hfalse, if_neg hfalse,
    List.nil_append]

/-- What is cut off first would be cut off afterwards. -/
theorem insertTop_take (k : ℕ) (x : α) (xs : List α) :
    insertTop key k (xs.take k) x = (insertByKey key x xs).take k := by
  rw [insertTop]
  induction xs generalizing k with
  | nil => rw [List.take_nil]
  | cons y xs ih =>
      cases k with
      | zero => rw [List.take_zero, List.take_zero]
      | succ k =>
          rw [List.take_succ_cons]
          by_cases h : key y < key x
          · rw [insertByKey_cons_of_lt h, insertByKey_cons_of_lt h, List.take_succ_cons,
              List.take_succ_cons, ih]
          · rw [insertByKey_cons_of_not_lt h, insertByKey_cons_of_not_lt h, List.take_succ_cons,
              List.take_succ_cons]
            cases k with
            | zero => rw [List.take_zero, List.take_zero]
            | succ k =>
                rw [List.take_succ_cons, List.take_succ_cons, List.take_take,
                  Nat.min_eq_left (Nat.le_succ k)]

/-- An element behind a full list changes nothing. -/
theorem insertTop_of_lt {k : ℕ} (hlen : xs.length = k) (h : ∀ y ∈ xs, key y < key x) :
    insertTop key k xs x = xs := by
  have hall : ∀ y ∈ xs, decide (key y < key x) = true := fun y hy ↦ decide_eq_true (h y hy)
  rw [insertTop, insertByKey, List.takeWhile_eq_self_iff.mpr hall, ← hlen, List.take_left']
  rfl

theorem sortByKey_concat (hdistinct : ((xs ++ [x]).map key).Nodup) :
    sortByKey key (xs ++ [x]) = insertByKey key x (sortByKey key xs) := by
  have hperm : (xs ++ [x]).Perm (x :: xs) := List.perm_append_comm
  have hinj : ∀ a ∈ xs ++ [x], ∀ b ∈ xs ++ [x], key a = key b → a = b :=
    fun a ha b hb h ↦ List.inj_on_of_nodup_map hdistinct ha hb h
  rw [sortByKey_eq_of_perm hperm hinj, sortByKey, List.insertionSort_cons,
    List.orderedInsert_eq_take_drop, insertByKey]
  simp only [not_le]
  rfl

end Top

end Kit
