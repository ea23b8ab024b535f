import Mathlib.Data.Int.CardIntervalMod
import Mathlib.Data.List.Nodup
import Mathlib.Tactic

/-!
# A list read round and round

The first `n` elements of a list repeated without end.  Of a list without duplicates every
element is read equally often, up to one.
-/

namespace Kit

universe u

variable {α : Type u}

/-- `xs[0], xs[1], ..`, from the start again after the last one. -/
def cyclic (xs : List α) (n : ℕ) : List α :=
  (List.range n).filterMap fun i ↦ xs[i % xs.length]?

theorem cyclic_succ (xs : List α) (n : ℕ) :
    cyclic xs (n + 1) = cyclic xs n ++ xs[n % xs.length]?.toList := by
  rw [cyclic, List.range_succ, List.filterMap_append]
  congr 1

variable [DecidableEq α]

/-- How often an element is read. -/
theorem count_cyclic {xs : List α} (hnodup : xs.Nodup) {a : α} {k : ℕ} (hk : xs[k]? = some a)
    (n : ℕ) :
    (cyclic xs n).count a = n / xs.length + if k < n % xs.length then 1 else 0 := by
  obtain ⟨hlt, hget⟩ := List.getElem?_eq_some_iff.mp hk
  have hpos : 0 < xs.length := Nat.zero_lt_of_lt hlt
  have hcount : (cyclic xs n).count a = n.count (· ≡ k [MOD xs.length]) := by
    induction n with
    | zero => rfl
    | succ n ih =>
        have hmod : n % xs.length < xs.length := Nat.mod_lt n hpos
        rw [cyclic_succ, List.count_append, ih, Nat.count_succ, List.getElem?_eq_getElem hmod,
          Option.toList_some, List.count_singleton]
        have hiff : (xs[n % xs.length] == a) = true ↔ n ≡ k [MOD xs.length] := by
          rw [beq_iff_eq, ← hget, hnodup.getElem_inj_iff, Nat.ModEq, Nat.mod_eq_of_lt hlt]
        simp only [hiff]
  rw [hcount, Nat.count_modEq_card n hpos, Nat.mod_eq_of_lt hlt]

/-- Two elements are read equally often, up to one. -/
theorem count_cyclic_le {xs : List α} (hnodup : xs.Nodup) {a b : α} (ha : a ∈ xs) (hb : b ∈ xs)
    (n : ℕ) : (cyclic xs n).count a ≤ (cyclic xs n).count b + 1 := by
  obtain ⟨j, hj⟩ := List.mem_iff_getElem?.mp ha
  obtain ⟨k, hk⟩ := List.mem_iff_getElem?.mp hb
  rw [count_cyclic hnodup hj, count_cyclic hnodup hk]
  split_ifs <;> omega

end Kit
