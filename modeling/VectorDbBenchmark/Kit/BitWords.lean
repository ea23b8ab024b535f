import Mathlib.Data.List.Basic
import Mathlib.Tactic

/-!
# Bits packed into 64-bit words

The bit tests and updates on one word, and on a list of words read as one long row of bits:
bit `i` is bit `i % 64` of word `i / 64`.
-/

namespace Kit

/-! ## One word -/

/-- `(w >> j) & 1 == 1`. -/
def wordBit (w : UInt64) (j : ℕ) : Bool := (w >>> UInt64.ofNat j) &&& 1 = 1

/-- `w | 1 << j`. -/
def setWordBit (w : UInt64) (j : ℕ) : UInt64 := w ||| 1 <<< UInt64.ofNat j

/-- `w.count_ones()`. -/
def countOnes (w : UInt64) : ℕ := (List.range 64).countP (wordBit w)

theorem toNat_ofNat_bit {j : ℕ} (hj : j < 64) : (UInt64.ofNat j).toNat % 64 = j := by
  rw [UInt64.toNat_ofNat_of_lt' (hj.trans (by decide)), Nat.mod_eq_of_lt hj]

theorem wordBit_eq_testBit {w : UInt64} {j : ℕ} (hj : j < 64) :
    wordBit w j = w.toNat.testBit j := by
  rw [wordBit, Nat.testBit_eq_decide_div_mod_eq]
  refine decide_eq_decide.mpr ?_
  rw [← UInt64.toNat_inj, UInt64.toNat_and, UInt64.toNat_shiftRight, toNat_ofNat_bit hj,
    UInt64.toNat_one, Nat.and_one_is_mod, Nat.shiftRight_eq_div_pow]

theorem wordBit_zero {j : ℕ} (hj : j < 64) : wordBit 0 j = false := by
  rw [wordBit_eq_testBit hj, UInt64.toNat_zero, Nat.zero_testBit]

theorem wordBit_setWordBit {w : UInt64} {i j : ℕ} (hi : i < 64) (hj : j < 64) :
    wordBit (setWordBit w i) j = (decide (i = j) || wordBit w j) := by
  have hpow : 2 ^ i < 2 ^ 64 := Nat.pow_lt_pow_right one_lt_two hi
  rw [wordBit_eq_testBit hj, wordBit_eq_testBit hj, setWordBit, UInt64.toNat_or,
    UInt64.toNat_shiftLeft, toNat_ofNat_bit hi, UInt64.toNat_one, Nat.one_shiftLeft,
    Nat.mod_eq_of_lt hpow, Nat.testBit_or, Nat.testBit_two_pow, Bool.or_comm]

/-! ## Flags by their position -/

/-- The flag at position `i` when the first one stands at `first`. -/
def flagAt (flags : List Bool) (first i : ℕ) : Bool :=
  decide (first ≤ i) && flags[i - first]?.getD false

theorem flagAt_nil (first i : ℕ) : flagAt [] first i = false := by
  rw [flagAt, List.getElem?_nil, Option.getD_none, Bool.and_false]

theorem flagAt_zero (flags : List Bool) (i : ℕ) : flagAt flags 0 i = flags[i]?.getD false := by
  rw [flagAt, decide_eq_true (Nat.zero_le i), Nat.sub_zero, Bool.true_and]

theorem flagAt_cons (b : Bool) (flags : List Bool) (first i : ℕ) :
    flagAt (b :: flags) first i = ((decide (first = i) && b) || flagAt flags (first + 1) i) := by
  rw [flagAt, flagAt]
  rcases lt_trichotomy i first with hi | rfl | hi
  · rw [decide_eq_false (not_le.mpr hi), decide_eq_false (Nat.ne_of_gt hi),
      decide_eq_false (not_le.mpr (Nat.lt_succ_of_lt hi)), Bool.false_and, Bool.false_and,
      Bool.false_and, Bool.false_or]
  · rw [decide_eq_true le_rfl, decide_eq_true rfl, decide_eq_false (Nat.not_succ_le_self i),
      Nat.sub_self, Bool.true_and, Bool.true_and, Bool.false_and, Bool.or_false]
    rfl
  · have hsub : i - first = (i - (first + 1)) + 1 := by omega
    rw [decide_eq_true hi.le, decide_eq_false (Nat.ne_of_lt hi),
      decide_eq_true (Nat.succ_le_of_lt hi), hsub, List.getElem?_cons_succ, Bool.false_and,
      Bool.false_or]

/-- Packing flags: `w |= 1 << i` for every flag that is set. -/
theorem wordBit_foldl_set {flags : List Bool} {first j : ℕ} (h : first + flags.length ≤ 64)
    (hj : j < 64) (w : UInt64) :
    wordBit ((flags.zipIdx first).foldl (fun w b ↦ if b.1 then setWordBit w b.2 else w) w) j =
      (wordBit w j || flagAt flags first j) := by
  induction flags generalizing w first with
  | nil => rw [flagAt_nil, Bool.or_false, List.zipIdx_nil, List.foldl_nil]
  | cons b flags ih =>
      rw [List.length_cons] at h
      rw [List.zipIdx_cons, List.foldl_cons, ih (by omega), flagAt_cons, ← Bool.or_assoc]
      congr 1
      cases b with
      | false => rw [if_neg Bool.false_ne_true, Bool.and_false, Bool.or_false]
      | true => rw [if_pos rfl, wordBit_setWordBit (by omega) hj, Bool.and_true, Bool.or_comm]

/-! ## A row of words -/

def wordsBit (words : List UInt64) (i : ℕ) : Bool := wordBit (words[i / 64]?.getD 0) (i % 64)

def setWordsBit (words : List UInt64) (i : ℕ) : List UInt64 :=
  words.modify (i / 64) fun w ↦ setWordBit w (i % 64)

theorem mod_64_lt (i : ℕ) : i % 64 < 64 := Nat.mod_lt i (by decide)

@[simp] theorem length_setWordsBit (words : List UInt64) (i : ℕ) :
    (setWordsBit words i).length = words.length := List.length_modify _ _ _

theorem wordsBit_replicate (n i : ℕ) : wordsBit (List.replicate n 0) i = false := by
  rw [wordsBit, List.getElem?_replicate]
  split_ifs <;> exact wordBit_zero (mod_64_lt i)

theorem wordsBit_setWordsBit {words : List UInt64} {i : ℕ} (hi : i < 64 * words.length) (j : ℕ) :
    wordsBit (setWordsBit words i) j = (decide (i = j) || wordsBit words j) := by
  have hlen : i / 64 < words.length := Nat.div_lt_of_lt_mul hi
  rw [wordsBit, wordsBit, setWordsBit]
  by_cases hword : i / 64 = j / 64
  · have hget : words[j / 64]? = some words[i / 64] := by
      rw [← hword]
      exact List.getElem?_eq_getElem hlen
    rw [hword, List.getElem?_modify_eq, hget, Option.map_eq_map, Option.map_some, Option.getD_some,
      Option.getD_some,
      wordBit_setWordBit (mod_64_lt i) (mod_64_lt j)]
    congr 2
    exact propext ⟨fun h ↦ by omega, fun h ↦ h ▸ rfl⟩
  · have hne : i ≠ j := fun h ↦ hword (h ▸ rfl)
    rw [List.getElem?_modify_ne _ _ hword, decide_eq_false hne, Bool.false_or]

/-- The bits that are set, word by word. -/
theorem sum_countOnes (words : List UInt64) :
    (words.map countOnes).sum = (List.range (64 * words.length)).countP (wordsBit words) := by
  induction words with
  | nil => rfl
  | cons w words ih =>
      have hhead : (List.range 64).countP (wordsBit (w :: words)) = countOnes w := by
        apply List.countP_congr
        intro j hj
        have hlt := List.mem_range.mp hj
        rw [wordsBit, Nat.div_eq_of_lt hlt, Nat.mod_eq_of_lt hlt]
        rfl
      have htail : ((List.range (64 * words.length)).map (64 + ·)).countP (wordsBit (w :: words)) =
          (List.range (64 * words.length)).countP (wordsBit words) := by
        rw [List.countP_map]
        apply List.countP_congr
        intro j _
        have hdiv : (64 + j) / 64 = j / 64 + 1 := by omega
        have hmod : (64 + j) % 64 = j % 64 := by omega
        rw [Function.comp_apply, wordsBit, wordsBit, hdiv, hmod, List.getElem?_cons_succ]
      rw [List.map_cons, List.sum_cons, ih, List.length_cons, Nat.mul_succ, Nat.add_comm _ 64,
        List.range_add, List.countP_append, hhead, htail]

end Kit
