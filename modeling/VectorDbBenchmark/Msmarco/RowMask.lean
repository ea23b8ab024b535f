import VectorDbBenchmark.Kit.BitWords
import VectorDbBenchmark.Kit.Fallible

/-!
# Row masks

`RowMask` of `src/msmarco/hybrid.rs`: one bit per corpus row, packed into 64-bit words.
-/

namespace VectorDbBenchmark.Msmarco

open Kit

/-- A mask of `len` rows; no bit beyond them is set. -/
structure RowMask where
  len : ℕ
  words : List UInt64
  length_words : words.length = (len + 63) / 64
  clear : ∀ i, len ≤ i → wordsBit words i = false

namespace RowMask

/-- `len` rows, none set. -/
def new (len : ℕ) : RowMask where
  len := len
  words := List.replicate ((len + 63) / 64) 0
  length_words := List.length_replicate
  clear := fun i _ ↦ wordsBit_replicate _ i

/-- Whether row `i` is set; false beyond the end. -/
def get (m : RowMask) (i : ℕ) : Bool := i < m.len && wordsBit m.words i

theorem lt_words (m : RowMask) {i : ℕ} (h : i < m.len) : i < 64 * m.words.length := by
  rw [m.length_words]
  omega

def setBit (m : RowMask) (i : ℕ) (h : i < m.len) : RowMask where
  len := m.len
  words := setWordsBit m.words i
  length_words := by rw [length_setWordsBit, m.length_words]
  clear := fun j hj ↦ by
    rw [wordsBit_setWordsBit (m.lt_words h), m.clear j hj,
      decide_eq_false (Nat.ne_of_lt (h.trans_le hj))]
    rfl

/-- Set row `i`; the error is the panic beyond the end. -/
def set (m : RowMask) (i : ℕ) : Except String RowMask :=
  if h : i < m.len then .ok (m.setBit i h) else .error s!"row {i} outside a {m.len}-row mask"

def fromBools (bits : List Bool) : Except String RowMask :=
  bits.zipIdx.foldlM (fun m b ↦ if b.1 then m.set b.2 else .ok m) (new bits.length)

def countOnes (m : RowMask) : ℕ := (m.words.map Kit.countOnes).sum

@[simp] theorem len_new (len : ℕ) : (new len).len = len := rfl

@[simp] theorem len_setBit (m : RowMask) (i : ℕ) (h : i < m.len) : (m.setBit i h).len = m.len := rfl

theorem get_new (len i : ℕ) : (new len).get i = false := by
  rw [get, new, wordsBit_replicate, Bool.and_false]

theorem get_eq_bit (m : RowMask) (i : ℕ) : m.get i = wordsBit m.words i := by
  rw [get]
  by_cases h : i < m.len
  · rw [decide_eq_true h, Bool.true_and]
  · rw [decide_eq_false h, Bool.false_and, m.clear i (not_lt.mp h)]

theorem get_setBit (m : RowMask) {i : ℕ} (h : i < m.len) (j : ℕ) :
    (m.setBit i h).get j = (decide (i = j) || m.get j) := by
  rw [get_eq_bit, get_eq_bit]
  exact wordsBit_setWordsBit (m.lt_words h) j

theorem set_of_lt (m : RowMask) {i : ℕ} (h : i < m.len) : m.set i = .ok (m.setBit i h) := dif_pos h

theorem countOnes_eq (m : RowMask) : m.countOnes = (List.range m.len).countP m.get := by
  have hle : m.len ≤ 64 * m.words.length := by
    rw [m.length_words]
    omega
  obtain ⟨k, hk⟩ := Nat.exists_eq_add_of_le hle
  have hrest : ((List.range k).map (m.len + ·)).countP (wordsBit m.words) = 0 := by
    rw [List.countP_eq_zero]
    intro j hj
    obtain ⟨i, -, rfl⟩ := List.mem_map.mp hj
    rw [m.clear _ (Nat.le_add_right _ i)]
    exact Bool.false_ne_true
  rw [countOnes, sum_countOnes, hk, List.range_add, List.countP_append, hrest, Nat.add_zero]
  apply List.countP_congr
  intro i _
  rw [get_eq_bit]

/-! ## Masks of Booleans -/

/-- Setting some of the rows, each by its flag. -/
theorem foldlM_set (bits : List Bool) (m : RowMask) (first : ℕ)
    (h : first + bits.length ≤ m.len) :
    ∃ m', (bits.zipIdx first).foldlM (fun m b ↦ if b.1 then m.set b.2 else .ok m) m =
        (.ok m' : Except String RowMask) ∧ m'.len = m.len ∧
      ∀ i, m'.get i = (m.get i || flagAt bits first i) := by
  induction bits generalizing m first with
  | nil => exact ⟨m, rfl, rfl, fun i ↦ by rw [flagAt_nil, Bool.or_false]⟩
  | cons b bits ih =>
      rw [List.length_cons] at h
      have hstep : ∃ m₁, (if b then m.set first else .ok m) = (.ok m₁ : Except String RowMask) ∧
          m₁.len = m.len ∧ ∀ i, m₁.get i = (m.get i || (decide (first = i) && b)) := by
        cases b with
        | false => exact ⟨m, rfl, rfl, fun i ↦ by rw [Bool.and_false, Bool.or_false]⟩
        | true =>
            refine ⟨m.setBit first (by omega), m.set_of_lt _, rfl, fun i ↦ ?_⟩
            rw [get_setBit, Bool.and_true, Bool.or_comm]
      obtain ⟨m₁, hm₁, hlen₁, hget₁⟩ := hstep
      obtain ⟨m', hm', hlen', hget'⟩ := ih m₁ (first + 1) (by omega)
      refine ⟨m', ?_, hlen'.trans hlen₁, fun i ↦ ?_⟩
      · rw [List.zipIdx_cons, List.foldlM_cons]
        dsimp only
        rw [hm₁]
        exact hm'
      · rw [hget', hget₁, flagAt_cons, Bool.or_assoc]

/-- `from_bools` represents its list. -/
theorem fromBools_eq (bits : List Bool) :
    ∃ m, fromBools bits = .ok m ∧ m.len = bits.length ∧
      (∀ i, m.get i = bits[i]?.getD false) ∧ m.countOnes = bits.count true := by
  obtain ⟨m, hm, hlen, hget⟩ := foldlM_set bits (new bits.length) 0 (by rw [Nat.zero_add, len_new])
  rw [len_new] at hlen
  have hbits : ∀ i, m.get i = bits[i]?.getD false := by
    intro i
    rw [hget, get_new, flagAt_zero, Bool.false_or]
  refine ⟨m, hm, hlen, hbits, ?_⟩
  rw [countOnes_eq, hlen]
  have hmap : (List.range bits.length).map m.get = bits := by
    refine List.ext_getElem (by rw [List.length_map, List.length_range]) fun i hi hi' ↦ ?_
    rw [List.getElem_map, List.getElem_range, hbits, List.getElem?_eq_getElem hi',
      Option.getD_some]
  conv_rhs => rw [← hmap, List.count, List.countP_map]
  apply List.countP_congr
  intro i _
  rw [Function.comp_apply, beq_true]

end RowMask

end VectorDbBenchmark.Msmarco
