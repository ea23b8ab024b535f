import Mathlib.Data.List.Basic
import Mathlib.Tactic

/-!
# Fixed-width little-endian fields in a byte stream

A binary file is read field by field: a block of bytes is taken off the front
of the stream, cut into chunks of one width, and every chunk is decoded as a
little-endian number.  This file has the three pieces (`toLe`/`ofLe`,
`asChunks`, `readExact`) and the facts a codec is verified with: the number
codec round-trips below `256 ^ k`, cutting a concatenation of equal-width
fields gives the fields back, and a read off the front of `xs ++ ys` takes
exactly `xs`.

The machine arithmetic a size computation needs is `checkedMul`/`checkedAdd`
at the 64-bit width.
-/

namespace Kit

abbrev Bytes := List UInt8

/-! ## Numbers as bytes -/

/-- The `k` low-order bytes of `v`, least significant first. -/
def toLe : Nat → Nat → Bytes
  | 0, _ => []
  | k + 1, v => UInt8.ofNat v :: toLe k (v / 256)

/-- The number whose little-endian bytes are given. -/
def ofLe : Bytes → Nat
  | [] => 0
  | b :: bs => b.toNat + 256 * ofLe bs

@[simp] theorem length_toLe (k v : Nat) : (toLe k v).length = k := by
  induction k generalizing v with
  | zero => rfl
  | succ k ih => simp [toLe, ih]

theorem ofLe_toLe (k v : Nat) : ofLe (toLe k v) = v % 256 ^ k := by
  induction k generalizing v with
  | zero => simp [toLe, ofLe, Nat.mod_one]
  | succ k ih =>
      have hb : (UInt8.ofNat v).toNat = v % 256 := UInt8.toNat_ofNat'
      rw [toLe, ofLe, ih, hb, Nat.pow_succ', Nat.mod_mul]

/-- A number that fits its width survives being written and read back. -/
theorem ofLe_toLe_of_lt {k v : Nat} (h : v < 256 ^ k) : ofLe (toLe k v) = v := by
  rw [ofLe_toLe, Nat.mod_eq_of_lt h]

theorem ofLe_lt (bs : Bytes) : ofLe bs < 256 ^ bs.length := by
  induction bs with
  | nil => simp [ofLe]
  | cons b bs ih =>
      have hb : b.toNat < 256 := b.toNat_lt
      rw [ofLe, List.length_cons, Nat.pow_succ']
      omega

/-! ## Equal-width chunks -/

/-- The first `n` blocks of `k` elements. -/
def takeChunks {α : Type*} (k : Nat) : Nat → List α → List (List α)
  | 0, _ => []
  | n + 1, xs => xs.take k :: takeChunks k n (xs.drop k)

/-- The whole blocks of `k` elements; a shorter remainder is dropped. -/
def asChunks {α : Type*} (k : Nat) (xs : List α) : List (List α) :=
  takeChunks k (xs.length / k) xs

@[simp] theorem length_takeChunks {α : Type*} (k n : Nat) (xs : List α) :
    (takeChunks k n xs).length = n := by
  induction n generalizing xs with
  | zero => rfl
  | succ n ih => simp [takeChunks, ih]

@[simp] theorem length_asChunks {α : Type*} (k : Nat) (xs : List α) :
    (asChunks k xs).length = xs.length / k := length_takeChunks k _ xs

theorem takeChunks_add {α : Type*} (k n m : Nat) (xs : List α) :
    takeChunks k (n + m) xs = takeChunks k n xs ++ takeChunks k m (xs.drop (n * k)) := by
  induction n generalizing xs with
  | zero => simp [takeChunks]
  | succ n ih =>
      rw [Nat.succ_add, takeChunks, takeChunks, ih, List.drop_drop, List.cons_append,
        Nat.succ_mul, Nat.add_comm]

theorem takeChunks_append {α : Type*} {k n : Nat} {xs : List α} (h : xs.length = n * k)
    (ys : List α) : takeChunks k n (xs ++ ys) = takeChunks k n xs := by
  induction n generalizing xs with
  | zero => rfl
  | succ n ih =>
      have hk : k ≤ xs.length := by
        rw [h, Nat.succ_mul]
        exact Nat.le_add_left k _
      have hrest : (xs.drop k).length = n * k := by
        rw [List.length_drop, h, Nat.succ_mul, Nat.add_sub_cancel]
      rw [takeChunks, takeChunks, List.take_append_of_le_length hk,
        List.drop_append_of_le_length hk, ih hrest]

theorem getElem?_takeChunks {α : Type*} {k n i : Nat} (h : i < n) (xs : List α) :
    (takeChunks k n xs)[i]? = some ((xs.drop (i * k)).take k) := by
  induction n generalizing xs i with
  | zero => exact absurd h (Nat.not_lt_zero i)
  | succ n ih =>
      cases i with
      | zero => simp [takeChunks]
      | succ i =>
          rw [takeChunks, List.getElem?_cons_succ, ih (Nat.lt_of_succ_lt_succ h), List.drop_drop,
            Nat.succ_mul, Nat.add_comm]

theorem asChunks_of_length {α : Type*} {k n : Nat} (hk : 0 < k) {xs : List α}
    (h : xs.length = n * k) : asChunks k xs = takeChunks k n xs := by
  rw [asChunks, h, Nat.mul_div_cancel _ hk]

/-- The blocks of `k` elements, the last one shorter when there is a remainder. -/
def chunks {α : Type*} (k : Nat) (xs : List α) : List (List α) :=
  takeChunks k ((xs.length + (k - 1)) / k) xs

theorem chunks_of_length {α : Type*} {k n : Nat} (hk : 0 < k) {xs : List α}
    (h : xs.length = n * k) : chunks k xs = takeChunks k n xs := by
  have hdiv : (n * k + (k - 1)) / k = n := by
    rw [Nat.add_comm, Nat.add_mul_div_right _ _ hk, Nat.div_eq_of_lt (Nat.sub_lt hk one_pos),
      Nat.zero_add]
  rw [chunks, h, hdiv]

theorem length_of_mem_takeChunks {α : Type*} {k n : Nat} {xs : List α} (h : xs.length = n * k)
    {c : List α} (hc : c ∈ takeChunks k n xs) : c.length = k := by
  induction n generalizing xs with
  | zero => cases hc
  | succ n ih =>
      have hk : k ≤ xs.length := by
        rw [h, Nat.succ_mul]
        exact Nat.le_add_left k _
      rw [takeChunks] at hc
      rcases List.mem_cons.mp hc with rfl | hc
      · exact List.length_take_of_le hk
      · refine ih ?_ hc
        rw [List.length_drop, h, Nat.succ_mul, Nat.add_sub_cancel]

theorem length_flatten_of_uniform {α : Type*} {k : Nat} {rows : List (List α)}
    (h : ∀ r ∈ rows, r.length = k) : rows.flatten.length = rows.length * k := by
  rw [List.length_flatten, List.map_congr_left h, List.map_const', List.sum_replicate, smul_eq_mul]

/-- Rows of one length are the blocks of their concatenation. -/
theorem takeChunks_flatten {α : Type*} {k : Nat} {rows : List (List α)}
    (h : ∀ r ∈ rows, r.length = k) : takeChunks k rows.length rows.flatten = rows := by
  induction rows with
  | nil => rfl
  | cons r rows ih =>
      have hr : r.length = k := h r List.mem_cons_self
      rw [List.flatten_cons, List.length_cons, takeChunks, List.take_left' hr, List.drop_left' hr,
        ih fun w hw ↦ h w (List.mem_cons_of_mem r hw)]

theorem flatten_takeChunks {α : Type*} {n d : Nat} {xs : List α} (h : xs.length = n * d) :
    (takeChunks d n xs).flatten = xs := by
  induction n generalizing xs with
  | zero =>
      rw [Nat.zero_mul, List.length_eq_zero_iff] at h
      rw [h]
      rfl
  | succ n ih =>
      rw [takeChunks, List.flatten_cons, ih, List.take_append_drop]
      rw [List.length_drop, h, Nat.succ_mul, Nat.add_sub_cancel]

theorem map_takeChunks {α β : Type*} (f : α → β) (k n : Nat) (xs : List α) :
    (takeChunks k n xs).map (List.map f) = takeChunks k n (xs.map f) := by
  induction n generalizing xs with
  | zero => rfl
  | succ n ih => rw [takeChunks, takeChunks, List.map_cons, ih, List.map_take, List.map_drop]

theorem takeChunks_flatMap {α β : Type*} {k : Nat} {f : α → List β}
    (hf : ∀ a, (f a).length = k) (as : List α) (tail : List β) :
    takeChunks k as.length (as.flatMap f ++ tail) = as.map f := by
  induction as with
  | nil => rfl
  | cons a as ih =>
      have h : (a :: as).flatMap f ++ tail = f a ++ (as.flatMap f ++ tail) := by simp
      rw [h, List.length_cons, takeChunks, List.take_left' (hf a), List.drop_left' (hf a), ih,
        List.map_cons]

/-- The length of a concatenation of fields of one width. -/
theorem length_flatMap_const {α β : Type*} {k : Nat} {f : α → List β}
    (hf : ∀ a, (f a).length = k) (as : List α) : (as.flatMap f).length = as.length * k := by
  simp [List.length_flatMap, hf]

/-- Cutting a concatenation of `k`-byte fields gives the fields back. -/
theorem asChunks_flatMap {α β : Type*} {k : Nat} {f : α → List β} (hk : 0 < k)
    (hf : ∀ a, (f a).length = k) (as : List α) :
    asChunks k (as.flatMap f) = as.map f := by
  have h := takeChunks_flatMap hf as []
  rw [List.append_nil] at h
  rw [asChunks, length_flatMap_const hf, Nat.mul_div_cancel _ hk, h]

/-! ## Reading off the front of a stream -/

/-- `Read::read_exact`: exactly `n` bytes, or an error when fewer are left. -/
def readExact (n : Nat) (bs : Bytes) : Except String (Bytes × Bytes) :=
  if n ≤ bs.length then .ok (bs.take n, bs.drop n)
  else .error "failed to fill whole buffer"

theorem readExact_append {n : Nat} {xs : Bytes} (h : xs.length = n) (ys : Bytes) :
    readExact n (xs ++ ys) = .ok (xs, ys) := by
  subst h
  simp [readExact]

theorem readExact_eq_ok {n : Nat} {bs block rest : Bytes} :
    readExact n bs = .ok (block, rest) ↔ bs = block ++ rest ∧ block.length = n := by
  constructor
  · intro h
    by_cases hn : n ≤ bs.length
    · rw [readExact, if_pos hn, Except.ok.injEq, Prod.mk.injEq] at h
      obtain ⟨rfl, rfl⟩ := h
      exact ⟨(List.take_append_drop n bs).symm, by simpa using hn⟩
    · simp [readExact, hn] at h
  · rintro ⟨rfl, rfl⟩
    exact readExact_append rfl rest

/-- Blocks are cut from the front, and what follows them does not matter. -/
theorem asChunks_take {α : Type*} {k n : Nat} (hk : 0 < k) {xs : List α} (h : n * k ≤ xs.length) :
    asChunks k (xs.take (n * k)) = takeChunks k n xs := by
  have hlen : (xs.take (n * k)).length = n * k := List.length_take_of_le h
  rw [asChunks_of_length hk hlen]
  conv_rhs => rw [← List.take_append_drop (n * k) xs]
  rw [takeChunks_append hlen]

/-! ## Machine arithmetic -/

/-- One past the largest 64-bit unsigned number. -/
def u64Size : Nat := 2 ^ 64

/-- `usize::checked_mul` on a 64-bit target. -/
def checkedMul (a b : Nat) : Option Nat := if a * b < u64Size then some (a * b) else none

/-- `usize::checked_add` on a 64-bit target. -/
def checkedAdd (a b : Nat) : Option Nat := if a + b < u64Size then some (a + b) else none

theorem checkedMul_of_lt {a b : Nat} (h : a * b < u64Size) : checkedMul a b = some (a * b) :=
  if_pos h

theorem checkedAdd_of_lt {a b : Nat} (h : a + b < u64Size) : checkedAdd a b = some (a + b) :=
  if_pos h

end Kit
