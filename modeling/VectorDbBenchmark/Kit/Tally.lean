import Mathlib.Algebra.BigOperators.Group.List.Lemmas
import Mathlib.Data.List.Nodup
import Mathlib.Tactic

/-!
# Totals by key

A map that adds amounts to the entries of its keys, as an association list in the order
in which the keys came.  Such a list is determined, up to the order of its entries, by
its keys and by the total of each of them.
-/

namespace Kit

universe u v

variable {κ : Type u} {M : Type v} [DecidableEq κ] [AddCommMonoid M]

/-- `*map.entry(key).or_insert(0) += m`. -/
def addTo (key : κ) (m : M) : List (κ × M) → List (κ × M)
  | [] => [(key, 0 + m)]
  | (k, n) :: es => if k = key then (k, n + m) :: es else (k, n) :: addTo key m es

/-- What the entries of a key amount to. -/
def total (key : κ) (es : List (κ × M)) : M := ((es.filter (·.1 = key)).map Prod.snd).sum

@[simp] theorem total_nil (key : κ) : total key ([] : List (κ × M)) = 0 := rfl

theorem total_cons (key : κ) (e : κ × M) (es : List (κ × M)) :
    total key (e :: es) = (if e.1 = key then e.2 else 0) + total key es := by
  rw [total, List.filter_cons]
  simp only [decide_eq_true_eq]
  split_ifs
  · rfl
  · rw [zero_add]
    rfl

theorem total_eq_zero {key : κ} {es : List (κ × M)} (h : key ∉ es.map Prod.fst) :
    total key es = 0 := by
  have hnone : es.filter (·.1 = key) = [] := by
    apply List.filter_eq_nil_iff.mpr
    intro e he hkey
    exact h (List.mem_map.mpr ⟨e, he, of_decide_eq_true hkey⟩)
  rw [total, hnone]
  rfl

theorem mem_keys_addTo {key k : κ} {m : M} {es : List (κ × M)} :
    k ∈ (addTo key m es).map Prod.fst ↔ k = key ∨ k ∈ es.map Prod.fst := by
  induction es with
  | nil => simp [addTo]
  | cons e es ih =>
      obtain ⟨k', n⟩ := e
      rw [addTo]
      split_ifs with hk
      · subst hk
        simp
      · rw [List.map_cons, List.mem_cons, ih, List.map_cons, List.mem_cons]
        exact or_left_comm

theorem nodup_keys_addTo {key : κ} {m : M} {es : List (κ × M)} (h : (es.map Prod.fst).Nodup) :
    ((addTo key m es).map Prod.fst).Nodup := by
  induction es with
  | nil => exact List.nodup_singleton _
  | cons e es ih =>
      obtain ⟨k', n⟩ := e
      rw [List.map_cons, List.nodup_cons] at h
      rw [addTo]
      split_ifs with hk
      · exact List.nodup_cons.mpr h
      · refine List.nodup_cons.mpr ⟨fun hmem ↦ ?_, ih h.2⟩
        rcases mem_keys_addTo.mp hmem with rfl | hmem
        · exact hk rfl
        · exact h.1 hmem

/-- Adding to a key changes its total, and no other. -/
theorem total_addTo (key k : κ) (m : M) (es : List (κ × M)) :
    total k (addTo key m es) = total k es + if k = key then m else 0 := by
  induction es with
  | nil =>
      rw [addTo, total_cons, total_nil, zero_add, add_zero, zero_add]
      simp only [eq_comm]
  | cons e es ih =>
      obtain ⟨k', n⟩ := e
      rw [addTo]
      split_ifs with hk hkey hkey
      · subst hk hkey
        rw [total_cons, total_cons, if_pos rfl, if_pos rfl, add_right_comm]
      · subst hk
        rw [total_cons, total_cons, if_neg (Ne.symm hkey), if_neg (Ne.symm hkey), add_zero]
      · rw [total_cons, total_cons, ih, if_pos hkey, add_assoc]
      · rw [total_cons, total_cons, ih, if_neg hkey, add_zero, add_zero]

/-- Adding one entry after another. -/
theorem total_foldl_addTo (key : κ) (fs es : List (κ × M)) :
    total key (fs.foldl (fun es f ↦ addTo f.1 f.2 es) es) = total key es + total key fs := by
  induction fs generalizing es with
  | nil => exact (add_zero _).symm
  | cons f fs ih =>
      rw [List.foldl_cons, ih, total_addTo, total_cons, add_assoc]
      simp only [eq_comm]

theorem nodup_keys_foldl_addTo {fs es : List (κ × M)} (h : (es.map Prod.fst).Nodup) :
    ((fs.foldl (fun es f ↦ addTo f.1 f.2 es) es).map Prod.fst).Nodup := by
  induction fs generalizing es with
  | nil => exact h
  | cons f fs ih => exact ih (nodup_keys_addTo h)

/-- An entry of distinct keys is the total of its key. -/
theorem mem_iff_total {key : κ} {m : M} {es : List (κ × M)} (h : (es.map Prod.fst).Nodup) :
    (key, m) ∈ es ↔ key ∈ es.map Prod.fst ∧ m = total key es := by
  induction es with
  | nil => simp
  | cons e es ih =>
      obtain ⟨k, n⟩ := e
      rw [List.map_cons, List.nodup_cons] at h
      rw [List.mem_cons, Prod.mk.injEq, List.map_cons, List.mem_cons, total_cons, ih h.2]
      constructor
      · rintro (⟨rfl, rfl⟩ | ⟨hmem, rfl⟩)
        · rw [if_pos rfl, total_eq_zero h.1, add_zero]
          exact ⟨.inl rfl, rfl⟩
        · have hne : ¬ k = key := by
            rintro rfl
            exact h.1 hmem
          rw [if_neg hne, zero_add]
          exact ⟨.inr hmem, rfl⟩
      · rintro ⟨rfl | hmem, hm⟩
        · rw [if_pos rfl, total_eq_zero h.1, add_zero] at hm
          exact .inl ⟨rfl, hm⟩
        · have hne : ¬ k = key := by
            rintro rfl
            exact h.1 hmem
          rw [if_neg hne, zero_add] at hm
          exact .inr ⟨hmem, hm⟩

/-- What a lookup finds among distinct keys. -/
theorem lookup_getD [BEq κ] [LawfulBEq κ] {es : List (κ × M)} (h : (es.map Prod.fst).Nodup)
    (key : κ) :
    (es.lookup key).getD 0 = total key es := by
  induction es with
  | nil => rfl
  | cons e es ih =>
      obtain ⟨k, n⟩ := e
      rw [List.map_cons, List.nodup_cons] at h
      rw [List.lookup_cons, total_cons]
      by_cases hk : k = key
      · subst hk
        rw [beq_self_eq_true, if_pos rfl, total_eq_zero h.1, add_zero]
        rfl
      · rw [beq_false_of_ne (Ne.symm hk), if_neg hk, zero_add]
        exact ih h.2

/-- One entry for each of distinct keys. -/
theorem total_map {f : κ → M} {ks : List κ} (h : ks.Nodup) (key : κ) :
    total key (ks.map fun k ↦ (k, f k)) = if key ∈ ks then f key else 0 := by
  have hkeys : (ks.map fun k ↦ (k, f k)).map Prod.fst = ks := by
    rw [List.map_map]
    exact List.map_id _
  split_ifs with hkey
  · have hnodup : ((ks.map fun k ↦ (k, f k)).map Prod.fst).Nodup := hkeys.symm ▸ h
    exact ((mem_iff_total hnodup).mp (List.mem_map.mpr ⟨key, hkey, rfl⟩)).2.symm
  · apply total_eq_zero
    rwa [hkeys]

/-- Lists of entries with the same keys and totals are the same up to their order. -/
theorem perm_of_totals {es fs : List (κ × M)} (hes : (es.map Prod.fst).Nodup)
    (hfs : (fs.map Prod.fst).Nodup) (hkeys : ∀ k, k ∈ es.map Prod.fst ↔ k ∈ fs.map Prod.fst)
    (htotal : ∀ k, total k es = total k fs) : es.Perm fs := by
  apply (List.perm_ext_iff_of_nodup hes.of_map hfs.of_map).mpr
  rintro ⟨k, m⟩
  rw [mem_iff_total hes, mem_iff_total hfs, hkeys, htotal]

end Kit
