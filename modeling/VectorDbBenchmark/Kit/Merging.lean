import VectorDbBenchmark.Kit.TreeWalk

/-!
# Alignment of normal forms

A tree whose leaves stand for trees, beside a tree in which they are spelt out.  Both are
flattened; they are still aligned exactly when no leaf that stands for a disjunction has
become a child of one.
-/

namespace Kit

universe u v w

section Lists

variable {α : Type u} {β : Type v} {γ : Type w} {xs : List α} {ys : List β} {S : α → β → Prop}

theorem flatMap_eq_self {f : α → List α} (h : ∀ x ∈ xs, f x = [x]) : xs.flatMap f = xs := by
  rw [List.flatMap_congr h]
  exact List.flatMap_singleton' xs

theorem forall₂_iff_forall {P : α → β → Prop} {Q : α → Prop}
    (h : List.Forall₂ (fun x y ↦ P x y ↔ Q x) xs ys) : List.Forall₂ P xs ys ↔ ∀ x ∈ xs, Q x := by
  induction h with
  | nil => exact iff_of_true .nil fun x hx ↦ absurd hx List.not_mem_nil
  | cons hx _ ih => rw [List.forall₂_cons, List.forall_mem_cons, hx, ih]

variable {f : β → List γ}

theorem length_le_flatMap (h : List.Forall₂ S xs ys)
    (hpos : ∀ x ∈ xs, ∀ y, S x y → 0 < (f y).length) : xs.length ≤ (ys.flatMap f).length := by
  induction h with
  | nil => exact le_rfl
  | @cons x y xs ys hx _ ih =>
      have hy := hpos x List.mem_cons_self y hx
      have hys := ih fun x' hx' ↦ hpos x' (List.mem_cons_of_mem x hx')
      rw [List.flatMap_cons, List.length_append, List.length_cons]
      omega

/-- One part more than one for each element. -/
theorem length_lt_flatMap (h : List.Forall₂ S xs ys)
    (hpos : ∀ x ∈ xs, ∀ y, S x y → 0 < (f y).length) {x : α} (hmem : x ∈ xs)
    (hmany : ∀ y, S x y → 1 < (f y).length) : xs.length < (ys.flatMap f).length := by
  induction h with
  | nil => exact absurd hmem List.not_mem_nil
  | @cons x' y xs ys hx hxs ih =>
      have hrest : ∀ x ∈ xs, ∀ y, S x y → 0 < (f y).length :=
        fun x'' hx'' ↦ hpos x'' (List.mem_cons_of_mem x' hx'')
      rw [List.flatMap_cons, List.length_append, List.length_cons]
      rcases List.mem_cons.mp hmem with rfl | hmem
      · have hy := hmany y hx
        have hys := length_le_flatMap hxs hrest
        omega
      · have hy := hpos x' List.mem_cons_self y hx
        have hys := ih hrest hmem
        omega

end Lists

namespace BoolTree

variable {L : Type u} {M : Type v}

/-! ## Trees in normal form -/

/-- No group has a child of its own kind. -/
inductive Reduced : BoolTree L → Prop
  | leaf (l : L) : Reduced (.leaf l)
  | all {ts : List (BoolTree L)} (h : ∀ t ∈ ts, Reduced t) (hne : ∀ t ∈ ts, ∀ us, t ≠ .all us) :
      Reduced (.all ts)
  | any {ts : List (BoolTree L)} (h : ∀ t ∈ ts, Reduced t) (hne : ∀ t ∈ ts, ∀ us, t ≠ .any us) :
      Reduced (.any ts)

theorem Reduced.conjuncts {t : BoolTree L} (h : t.Reduced) :
    ∀ u ∈ t.conjuncts, u.Reduced ∧ ∀ us, u ≠ .all us := by
  cases h with
  | leaf l => exact List.forall_mem_singleton.mpr ⟨.leaf l, by rintro us ⟨⟩⟩
  | all h hne => exact fun u hu ↦ ⟨h u hu, hne u hu⟩
  | any h hne => exact List.forall_mem_singleton.mpr ⟨.any h hne, by rintro us ⟨⟩⟩

theorem Reduced.disjuncts {t : BoolTree L} (h : t.Reduced) :
    ∀ u ∈ t.disjuncts, u.Reduced ∧ ∀ us, u ≠ .any us := by
  cases h with
  | leaf l => exact List.forall_mem_singleton.mpr ⟨.leaf l, by rintro us ⟨⟩⟩
  | all h hne => exact List.forall_mem_singleton.mpr ⟨.all h hne, by rintro us ⟨⟩⟩
  | any h hne => exact fun u hu ↦ ⟨h u hu, hne u hu⟩

/-- What the children of a flattened group satisfy. -/
theorem forall_mem_flatMap_flatten {P : BoolTree L → Prop} {ts : List (BoolTree L)}
    {parts : BoolTree L → List (BoolTree L)} (h : ∀ t ∈ ts, ∀ u ∈ parts t.flatten, P u) :
    ∀ u ∈ (ts.map flatten).flatMap parts, P u := by
  intro u hu
  rw [List.flatMap_map] at hu
  obtain ⟨t, ht, hu⟩ := List.mem_flatMap.mp hu
  exact h t ht u hu

theorem reduced_flatten (t : BoolTree L) : t.flatten.Reduced := by
  induction t with
  | leaf l =>
      rw [flatten_leaf]
      exact .leaf l
  | all ts ih =>
      by_cases h : ts.length = 1
      · obtain ⟨t, rfl⟩ := List.length_eq_one_iff.mp h
        rw [flatten_all_singleton]
        exact ih t List.mem_cons_self
      · have hparts := forall_mem_flatMap_flatten fun t ht ↦ (ih t ht).conjuncts
        rw [flatten_all h]
        exact .all (fun u hu ↦ (hparts u hu).1) fun u hu ↦ (hparts u hu).2
  | any ts ih =>
      by_cases h : ts.length = 1
      · obtain ⟨t, rfl⟩ := List.length_eq_one_iff.mp h
        rw [flatten_any_singleton]
        exact ih t List.mem_cons_self
      · have hparts := forall_mem_flatMap_flatten fun t ht ↦ (ih t ht).disjuncts
        rw [flatten_any h]
        exact .any (fun u hu ↦ (hparts u hu).1) fun u hu ↦ (hparts u hu).2

/-! ## Leaves that stand for disjunctions -/

section Separate

-- The leaves that stand for disjunctions.
variable (wide : L → Bool)

/-- A tree that is no wide leaf. -/
def narrow : BoolTree L → Bool
  | leaf l => !wide l
  | _ => true

mutual

/-- No wide leaf is a child of a disjunction. -/
def separate : BoolTree L → Bool
  | leaf _ => true
  | all ts => separateAll ts
  | any ts => separateAny ts

def separateAll : List (BoolTree L) → Bool
  | [] => true
  | t :: ts => separate t && separateAll ts

def separateAny : List (BoolTree L) → Bool
  | [] => true
  | t :: ts => narrow wide t && separate t && separateAny ts

end

variable {wide}

theorem separate_leaf (l : L) : (leaf l).separate wide = true := by rw [separate]

theorem separate_all {ts : List (BoolTree L)} :
    (all ts).separate wide = true ↔ ∀ t ∈ ts, t.separate wide = true := by
  rw [separate]
  induction ts with
  | nil =>
      rw [separateAll]
      exact iff_of_true rfl fun t ht ↦ absurd ht List.not_mem_nil
  | cons t ts ih => rw [separateAll, Bool.and_eq_true, ih, List.forall_mem_cons]

theorem separate_any {ts : List (BoolTree L)} : (any ts).separate wide = true ↔
    (∀ t ∈ ts, t.narrow wide = true) ∧ ∀ t ∈ ts, t.separate wide = true := by
  rw [separate]
  induction ts with
  | nil =>
      rw [separateAny]
      refine iff_of_true rfl ⟨?_, ?_⟩ <;> exact fun t ht ↦ absurd ht List.not_mem_nil
  | cons t ts ih =>
      rw [separateAny, Bool.and_eq_true, Bool.and_eq_true, ih, List.forall_mem_cons,
        List.forall_mem_cons, and_and_and_comm]

end Separate

/-- What the leaves stand for: flat trees that are no conjunctions, the wide ones
disjunctions of more than one tree. -/
structure Atoms (wide : L → Bool) (R : L → BoolTree M → Prop) : Prop where
  flatten : ∀ l n, R l n → n.flatten = n
  conjuncts : ∀ l n, R l n → n.conjuncts = [n]
  narrow : ∀ l n, R l n → wide l = false → n.disjuncts = [n]
  wide : ∀ l n, R l n → wide l = true → 1 < n.disjuncts.length

section Aligned

variable {R : L → BoolTree M → Prop} {ts : List (BoolTree L)} {ns : List (BoolTree M)}

theorem aligned_all_iff : Aligned R (all ts) (all ns) ↔ List.Forall₂ (Aligned R) ts ns := by
  constructor
  · rintro (_ | h)
    exact h
  · exact .all

theorem aligned_any_iff : Aligned R (any ts) (any ns) ↔ List.Forall₂ (Aligned R) ts ns := by
  constructor
  · rintro (_ | _ | h)
    exact h
  · exact .any

end Aligned

/-! ## Children taken over -/

/-- Groups of one kind, where a group on the right has taken over the children of its own
kind. -/
inductive Merged (R : L → BoolTree M → Prop) : BoolTree L → BoolTree M → Prop
  | leaf {l : L} {n : BoolTree M} (h : R l n) : Merged R (.leaf l) n
  | all {ts : List (BoolTree L)} {ns : List (BoolTree M)} (h : List.Forall₂ (Merged R) ts ns) :
      Merged R (.all ts) (.all (ns.flatMap conjuncts))
  | any {ts : List (BoolTree L)} {ns : List (BoolTree M)} (h : List.Forall₂ (Merged R) ts ns) :
      Merged R (.any ts) (.any (ns.flatMap disjuncts))

namespace Merged

variable {R : L → BoolTree M → Prop} {wide : L → Bool} {t : BoolTree L} {n : BoolTree M}

/-- The children that a group takes over, on both sides. -/
theorem exists_conjuncts (h : Merged R t n) :
    ∃ us, List.Forall₂ (Merged R) t.conjuncts us ∧ us.flatMap conjuncts = n.conjuncts := by
  cases h with
  | all hts => exact ⟨_, hts, rfl⟩
  | leaf hl => exact ⟨[n], .cons (.leaf hl) .nil, List.append_nil _⟩
  | any hts => exact ⟨[_], .cons (.any hts) .nil, List.append_nil _⟩

theorem exists_disjuncts (h : Merged R t n) :
    ∃ us, List.Forall₂ (Merged R) t.disjuncts us ∧ us.flatMap disjuncts = n.disjuncts := by
  cases h with
  | any hts => exact ⟨_, hts, rfl⟩
  | leaf hl => exact ⟨[n], .cons (.leaf hl) .nil, List.append_nil _⟩
  | all hts => exact ⟨[_], .cons (.all hts) .nil, List.append_nil _⟩

/-- The same of all children of a group. -/
theorem exists_flatMap {parts : BoolTree L → List (BoolTree L)}
    {parts' : BoolTree M → List (BoolTree M)}
    (h : ∀ {t n}, Merged R t n →
      ∃ us, List.Forall₂ (Merged R) (parts t) us ∧ us.flatMap parts' = parts' n)
    {ts : List (BoolTree L)} {ns : List (BoolTree M)} (hts : List.Forall₂ (Merged R) ts ns) :
    ∃ us, List.Forall₂ (Merged R) (ts.flatMap parts) us ∧
      us.flatMap parts' = ns.flatMap parts' := by
  induction hts with
  | nil => exact ⟨[], .nil, rfl⟩
  | cons ht _ ih =>
      obtain ⟨us, hus, heq⟩ := h ht
      obtain ⟨us', hus', heq'⟩ := ih
      refine ⟨us ++ us', List.rel_append hus hus', ?_⟩
      rw [List.flatMap_append, heq, heq', List.flatMap_cons]

theorem conjuncts_eq (hatoms : Atoms wide R) (h : Merged R t n) (hne : ∀ us, t ≠ .all us) :
    n.conjuncts = [n] := by
  cases h with
  | leaf hl => exact hatoms.conjuncts _ _ hl
  | all hts => exact absurd rfl (hne _)
  | any hts => rfl

theorem disjuncts_eq (hatoms : Atoms wide R) (h : Merged R t n) (hne : ∀ us, t ≠ .any us)
    (hnarrow : t.narrow wide = true) : n.disjuncts = [n] := by
  cases h with
  | leaf hl => exact hatoms.narrow _ _ hl ((Bool.not_eq_true' _).mp hnarrow)
  | all hts => rfl
  | any hts => exact absurd rfl (hne _)

theorem lt_disjuncts (hatoms : Atoms wide R) (h : Merged R t n) (hwide : t.narrow wide = false) :
    1 < n.disjuncts.length := by
  cases h with
  | leaf hl => exact hatoms.wide _ _ hl ((Bool.not_eq_false' _).mp hwide)
  | all hts => cases hwide
  | any hts => cases hwide

theorem pos_disjuncts (hatoms : Atoms wide R) (h : Merged R t n) (hne : ∀ us, t ≠ .any us) :
    0 < n.disjuncts.length := by
  rcases hnarrow : t.narrow wide with _ | _
  · exact (h.lt_disjuncts hatoms hnarrow).pos
  · rw [h.disjuncts_eq hatoms hne hnarrow]
    exact Nat.one_pos

/-- A reduced tree is aligned with the merged one unless a wide leaf has lost its group. -/
theorem aligned_iff (hatoms : Atoms wide R) (hred : t.Reduced) (h : Merged R t n) :
    Aligned R t n ↔ t.separate wide = true := by
  induction t generalizing n with
  | leaf l =>
      cases h with
      | leaf hl => exact iff_of_true (.leaf hl) (separate_leaf l)
  | all ts ih =>
      cases h with
      | @all _ ns hts =>
          cases hred with
          | all hreds hne =>
              have heq : ns.flatMap conjuncts = ns := by
                apply flatMap_eq_self
                intro n hn
                obtain ⟨t, ht, hmerged⟩ := exists_of_mem_right hts hn
                exact hmerged.conjuncts_eq hatoms (hne t ht)
              have heach := forall₂_imp_of_mem hts fun t ht n hn ↦ ih t ht (hreds t ht) hn
              rw [heq, aligned_all_iff, forall₂_iff_forall heach, separate_all]
  | any ts ih =>
      cases h with
      | @any _ ns hts =>
          cases hred with
          | any hreds hne =>
              by_cases hnarrow : ∀ t ∈ ts, t.narrow wide = true
              · have heq : ns.flatMap disjuncts = ns := by
                  apply flatMap_eq_self
                  intro n hn
                  obtain ⟨t, ht, hmerged⟩ := exists_of_mem_right hts hn
                  exact hmerged.disjuncts_eq hatoms (hne t ht) (hnarrow t ht)
                have heach := forall₂_imp_of_mem hts fun t ht n hn ↦ ih t ht (hreds t ht) hn
                rw [heq, aligned_any_iff, forall₂_iff_forall heach, separate_any]
                exact (and_iff_right hnarrow).symm
              · refine iff_of_false ?_ fun hsep ↦ hnarrow (separate_any.mp hsep).1
                -- a wide leaf brings more than one child with it
                rw [aligned_any_iff]
                intro hchildren
                push Not at hnarrow
                obtain ⟨t, ht, hwide⟩ := hnarrow
                rw [ne_eq, Bool.not_eq_true] at hwide
                have hlt := length_lt_flatMap hts
                  (fun t ht n hn ↦ pos_disjuncts hatoms hn (hne t ht)) ht
                  fun n hn ↦ lt_disjuncts hatoms hn hwide
                exact absurd hchildren.length_eq hlt.ne

end Merged

variable {R : L → BoolTree M → Prop} {wide : L → Bool}

/-- The normal forms of aligned trees. -/
theorem Aligned.merged_flatten (hatoms : Atoms wide R) {t : BoolTree L} {n : BoolTree M}
    (h : Aligned R t n) : Merged R t.flatten n.flatten := by
  induction t generalizing n with
  | leaf l =>
      have hl := aligned_leaf.mp h
      rw [flatten_leaf, hatoms.flatten l n hl]
      exact .leaf hl
  | all ts ih =>
      obtain ⟨ns, rfl, hts⟩ := aligned_all.mp h
      have heach := forall₂_imp_of_mem hts fun t ht n hn ↦ ih t ht hn
      by_cases hlen : ts.length = 1
      · obtain ⟨t, rfl⟩ := List.length_eq_one_iff.mp hlen
        rcases heach with _ | ⟨hn, ⟨⟩⟩
        rw [flatten_all_singleton, flatten_all_singleton]
        exact hn
      · obtain ⟨us, hus, heq⟩ := Merged.exists_flatMap Merged.exists_conjuncts
          (List.forall₂_map_left_iff.mpr (List.forall₂_map_right_iff.mpr heach))
        rw [flatten_all hlen, flatten_all (hts.length_eq ▸ hlen), ← heq]
        exact .all hus
  | any ts ih =>
      obtain ⟨ns, rfl, hts⟩ := aligned_any.mp h
      have heach := forall₂_imp_of_mem hts fun t ht n hn ↦ ih t ht hn
      by_cases hlen : ts.length = 1
      · obtain ⟨t, rfl⟩ := List.length_eq_one_iff.mp hlen
        rcases heach with _ | ⟨hn, ⟨⟩⟩
        rw [flatten_any_singleton, flatten_any_singleton]
        exact hn
      · obtain ⟨us, hus, heq⟩ := Merged.exists_flatMap Merged.exists_disjuncts
          (List.forall₂_map_left_iff.mpr (List.forall₂_map_right_iff.mpr heach))
        rw [flatten_any hlen, flatten_any (hts.length_eq ▸ hlen), ← heq]
        exact .any hus

/-- Aligned trees are still aligned after flattening exactly when no wide leaf is a child
of a disjunction then. -/
theorem Aligned.flatten_iff (hatoms : Atoms wide R) {t : BoolTree L} {n : BoolTree M}
    (h : Aligned R t n) : Aligned R t.flatten n.flatten ↔ t.flatten.separate wide = true :=
  (h.merged_flatten hatoms).aligned_iff hatoms t.reduced_flatten

end BoolTree

end Kit
