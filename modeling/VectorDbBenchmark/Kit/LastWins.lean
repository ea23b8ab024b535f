import VectorDbBenchmark.Kit.TreeWalk

/-!
# The last of several values wins

Insertion into a list of entries with distinct keys, where a value replaces the one that is
there, and the values of a list behind which none with the same key stands.  In an and/or
tree the leaves of a conjunction compete in this way.

Writes to a store, where a value may be one that is merged with what is there.  A store to which
nothing else is written under a key does not tell how often, and in what order, it was.
-/

namespace Kit

universe u v w

/-! ## Lists -/

section Lists

variable {α : Type u} {β : Type v} {κ : Type w} [DecidableEq κ]

/-- The elements behind which none with the same key stands; an element may have no key. -/
def lastsBy (key : α → Option κ) : List α → List α
  | [] => []
  | x :: xs =>
    if key x ≠ none ∧ key x ∈ xs.map key then lastsBy key xs
    else x :: lastsBy key xs

variable {key : α → Option κ}

theorem lastsBy_map (f : β → α) (ys : List β) :
    lastsBy key (ys.map f) = (lastsBy (fun y ↦ key (f y)) ys).map f := by
  induction ys with
  | nil => rfl
  | cons y ys ih =>
      have hkeys : (ys.map f).map key = ys.map fun y ↦ key (f y) := List.map_map
      rw [List.map_cons, lastsBy, lastsBy, hkeys]
      split_ifs
      · exact ih
      · rw [ih, List.map_cons]

theorem mem_of_mem_lastsBy {x : α} {xs : List α} (h : x ∈ lastsBy key xs) : x ∈ xs := by
  induction xs with
  | nil => exact h
  | cons y xs ih =>
      rw [lastsBy] at h
      split_ifs at h
      · exact List.mem_cons_of_mem _ (ih h)
      · rcases List.mem_cons.mp h with rfl | h
        · exact List.mem_cons_self
        · exact List.mem_cons_of_mem _ (ih h)

/-- Nothing is replaced where the keys are distinct. -/
theorem lastsBy_eq_self {xs : List α} (h : xs.Pairwise fun x y ↦ key x ≠ key y ∨ key x = none) :
    lastsBy key xs = xs := by
  induction xs with
  | nil => rfl
  | cons x xs ih =>
      rw [List.pairwise_cons] at h
      rw [lastsBy, if_neg, ih h.2]
      rintro ⟨hsome, hmem⟩
      obtain ⟨y, hy, heq⟩ := List.mem_map.mp hmem
      rcases h.1 y hy with hne | hnone
      · exact hne heq.symm
      · exact hsome hnone

/-- Related elements with the same keys are left. -/
theorem forall₂_lastsBy {key' : β → Option κ} {R : α → β → Prop} {xs : List α} {ys : List β}
    (hkey : ∀ x y, R x y → key x = key' y) (h : List.Forall₂ R xs ys) :
    List.Forall₂ R (lastsBy key xs) (lastsBy key' ys) := by
  have hkeys : ∀ {xs : List α} {ys : List β}, List.Forall₂ R xs ys → xs.map key = ys.map key' := by
    intro xs ys h
    induction h with
    | nil => rfl
    | cons hx _ ih => rw [List.map_cons, List.map_cons, hkey _ _ hx, ih]
  induction h with
  | nil => exact .nil
  | cons hx hxs ih =>
      rw [lastsBy, lastsBy, hkey _ _ hx, hkeys hxs]
      split_ifs
      · exact ih
      · exact .cons hx ih

theorem lastsBy_eq_self_of_none {xs : List α} (h : ∀ x ∈ xs, key x = none) :
    lastsBy key xs = xs :=
  lastsBy_eq_self (List.pairwise_of_forall_mem_list fun x hx _ _ ↦ .inr (h x hx))

end Lists

/-! ## Entries -/

section Entries

variable {κ : Type u} {β : Type v} [DecidableEq κ]

/-- The entries with a value for a key, which keeps its place when it is there. -/
def insertKey (key : κ) (b : β) : List (κ × β) → List (κ × β)
  | [] => [(key, b)]
  | (k, c) :: es => if k = key then (k, b) :: es else (k, c) :: insertKey key b es

theorem mem_keys_insertKey {key k : κ} {b : β} {es : List (κ × β)} :
    k ∈ (insertKey key b es).map Prod.fst ↔ k = key ∨ k ∈ es.map Prod.fst := by
  induction es with
  | nil => simp [insertKey]
  | cons e es ih =>
      obtain ⟨k', c⟩ := e
      rw [insertKey]
      split_ifs with hk
      · subst hk
        simp
      · rw [List.map_cons, List.mem_cons, ih, List.map_cons, List.mem_cons]
        exact or_left_comm

theorem nodup_insertKey {key : κ} {b : β} {es : List (κ × β)} (h : (es.map Prod.fst).Nodup) :
    ((insertKey key b es).map Prod.fst).Nodup := by
  induction es with
  | nil => exact List.nodup_singleton key
  | cons e es ih =>
      obtain ⟨k, c⟩ := e
      rw [List.map_cons, List.nodup_cons] at h
      rw [insertKey]
      split_ifs with hk
      · exact List.nodup_cons.mpr h
      · rw [List.map_cons, List.nodup_cons, mem_keys_insertKey, not_or]
        exact ⟨⟨hk, h.1⟩, ih h.2⟩

theorem lookup_cons_eq (k key : κ) (b : β) (es : List (κ × β)) :
    ((key, b) :: es).lookup k = if k = key then some b else es.lookup k := by
  rw [List.lookup_cons]
  split_ifs with h
  · rw [beq_iff_eq.mpr h]
  · rw [beq_eq_false_iff_ne.mpr h]

theorem lookup_insertKey (k key : κ) (b : β) (es : List (κ × β)) :
    (insertKey key b es).lookup k = if k = key then some b else es.lookup k := by
  induction es with
  | nil => exact lookup_cons_eq k key b []
  | cons e es ih =>
      obtain ⟨k', c⟩ := e
      rw [insertKey]
      by_cases hkey : k' = key
      · rw [if_pos hkey, lookup_cons_eq, lookup_cons_eq, hkey]
        split_ifs <;> rfl
      · rw [if_neg hkey, lookup_cons_eq, lookup_cons_eq, ih]
        by_cases hk : k = k'
        · rw [if_pos hk, if_pos hk, if_neg (hk ▸ hkey)]
        · rw [if_neg hk, if_neg hk]

theorem mem_insertKey {key : κ} {b : β} {e : κ × β} {es : List (κ × β)}
    (h : (es.map Prod.fst).Nodup) :
    e ∈ insertKey key b es ↔ e = (key, b) ∨ e ∈ es ∧ e.1 ≠ key := by
  induction es with
  | nil => simp [insertKey]
  | cons f es ih =>
      obtain ⟨k, c⟩ := f
      rw [List.map_cons, List.nodup_cons] at h
      rw [insertKey]
      split_ifs with hk
      · subst hk
        have hrest : e ∈ es → e.1 ≠ k := by
          intro he heq
          exact h.1 (List.mem_map.mpr ⟨e, he, heq⟩)
        constructor
        · intro he
          rcases List.mem_cons.mp he with rfl | he
          · exact .inl rfl
          · exact .inr ⟨List.mem_cons_of_mem _ he, hrest he⟩
        · rintro (rfl | ⟨he, hne⟩)
          · exact List.mem_cons_self
          · rcases List.mem_cons.mp he with rfl | he
            · exact absurd rfl hne
            · exact List.mem_cons_of_mem _ he
      · rw [List.mem_cons, ih h.2, List.mem_cons]
        constructor
        · rintro (rfl | rfl | ⟨he, hne⟩)
          · exact .inr ⟨.inl rfl, hk⟩
          · exact .inl rfl
          · exact .inr ⟨.inr he, hne⟩
        · rintro (rfl | ⟨rfl | he, hne⟩)
          · exact .inr (.inl rfl)
          · exact .inl rfl
          · exact .inr (.inr ⟨he, hne⟩)

/-- The entries after all insertions. -/
def insertKeys (es : List (κ × β)) (new : List (κ × β)) : List (κ × β) :=
  new.foldl (fun es e ↦ insertKey e.1 e.2 es) es

theorem insertKeys_append (es new new' : List (κ × β)) :
    insertKeys es (new ++ new') = insertKeys (insertKeys es new) new' := List.foldl_append

theorem insertKey_of_notMem {key : κ} {b : β} {es : List (κ × β)} (h : key ∉ es.map Prod.fst) :
    insertKey key b es = es ++ [(key, b)] := by
  induction es with
  | nil => rfl
  | cons e es ih =>
      obtain ⟨k, c⟩ := e
      rw [List.map_cons, List.mem_cons, not_or] at h
      rw [insertKey, if_neg (Ne.symm h.1), ih h.2, List.cons_append]

/-- Distinct keys replace nothing. -/
theorem insertKeys_of_nodup {es new : List (κ × β)} (h : ((es ++ new).map Prod.fst).Nodup) :
    insertKeys es new = es ++ new := by
  induction new generalizing es with
  | nil => exact (List.append_nil es).symm
  | cons e new ih =>
      have hsplit : es ++ e :: new = (es ++ [e]) ++ new := by
        rw [List.append_assoc, List.singleton_append]
      rw [hsplit] at h ⊢
      rw [insertKeys, List.foldl_cons, insertKey_of_notMem]
      · exact ih h
      · rw [List.append_assoc, List.singleton_append, List.map_append, List.map_cons] at h
        exact fun hmem ↦ List.disjoint_of_nodup_append h hmem List.mem_cons_self

/-- The last value for a key is left. -/
theorem mem_insertKeys {e : κ × β} {es new : List (κ × β)} (h : (es.map Prod.fst).Nodup) :
    e ∈ insertKeys es new ↔
      e ∈ lastsBy (fun e ↦ some e.1) new ∨ e ∈ es ∧ e.1 ∉ new.map Prod.fst := by
  induction new generalizing es with
  | nil => simp [insertKeys, lastsBy]
  | cons f new ih =>
      have hkeys : (some f.1 ≠ none ∧ some f.1 ∈ new.map fun e ↦ some e.1) ↔
          f.1 ∈ new.map Prod.fst := by
        simp
      show e ∈ insertKeys (insertKey f.1 f.2 es) new ↔ _
      rw [ih (nodup_insertKey h), mem_insertKey h, lastsBy, List.map_cons, List.mem_cons, not_or]
      split_ifs with hf <;> rw [hkeys] at hf
      · constructor
        · rintro (he | ⟨rfl | ⟨he, hne⟩, hnot⟩)
          · exact .inl he
          · exact absurd hf hnot
          · exact .inr ⟨he, hne, hnot⟩
        · rintro (he | ⟨he, hne, hnot⟩)
          · exact .inl he
          · exact .inr ⟨.inr ⟨he, hne⟩, hnot⟩
      · rw [List.mem_cons]
        constructor
        · rintro (he | ⟨rfl | ⟨he, hne⟩, hnot⟩)
          · exact .inl (.inr he)
          · exact .inl (.inl rfl)
          · exact .inr ⟨he, hne, hnot⟩
        · rintro ((rfl | he) | ⟨he, hne, hnot⟩)
          · exact .inr ⟨.inl rfl, hf⟩
          · exact .inl he
          · exact .inr ⟨.inr ⟨he, hne⟩, hnot⟩

theorem insertKey_ne_nil (key : κ) (b : β) (es : List (κ × β)) : insertKey key b es ≠ [] := by
  cases es with
  | nil => exact List.cons_ne_nil _ _
  | cons e es =>
      obtain ⟨k, c⟩ := e
      rw [insertKey]
      split_ifs
      · exact List.cons_ne_nil _ _
      · exact List.cons_ne_nil _ _

theorem insertKeys_ne_nil {es new : List (κ × β)} (h : es ≠ [] ∨ new ≠ []) :
    insertKeys es new ≠ [] := by
  induction new generalizing es with
  | nil => exact h.resolve_right fun hne ↦ hne rfl
  | cons e new ih => exact ih (.inl (insertKey_ne_nil _ _ _))

theorem mem_insertKeys_nil {e : κ × β} {new : List (κ × β)} :
    e ∈ insertKeys [] new ↔ e ∈ lastsBy (fun e ↦ some e.1) new := by
  have hnil : ((([] : List (κ × β)).map Prod.fst)).Nodup := List.nodup_nil
  rw [mem_insertKeys hnil]
  simp

end Entries

/-! ## Trees -/

namespace BoolTree

variable {L : Type u} {κ : Type w} [DecidableEq κ] (key : L → κ)

/-- The key of a leaf. -/
def leafKey : BoolTree L → Option κ
  | leaf l => some (key l)
  | _ => none

mutual

/-- The tree in which, of the leaves of a conjunction with one key, the last one is left. -/
def settle : BoolTree L → BoolTree L
  | leaf l => leaf l
  | all ts => all (lastsBy (leafKey key) (settleEach ts))
  | any ts => any (settleEach ts)

def settleEach : List (BoolTree L) → List (BoolTree L)
  | [] => []
  | t :: ts => settle t :: settleEach ts

end

variable {key}

theorem settleEach_eq (ts : List (BoolTree L)) : settleEach key ts = ts.map (settle key) := by
  induction ts with
  | nil => rw [settleEach, List.map_nil]
  | cons t ts ih => rw [settleEach, ih, List.map_cons]

@[simp] theorem settle_leaf (l : L) : settle key (leaf l) = leaf l := by rw [settle]

theorem settle_all (ts : List (BoolTree L)) :
    settle key (all ts) = all (lastsBy (leafKey key) (ts.map (settle key))) := by
  rw [settle, settleEach_eq]

@[simp] theorem settle_any (ts : List (BoolTree L)) :
    settle key (any ts) = any (ts.map (settle key)) := by
  rw [settle, settleEach_eq]

@[simp] theorem leafKey_settle (t : BoolTree L) : leafKey key (settle key t) = leafKey key t := by
  cases t with
  | leaf l => rw [settle_leaf]
  | all ts => rw [settle_all]; rfl
  | any ts => rw [settle_any]; rfl

/-- A conjunction of leaves. -/
theorem settle_all_leaves (ls : List L) :
    settle key (all (ls.map leaf)) = all ((lastsBy (fun l ↦ some (key l)) ls).map leaf) := by
  have hleaves : (ls.map leaf).map (settle key) = ls.map leaf := by
    rw [List.map_map]
    exact List.map_congr_left fun l _ ↦ settle_leaf l
  rw [settle_all, hleaves, lastsBy_map]
  rfl

/-- A conjunction of groups. -/
theorem settle_all_groups {ts : List (BoolTree L)} (h : ∀ t ∈ ts, leafKey key t = none) :
    settle key (all ts) = all (ts.map (settle key)) := by
  rw [settle_all, lastsBy_eq_self_of_none]
  intro t ht
  obtain ⟨u, hu, rfl⟩ := List.mem_map.mp ht
  rw [leafKey_settle, h u hu]

/-- No conjunction has two leaves with one key. -/
inductive Settled (key : L → κ) : BoolTree L → Prop
  | leaf (l : L) : Settled key (.leaf l)
  | all {ts : List (BoolTree L)} (h : ∀ t ∈ ts, Settled key t)
    (hkeys : ts.Pairwise fun t u ↦ leafKey key t ≠ leafKey key u ∨ leafKey key t = none) :
    Settled key (.all ts)
  | any {ts : List (BoolTree L)} (h : ∀ t ∈ ts, Settled key t) : Settled key (.any ts)

theorem Settled.settle_eq {t : BoolTree L} (h : t.Settled key) : settle key t = t := by
  have hmap : ∀ {ts : List (BoolTree L)}, (∀ t ∈ ts, settle key t = t) → ts.map (settle key) = ts :=
    fun h ↦ (List.map_congr_left h).trans (List.map_id _)
  induction h with
  | leaf l => exact settle_leaf l
  | all _ hkeys ih => rw [settle_all, hmap ih, lastsBy_eq_self hkeys]
  | any _ ih => rw [settle_any, hmap ih]

/-- Nothing but leaves of the tree is left. -/
theorem leaves_settle_subset {t : BoolTree L} {l : L} (h : l ∈ (settle key t).leaves) :
    l ∈ t.leaves := by
  induction t with
  | leaf l => rwa [settle_leaf] at h
  | all ts ih =>
      rw [settle_all, leaves_all] at h
      obtain ⟨u, hu, hl⟩ := List.mem_flatMap.mp h
      obtain ⟨t, ht, rfl⟩ := List.mem_map.mp (mem_of_mem_lastsBy hu)
      rw [leaves_all]
      exact List.mem_flatMap.mpr ⟨t, ht, ih t ht hl⟩
  | any ts ih =>
      rw [settle_any, leaves_any] at h
      obtain ⟨u, hu, hl⟩ := List.mem_flatMap.mp h
      obtain ⟨t, ht, rfl⟩ := List.mem_map.mp hu
      rw [leaves_any]
      exact List.mem_flatMap.mpr ⟨t, ht, ih t ht hl⟩

/-- A tree is no weaker than what is left of it. -/
theorem eval_settle_of_eval {v : L → Bool} {t : BoolTree L} (h : t.eval v = true) :
    (settle key t).eval v = true := by
  induction t with
  | leaf l => rwa [settle_leaf]
  | all ts ih =>
      rw [eval_all, List.all_eq_true] at h
      rw [settle_all, eval_all, List.all_eq_true]
      intro u hu
      obtain ⟨t, ht, rfl⟩ := List.mem_map.mp (mem_of_mem_lastsBy hu)
      exact ih t ht (h t ht)
  | any ts ih =>
      rw [eval_any, List.any_eq_true] at h
      rw [settle_any, eval_any, List.any_eq_true]
      obtain ⟨t, ht, heval⟩ := h
      exact ⟨_, List.mem_map_of_mem ht, ih t ht heval⟩

end BoolTree

/-! ## Stores -/

section Stores

variable {κ : Type u} {σ : Type v} {β : Type w} [DecidableEq κ]

/-- What is under each key after the writes; a written value becomes part of what is there. -/
def written (merge : β → σ → σ) (store : κ → σ) (writes : List (κ × β)) : κ → σ :=
  writes.foldl (fun s e ↦ Function.update s e.1 (merge e.2 (s e.1))) store

variable {merge : β → σ → σ} {store : κ → σ} {writes : List (κ × β)} {k : κ} {b : β}

theorem written_cons (e : κ × β) (writes : List (κ × β)) :
    written merge store (e :: writes) =
      written merge (Function.update store e.1 (merge e.2 (store e.1))) writes := rfl

/-- A key that is not written keeps what it has. -/
theorem written_of_notMem (h : k ∉ writes.map Prod.fst) :
    written merge store writes k = store k := by
  induction writes generalizing store with
  | nil => rfl
  | cons e writes ih =>
      rw [List.map_cons, List.mem_cons, not_or] at h
      rw [written_cons, ih h.2, Function.update_of_ne h.1]

/-- Writes of one value: they have merged it, as soon as there is one of them. -/
theorem written_of_forall (hidem : ∀ v, merge b (merge b v) = merge b v)
    (h : ∀ e ∈ writes, e.1 = k → e.2 = b) :
    written merge store writes k =
      if k ∈ writes.map Prod.fst then merge b (store k) else store k := by
  induction writes generalizing store with
  | nil => rfl
  | cons e writes ih =>
      rw [List.forall_mem_cons] at h
      rw [written_cons, ih h.2, List.map_cons]
      by_cases hk : e.1 = k
      · subst hk
        rw [Function.update_self, h.1 rfl, hidem, ite_self, if_pos List.mem_cons_self]
      · have hmem : k ∈ e.1 :: writes.map Prod.fst ↔ k ∈ writes.map Prod.fst := by
          rw [List.mem_cons, or_iff_right (Ne.symm hk)]
        rw [Function.update_of_ne (Ne.symm hk)]
        simp only [hmem]

end Stores

end Kit
