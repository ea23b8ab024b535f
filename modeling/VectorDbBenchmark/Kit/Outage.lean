import Mathlib.Data.List.DropRight
import Mathlib.Data.List.Infix
import Mathlib.Order.Basic

/-!
# Answers until a result

A reader takes one answer after another until one of them gives a result.  Where what it knows is
a function of the answers before, it comes to a result exactly when each of them lets it go on.

An outage is a run of failures with no other answer between them.  A reader that bounds the outage
which it is in bounds every outage in what it reads.
-/

namespace Kit

universe u v w

/-! ## Readers -/

section Readers

variable {σ : Type u} {α : Type v} {ρ : Type w}

/-- The result, and the answers that are not read. -/
def readUntil (step : σ → α → σ ⊕ ρ) : σ → List α → Option (ρ × List α)
  | _, [] => none
  | s, a :: as =>
    match step s a with
    | .inl s' => readUntil step s' as
    | .inr r => some (r, as)

/-- Each answer is one that the reader goes on with after those before it. -/
def GoesOn (goes : List α → α → Prop) (answers : List α) : Prop :=
  ∀ before a after, answers = before ++ a :: after → goes before a

variable {goes : List α → α → Prop} {a : α} {as : List α}

theorem GoesOn.nil : GoesOn goes [] := by
  intro before a after h
  exact absurd h.symm (List.append_ne_nil_of_right_ne_nil _ (List.cons_ne_nil _ _))

theorem goesOn_cons : GoesOn goes (a :: as) ↔ goes [] a ∧ GoesOn (fun l ↦ goes (a :: l)) as := by
  constructor
  · intro h
    refine ⟨h [] a as rfl, ?_⟩
    rintro before b after rfl
    exact h (a :: before) b after rfl
  · rintro ⟨hfirst, hrest⟩ before b after h
    cases before with
    | nil =>
        cases h
        exact hfirst
    | cons c before =>
        rw [List.cons_append, List.cons.injEq] at h
        obtain ⟨rfl, h⟩ := h
        exact hrest before b after h

theorem GoesOn.mono {goes' : List α → α → Prop} (h : GoesOn goes as)
    (himp : ∀ before a, goes before a → goes' before a) : GoesOn goes' as :=
  fun before a after heq ↦ himp before a (h before a after heq)

theorem goesOn_and {goes' : List α → α → Prop} :
    GoesOn (fun l a ↦ goes l a ∧ goes' l a) as ↔ GoesOn goes as ∧ GoesOn goes' as := by
  constructor
  · intro h
    exact ⟨h.mono fun _ _ ↦ And.left, h.mono fun _ _ ↦ And.right⟩
  · rintro ⟨h, h'⟩ before a after heq
    exact ⟨h before a after heq, h' before a after heq⟩

/-- What is asked of an answer alone is asked of every answer. -/
theorem goesOn_forall {P : α → Prop} : GoesOn (fun _ ↦ P) as ↔ ∀ a ∈ as, P a := by
  constructor
  · intro h a ha
    obtain ⟨before, after, heq⟩ := List.append_of_mem ha
    exact h before a after heq
  · rintro h before a after rfl
    exact h a (List.mem_append_right _ List.mem_cons_self)

/-- Answers of which there are not more than a number. -/
theorem goesOn_length_iff {n : ℕ} : GoesOn (fun l (_ : α) ↦ l.length < n) as ↔ as.length ≤ n := by
  constructor
  · intro h
    rcases List.eq_nil_or_concat' as with rfl | ⟨before, a, rfl⟩
    · exact Nat.zero_le n
    · have hlt : before.length < n := h before a [] rfl
      rw [List.length_append, List.length_singleton]
      exact hlt
  · rintro h before a after rfl
    rw [List.length_append, List.length_cons] at h
    omega

/-- The reader has its result from the first answer that it does not go on with. -/
theorem readUntil_iff (step : σ → α → σ ⊕ ρ) (state : List α → σ) (goes : List α → α → Prop)
    (as rest : List α) (r : ρ) (hstep : ∀ before a s', step (state before) a = .inl s' ↔
      goes before a ∧ s' = state (before ++ [a])) :
    readUntil step (state []) as = some (r, rest) ↔
      ∃ before a, as = before ++ a :: rest ∧ GoesOn goes before ∧
        step (state before) a = .inr r := by
  have hseen : ∀ seen : List α, readUntil step (state seen) as = some (r, rest) ↔
      ∃ before a, as = before ++ a :: rest ∧ GoesOn (fun l ↦ goes (seen ++ l)) before ∧
        step (state (seen ++ before)) a = .inr r := by
    induction as with
    | nil =>
        intro seen
        constructor
        · intro h
          cases h
        · rintro ⟨before, a, heq, -⟩
          exact absurd heq.symm (List.append_ne_nil_of_right_ne_nil _ (List.cons_ne_nil _ _))
    | cons b as ih =>
        intro seen
        have hrest := ih (seen ++ [b])
        simp only [List.append_assoc, List.singleton_append] at hrest
        cases hnext : step (state seen) b with
        | inl s' =>
            obtain ⟨hb, rfl⟩ := (hstep seen b s').mp hnext
            rw [readUntil, hnext]
            refine hrest.trans ?_
            constructor
            · rintro ⟨before, a, rfl, hgo, hresult⟩
              refine ⟨b :: before, a, rfl, goesOn_cons.mpr ⟨?_, hgo⟩, hresult⟩
              rwa [List.append_nil]
            · rintro ⟨before, a, heq, hgo, hresult⟩
              cases before with
              | nil =>
                  cases heq
                  rw [List.append_nil, hnext] at hresult
                  cases hresult
              | cons c before =>
                  rw [List.cons_append, List.cons.injEq] at heq
                  obtain ⟨rfl, rfl⟩ := heq
                  exact ⟨before, a, rfl, (goesOn_cons.mp hgo).2, hresult⟩
        | inr r' =>
            rw [readUntil, hnext]
            constructor
            · intro h
              cases h
              refine ⟨[], b, rfl, .nil, ?_⟩
              rwa [List.append_nil]
            · rintro ⟨before, a, heq, hgo, hresult⟩
              cases before with
              | nil =>
                  cases heq
                  rw [List.append_nil, hnext] at hresult
                  cases hresult
                  rfl
              | cons c before =>
                  rw [List.cons_append, List.cons.injEq] at heq
                  obtain ⟨rfl, rfl⟩ := heq
                  have hfirst := (goesOn_cons.mp hgo).1
                  rw [List.append_nil] at hfirst
                  cases hnext.symm.trans ((hstep seen b _).mpr ⟨hfirst, rfl⟩)
  exact hseen []

end Readers

/-! ## Outages -/

section Outages

variable {α : Type u} {β : Type v} [Preorder β] {failed : α → Bool} {μ : List α → β} {m : β}
  {answers : List α}

theorem suffix_rtakeWhile {block l : List α} (h : block <:+ l) (hfailed : ∀ a ∈ block, failed a) :
    block <:+ l.rtakeWhile failed := by
  rw [← List.reverse_prefix] at h ⊢
  rw [List.rtakeWhile, List.reverse_reverse]
  obtain ⟨after, hafter⟩ := h
  rw [← hafter, List.takeWhile_append_of_pos]
  · exact List.prefix_append _ _
  · intro a ha
    exact hfailed a (List.mem_reverse.mp ha)

/-- Where a longer outage measures more, the bound on the outage that the reader is in, with the
failure it reads, is the bound on all of them. -/
theorem goesOn_outage_iff
    (hmono : ∀ block block' : List α, block <:+: answers → block' <:+ block → block' ≠ [] →
      μ block' ≤ μ block) :
    GoesOn (fun before a ↦ failed a → μ (before.rtakeWhile failed ++ [a]) ≤ m) answers ↔
      ∀ block, block <:+: answers → block ≠ [] → (∀ a ∈ block, failed a) → μ block ≤ m := by
  constructor
  · intro h block hblock hne hfailed
    obtain ⟨before, after, heq⟩ := hblock
    obtain ⟨block, a, rfl⟩ := (List.eq_nil_or_concat' block).resolve_left hne
    have hlast : failed a := hfailed a (List.mem_append_right _ (List.mem_singleton_self a))
    have hsplit : answers = (before ++ block) ++ a :: after := by
      rw [← heq]
      simp
    have hsuffix : block <:+ (before ++ block).rtakeWhile failed :=
      suffix_rtakeWhile (List.suffix_append _ _) fun b hb ↦
        hfailed b (List.mem_append_left _ hb)
    refine (hmono _ _ ?_ ?_ ?_).trans (h _ a after hsplit hlast)
    · obtain ⟨first, hfirst⟩ := List.rtakeWhile_suffix failed (before ++ block)
      refine ⟨first, after, ?_⟩
      rw [← List.append_assoc, hfirst, hsplit, List.append_assoc, List.singleton_append]
    · obtain ⟨first, hfirst⟩ := hsuffix
      exact ⟨first, by rw [← hfirst, List.append_assoc]⟩
    · exact hne
  · rintro h before a after rfl ha
    apply h
    · obtain ⟨first, hfirst⟩ := List.rtakeWhile_suffix failed before
      refine ⟨first, after, ?_⟩
      rw [← List.append_assoc, hfirst, List.append_assoc, List.singleton_append]
    · exact List.append_ne_nil_of_right_ne_nil _ (List.cons_ne_nil _ _)
    · intro b hb
      rcases List.mem_append.mp hb with hb | hb
      · exact List.mem_rtakeWhile_imp hb
      · rwa [List.mem_singleton.mp hb]

end Outages

end Kit
