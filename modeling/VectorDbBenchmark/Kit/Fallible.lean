import Mathlib.Data.List.Basic
import Mathlib.Data.List.Forall2
import Mathlib.Tactic

/-!
# Computations that stop at the first error

Inversion and introduction rules for `Except`: what a bind that returned `ok`
went through, and when a loop `xs.mapM f` returns `ok`.

Whether a computation fails does not depend on the order of its steps, so a loop over results
that were collected first is one loop, and a loop over rows of a loop over columns is a loop
over columns.  These rules are for `Option`; `toOption` brings a loop that reports its error to
this form.
-/

namespace Kit

universe u v w

section Steps

variable {ε : Type u} {α β : Type v} {γ : Type w}

/-- A bind returned `ok` exactly when both stages did. -/
theorem bind_eq_ok {x : Except ε α} {f : α → Except ε β} {b : β} :
    (x >>= f) = .ok b ↔ ∃ a, x = .ok a ∧ f a = .ok b := by
  cases x with
  | error e => simp [bind, Except.bind]
  | ok a => simp [bind, Except.bind]

@[simp] theorem ok_bind (a : α) (f : α → Except ε β) : (Except.ok a >>= f) = f a := rfl

@[simp] theorem error_bind (e : ε) (f : α → Except ε β) :
    (Except.error e >>= f) = .error e := rfl

@[simp] theorem mapError_eq_ok {δ : Type w} {x : Except ε α} {f : ε → δ} {a : α} :
    x.mapError f = .ok a ↔ x = .ok a := by
  cases x <;> simp [Except.mapError]

@[simp] theorem toOption_eq_some {x : Except ε α} {a : α} : x.toOption = some a ↔ x = .ok a := by
  cases x <;> simp [Except.toOption]

@[simp] theorem map_eq_ok {x : Except ε α} {f : α → β} {b : β} :
    x.map f = .ok b ↔ ∃ a, x = .ok a ∧ f a = b := by
  cases x <;> simp [Except.map]

/-- A loop that stops at the first error returned `ok` exactly when every
round did, and then it returns the rounds' values in order. -/
theorem mapM_eq_ok {f : γ → Except ε β} {xs : List γ} {ys : List β} :
    xs.mapM f = .ok ys ↔ List.Forall₂ (fun x y ↦ f x = .ok y) xs ys := by
  induction xs generalizing ys with
  | nil =>
      rw [List.mapM_nil, List.forall₂_nil_left_iff]
      exact ⟨fun h ↦ (Except.ok.inj h).symm, fun h ↦ congrArg Except.ok h.symm⟩
  | cons x xs ih =>
      rw [List.mapM_cons, bind_eq_ok, List.forall₂_cons_left_iff]
      constructor
      · rintro ⟨y, hy, h⟩
        obtain ⟨ys', hys, h⟩ := bind_eq_ok.mp h
        exact ⟨y, ys', hy, ih.mp hys, (Except.ok.inj h).symm⟩
      · rintro ⟨y, ys', hy, hys, rfl⟩
        exact ⟨y, hy, bind_eq_ok.mpr ⟨ys', ih.mpr hys, rfl⟩⟩

/-- A loop for its errors alone. -/
theorem forM_eq_ok {f : γ → Except ε PUnit.{v + 1}} {xs : List γ} :
    xs.forM f = .ok ⟨⟩ ↔ ∀ x ∈ xs, f x = .ok ⟨⟩ := by
  induction xs with
  | nil => exact ⟨fun _ x hx ↦ absurd hx List.not_mem_nil, fun _ ↦ rfl⟩
  | cons x xs ih =>
      rw [List.forM_eq_forM, List.forM_cons, ← List.forM_eq_forM, bind_eq_ok,
        List.forall_mem_cons]
      constructor
      · rintro ⟨⟨⟩, hx, h⟩
        exact ⟨hx, ih.mp h⟩
      · rintro ⟨hx, h⟩
        exact ⟨⟨⟩, hx, ih.mpr h⟩

theorem forall₂_eq_map {f : γ → β} {xs : List γ} {ys : List β} :
    List.Forall₂ (fun x y ↦ y = f x) xs ys ↔ ys = xs.map f := by
  rw [← List.forall₂_eq_eq_eq, List.forall₂_map_right_iff]
  exact ⟨List.Forall₂.flip, List.Forall₂.flip⟩

/-- The values of a loop that returned are the rounds' values. -/
theorem exists_map_of_mapM_eq_ok [Nonempty β] {f : γ → Except ε β} {xs : List γ} {ys : List β}
    (h : xs.mapM f = .ok ys) : ∃ g : γ → β, (∀ x ∈ xs, f x = .ok (g x)) ∧ ys = xs.map g := by
  classical
  obtain ⟨b⟩ := ‹Nonempty β›
  let g : γ → β := fun x ↦ match f x with
    | .ok y => y
    | .error _ => b
  have hg : ∀ x y, f x = .ok y → g x = y := fun x y hxy ↦ by simp only [g, hxy]
  have hys : ys = xs.map g :=
    forall₂_eq_map.mp ((mapM_eq_ok.mp h).imp fun x y hxy ↦ (hg x y hxy).symm)
  have hround := mapM_eq_ok.mp h
  rw [hys, List.forall₂_map_right_iff, List.forall₂_same] at hround
  exact ⟨g, hround, hys⟩

/-- A counted loop whose round `i` returns the `i`-th element returns the list. -/
theorem mapM_range_eq_ok {f : Nat → Except ε β} {ys : List β}
    (h : ∀ i (hi : i < ys.length), f i = .ok ys[i]) :
    (List.range ys.length).mapM f = .ok ys := by
  rw [mapM_eq_ok, List.forall₂_iff_get]
  refine ⟨List.length_range, fun i hi hi' ↦ ?_⟩
  rw [List.get_eq_getElem, List.getElem_range]
  exact h i hi'

/-- What no round does, the loop does not do. -/
theorem mapM_eq_error {f : γ → Except ε β} {xs : List γ} {e : ε} (h : xs.mapM f = .error e) :
    ∃ x ∈ xs, f x = .error e := by
  induction xs with
  | nil => cases h
  | cons x xs ih =>
      rw [List.mapM_cons] at h
      cases hx : f x with
      | error e' =>
          rw [hx] at h
          cases h
          exact ⟨x, List.mem_cons_self, hx⟩
      | ok y =>
          rw [hx, ok_bind] at h
          cases hxs : xs.mapM f with
          | error e' =>
              rw [hxs] at h
              cases h
              obtain ⟨x', hx', hfx'⟩ := ih hxs
              exact ⟨x', List.mem_cons_of_mem x hx', hfx'⟩
          | ok ys =>
              rw [hxs] at h
              cases h

/-- A loop whose rounds succeed on the same elements in every state. -/
theorem foldlM_ok_iff {f : β → γ → Except ε β} {P : γ → Prop} {xs : List γ}
    (h : ∀ b x, (∃ c, f b x = .ok c) ↔ P x) (b : β) :
    (∃ c, xs.foldlM f b = .ok c) ↔ ∀ x ∈ xs, P x := by
  induction xs generalizing b with
  | nil => exact iff_of_true ⟨b, rfl⟩ fun x hx ↦ absurd hx List.not_mem_nil
  | cons x xs ih =>
      rw [List.foldlM_cons, List.forall_mem_cons, ← h b x]
      cases hx : f b x with
      | error e =>
          apply iff_of_false
          · rintro ⟨c, hc⟩
            cases hc
          · rintro ⟨⟨c, hc⟩, -⟩
            cases hc
      | ok c =>
          rw [ok_bind, ih c]
          exact (and_iff_right ⟨c, rfl⟩).symm

/-- Every round of a loop that returned `ok` did so, in some state. -/
theorem exists_round_of_foldlM {f : β → γ → Except ε β} {xs : List γ} {b c : β}
    (h : xs.foldlM f b = .ok c) : ∀ x ∈ xs, ∃ b' c', f b' x = .ok c' := by
  induction xs generalizing b with
  | nil => exact fun x hx ↦ absurd hx List.not_mem_nil
  | cons x xs ih =>
      rw [List.foldlM_cons] at h
      obtain ⟨b', hx, h⟩ := bind_eq_ok.mp h
      rw [List.forall_mem_cons]
      exact ⟨⟨b, b', hx⟩, ih h⟩

/-- What each round keeps of the elements so far holds of all of them in the end. -/
theorem foldlM_prefix_induction {f : β → γ → Except ε β} {P : List γ → β → Prop}
    (hstep : ∀ done b x b', P done b → f b x = .ok b' → P (done ++ [x]) b') {xs done : List γ}
    {b c : β} (hb : P done b) (h : xs.foldlM f b = .ok c) : P (done ++ xs) c := by
  induction xs generalizing done b with
  | nil =>
      cases h
      rwa [List.append_nil]
  | cons x xs ih =>
      rw [List.foldlM_cons] at h
      obtain ⟨b', hx, h⟩ := bind_eq_ok.mp h
      rw [← List.singleton_append, ← List.append_assoc]
      exact ih (hstep done b x b' hb hx) h

/-- A loop whose rounds succeed in the states that they lead to. -/
theorem foldlM_ok_of_inv {f : β → γ → Except ε β} {P : β → Prop} {xs : List γ}
    (hstep : ∀ b, P b → ∀ x ∈ xs, ∃ c, f b x = .ok c ∧ P c) {b : β} (hb : P b) :
    ∃ c, xs.foldlM f b = .ok c ∧ P c := by
  induction xs generalizing b with
  | nil => exact ⟨b, rfl, hb⟩
  | cons x xs ih =>
      obtain ⟨b', hx, hb'⟩ := hstep b hb x List.mem_cons_self
      rw [List.foldlM_cons, hx, ok_bind]
      exact ih (fun b hb y hy ↦ hstep b hb y (List.mem_cons_of_mem x hy)) hb'

theorem length_of_mapM_eq_some {f : γ → Option β} {xs : List γ} {ys : List β}
    (h : xs.mapM f = some ys) : ys.length = xs.length := by
  induction xs generalizing ys with
  | nil =>
      cases h
      rfl
  | cons x xs ih =>
      rw [List.mapM_cons] at h
      obtain ⟨y, -, h⟩ := Option.bind_eq_some_iff.mp h
      obtain ⟨ys', hys, h⟩ := Option.bind_eq_some_iff.mp h
      cases h
      rw [List.length_cons, List.length_cons, ih hys]

/-- Each value is that of its own round. -/
theorem getElem?_of_mapM_eq_some {f : γ → Option β} {xs : List γ} {ys : List β}
    (h : xs.mapM f = some ys) (i : ℕ) : ys[i]? = xs[i]?.bind f := by
  induction xs generalizing ys i with
  | nil =>
      cases h
      rfl
  | cons x xs ih =>
      rw [List.mapM_cons] at h
      obtain ⟨y, hy, h⟩ := Option.bind_eq_some_iff.mp h
      obtain ⟨ys', hys, h⟩ := Option.bind_eq_some_iff.mp h
      cases h
      cases i with
      | zero => exact hy.symm
      | succ i => exact ih hys i

/-! ## Panics -/

/-- The code panicked, which stands as an error whose text says so. -/
def Panics (x : Except String α) : Prop := ∃ what, x = .error ("panic: " ++ what)

theorem not_panics_ok (a : α) : ¬ Panics (Except.ok a : Except String α) := by
  rintro ⟨what, h⟩
  cases h

/-- An error that the code returns starts otherwise. -/
theorem not_panics_error {e : String} (h : e.toList.head? ≠ some 'p') :
    ¬ Panics (Except.error e : Except String α) := by
  rintro ⟨what, herror⟩
  cases herror
  refine h ?_
  rw [String.toList_append]
  rfl

/-- An error that is passed on is the same error. -/
theorem not_panics_of_error {e : String} (h : ¬ Panics (Except.error e : Except String α)) :
    ¬ Panics (Except.error e : Except String β) := by
  rintro ⟨what, herror⟩
  cases herror
  exact h ⟨what, rfl⟩

theorem not_panics_map {x : Except String α} {f : α → β} (h : ¬ Panics x) :
    ¬ Panics (x.map f) := by
  cases x with
  | error e => exact not_panics_of_error h
  | ok a => exact not_panics_ok _

theorem not_panics_bind {x : Except String α} {f : α → Except String β} (hx : ¬ Panics x)
    (hf : ∀ a, x = .ok a → ¬ Panics (f a)) : ¬ Panics (x >>= f) := by
  cases x with
  | error e => exact fun ⟨what, h⟩ ↦ hx ⟨what, by cases h; rfl⟩
  | ok a => exact hf a rfl

theorem not_panics_mapM {f : γ → Except String β} {xs : List γ} (h : ∀ x ∈ xs, ¬ Panics (f x)) :
    ¬ Panics (xs.mapM f) := by
  rintro ⟨what, herror⟩
  obtain ⟨x, hx, hfx⟩ := mapM_eq_error herror
  exact h x hx ⟨what, hfx⟩

end Steps

/-! ## Loops, fused and interchanged -/

section ToOption

variable {ε α β σ : Type u}

@[simp] theorem toOption_ok (a : α) : (Except.ok a : Except ε α).toOption = some a := rfl

@[simp] theorem toOption_error (e : ε) : (Except.error e : Except ε α).toOption = none := rfl

theorem toOption_bind (x : Except ε α) (f : α → Except ε β) :
    (x >>= f).toOption = x.toOption >>= fun a ↦ (f a).toOption := by
  cases x <;> rfl

theorem toOption_mapError {δ : Type u} (x : Except ε α) (f : ε → δ) :
    (x.mapError f).toOption = x.toOption := by
  cases x <;> rfl

theorem toOption_map (x : Except ε α) (f : α → β) : (x.map f).toOption = x.toOption.map f := by
  cases x <;> rfl

theorem toOption_mapM (f : α → Except ε β) (xs : List α) :
    (xs.mapM f).toOption = xs.mapM fun x ↦ (f x).toOption := by
  induction xs with
  | nil => rfl
  | cons x xs ih =>
      rw [List.mapM_cons, List.mapM_cons, toOption_bind]
      refine bind_congr fun y ↦ ?_
      rw [toOption_bind, ih]
      rfl

theorem toOption_foldlM (f : σ → α → Except ε σ) (xs : List α) (s : σ) :
    (xs.foldlM f s).toOption = xs.foldlM (fun s x ↦ (f s x).toOption) s := by
  induction xs generalizing s with
  | nil => rfl
  | cons x xs ih =>
      rw [List.foldlM_cons, List.foldlM_cons, toOption_bind]
      exact bind_congr fun s' ↦ ih s'

end ToOption

variable {α β γ δ σ : Type u}

@[simp] theorem some_bind (a : α) (f : α → Option β) : (some a >>= f) = f a := rfl

theorem mapM_congr_of_mem {f g : α → Option β} {xs : List α} (h : ∀ x ∈ xs, f x = g x) :
    xs.mapM f = xs.mapM g := by
  induction xs with
  | nil => rfl
  | cons x xs ih =>
      obtain ⟨hx, hxs⟩ := List.forall_mem_cons.mp h
      rw [List.mapM_cons, List.mapM_cons, hx, ih hxs]

/-- A loop whose results are read off those of another. -/
theorem mapM_eq_some_map {f : α → Option β} {g : α → Option γ} {k : β → γ} {xs : List α}
    {ys : List β} (h : xs.mapM f = some ys) (hg : ∀ x ∈ xs, ∀ y, f x = some y → g x = some (k y)) :
    xs.mapM g = some (ys.map k) := by
  induction xs generalizing ys with
  | nil =>
      cases h
      rfl
  | cons x xs ih =>
      rw [List.mapM_cons] at h
      obtain ⟨y, hy, h⟩ := Option.bind_eq_some_iff.mp h
      obtain ⟨ys', hys, h⟩ := Option.bind_eq_some_iff.mp h
      cases h
      obtain ⟨hx, hxs⟩ := List.forall_mem_cons.mp hg
      rw [List.mapM_cons, hx y hy, ih hys hxs]
      rfl

/-- Loops that agree as long as an invariant holds. -/
theorem foldlM_congr_of_inv {f g : σ → α → Option σ} (Inv : σ → Prop) {xs : List α}
    (h : ∀ x ∈ xs, ∀ s, Inv s → f s x = g s x ∧ ∀ s', g s x = some s' → Inv s') {s : σ}
    (hs : Inv s) : xs.foldlM f s = xs.foldlM g s := by
  induction xs generalizing s with
  | nil => rfl
  | cons x xs ih =>
      obtain ⟨hx, hxs⟩ := List.forall_mem_cons.mp h
      obtain ⟨hfg, hinv⟩ := hx s hs
      rw [List.foldlM_cons, List.foldlM_cons, hfg]
      cases hg : g s x with
      | none => rfl
      | some s' => exact ih hxs (hinv s' hg)

/-! ## A loop over collected results -/

/-- Results that are numbered from `k` on, as what they are computed from is. -/
theorem mapM_bind_foldlM_zipIdx (f : α × ℕ → Option β) (g : σ → β × ℕ → Option σ) (xs : List α)
    (k : ℕ) (s : σ) :
    ((xs.zipIdx k).mapM f >>= fun ys ↦ (ys.zipIdx k).foldlM g s) =
      (xs.zipIdx k).foldlM (fun s x ↦ f x >>= fun y ↦ g s (y, x.2)) s := by
  induction xs generalizing s k with
  | nil => rfl
  | cons x xs ih =>
      rw [List.zipIdx_cons, List.mapM_cons, List.foldlM_cons]
      cases f (x, k) with
      | none => rfl
      | some y =>
          cases hg : g s (y, k) with
          | none =>
              cases hxs : (xs.zipIdx (k + 1)).mapM f with
              | none => simp [hg]
              | some ys => simp [hg]
          | some s' =>
              have hrest := ih (k + 1) s'
              cases hxs : (xs.zipIdx (k + 1)).mapM f with
              | none =>
                  rw [hxs] at hrest
                  simpa [hg] using hrest
              | some ys =>
                  rw [hxs] at hrest
                  simpa [hg] using hrest

/-- Results that do not depend on the numbers. -/
theorem mapM_bind_foldlM_fst (f : α → Option β) (g : σ → β × ℕ → Option σ) (xs : List α) (s : σ) :
    (xs.mapM f >>= fun ys ↦ ys.zipIdx.foldlM g s) =
      xs.zipIdx.foldlM (fun s x ↦ f x.1 >>= fun y ↦ g s (y, x.2)) s := by
  have hfst : xs.zipIdx.mapM (fun x ↦ f x.1) = xs.mapM f := by
    conv_rhs => rw [← List.zipIdx_map_fst 0 xs, List.mapM_map]
    rfl
  rw [← mapM_bind_foldlM_zipIdx, hfst]

/-- The same without the numbers. -/
theorem mapM_bind_foldlM (f : α → Option β) (g : σ → β → Option σ) (xs : List α) (s : σ) :
    (xs.mapM f >>= fun ys ↦ ys.foldlM g s) = xs.foldlM (fun s x ↦ f x >>= g s) s := by
  have hfst : ∀ {δ : Type u} (ys : List δ) (h : σ → δ → Option σ),
      ys.zipIdx.foldlM (fun s y ↦ h s y.1) s = ys.foldlM h s := by
    intro δ ys h
    rw [← List.foldlM_map, List.zipIdx_map_fst]
  have hnumbered := mapM_bind_foldlM_fst f (fun s y ↦ g s y.1) xs s
  simp only [hfst] at hnumbered
  rw [hnumbered, ← hfst xs]

/-! ## Loops over pairs -/

/-- Both members of a pair are used up one after the other. -/
theorem mapM_zip_bind (f : α → Option β) (g : β → γ → Option δ) {xs : List α} {zs : List γ}
    (h : xs.length = zs.length) :
    (xs.mapM f >>= fun ys ↦ (ys.zip zs).mapM fun q ↦ g q.1 q.2) =
      (xs.zip zs).mapM fun q ↦ f q.1 >>= fun y ↦ g y q.2 := by
  induction xs generalizing zs with
  | nil => rfl
  | cons x xs ih =>
      cases zs with
      | nil => cases h
      | cons z zs =>
          have hrest := ih (Nat.succ.inj h)
          rw [List.mapM_cons, List.zip_cons_cons, List.mapM_cons, ← hrest]
          cases f x with
          | none => simp
          | some y =>
              cases hg : g y z with
              | none => cases hxs : xs.mapM f <;> simp [hg]
              | some w => cases hxs : xs.mapM f <;> simp [hg]

theorem mapM_bind_zip (f : α → β → Option γ) (g : α → γ → Option δ) (xs : List α) (ys : List β) :
    ((xs.zip ys).mapM (fun q ↦ f q.1 q.2) >>= fun zs ↦ (xs.zip zs).mapM fun q ↦ g q.1 q.2) =
      (xs.zip ys).mapM fun q ↦ f q.1 q.2 >>= g q.1 := by
  induction xs generalizing ys with
  | nil => rfl
  | cons x xs ih =>
      cases ys with
      | nil => rfl
      | cons y ys =>
          rw [List.zip_cons_cons, List.mapM_cons, List.mapM_cons, ← ih ys]
          cases f x y with
          | none => simp
          | some z =>
              cases hg : g x z with
              | none => cases hrest : (xs.zip ys).mapM (fun q ↦ f q.1 q.2) <;> simp [hg]
              | some w => cases hrest : (xs.zip ys).mapM (fun q ↦ f q.1 q.2) <;> simp [hg]

/-! ## Rows and columns -/

/-- A loop over rows that moves every column is a loop over the columns. -/
theorem foldlM_mapM_comm (step : α → σ → β → Option σ) (ps : List α) (rows : List β) {ms : List σ}
    (h : ps.length = ms.length) :
    rows.foldlM (fun ms x ↦ (ps.zip ms).mapM fun q ↦ step q.1 q.2 x) ms =
      (ps.zip ms).mapM fun q ↦ rows.foldlM (step q.1) q.2 := by
  induction rows generalizing ms with
  | nil =>
      have hsnd : (ps.zip ms).map Prod.snd = ms := List.map_snd_zip h.ge
      have hmap : (ps.zip ms).mapM (fun q ↦ some q.2) = some ((ps.zip ms).map Prod.snd) :=
        List.mapM_pure
      exact (hmap.trans (congrArg some hsnd)).symm
  | cons x rows ih =>
      rw [List.foldlM_cons]
      simp only [List.foldlM_cons]
      rw [← mapM_bind_zip (fun p m ↦ step p m x) fun p m ↦ rows.foldlM (step p) m]
      cases hrow : (ps.zip ms).mapM fun q ↦ step q.1 q.2 x with
      | none => rfl
      | some ms' =>
          refine ih ?_
          rw [length_of_mapM_eq_some hrow, List.length_zip, h, Nat.min_self]

end Kit
