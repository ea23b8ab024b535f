import VectorDbBenchmark.Kit.Formula
import VectorDbBenchmark.Kit.Text

/-!
# Reading queries with a stack

The syntax of and/or/not trees in which juxtaposition is conjunction and binds tighter than
`|`, which is disjunction, a minus negates the item behind it, and parentheses group:

```text
alternatives := sequence ('|' sequence)*
sequence     := item item*
item         := '-' item | '(' alternatives ')' | leaf
```

A text is read character by character, with a stack of the groups that are open.  A leaf is
read by a machine of its own, which is a parameter.  What an item, and what stands between
parentheses, is read as is composed from what its parts are read as.
-/

namespace Kit

namespace QuerySyntax

universe u v

variable {L : Type u} {σ : Type v}

/-- How a leaf is read behind its first character; after its last one it is there. -/
structure LeafMachine (L : Type u) (σ : Type v) where
  start : Char
  init : σ
  step : σ → Char → Option (σ ⊕ L)

/-- A group that is open: its finished alternatives, and the sequence that is being read. -/
structure Frame (L : Type u) where
  alternatives : List (Formula L) := []
  items : List (Formula L) := []
  /-- There is a minus in front of the next item. -/
  negated : Bool := false

namespace Frame

/-- The group with one more item. -/
def push (f : Frame L) (t : Formula L) : Frame L :=
  { f with items := f.items ++ [if f.negated then .not t else t], negated := false }

theorem push_of_not_negated {f : Frame L} (h : f.negated = false) (t : Formula L) :
    f.push t = { f with items := f.items ++ [t] } := by
  obtain ⟨alternatives, items, negated⟩ := f
  cases h
  rfl

/-- The group at the end of a sequence, which has an item. -/
def bar (f : Frame L) : Option (Frame L) :=
  if f.items.isEmpty || f.negated then none
  else some { alternatives := f.alternatives ++ [.all f.items] }

/-- What the group is read as at its end. -/
def close (f : Frame L) : Option (Formula L) := f.bar.map fun f ↦ .any f.alternatives

end Frame

structure State (L : Type u) (σ : Type v) where
  /-- The groups around the innermost one, from inside out. -/
  outer : List (Frame L) := []
  frame : Frame L := {}
  /-- The leaf that is being read. -/
  leaf : Option σ := none

variable (m : LeafMachine L σ)

/-- One character between leaves. -/
def stepBetween (s : State L σ) (c : Char) : Option (State L σ) :=
  if c = ' ' then some s
  else if c = '(' then some { s with outer := s.frame :: s.outer, frame := {} }
  else if c = ')' then
    match s.outer with
    | [] => none
    | f :: fs => s.frame.close.map fun t ↦ { s with outer := fs, frame := f.push t }
  else if c = '|' then s.frame.bar.map fun f ↦ { s with frame := f }
  else if c = '-' then some { s with frame := { s.frame with negated := !s.frame.negated } }
  else if c = m.start then some { s with leaf := some m.init }
  else none

/-- One character. -/
def step (s : State L σ) (c : Char) : Option (State L σ) :=
  match s.leaf with
  | none => stepBetween m s c
  | some st => (m.step st c).map fun
    | .inl st' => { s with leaf := some st' }
    | .inr l => { s with leaf := none, frame := s.frame.push (.leaf l) }

/-- A whole query. -/
def parse (t : Text) : Option (Formula L) :=
  (t.foldlM (step m) {}).bind fun s ↦
    if s.outer.isEmpty && s.leaf.isNone then s.frame.close else none

/-! ## What a text is read as -/

/-- The text is read as one more item of the innermost group. -/
def IsItem (t : Text) (T : Formula L) : Prop :=
  ∀ s : State L σ, s.leaf = none →
    t.foldlM (step m) s = some { s with frame := s.frame.push T }

/-- The text is all that stands in a group. -/
def Fills (t : Text) (T : Formula L) : Prop :=
  ∀ s : State L σ, s.leaf = none → s.frame = {} →
    ∃ f, t.foldlM (step m) s = some { s with frame := f } ∧ f.close = some T

variable {m}

theorem step_between {s : State L σ} (h : s.leaf = none) (c : Char) :
    step m s c = stepBetween m s c := by
  rw [step, h]

theorem parse_of_fills {t : Text} {T : Formula L} (h : Fills m t T) : parse m t = some T := by
  obtain ⟨f, hrun, hclose⟩ := h {} rfl rfl
  rw [parse, hrun]
  exact hclose

/-- A group in parentheses is an item. -/
theorem Fills.isItem {t : Text} {T : Formula L} (h : Fills m t T) :
    IsItem m ('(' :: (t ++ [')'])) T := by
  intro s hs
  obtain ⟨f, hrun, hclose⟩ := h { s with outer := s.frame :: s.outer, frame := {} } hs rfl
  have hopen : step m s '(' = some { s with outer := s.frame :: s.outer, frame := {} } := by
    rw [step_between hs]
    rfl
  have hshut : step m { s with outer := s.frame :: s.outer, frame := f } ')' =
      some { s with frame := s.frame.push T } := by
    rw [step_between (by exact hs)]
    show (f.close.map fun t ↦ _) = _
    rw [hclose]
    rfl
  rw [List.foldlM_cons, hopen, Option.bind_eq_bind, Option.bind_some, List.foldlM_append, hrun,
    Option.bind_eq_bind, Option.bind_some, List.foldlM_cons, hshut]
  rfl

theorem foldlM_blank {s : State L σ} (hs : s.leaf = none) (t : Text) :
    (' ' :: t).foldlM (step m) s = t.foldlM (step m) s := by
  rw [List.foldlM_cons, step_between hs]
  rfl

/-! ## Sequences -/

variable (m) in
/-- The text is read as items, of which there is one at least. -/
structure IsSequence (t : Text) (Ts : List (Formula L)) : Prop where
  ne_nil : Ts ≠ []
  run : ∀ s : State L σ, s.leaf = none → s.frame.negated = false →
    t.foldlM (step m) s = some { s with frame := { s.frame with items := s.frame.items ++ Ts } }

theorem IsItem.isSequence {t : Text} {T : Formula L} (h : IsItem m t T) : IsSequence m t [T] where
  ne_nil := List.cons_ne_nil _ _
  run s hs hminus := by rw [h s hs, Frame.push_of_not_negated hminus]

/-- An item behind a minus. -/
theorem IsItem.minus {t : Text} {T : Formula L} (h : IsItem m t T) :
    IsSequence m ('-' :: t) [.not T] where
  ne_nil := List.cons_ne_nil _ _
  run s hs hminus := by
    have hstep : step m s '-' = some { s with frame := { s.frame with negated := true } } := by
      rw [step_between hs]
      show some { s with frame := { s.frame with negated := !s.frame.negated } } = _
      rw [hminus]
      rfl
    rw [List.foldlM_cons, hstep, Option.bind_eq_bind, Option.bind_some, h _ (by exact hs)]
    obtain ⟨outer, ⟨alternatives, items, negated⟩, leaf⟩ := s
    cases hminus
    rfl

theorem IsSequence.append {t u : Text} {Ts Us : List (Formula L)} (h : IsSequence m t Ts)
    (h' : IsSequence m u Us) : IsSequence m (t ++ ' ' :: u) (Ts ++ Us) where
  ne_nil hnil := h.ne_nil (List.append_eq_nil_iff.mp hnil).1
  run s hs hminus := by
    rw [List.foldlM_append, h.run s hs hminus, Option.bind_eq_bind, Option.bind_some,
      foldlM_blank (by exact hs), h'.run _ (by exact hs) (by exact hminus)]
    simp only [List.append_assoc]

/-- Sequences with blanks between them are one. -/
theorem isSequence_intercalate {ts : List Text} {Tss : List (List (Formula L))}
    (h : List.Forall₂ (IsSequence m) ts Tss) (hne : ts ≠ []) :
    IsSequence m ([' '].intercalate ts) Tss.flatten := by
  induction h with
  | nil => exact absurd rfl hne
  | @cons t Ts ts Tss ht hts ih =>
      rw [List.flatten_cons]
      cases hts with
      | nil =>
          rw [List.intercalate_singleton, List.flatten_nil, List.append_nil]
          exact ht
      | cons ht' hts =>
          have hmore := ht.append (ih (List.cons_ne_nil _ _))
          rwa [List.intercalate_cons_cons, List.append_assoc]

/-- A sequence fills a group. -/
theorem IsSequence.fills {t : Text} {Ts : List (Formula L)} (h : IsSequence m t Ts) :
    Fills m t (.any [.all Ts]) := by
  intro s hs hframe
  refine ⟨_, h.run s hs (by rw [hframe]), ?_⟩
  have hempty : Ts.isEmpty = false := List.isEmpty_eq_false_iff.mpr h.ne_nil
  rw [hframe, Frame.close, Frame.bar, List.nil_append, hempty]
  rfl

/-- Items with blanks between them fill a group. -/
theorem fills_items {ts : List Text} {Ts : List (Formula L)} (h : List.Forall₂ (IsItem m) ts Ts)
    (hne : ts ≠ []) : Fills m ([' '].intercalate ts) (.any [.all Ts]) := by
  have hsequences : List.Forall₂ (IsSequence m) ts (Ts.map ([·])) :=
    List.forall₂_map_right_iff.mpr (h.imp fun _ _ ht ↦ ht.isSequence)
  have hfills := (isSequence_intercalate hsequences hne).fills
  rwa [← List.flatMap_def, List.flatMap_singleton'] at hfills

theorem foldlM_alternatives {t : Text} {Ts : List (Formula L)} {ts : List Text}
    {Tss : List (List (Formula L))} (ht : IsSequence m t Ts)
    (h : List.Forall₂ (IsSequence m) ts Tss) {s : State L σ} (hs : s.leaf = none)
    (hitems : s.frame.items = []) (hminus : s.frame.negated = false) :
    ∃ f, ([' ', '|', ' '].intercalate (t :: ts)).foldlM (step m) s = some { s with frame := f } ∧
      f.close = some (.any (s.frame.alternatives ++ (Ts :: Tss).map .all)) := by
  have hempty : Ts.isEmpty = false := List.isEmpty_eq_false_iff.mpr ht.ne_nil
  have hread := ht.run s hs hminus
  rw [hitems, List.nil_append] at hread
  induction h generalizing s t Ts with
  | nil =>
      refine ⟨_, by rw [List.intercalate_singleton]; exact hread, ?_⟩
      rw [Frame.close, Frame.bar, hminus, hempty]
      rfl
  | @cons t' Ts' ts Tss ht' _ ih =>
      have hbar : step m { s with frame := { s.frame with items := Ts } } '|' =
          some { s with frame := { alternatives := s.frame.alternatives ++ [.all Ts] } } := by
        rw [step_between (by exact hs)]
        show (Frame.bar { s.frame with items := Ts }).map _ = _
        rw [Frame.bar, hminus, hempty]
        rfl
      obtain ⟨f, hf, hclose⟩ := ih ht' (s := { s with
        frame := { alternatives := s.frame.alternatives ++ [.all Ts] } }) hs rfl rfl
        (List.isEmpty_eq_false_iff.mpr ht'.ne_nil) (ht'.run _ hs rfl)
      refine ⟨f, ?_, ?_⟩
      · rw [List.intercalate_cons_cons, List.append_assoc, List.foldlM_append, hread,
          Option.bind_eq_bind, Option.bind_some, List.cons_append, foldlM_blank (by exact hs),
          List.cons_append, List.foldlM_cons, hbar, Option.bind_eq_bind, Option.bind_some,
          List.singleton_append, foldlM_blank (by exact hs)]
        exact hf
      · rw [hclose, List.append_assoc]
        rfl

/-- Sequences with bars between them fill a group. -/
theorem fills_alternatives {ts : List Text} {Tss : List (List (Formula L))}
    (h : List.Forall₂ (IsSequence m) ts Tss) (hne : ts ≠ []) :
    Fills m ([' ', '|', ' '].intercalate ts) (.any (Tss.map .all)) := by
  intro s hs hframe
  cases h with
  | nil => exact absurd rfl hne
  | cons ht hts =>
      obtain ⟨f, hf, hclose⟩ := foldlM_alternatives ht hts hs (by rw [hframe]) (by rw [hframe])
      refine ⟨f, hf, ?_⟩
      rw [hclose, hframe, List.nil_append]

/-- Items with bars between them fill a group. -/
theorem fills_bars {ts : List Text} {Ts : List (Formula L)} (h : List.Forall₂ (IsItem m) ts Ts)
    (hne : ts ≠ []) :
    Fills m ([' ', '|', ' '].intercalate ts) (.any (Ts.map fun T ↦ .all [T])) := by
  have hsequences : List.Forall₂ (IsSequence m) ts (Ts.map ([·])) :=
    List.forall₂_map_right_iff.mpr (h.imp fun _ _ ht ↦ ht.isSequence)
  have hfills := fills_alternatives hsequences hne
  rwa [List.map_map] at hfills

/-- A single item fills a group. -/
theorem IsItem.fills {t : Text} {T : Formula L} (h : IsItem m t T) : Fills m t (.any [.all [T]]) :=
  h.isSequence.fills

/-! ## Leaves -/

variable (m) in
/-- What a leaf is read as whose last character is the last of the text. -/
def readLeaf : σ → Text → Option L
  | _, [] => none
  | st, c :: t =>
    match m.step st c with
    | none => none
    | some (.inl st') => readLeaf st' t
    | some (.inr l) => if t = [] then some l else none

theorem foldlM_leaf {st : σ} {t : Text} {l : L} (h : readLeaf m st t = some l) (s : State L σ) :
    t.foldlM (step m) { s with leaf := some st } =
      some { s with leaf := none, frame := s.frame.push (.leaf l) } := by
  induction t generalizing st with
  | nil => cases h
  | cons c t ih =>
      rw [readLeaf] at h
      have hstep : step m { s with leaf := some st } c = (m.step st c).map fun
          | .inl st' => { s with leaf := some st' }
          | .inr l => { s with leaf := none, frame := s.frame.push (.leaf l) } := rfl
      rw [List.foldlM_cons, hstep]
      split at h
      · cases h
      · next st' hst =>
          rw [hst]
          exact ih h
      · next l' hst =>
          split_ifs at h with ht
          cases h
          rw [hst, ht]
          rfl

/-- Characters that are collected one after another. -/
theorem readLeaf_collect {st : Text → σ} {t : Text}
    (h : ∀ c ∈ t, ∀ read, m.step (st read) c = some (.inl (st (read ++ [c])))) (read rest : Text) :
    readLeaf m (st read) (t ++ rest) = readLeaf m (st (read ++ t)) rest := by
  induction t generalizing read with
  | nil => rw [List.nil_append, List.append_nil]
  | cons c t ih =>
      rw [List.forall_mem_cons] at h
      rw [List.cons_append, readLeaf, h.1]
      dsimp only
      rw [ih h.2, List.append_assoc, List.singleton_append]

/-- No character of the syntax starts a leaf. -/
def StartOk (m : LeafMachine L σ) : Prop := m.start ∉ [' ', '(', ')', '|', '-']

/-- A leaf is an item. -/
theorem isItem_leaf (hstart : StartOk m) {t : Text} {l : L}
    (h : readLeaf m m.init t = some l) : IsItem m (m.start :: t) (.leaf l) := by
  intro s hs
  rw [StartOk] at hstart
  simp only [List.mem_cons, List.not_mem_nil, or_false, not_or] at hstart
  have hopen : step m s m.start = some { s with leaf := some m.init } := by
    rw [step_between hs, stepBetween, if_neg hstart.1, if_neg hstart.2.1, if_neg hstart.2.2.1,
      if_neg hstart.2.2.2.1, if_neg hstart.2.2.2.2, if_pos rfl]
  rw [List.foldlM_cons, hopen, Option.bind_eq_bind, Option.bind_some, foldlM_leaf h, ← hs]

end QuerySyntax

end Kit
