import VectorDbBenchmark.Kit.BoolTree
import VectorDbBenchmark.Kit.Text

/-!
# Juxtaposition, bars and parentheses

The concrete syntax of and/or trees in which juxtaposition is conjunction and binds
tighter than `|`, which is disjunction:

```text
alternatives := sequence ('|' sequence)*
sequence     := item item*
item         := '(' alternatives ')' | leaf
```

The leaves are read by a parameter of the parser.  An expression is rendered with one
blank between two items and around a bar, and a rendered expression is read back as its
tree, when the reader reads its leaves back.

Expressions are joined from parts: sequences one after another with blanks between them, and
sequences as the alternatives of a group, with their text, their leaves, and the normal form of
their trees.
-/

namespace Kit

namespace GroupSyntax

universe u

/-! ## Expressions -/

mutual

/-- A leaf, or alternatives in parentheses. -/
inductive Item (L : Type u) : Type u where
  | leaf (l : L)
  | group (a : Alternatives L)

/-- One item or more. -/
inductive Sequence (L : Type u) : Type u where
  | one (i : Item L)
  | cons (i : Item L) (s : Sequence L)

/-- One sequence or more. -/
inductive Alternatives (L : Type u) : Type u where
  | one (s : Sequence L)
  | cons (s : Sequence L) (a : Alternatives L)

end

variable {L : Type u}

/-- One sequence after another. -/
def Sequence.append : Sequence L → Sequence L → Sequence L
  | .one i, s' => .cons i s'
  | .cons i s, s' => .cons i (s.append s')

mutual

def Item.render (leafText : L → Text) : Item L → Text
  | .leaf l => leafText l
  | .group a => '(' :: (a.render leafText ++ [')'])

def Sequence.render (leafText : L → Text) : Sequence L → Text
  | .one i => i.render leafText
  | .cons i s => i.render leafText ++ ' ' :: s.render leafText

def Alternatives.render (leafText : L → Text) : Alternatives L → Text
  | .one s => s.render leafText
  | .cons s a => s.render leafText ++ ' ' :: '|' :: ' ' :: a.render leafText

end

mutual

/-- The tree an item stands for. -/
def Item.tree : Item L → BoolTree L
  | .leaf l => .leaf l
  | .group a => .collapse .any a.trees

/-- The trees of the items. -/
def Sequence.trees : Sequence L → List (BoolTree L)
  | .one i => [i.tree]
  | .cons i s => i.tree :: s.trees

/-- The trees of the sequences. -/
def Alternatives.trees : Alternatives L → List (BoolTree L)
  | .one s => [.collapse .all s.trees]
  | .cons s a => .collapse .all s.trees :: a.trees

end

/-- The tree a sequence stands for. -/
def Sequence.tree (s : Sequence L) : BoolTree L := .collapse .all s.trees

/-- The tree alternatives stand for. -/
def Alternatives.tree (a : Alternatives L) : BoolTree L := .collapse .any a.trees

mutual

/-- The leaves of an item, from left to right. -/
def Item.leaves : Item L → List L
  | .leaf l => [l]
  | .group a => a.leaves

def Sequence.leaves : Sequence L → List L
  | .one i => i.leaves
  | .cons i s => i.leaves ++ s.leaves

def Alternatives.leaves : Alternatives L → List L
  | .one s => s.leaves
  | .cons s a => s.leaves ++ a.leaves

end

theorem Sequence.render_append (leafText : L → Text) (s s' : Sequence L) :
    (s.append s').render leafText = s.render leafText ++ ' ' :: s'.render leafText := by
  match s with
  | .one i => rw [append, render, render]
  | .cons i s => rw [append, render, render, s.render_append leafText s', List.append_assoc,
      List.cons_append]

theorem Sequence.trees_append (s s' : Sequence L) : (s.append s').trees = s.trees ++ s'.trees := by
  match s with
  | .one i => rw [append, trees, trees, List.singleton_append]
  | .cons i s => rw [append, trees, trees, s.trees_append s', List.cons_append]

theorem Sequence.trees_eq_cons (s : Sequence L) : ∃ t ts, s.trees = t :: ts := by
  cases s with
  | one i => exact ⟨i.tree, [], by rw [trees]⟩
  | cons i s => exact ⟨i.tree, s.trees, by rw [trees]⟩

theorem Sequence.leaves_append (s s' : Sequence L) :
    (s.append s').leaves = s.leaves ++ s'.leaves := by
  match s with
  | .one i => rw [append, leaves, leaves]
  | .cons i s => rw [append, leaves, leaves, s.leaves_append s', List.append_assoc]

/-! ## Reading -/

/-- What is left of a text after the blanks in front. -/
def skipSpaces : Text → Text
  | ' ' :: t => skipSpaces t
  | t => t

theorem length_skipSpaces_le (t : Text) : (skipSpaces t).length ≤ t.length := by
  induction t using skipSpaces.induct with
  | case1 t ih =>
      rw [skipSpaces]
      exact ih.trans (Nat.le_succ _)
  | case2 t h =>
      rw [skipSpaces]
      exact h

theorem skipSpaces_of_head {c : Char} (h : c ≠ ' ') (t : Text) : skipSpaces (c :: t) = c :: t := by
  rw [skipSpaces]
  intro t' ht
  exact h (List.cons.inj ht).1

@[simp] theorem skipSpaces_skipSpaces (t : Text) : skipSpaces (skipSpaces t) = skipSpaces t := by
  induction t using skipSpaces.induct with
  | case1 t ih =>
      rw [skipSpaces]
      exact ih
  | case2 t h =>
      have ht : skipSpaces t = t := by
        rw [skipSpaces]
        exact h
      rw [ht, ht]

/-- Something read off the front of `t` and the rest, which is shorter. -/
abbrev Read (α : Type u) (t : Text) : Type u := { r : α × Text // r.2.length < t.length }

/-- How leaves are read, and the error for a place in the text. -/
structure LeafReader (L : Type u) (ε : Type u) where
  read : (t : Text) → Except ε (Read L t)
  /-- The character a leaf starts with. -/
  start : Char
  error : String → Text → ε

variable {ε : Type u}

/-- A reader from a function that never leaves all of the text. -/
def LeafReader.ofRead (read : Text → Except ε (L × Text))
    (hlt : ∀ {t r}, read t = .ok r → r.2.length < t.length) (start : Char)
    (error : String → Text → ε) : LeafReader L ε where
  read t :=
    match h : read t with
    | .error e => .error e
    | .ok r => .ok ⟨r, hlt h⟩
  start := start
  error := error

variable (r : LeafReader L ε)

mutual

def alternatives (t : Text) : Except ε (Read (BoolTree L) t) :=
  match sequence t with
  | .error e => .error e
  | .ok ⟨(first, t₁), h₁⟩ =>
    have h₁ : t₁.length < t.length := h₁
    match moreAlternatives t₁ with
    | .error e => .error e
    | .ok ⟨(rest, t₂), h₂⟩ =>
      .ok ⟨(.collapse .any (first :: rest), t₂), Nat.lt_of_le_of_lt h₂ h₁⟩
termination_by 4 * t.length + 3

/-- The alternatives behind further bars. -/
def moreAlternatives (t : Text) :
    Except ε { r : List (BoolTree L) × Text // r.2.length ≤ t.length } :=
  match h : skipSpaces t with
  | '|' :: t' =>
    have ht : t'.length < t.length := by
      have := length_skipSpaces_le t
      rw [h, List.length_cons] at this
      omega
    match sequence t' with
    | .error e => .error e
    | .ok ⟨(alt, t₁), h₁⟩ =>
      have h₁ : t₁.length < t.length := Nat.lt_trans h₁ ht
      match moreAlternatives t₁ with
      | .error e => .error e
      | .ok ⟨(rest, t₂), h₂⟩ => .ok ⟨(alt :: rest, t₂), h₂.trans (Nat.le_of_lt h₁)⟩
  | t' => .ok ⟨([], t'), h ▸ length_skipSpaces_le t⟩
termination_by 4 * t.length + 2

def sequence (t : Text) : Except ε (Read (BoolTree L) t) :=
  match items t with
  | .error e => .error e
  | .ok ⟨([], t'), _⟩ => .error (r.error "empty clause" t')
  | .ok ⟨(first :: rest, t'), h⟩ =>
    .ok ⟨(.collapse .all (first :: rest), t'), h.2 (List.cons_ne_nil first rest)⟩
termination_by 4 * t.length + 2

/-- The items up to a bar, a closing parenthesis or the end. -/
def items (t : Text) : Except ε { r : List (BoolTree L) × Text //
    r.2.length ≤ t.length ∧ (r.1 ≠ [] → r.2.length < t.length) } :=
  match h : skipSpaces t with
  | [] => .ok ⟨([], []), Nat.zero_le _, fun h ↦ absurd rfl h⟩
  | c :: t' =>
    have ht : (c :: t').length ≤ t.length := h ▸ length_skipSpaces_le t
    if c = '(' ∨ c = r.start then
      match item c t' with
      | .error e => .error e
      | .ok ⟨(first, t₁), h₁⟩ =>
        have h₁ : t₁.length < t.length := Nat.lt_of_lt_of_le h₁ ht
        match items t₁ with
        | .error e => .error e
        | .ok ⟨(rest, t₂), h₂⟩ =>
          .ok ⟨(first :: rest, t₂), h₂.1.trans (Nat.le_of_lt h₁),
            fun _ ↦ Nat.lt_of_le_of_lt h₂.1 h₁⟩
    else if c = '|' ∨ c = ')' then .ok ⟨([], c :: t'), ht, fun h ↦ absurd rfl h⟩
    else .error (r.error "unexpected token" (c :: t'))
termination_by 4 * t.length + 1

/-- The item in front of `c :: t`. -/
def item (c : Char) (t : Text) : Except ε (Read (BoolTree L) (c :: t)) :=
  if c = '(' then
    match alternatives t with
    | .error e => .error e
    | .ok ⟨(inner, t₁), h₁⟩ =>
      match h : skipSpaces t₁ with
      | ')' :: t₂ =>
        have h₂ : t₂.length < t₁.length := by
          have := length_skipSpaces_le t₁
          rw [h, List.length_cons] at this
          omega
        .ok ⟨(inner, t₂), (h₂.trans h₁).trans (Nat.lt_succ_self _)⟩
      | t₂ => .error (r.error "unclosed group" t₂)
  else
    match r.read (c :: t) with
    | .error e => .error e
    | .ok ⟨(l, t₁), h₁⟩ => .ok ⟨(.leaf l, t₁), h₁⟩
termination_by 4 * (t.length + 1)

end

/-- A whole expression. -/
def parse (t : Text) : Except ε (BoolTree L) :=
  match alternatives r t with
  | .error e => .error e
  | .ok ⟨(tree, rest), _⟩ =>
    match skipSpaces rest with
    | [] => .ok tree
    | rest => .error (r.error "trailing input" rest)

/-! ## Reading a rendered expression back -/

section RoundTrip

/-- The result without the proof that the rest is shorter. -/
def Returns {α : Type u} {P : α × Text → Prop} (x : Except ε { r : α × Text // P r }) (a : α)
    (rest : Text) : Prop := ∃ h, x = .ok ⟨(a, rest), h⟩

/-- What a reader returns that is made from a function. -/
theorem LeafReader.returns_ofRead {read : Text → Except ε (L × Text)}
    {hlt : ∀ {t r}, read t = .ok r → r.2.length < t.length} {start : Char}
    {error : String → Text → ε} {t rest : Text} {l : L} (h : read t = .ok (l, rest)) :
    Returns ((ofRead read hlt start error).read t) l rest := by
  refine ⟨hlt h, ?_⟩
  rw [ofRead]
  dsimp only
  split
  · next e he =>
      rw [he] at h
      cases h
  · next r hr =>
      rw [hr] at h
      cases h
      rfl

variable {r}

theorem alternatives_of {t t₁ t₂ : Text} {first : BoolTree L} {rest : List (BoolTree L)}
    (h₁ : Returns (sequence r t) first t₁) (h₂ : Returns (moreAlternatives r t₁) rest t₂) :
    Returns (alternatives r t) (.collapse .any (first :: rest)) t₂ := by
  obtain ⟨p₁, h₁⟩ := h₁
  obtain ⟨p₂, h₂⟩ := h₂
  refine ⟨Nat.lt_of_le_of_lt p₂ p₁, ?_⟩
  rw [alternatives]
  simp only [h₁, h₂]

theorem moreAlternatives_nil {t : Text} (h : ∀ t', skipSpaces t ≠ '|' :: t') :
    Returns (moreAlternatives r t) [] (skipSpaces t) := by
  refine ⟨length_skipSpaces_le t, ?_⟩
  rw [moreAlternatives]
  split
  · next t' ht => exact absurd ht (h t')
  · rfl

theorem moreAlternatives_cons {t t' t₁ t₂ : Text} {alt : BoolTree L} {rest : List (BoolTree L)}
    (h : skipSpaces t = '|' :: t') (h₁ : Returns (sequence r t') alt t₁)
    (h₂ : Returns (moreAlternatives r t₁) rest t₂) :
    Returns (moreAlternatives r t) (alt :: rest) t₂ := by
  obtain ⟨p₁, h₁⟩ := h₁
  obtain ⟨p₂, h₂⟩ := h₂
  have hle : t₂.length ≤ t.length := by
    have := length_skipSpaces_le t
    rw [h, List.length_cons] at this
    simp only at p₁ p₂
    omega
  refine ⟨hle, ?_⟩
  rw [moreAlternatives]
  split
  · next t'' ht =>
      cases h.symm.trans ht
      simp only [h₁, h₂]
  · next hne => exact absurd h (hne t')

theorem sequence_of {t t' : Text} {first : BoolTree L} {rest : List (BoolTree L)}
    (h : Returns (items r t) (first :: rest) t') :
    Returns (sequence r t) (.collapse .all (first :: rest)) t' := by
  obtain ⟨p, h⟩ := h
  refine ⟨p.2 (List.cons_ne_nil _ _), ?_⟩
  rw [sequence]
  simp only [h]

/-- Where a sequence ends. -/
def Stops (t : Text) : Prop := t = [] ∨ ∃ c t', t = c :: t' ∧ (c = '|' ∨ c = ')')

theorem items_nil {t : Text} (hstart : r.start ≠ '|' ∧ r.start ≠ ')') (h : Stops (skipSpaces t)) :
    Returns (items r t) [] (skipSpaces t) := by
  refine ⟨⟨length_skipSpaces_le t, fun h ↦ absurd rfl h⟩, ?_⟩
  rw [items]
  rcases h with h | ⟨c, t', h, hc⟩
  · split
    · simp only [h]
    · next h' => cases h.symm.trans h'
  · split
    · next h' => cases h.symm.trans h'
    · next c' t'' h' =>
        cases h.symm.trans h'
        have hne : ¬ (c = '(' ∨ c = r.start) := by
          rcases hc with rfl | rfl
          · rintro (hc | hc)
            · exact absurd hc (by decide)
            · exact hstart.1 hc.symm
          · rintro (hc | hc)
            · exact absurd hc (by decide)
            · exact hstart.2 hc.symm
        rw [if_neg hne, if_pos hc]
        simp only [h]

theorem items_cons {t t' t₁ t₂ : Text} {c : Char} {first : BoolTree L} {rest : List (BoolTree L)}
    (h : skipSpaces t = c :: t') (hc : c = '(' ∨ c = r.start)
    (h₁ : Returns (item r c t') first t₁) (h₂ : Returns (items r t₁) rest t₂) :
    Returns (items r t) (first :: rest) t₂ := by
  obtain ⟨p₁, h₁⟩ := h₁
  obtain ⟨p₂, h₂⟩ := h₂
  have hlt : t₂.length < t.length := by
    have := length_skipSpaces_le t
    have hle := p₂.1
    rw [h] at this
    simp only at p₁ hle
    omega
  refine ⟨⟨Nat.le_of_lt hlt, fun _ ↦ hlt⟩, ?_⟩
  rw [items]
  split
  · next h' => cases h.symm.trans h'
  · next c' t'' h' =>
      cases h.symm.trans h'
      rw [if_pos hc]
      simp only [h₁, h₂]

theorem item_group {t t₁ t₂ : Text} {inner : BoolTree L} (h₁ : Returns (alternatives r t) inner t₁)
    (h₂ : skipSpaces t₁ = ')' :: t₂) : Returns (item r '(' t) inner t₂ := by
  obtain ⟨p₁, h₁⟩ := h₁
  have hlt : t₂.length < ('(' :: t).length := by
    have := length_skipSpaces_le t₁
    rw [h₂, List.length_cons] at this
    rw [List.length_cons]
    simp only at p₁
    omega
  refine ⟨hlt, ?_⟩
  rw [item, if_pos rfl]
  simp only [h₁]
  split
  · next t' h' =>
      cases h₂.symm.trans h'
      rfl
  · next hne => exact absurd h₂ (hne t₂)

theorem item_leaf {c : Char} {t t₁ : Text} {l : L} (hc : c ≠ '(')
    (h : Returns (r.read (c :: t)) l t₁) : Returns (item r c t) (.leaf l) t₁ := by
  obtain ⟨p, h⟩ := h
  refine ⟨p, ?_⟩
  rw [item, if_neg hc]
  simp only [h]

/-- The reader reads a rendered leaf back, whatever follows it. -/
def ReadsBack (r : LeafReader L ε) (leafText : L → Text) (l : L) : Prop :=
  (∃ t, leafText l = r.start :: t) ∧ ∀ tail, Returns (r.read (leafText l ++ tail)) l tail

/-- No character of the syntax starts a leaf. -/
def StartOk (r : LeafReader L ε) : Prop := r.start ∉ ['(', ')', '|', ' ']

variable {leafText : L → Text}

mutual

theorem Item.reads_back (hstart : StartOk r) (i : Item L)
    (h : ∀ l ∈ i.leaves, ReadsBack r leafText l) (tail : Text) :
    ∃ c t, i.render leafText ++ tail = c :: t ∧ (c = '(' ∨ c = r.start) ∧
      Returns (item r c t) i.tree tail := by
  match i with
  | .leaf l =>
      obtain ⟨⟨t, ht⟩, hread⟩ := h l (by rw [Item.leaves]; exact List.mem_singleton_self l)
      refine ⟨r.start, t ++ tail, ?_, .inr rfl, ?_⟩
      · rw [Item.render, ht, List.cons_append]
      · have hparen : r.start ≠ '(' := fun h ↦ hstart (h ▸ by simp)
        have hleaf := hread tail
        rw [ht, List.cons_append] at hleaf
        rw [Item.tree]
        exact item_leaf hparen hleaf
  | .group a =>
      rw [Item.leaves] at h
      obtain ⟨first, rest, t₁, hseq, hmore, htrees⟩ :=
        a.reads_back hstart h (')' :: tail) (.inr ⟨_, rfl⟩) _ rfl
      refine ⟨'(', a.render leafText ++ ')' :: tail, ?_, .inl rfl, ?_⟩
      · rw [Item.render, List.cons_append, List.append_assoc]
        rfl
      · rw [Item.tree, htrees]
        exact item_group (alternatives_of hseq hmore) (by rfl)

theorem Sequence.reads_back (hstart : StartOk r) (s : Sequence L)
    (h : ∀ l ∈ s.leaves, ReadsBack r leafText l) (tail : Text)
    (htail : Stops (skipSpaces tail)) (t : Text)
    (ht : skipSpaces t = skipSpaces (s.render leafText ++ tail)) :
    Returns (items r t) s.trees (skipSpaces tail) := by
  have hstops : r.start ≠ '|' ∧ r.start ≠ ')' :=
    ⟨fun h ↦ hstart (h ▸ by simp), fun h ↦ hstart (h ▸ by simp)⟩
  have hspace : r.start ≠ ' ' := fun h ↦ hstart (h ▸ by simp)
  match s with
  | .one i =>
      rw [Sequence.leaves] at h
      obtain ⟨c, t', heq, hc, hitem⟩ := i.reads_back hstart h tail
      rw [Sequence.render, heq,
        skipSpaces_of_head (by rcases hc with rfl | rfl; decide; exact hspace)]
        at ht
      rw [Sequence.trees]
      exact items_cons ht hc hitem (items_nil hstops htail)
  | .cons i s =>
      rw [Sequence.leaves] at h
      obtain ⟨c, t', heq, hc, hitem⟩ :=
        i.reads_back hstart (fun l hl ↦ h l (List.mem_append_left _ hl))
          (' ' :: s.render leafText ++ tail)
      rw [Sequence.render, List.append_assoc, heq,
        skipSpaces_of_head (by rcases hc with rfl | rfl; decide; exact hspace)] at ht
      rw [Sequence.trees]
      refine items_cons ht hc hitem ?_
      exact s.reads_back hstart (fun l hl ↦ h l (List.mem_append_right _ hl)) tail htail _ (by rfl)

theorem Alternatives.reads_back (hstart : StartOk r) (a : Alternatives L)
    (h : ∀ l ∈ a.leaves, ReadsBack r leafText l) (tail : Text)
    (htail : skipSpaces tail = [] ∨ ∃ t, skipSpaces tail = ')' :: t) (t : Text)
    (ht : skipSpaces t = skipSpaces (a.render leafText ++ tail)) :
    ∃ first rest t₁, Returns (sequence r t) first t₁ ∧
      Returns (moreAlternatives r t₁) rest (skipSpaces tail) ∧ a.trees = first :: rest := by
  match a with
  | .one s =>
      rw [Alternatives.leaves] at h
      rw [Alternatives.render] at ht
      have hitems := s.reads_back hstart h tail (by
        rcases htail with htail | ⟨t', htail⟩
        · exact .inl htail
        · exact .inr ⟨')', t', htail, .inr rfl⟩) t ht
      obtain ⟨first, rest, htrees⟩ := s.trees_eq_cons
      rw [htrees] at hitems
      refine ⟨_, [], _, sequence_of hitems, ?_, by rw [Alternatives.trees, htrees]⟩
      have hmore : Returns (moreAlternatives r (skipSpaces tail)) []
          (skipSpaces (skipSpaces tail)) := by
        refine moreAlternatives_nil fun t' hbar ↦ ?_
        rw [skipSpaces_skipSpaces] at hbar
        rcases htail with htail | ⟨t'', htail⟩ <;> rw [htail] at hbar <;> cases hbar
      rw [skipSpaces_skipSpaces] at hmore
      exact hmore
  | .cons s a =>
      rw [Alternatives.leaves] at h
      rw [Alternatives.render, List.append_assoc] at ht
      have hitems := s.reads_back hstart (fun l hl ↦ h l (List.mem_append_left _ hl))
        (' ' :: '|' :: ' ' :: a.render leafText ++ tail) (.inr ⟨'|', _, rfl, .inl rfl⟩) t ht
      obtain ⟨first, rest, htrees⟩ := s.trees_eq_cons
      rw [htrees] at hitems
      obtain ⟨first', rest', t₁, hseq, hmore, htrees'⟩ :=
        a.reads_back hstart (fun l hl ↦ h l (List.mem_append_right _ hl)) tail htail
          (' ' :: (a.render leafText ++ tail)) (by rfl)
      refine ⟨_, first' :: rest', _, sequence_of hitems, ?_,
        by rw [Alternatives.trees, htrees, htrees']⟩
      exact moreAlternatives_cons (by rfl) hseq hmore

end

/-- A rendered expression is read back as its tree. -/
theorem parse_render (hstart : StartOk r) (a : Alternatives L)
    (h : ∀ l ∈ a.leaves, ReadsBack r leafText l) :
    parse r (a.render leafText) = .ok a.tree := by
  obtain ⟨first, rest, t₁, hseq, hmore, htrees⟩ := a.reads_back hstart h [] (.inl rfl)
    (a.render leafText) (by rw [List.append_nil])
  obtain ⟨p, halts⟩ := alternatives_of hseq hmore
  rw [parse, halts, Alternatives.tree, htrees]
  rfl

end RoundTrip

end GroupSyntax

namespace GroupSyntax

universe u

variable {L : Type u} (leafText : L → Text)

/-- Sequences one after another. -/
def Sequence.concat : Sequence L → List (Sequence L) → Sequence L
  | s, [] => s
  | s, s' :: ss => s.append (s'.concat ss)

/-- Sequences as alternatives. -/
def Alternatives.ofSequences : Sequence L → List (Sequence L) → Alternatives L
  | s, [] => .one s
  | s, s' :: ss => .cons s (ofSequences s' ss)

theorem Sequence.render_concat (s : Sequence L) (ss : List (Sequence L)) :
    (s.concat ss).render leafText = [' '].intercalate ((s :: ss).map (render leafText)) := by
  induction ss generalizing s with
  | nil => exact (List.append_nil _).symm
  | cons s' ss ih =>
      rw [concat, render_append, ih, List.map_cons, List.map_cons, List.map_cons,
        List.intercalate_cons_cons, List.append_assoc]
      rfl

theorem Alternatives.render_ofSequences (s : Sequence L) (ss : List (Sequence L)) :
    (ofSequences s ss).render leafText =
      [' ', '|', ' '].intercalate ((s :: ss).map (Sequence.render leafText)) := by
  induction ss generalizing s with
  | nil =>
      rw [ofSequences, render]
      exact (List.append_nil _).symm
  | cons s' ss ih =>
      rw [ofSequences, render, ih, List.map_cons, List.map_cons, List.map_cons,
        List.intercalate_cons_cons, List.append_assoc]
      rfl

theorem Sequence.trees_concat (s : Sequence L) (ss : List (Sequence L)) :
    (s.concat ss).trees = ((s :: ss).map trees).flatMap id := by
  induction ss generalizing s with
  | nil => exact (List.append_nil _).symm
  | cons s' ss ih =>
      rw [concat, trees_append, ih]
      rfl

theorem Sequence.leaves_concat (s : Sequence L) (ss : List (Sequence L)) :
    (s.concat ss).leaves = (s :: ss).flatMap leaves := by
  induction ss generalizing s with
  | nil => exact (List.append_nil _).symm
  | cons s' ss ih =>
      rw [concat, leaves_append, ih]
      rfl

theorem Alternatives.trees_ofSequences (s : Sequence L) (ss : List (Sequence L)) :
    (ofSequences s ss).trees = (s :: ss).map Sequence.tree := by
  induction ss generalizing s with
  | nil =>
      rw [ofSequences, trees]
      rfl
  | cons s' ss ih =>
      rw [ofSequences, trees, ih, List.map_cons]
      rfl

theorem Alternatives.leaves_ofSequences (s : Sequence L) (ss : List (Sequence L)) :
    (ofSequences s ss).leaves = (s :: ss).flatMap Sequence.leaves := by
  induction ss generalizing s with
  | nil =>
      rw [ofSequences, leaves]
      exact (List.append_nil _).symm
  | cons s' ss ih =>
      rw [ofSequences, leaves, ih]
      rfl

/-! ## Groups -/

/-- Sequences as one group, in which all of them hold. -/
def Item.allOf (s : Sequence L) (ss : List (Sequence L)) : Item L := .group (.one (s.concat ss))

/-- Sequences as one group, in which one of them holds. -/
def Item.anyOf (s : Sequence L) (ss : List (Sequence L)) : Item L :=
  .group (.ofSequences s ss)

section Groups

variable (s : Sequence L) (ss : List (Sequence L))

theorem Item.render_allOf : (allOf s ss).render leafText =
    '(' :: ([' '].intercalate ((s :: ss).map (Sequence.render leafText)) ++ [')']) := by
  rw [allOf, render, Alternatives.render, Sequence.render_concat]

theorem Item.render_anyOf : (anyOf s ss).render leafText =
    '(' :: ([' ', '|', ' '].intercalate ((s :: ss).map (Sequence.render leafText)) ++ [')']) := by
  rw [anyOf, render, Alternatives.render_ofSequences]

theorem Item.leaves_allOf : (allOf s ss).leaves = (s :: ss).flatMap Sequence.leaves := by
  rw [allOf, leaves, Alternatives.leaves, Sequence.leaves_concat]

theorem Item.leaves_anyOf : (anyOf s ss).leaves = (s :: ss).flatMap Sequence.leaves := by
  rw [anyOf, leaves, Alternatives.leaves_ofSequences]

theorem Sequence.trees_ne_nil : s.trees ≠ [] := by
  obtain ⟨t, ts, h⟩ := s.trees_eq_cons
  rw [h]
  exact List.cons_ne_nil t ts

/-- The normal form of sequences that all hold. -/
theorem Item.flatten_tree_allOf :
    (allOf s ss).tree.flatten = (BoolTree.all ((s :: ss).map Sequence.tree)).flatten := by
  have hgroups : ∀ g ∈ (s :: ss).map Sequence.trees, g ≠ [] := by
    intro g hg
    obtain ⟨s', -, rfl⟩ := List.mem_map.mp hg
    exact s'.trees_ne_nil
  have hflat := BoolTree.flatten_all_flatMap hgroups
  rw [List.map_map] at hflat
  rw [allOf, tree, Alternatives.trees]
  change (BoolTree.collapse .all (s.concat ss).trees).flatten = _
  rw [BoolTree.flatten_collapse_all, Sequence.trees_concat]
  exact hflat

/-- The normal form of sequences one of which holds. -/
theorem Item.flatten_tree_anyOf :
    (anyOf s ss).tree.flatten = (BoolTree.any ((s :: ss).map Sequence.tree)).flatten := by
  rw [anyOf, tree, BoolTree.flatten_collapse_any, Alternatives.trees_ofSequences]

/-- An item alone. -/
theorem Sequence.tree_one (i : Item L) : (one i).tree = i.tree := by
  rw [Sequence.tree, trees]
  rfl

theorem Sequence.tree_pair (i j : Item L) : (cons i (one j)).tree = .all [i.tree, j.tree] := by
  rw [Sequence.tree, trees, trees]
  rfl

end Groups

end GroupSyntax

end Kit
