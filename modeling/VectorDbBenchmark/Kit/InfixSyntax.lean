import VectorDbBenchmark.Kit.BoolTree
import VectorDbBenchmark.Kit.Lexer

/-!
# Conditions with infix connectives

The syntax of and/or trees whose connectives stand between operands.  Conjunction binds
tighter than disjunction, and parentheses group:

```text
alternatives := conjunction (or conjunction)*
conjunction  := operand (and operand)*
operand      := '(' alternatives ')' | leaf
```

The tokens of a text are read one by one, with a stack of the groups that are open.  A leaf is
read by a machine of its own.  What operands with connectives between them are read as, and
what stands in parentheses, is composed from what its parts are read as.
-/

namespace Kit

namespace InfixSyntax

universe u v w

/-- Tokens that are no part of a leaf. -/
inductive Mark where
  | opening
  | closing
  | conj
  | disj
deriving DecidableEq, Repr

/-- Parentheses, and one token for each connective. -/
def markOf (conj disj : Token) : Token → Option Mark
  | .punctuation c => if c = '(' then some .opening else if c = ')' then some .closing else none
  | k => if k = conj then some .conj else if k = disj then some .disj else none

/-- A language of conditions. -/
structure Language (L : Type u) (σ : Type v) where
  spelling : Spelling
  mark : Token → Option Mark
  /-- The first token of a leaf, which may be all of it. -/
  begin : Token → Option (σ ⊕ L)
  /-- The other tokens of a leaf; after the last one it is there. -/
  step : σ → Token → Option (σ ⊕ L)

/-- A group that is open: its finished alternatives, and the conjunction that is being read. -/
structure Frame (L : Type u) where
  alternatives : List (BoolTree L) := []
  items : List (BoolTree L) := []
  /-- The conjunction ends with an operand. -/
  complete : Bool := false

namespace Frame

variable {L : Type u}

/-- The group with more operands. -/
def grow (f : Frame L) (ts : List (BoolTree L)) : Frame L :=
  { f with items := f.items ++ ts, complete := true }

/-- The group with one more operand. -/
def push (f : Frame L) (t : BoolTree L) : Frame L := f.grow [t]

/-- The group in front of another operand of the conjunction. -/
def reopen (f : Frame L) : Frame L := { f with complete := false }

def connect (f : Frame L) : Option (Frame L) := if f.complete then some f.reopen else none

/-- The group in front of another alternative. -/
def alternate (f : Frame L) : Option (Frame L) :=
  if f.complete then some { alternatives := f.alternatives ++ [.all f.items] } else none

/-- What the group is read as at its end. -/
def close (f : Frame L) : Option (BoolTree L) := f.alternate.map fun f ↦ .any f.alternatives

theorem grow_reopen_grow (f : Frame L) (ts us : List (BoolTree L)) :
    (f.grow ts).reopen.grow us = f.grow (ts ++ us) := by
  simp only [grow, reopen, List.append_assoc]

end Frame

structure State (L : Type u) (σ : Type v) where
  /-- The groups around the innermost one, from inside out. -/
  outer : List (Frame L) := []
  frame : Frame L := {}
  /-- The leaf that is being read. -/
  leaf : Option σ := none

variable {L : Type u} {σ : Type v} (m : Language L σ)

/-- The state after a token of a leaf. -/
def State.put (s : State L σ) : σ ⊕ L → State L σ
  | .inl st => { s with leaf := some st }
  | .inr l => { s with leaf := none, frame := s.frame.push (.leaf l) }

/-- A token between leaves. -/
def stepBetween (s : State L σ) (t : Token) : Option (State L σ) :=
  match m.mark t with
  | some .opening =>
    if s.frame.complete then none else some { s with outer := s.frame :: s.outer, frame := {} }
  | some .closing =>
    match s.outer with
    | [] => none
    | f :: fs => s.frame.close.map fun t ↦ { s with outer := fs, frame := f.push t }
  | some .conj => s.frame.connect.map fun f ↦ { s with frame := f }
  | some .disj => s.frame.alternate.map fun f ↦ { s with frame := f }
  | none => if s.frame.complete then none else (m.begin t).map s.put

/-- One token. -/
def step (s : State L σ) (t : Token) : Option (State L σ) :=
  match s.leaf with
  | none => stepBetween m s t
  | some st => (m.step st t).map s.put

/-- The condition that tokens make up. -/
def parseTokens (ts : List Token) : Option (BoolTree L) :=
  (ts.foldlM (step m) {}).bind fun s ↦
    if s.outer.isEmpty && s.leaf.isNone then s.frame.close else none

/-- The condition that a text is. -/
def parse (t : Text) : Option (BoolTree L) := (Lexer.lex m.spelling t).bind (parseTokens m)

/-! ## Tokens -/

/-- In front of an operand. -/
structure Ready (s : State L σ) : Prop where
  leaf : s.leaf = none
  complete : s.frame.complete = false

/-- The tokens are read as operands of the conjunction that is being read. -/
def IsConj (ts : List Token) (Ts : List (BoolTree L)) : Prop :=
  ∀ s : State L σ, Ready s → ts.foldlM (step m) s = some { s with frame := s.frame.grow Ts }

/-- The tokens are all that stands in a group. -/
def Fills (ts : List Token) (T : BoolTree L) : Prop :=
  ∀ s : State L σ, s.leaf = none → s.frame = {} →
    ∃ f, ts.foldlM (step m) s = some { s with frame := f } ∧ f.close = some T

variable {m}

theorem step_between {s : State L σ} (h : s.leaf = none) (t : Token) :
    step m s t = stepBetween m s t := by
  rw [step, h]

theorem parseTokens_of_fills {ts : List Token} {T : BoolTree L} (h : Fills m ts T) :
    parseTokens m ts = some T := by
  obtain ⟨f, hrun, hclose⟩ := h {} rfl rfl
  rw [parseTokens, hrun]
  exact hclose

section Tokens

variable {k : Token} {ts ts' : List Token} {Ts Ts' : List (BoolTree L)} {T : BoolTree L}

/-- Operands with a conjunction between them. -/
theorem IsConj.conj (h : IsConj m ts Ts) (hk : m.mark k = some .conj) (h' : IsConj m ts' Ts') :
    IsConj m (ts ++ k :: ts') (Ts ++ Ts') := by
  intro s hs
  have hstep : step m { s with frame := s.frame.grow Ts } k =
      some { s with frame := (s.frame.grow Ts).reopen } := by
    rw [step_between (by exact hs.leaf), stepBetween, hk]
    rfl
  have hready : Ready { s with frame := (s.frame.grow Ts).reopen } := ⟨hs.leaf, rfl⟩
  rw [List.foldlM_append, h s hs, Option.bind_eq_bind, Option.bind_some, List.foldlM_cons, hstep,
    Option.bind_eq_bind, Option.bind_some, h' _ hready, Frame.grow_reopen_grow]

theorem isConj_intercalate (hk : m.mark k = some .conj) {tss : List (List Token)}
    {Tss : List (List (BoolTree L))} (h : List.Forall₂ (IsConj m) tss Tss) (hne : tss ≠ []) :
    IsConj m ([k].intercalate tss) Tss.flatten := by
  induction h with
  | nil => exact absurd rfl hne
  | @cons ts Ts tss Tss hts htail ih =>
      cases htail with
      | nil =>
          rw [List.intercalate_singleton, List.flatten_cons, List.flatten_nil, List.append_nil]
          exact hts
      | cons _ _ =>
          rw [List.intercalate_cons_cons, List.append_assoc, List.flatten_cons]
          exact hts.conj hk (ih (List.cons_ne_nil _ _))

/-- A conjunction fills a group. -/
theorem IsConj.fills (h : IsConj m ts Ts) : Fills m ts (.any [.all Ts]) := by
  intro s hs hframe
  refine ⟨_, h s ⟨hs, by rw [hframe]⟩, ?_⟩
  rw [hframe]
  rfl

theorem fills_alternatives {tss : List (List Token)} {Tss : List (List (BoolTree L))}
    (hk : m.mark k = some .disj) (hts : IsConj m ts Ts) (h : List.Forall₂ (IsConj m) tss Tss)
    {s : State L σ} (hs : Ready s) (hitems : s.frame.items = []) :
    ∃ f, ([k].intercalate (ts :: tss)).foldlM (step m) s = some { s with frame := f } ∧
      f.close = some (.any (s.frame.alternatives ++ (Ts :: Tss).map .all)) := by
  induction h generalizing s ts Ts with
  | nil =>
      have hitem : (s.frame.grow Ts).items = Ts := by rw [Frame.grow, hitems, List.nil_append]
      refine ⟨_, by rw [List.intercalate_singleton]; exact hts s hs, ?_⟩
      rw [Frame.close, Frame.alternate, hitem]
      rfl
  | @cons ts' Ts' tss Tss hts' _ ih =>
      have hitem : (s.frame.grow Ts).items = Ts := by rw [Frame.grow, hitems, List.nil_append]
      have hstep : step m { s with frame := s.frame.grow Ts } k =
          some { s with frame := { alternatives := s.frame.alternatives ++ [.all Ts] } } := by
        rw [step_between (by exact hs.leaf), stepBetween, hk]
        show (s.frame.grow Ts).alternate.map _ = _
        rw [Frame.alternate, hitem]
        rfl
      obtain ⟨f, hf, hclose⟩ := ih hts' (s := { s with
        frame := { alternatives := s.frame.alternatives ++ [.all Ts] } }) ⟨hs.leaf, rfl⟩ rfl
      refine ⟨f, ?_, ?_⟩
      · rw [List.intercalate_cons_cons, List.append_assoc, List.foldlM_append, hts s hs,
          Option.bind_eq_bind, Option.bind_some, List.singleton_append, List.foldlM_cons, hstep,
          Option.bind_eq_bind, Option.bind_some]
        exact hf
      · rw [hclose, List.append_assoc]
        rfl

/-- Alternatives fill a group. -/
theorem fills_intercalate (hk : m.mark k = some .disj) {tss : List (List Token)}
    {Tss : List (List (BoolTree L))} (h : List.Forall₂ (IsConj m) tss Tss) (hne : tss ≠ []) :
    Fills m ([k].intercalate tss) (.any (Tss.map .all)) := by
  intro s hs hframe
  cases h with
  | nil => exact absurd rfl hne
  | cons hts htss =>
      obtain ⟨f, hf, hclose⟩ := fills_alternatives hk hts htss ⟨hs, by rw [hframe]⟩ (by rw [hframe])
      refine ⟨f, hf, ?_⟩
      rw [hclose, hframe, List.nil_append]

/-- A group in parentheses is an operand. -/
theorem Fills.parens {k' : Token} (hk : m.mark k = some .opening) (hk' : m.mark k' = some .closing)
    (h : Fills m ts T) : IsConj m (k :: (ts ++ [k'])) [T] := by
  intro s hs
  obtain ⟨f, hrun, hclose⟩ := h { s with outer := s.frame :: s.outer, frame := {} } hs.leaf rfl
  have hopen : step m s k = some { s with outer := s.frame :: s.outer, frame := {} } := by
    rw [step_between hs.leaf, stepBetween, hk]
    dsimp only
    rw [hs.complete, if_neg Bool.false_ne_true]
  have hshut : step m { s with outer := s.frame :: s.outer, frame := f } k' =
      some { s with frame := s.frame.push T } := by
    rw [step_between (by exact hs.leaf), stepBetween, hk']
    dsimp only
    rw [hclose]
    rfl
  rw [List.foldlM_cons, hopen, Option.bind_eq_bind, Option.bind_some, List.foldlM_append, hrun,
    Option.bind_eq_bind, Option.bind_some, List.foldlM_cons, hshut]
  rfl

end Tokens

/-! ## Leaves -/

section Leaves

variable (m) in
/-- The leaf that ends with the last of the tokens. -/
def finish : σ → List Token → Option L
  | _, [] => none
  | st, t :: ts =>
    match m.step st t with
    | none => none
    | some (.inl st') => finish st' ts
    | some (.inr l) => if ts = [] then some l else none

variable (m) in
/-- The leaf that tokens make up. -/
def readLeaf : List Token → Option L
  | [] => none
  | t :: ts =>
    match m.begin t with
    | none => none
    | some (.inl st) => finish m st ts
    | some (.inr l) => if ts = [] then some l else none

variable (m) in
/-- What is left of a leaf, or the leaf if nothing follows. -/
def proceed (ts : List Token) : σ ⊕ L → Option L
  | .inl st => finish m st ts
  | .inr l => if ts = [] then some l else none

theorem finish_cons (st : σ) (t : Token) (ts : List Token) :
    finish m st (t :: ts) = (m.step st t).bind (proceed m ts) := by
  rw [finish]
  cases m.step st t with
  | none => rfl
  | some r => cases r <;> rfl

theorem readLeaf_cons (t : Token) (ts : List Token) :
    readLeaf m (t :: ts) = (m.begin t).bind (proceed m ts) := by
  rw [readLeaf]
  cases m.begin t with
  | none => rfl
  | some r => cases r <;> rfl

theorem finish_of_step {st st' : σ} {t : Token} (h : m.step st t = some (.inl st'))
    (ts : List Token) : finish m st (t :: ts) = finish m st' ts := by
  rw [finish_cons, h, Option.bind_some, proceed]

theorem readLeaf_of_begin {st : σ} {t : Token} (h : m.begin t = some (.inl st))
    (ts : List Token) : readLeaf m (t :: ts) = finish m st ts := by
  rw [readLeaf_cons, h, Option.bind_some, proceed]

theorem foldlM_finish {st : σ} {ts : List Token} {l : L} (h : finish m st ts = some l)
    (s : State L σ) :
    ts.foldlM (step m) { s with leaf := some st } = some (s.put (.inr l)) := by
  induction ts generalizing st with
  | nil => cases h
  | cons t ts ih =>
      rw [finish] at h
      have hstep : step m { s with leaf := some st } t = (m.step st t).map s.put := by
        rw [step]
        refine congrArg (fun f ↦ (m.step st t).map f) (funext fun r ↦ ?_)
        cases r <;> rfl
      rw [List.foldlM_cons, hstep]
      split at h
      · cases h
      · next st' hst =>
          rw [hst]
          exact ih h
      · next l' hst =>
          split_ifs at h with hts
          cases h
          rw [hst, hts]
          rfl

/-- A leaf is an operand. -/
theorem isConj_leaf {t : Token} {ts : List Token} {l : L} (hmark : m.mark t = none)
    (h : readLeaf m (t :: ts) = some l) : IsConj m (t :: ts) [.leaf l] := by
  intro s hs
  have hstep : step m s t = (m.begin t).map s.put := by
    rw [step_between hs.leaf, stepBetween, hmark]
    dsimp only
    rw [hs.complete, if_neg Bool.false_ne_true]
  have hput : s.put (.inr l) = { s with frame := s.frame.grow [.leaf l] } := by
    rw [State.put, ← hs.leaf]
    rfl
  rw [← hput, List.foldlM_cons, hstep]
  rw [readLeaf] at h
  split at h
  · cases h
  · next st hst =>
      rw [hst]
      exact foldlM_finish h s
  · next l' hst =>
      split_ifs at h with hts
      cases h
      rw [hst, hts]
      rfl

end Leaves

/-! ## Texts -/

section Texts

/-- The text is one token with this mark. -/
def Spells (m : Language L σ) (t : Text) (k : Mark) : Prop :=
  ∃ tok, Lexer.lex m.spelling t = some [tok] ∧ m.mark tok = some k

/-- Blanks separate tokens, and parentheses are marks. -/
structure Standard (m : Language L σ) : Prop where
  blank : m.spelling.classOf ' ' = some .blank
  opening : m.spelling.classOf '(' = some .punctuation
  closing : m.spelling.classOf ')' = some .punctuation
  mark_opening : m.mark (.punctuation '(') = some .opening
  mark_closing : m.mark (.punctuation ')') = some .closing

/-- The text is read as operands of a conjunction. -/
def ReadsConj (m : Language L σ) (t : Text) (Ts : List (BoolTree L)) : Prop :=
  ∃ ts, Lexer.lex m.spelling t = some ts ∧ IsConj m ts Ts

/-- The text is all that stands in a group. -/
def ReadsGroup (m : Language L σ) (t : Text) (T : BoolTree L) : Prop :=
  ∃ ts, Lexer.lex m.spelling t = some ts ∧ Fills m ts T

theorem ReadsConj.group {t : Text} {Ts : List (BoolTree L)} (h : ReadsConj m t Ts) :
    ReadsGroup m t (.any [.all Ts]) := by
  obtain ⟨ts, hlex, hconj⟩ := h
  exact ⟨ts, hlex, hconj.fills⟩

theorem ReadsGroup.parse {t : Text} {T : BoolTree L} (h : ReadsGroup m t T) :
    parse m t = some T := by
  obtain ⟨ts, hlex, hfills⟩ := h
  rw [InfixSyntax.parse, hlex, Option.bind_some, parseTokens_of_fills hfills]

theorem ReadsGroup.parens (hm : Standard m) {t : Text} {T : BoolTree L} (h : ReadsGroup m t T) :
    ReadsConj m ('(' :: (t ++ [')'])) [T] := by
  obtain ⟨ts, hlex, hfills⟩ := h
  exact ⟨_, Lexer.lex_brackets hm.opening hm.closing hlex,
    hfills.parens hm.mark_opening hm.mark_closing⟩

/-- Parts with a word and blanks between them. -/
theorem lex_intercalate_blank (hm : Standard m) {sep : Text} {k : Token}
    (hsep : Lexer.lex m.spelling sep = some [k]) {parts : List Text} {tokens : List (List Token)}
    (h : List.Forall₂ (fun t ts ↦ Lexer.lex m.spelling t = some ts) parts tokens) :
    Lexer.lex m.spelling ((' ' :: (sep ++ [' '])).intercalate parts) =
      some ([k].intercalate tokens) := by
  induction h with
  | nil => exact Lexer.lex_nil
  | @cons t ts parts tokens ht htail ih =>
      cases htail with
      | nil =>
          rw [List.intercalate_singleton, List.intercalate_singleton]
          exact ht
      | cons _ _ =>
          rw [List.intercalate_cons_cons, List.intercalate_cons_cons, List.append_assoc,
            List.append_assoc, List.cons_append, List.append_assoc, List.singleton_append]
          exact Lexer.lex_blank hm.blank ht (Lexer.lex_blank hm.blank hsep ih)

theorem exists_tokens {ts : List Text} {Tss : List (List (BoolTree L))}
    (h : List.Forall₂ (ReadsConj m) ts Tss) :
    ∃ tokens, List.Forall₂ (fun t ts ↦ Lexer.lex m.spelling t = some ts) ts tokens ∧
      List.Forall₂ (IsConj m) tokens Tss := by
  induction h with
  | nil => exact ⟨[], .nil, .nil⟩
  | cons ht _ ih =>
      obtain ⟨toks, hlex, hconj⟩ := ht
      obtain ⟨tokens, hlexes, hconjs⟩ := ih
      exact ⟨toks :: tokens, .cons hlex hlexes, .cons hconj hconjs⟩

theorem readsConj_intercalate (hm : Standard m) {sep : Text} (hsep : Spells m sep .conj)
    {ts : List Text} {Tss : List (List (BoolTree L))} (h : List.Forall₂ (ReadsConj m) ts Tss)
    (hne : ts ≠ []) : ReadsConj m ((' ' :: (sep ++ [' '])).intercalate ts) Tss.flatten := by
  obtain ⟨k, hk, hmark⟩ := hsep
  obtain ⟨tokens, hlexes, hconjs⟩ := exists_tokens h
  refine ⟨_, lex_intercalate_blank hm hk hlexes, isConj_intercalate hmark hconjs ?_⟩
  rintro rfl
  cases hlexes
  exact hne rfl

theorem readsGroup_intercalate (hm : Standard m) {sep : Text} (hsep : Spells m sep .disj)
    {ts : List Text} {Tss : List (List (BoolTree L))} (h : List.Forall₂ (ReadsConj m) ts Tss)
    (hne : ts ≠ []) :
    ReadsGroup m ((' ' :: (sep ++ [' '])).intercalate ts) (.any (Tss.map .all)) := by
  obtain ⟨k, hk, hmark⟩ := hsep
  obtain ⟨tokens, hlexes, hconjs⟩ := exists_tokens h
  refine ⟨_, lex_intercalate_blank hm hk hlexes, fills_intercalate hmark hconjs ?_⟩
  rintro rfl
  cases hlexes
  exact hne rfl

end Texts

/-! ## Truth -/

section Truth

variable {α : Type w} (m) (holds : α → L → Bool) (A : α → Prop)

/-- The text is read as operands of a conjunction whose truth at what satisfies `A` is
`truth`. -/
def Says (truth : α → Bool) (t : Text) : Prop :=
  ∃ Ts, ReadsConj m t Ts ∧ ∀ a, A a → Ts.all (BoolTree.eval (holds a)) = truth a

variable {m holds A}

theorem Says.mono {A' : α → Prop} (hA : ∀ a, A' a → A a) {truth : α → Bool} {t : Text}
    (h : Says m holds A truth t) : Says m holds A' truth t := by
  obtain ⟨Ts, hread, htruth⟩ := h
  exact ⟨Ts, hread, fun a ha ↦ htruth a (hA a ha)⟩

theorem Says.congr {truth truth' : α → Bool} {t : Text} (h : Says m holds A truth t)
    (heq : ∀ a, A a → truth a = truth' a) : Says m holds A truth' t := by
  obtain ⟨Ts, hread, htruth⟩ := h
  exact ⟨Ts, hread, fun a ha ↦ (htruth a ha).trans (heq a ha)⟩

theorem says_of_group {T : BoolTree L} {truth : α → Bool} {t : Text} (hread : ReadsConj m t [T])
    (htruth : ∀ a, A a → T.eval (holds a) = truth a) : Says m holds A truth t := by
  refine ⟨[T], hread, fun a ha ↦ ?_⟩
  rw [List.all_cons, List.all_nil, Bool.and_true, htruth a ha]

/-- A leaf, from its tokens. -/
theorem says_leaf {t : Text} {k : Token} {ts : List Token} {l : L} {truth : α → Bool}
    (hlex : Lexer.lex m.spelling t = some (k :: ts)) (hmark : m.mark k = none)
    (hread : readLeaf m (k :: ts) = some l) (htruth : ∀ a, A a → holds a l = truth a) :
    Says m holds A truth t := by
  refine says_of_group ⟨_, hlex, isConj_leaf hmark hread⟩ fun a ha ↦ ?_
  rw [BoolTree.eval_leaf, htruth a ha]

theorem eval_any_all (v : L → Bool) (Ts : List (BoolTree L)) :
    (BoolTree.any [.all Ts]).eval v = Ts.all (BoolTree.eval v) := by
  rw [BoolTree.eval_any, List.any_cons, List.any_nil, Bool.or_false, BoolTree.eval_all]

/-- What is said in parentheses. -/
theorem Says.parens (hm : Standard m) {truth : α → Bool} {t : Text} (h : Says m holds A truth t) :
    Says m holds A truth ('(' :: (t ++ [')'])) := by
  obtain ⟨Ts, hread, htruth⟩ := h
  refine says_of_group (hread.group.parens hm) fun a ha ↦ ?_
  rw [eval_any_all, htruth a ha]

/-- A text that says something is a condition. -/
theorem Says.parse {truth : α → Bool} {t : Text} (h : Says m holds A truth t) :
    ∃ T, parse m t = some T ∧ ∀ a, A a → T.eval (holds a) = truth a := by
  obtain ⟨Ts, hread, htruth⟩ := h
  refine ⟨_, hread.group.parse, fun a ha ↦ ?_⟩
  rw [eval_any_all, htruth a ha]

section Lists

variable {ι : Type w} {truth : ι → α → Bool} {is : List ι} {ts : List Text}

theorem exists_operands (h : List.Forall₂ (fun i t ↦ Says m holds A (truth i) t) is ts) :
    ∃ Tss, List.Forall₂ (ReadsConj m) ts Tss ∧ List.Forall₂ (fun i Ts ↦
      ∀ a, A a → Ts.all (BoolTree.eval (holds a)) = truth i a) is Tss := by
  induction h with
  | nil => exact ⟨[], .nil, .nil⟩
  | cons ht _ ih =>
      obtain ⟨Ts, hread, htruth⟩ := ht
      obtain ⟨Tss, hreads, htruths⟩ := ih
      exact ⟨Ts :: Tss, .cons hread hreads, .cons htruth htruths⟩

/-- Texts with conjunctions between them. -/
theorem says_conj (hm : Standard m) {sep : Text} (hsep : Spells m sep .conj)
    (h : List.Forall₂ (fun i t ↦ Says m holds A (truth i) t) is ts) (hne : ts ≠ []) :
    Says m holds A (fun a ↦ is.all (truth · a)) ((' ' :: (sep ++ [' '])).intercalate ts) := by
  obtain ⟨Tss, hreads, htruths⟩ := exists_operands h
  refine ⟨_, readsConj_intercalate hm hsep hreads hne, fun a ha ↦ ?_⟩
  rw [List.all_flatten]
  exact all_congr_of_forall₂ (htruths.imp fun _ _ hT ↦ hT a ha)

/-- Texts with disjunctions between them, in parentheses. -/
theorem says_disj (hm : Standard m) {sep : Text} (hsep : Spells m sep .disj)
    (h : List.Forall₂ (fun i t ↦ Says m holds A (truth i) t) is ts) (hne : ts ≠ []) :
    Says m holds A (fun a ↦ is.any (truth · a))
      ('(' :: ((' ' :: (sep ++ [' '])).intercalate ts ++ [')'])) := by
  obtain ⟨Tss, hreads, htruths⟩ := exists_operands h
  refine says_of_group ((readsGroup_intercalate hm hsep hreads hne).parens hm) fun a ha ↦ ?_
  rw [BoolTree.eval_any, List.any_map]
  refine any_congr_of_forall₂ (htruths.imp fun _ _ hT ↦ ?_)
  exact (BoolTree.eval_all _).trans (hT a ha)

end Lists

end Truth

end InfixSyntax

end Kit
