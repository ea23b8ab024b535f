import VectorDbBenchmark.Kit.Text

/-!
# Reading a text as tokens

Blanks stand between tokens.  A word and a symbol go on as long as characters of their class
follow, punctuation is a token of one character, and a quotation ends at the next quote that
is not escaped, with a backslash in front or by doubling it.  A text is read character by
character; what it is read as is composed from what its parts are read as.
-/

namespace Kit

inductive CharClass where
  | blank
  | word
  | symbol
  | punctuation
  | quote
deriving DecidableEq, Repr

/-- The classes of a language with brackets and commas, where letters and digits are of words. -/
def CharClass.among (words blanks symbols quotes : List Char) (c : Char) : Option CharClass :=
  if c.isAlphanum || words.contains c then some .word
  else if blanks.contains c then some .blank
  else if symbols.contains c then some .symbol
  else if ['(', ')', '[', ']', ','].contains c then some .punctuation
  else if quotes.contains c then some .quote
  else none

inductive Token where
  | word (t : Text)
  | symbol (t : Text)
  | punctuation (c : Char)
  | quoted (q : Char) (t : Text)
deriving DecidableEq, Repr

/-- How tokens are spelt. -/
structure Spelling where
  classOf : Char → Option CharClass
  /-- Whether a backslash in these quotes escapes the character behind it. -/
  backslash : Char → Bool
  /-- What a character behind a backslash stands for. -/
  unescape : Char → Option Char
  /-- Whether a character may stand in quotes as it is. -/
  plain : Char → Bool

theorem mapM_id_cons {α : Type} (o : Option α) (os : List (Option α)) :
    (o :: os).mapM id = o.bind fun x ↦ (os.mapM id).map fun xs ↦ x :: xs := by
  rw [List.mapM_cons]
  cases o with
  | none => rfl
  | some x => cases os.mapM id <;> rfl

theorem mapM_id_eq_some {α : Type} {os : List (Option α)} {xs : List α} :
    os.mapM id = some xs ↔ os = xs.map some := by
  induction os generalizing xs with
  | nil =>
      rw [List.mapM_nil, eq_comm (a := ([] : List (Option α))), List.map_eq_nil_iff]
      exact Option.some_inj.trans eq_comm
  | cons o os ih =>
      rw [mapM_id_cons]
      constructor
      · intro h
        obtain ⟨x, rfl, h⟩ := Option.bind_eq_some_iff.mp h
        obtain ⟨ys, hys, rfl⟩ := Option.map_eq_some_iff.mp h
        rw [List.map_cons, ih.mp hys]
      · intro h
        obtain ⟨x, ys, rfl, rfl, rfl⟩ := List.map_eq_cons_iff.mp h.symm
        rw [Option.bind_some, ih.mpr rfl, Option.map_some]

namespace Lexer

/-- Where the reader is, with what it has read of a token. -/
inductive Cursor where
  | between
  | word (read : Text)
  | symbol (read : Text)
  | quoted (q : Char) (read : Text)
  | escaped (q : Char) (read : Text)
  /-- Behind a quote that is the last one if no other follows. -/
  | shut (q : Char) (read : Text)
deriving DecidableEq, Repr

variable (s : Spelling)

/-- The token at the end of a text. -/
def flush : Cursor → Option (List Token)
  | .between => some []
  | .word read => some [.word read]
  | .symbol read => some [.symbol read]
  | .shut q read => some [.quoted q read]
  | .quoted _ _ | .escaped _ _ => none

/-- Whether a character belongs to the token that is being read. -/
def goesOn : Cursor → Char → Bool
  | .between, _ => false
  | .word _, c => s.classOf c = some .word
  | .symbol _, c => s.classOf c = some .symbol
  | .shut q _, c => s.classOf c = some .quote && c = q
  | .quoted _ _, _ | .escaped _ _, _ => true

/-- A character in quotes. -/
def inQuotes (q : Char) (read : Text) (c : Char) : Option (List Token × Cursor) :=
  if c = q then
    some (if s.backslash q then ([.quoted q read], .between) else ([], .shut q read))
  else if c = '\\' && s.backslash q then some ([], .escaped q read)
  else if s.plain c then some ([], .quoted q (read ++ [c]))
  else none

/-- A character that goes on with a token. -/
def extend : Cursor → Char → Option (List Token × Cursor)
  | .between, _ => none
  | .word read, c => some ([], .word (read ++ [c]))
  | .symbol read, c => some ([], .symbol (read ++ [c]))
  | .quoted q read, c => inQuotes s q read c
  | .escaped q read, c => (s.unescape c).map fun d ↦ ([], .quoted q (read ++ [d]))
  | .shut q read, c => some ([], .quoted q (read ++ [c]))

/-- A character that starts a token. -/
def start (c : Char) : Option (List Token × Cursor) :=
  (s.classOf c).map fun
    | .blank => ([], .between)
    | .word => ([], .word [c])
    | .symbol => ([], .symbol [c])
    | .punctuation => ([.punctuation c], .between)
    | .quote => ([], .quoted c [])

/-- One character. -/
def step (cur : Cursor) (c : Char) : Option (List Token × Cursor) :=
  if goesOn s cur c then extend s cur c
  else
    (flush cur).bind fun front ↦ (start s c).map fun r ↦ (front ++ r.1, r.2)

/-- The tokens that end in a text, and where the reader is behind it. -/
def run : Cursor → Text → Option (List Token × Cursor)
  | cur, [] => some ([], cur)
  | cur, c :: t => (step s cur c).bind fun r ↦ (run r.2 t).map fun r' ↦ (r.1 ++ r'.1, r'.2)

/-- What is read from a cursor on. -/
def lexFrom (cur : Cursor) (t : Text) : Option (List Token) :=
  (run s cur t).bind fun r ↦ (flush r.2).map fun last ↦ r.1 ++ last

/-- The tokens of a text. -/
def lex (t : Text) : Option (List Token) := lexFrom s .between t

variable {s}

/-! ## Parts of a text -/

theorem lexFrom_nil (cur : Cursor) : lexFrom s cur [] = flush cur := by
  cases h : flush cur with
  | none => rw [lexFrom, run, Option.bind_some, h, Option.map_none]
  | some last => rw [lexFrom, run, Option.bind_some, h, Option.map_some, List.nil_append]

theorem lexFrom_cons (cur : Cursor) (c : Char) (t : Text) :
    lexFrom s cur (c :: t) =
      (step s cur c).bind fun r ↦ (lexFrom s r.2 t).map fun ts ↦ r.1 ++ ts := by
  rw [lexFrom, run]
  cases step s cur c with
  | none => rfl
  | some r =>
      rw [Option.bind_some, Option.bind_some, lexFrom]
      cases run s r.2 t with
      | none => rfl
      | some r' =>
          rw [Option.map_some, Option.bind_some, Option.bind_some]
          cases flush r'.2 with
          | none => rfl
          | some last =>
              rw [Option.map_some, Option.map_some, Option.map_some, List.append_assoc]

theorem lex_nil : lex s [] = some [] := lexFrom_nil _

/-- A character that does not go on with a token ends it. -/
theorem lexFrom_break {cur : Cursor} {c : Char} (h : goesOn s cur c = false) (t : Text) :
    lexFrom s cur (c :: t) =
      (flush cur).bind fun front ↦ (lex s (c :: t)).map fun ts ↦ front ++ ts := by
  have hstart : step s .between c = start s c := by
    rw [step, if_neg (by exact Bool.false_ne_true), flush, Option.bind_some]
    exact congrFun Option.map_id _
  rw [lex, lexFrom_cons, lexFrom_cons, hstart, step, h, if_neg Bool.false_ne_true]
  cases flush cur with
  | none => rfl
  | some front =>
      rw [Option.bind_some, Option.bind_some]
      cases start s c with
      | none => rfl
      | some r =>
          rw [Option.map_some, Option.bind_some, Option.bind_some]
          cases lexFrom s r.2 t with
          | none => rfl
          | some ts =>
              rw [Option.map_some, Option.map_some, Option.map_some, List.append_assoc]

/-- The character starts a token behind the text, wherever the reader is then. -/
def Breaks (s : Spelling) (t : Text) (c : Char) : Prop :=
  ∀ e cur, run s .between t = some (e, cur) → (flush cur).isSome → goesOn s cur c = false

theorem lexFrom_append (cur : Cursor) (t t' : Text) :
    lexFrom s cur (t ++ t') =
      (run s cur t).bind fun r ↦ (lexFrom s r.2 t').map fun ts ↦ r.1 ++ ts := by
  induction t generalizing cur with
  | nil =>
      rw [List.nil_append, run, Option.bind_some]
      exact (congrFun Option.map_id _).symm
  | cons c t ih =>
      rw [List.cons_append, lexFrom_cons, run]
      cases step s cur c with
      | none => rfl
      | some r =>
          rw [Option.bind_some, Option.bind_some, ih]
          cases run s r.2 t with
          | none => rfl
          | some r' =>
              rw [Option.map_some, Option.bind_some, Option.bind_some]
              cases lexFrom s r'.2 t' with
              | none => rfl
              | some ts =>
                  rw [Option.map_some, Option.map_some, Option.map_some, List.append_assoc]

/-- The tokens of two parts with a break between them. -/
theorem lex_append {t t' : Text} {c : Char} {ts ts' : List Token} (h : lex s t = some ts)
    (hbreak : Breaks s t c) (h' : lex s (c :: t') = some ts') :
    lex s (t ++ c :: t') = some (ts ++ ts') := by
  rw [lex, lexFrom] at h
  obtain ⟨⟨e, cur⟩, hrun, h⟩ := Option.bind_eq_some_iff.mp h
  obtain ⟨last, hlast, rfl⟩ := Option.map_eq_some_iff.mp h
  have hon := hbreak e cur hrun (by rw [hlast]; rfl)
  rw [lex, lexFrom_append, hrun, Option.bind_some, lexFrom_break hon, hlast, Option.bind_some, h',
    Option.map_some, Option.map_some, List.append_assoc]

/-! ## Blanks and punctuation -/

theorem breaks_of_classOf {c : Char}
    (hc : s.classOf c = some .blank ∨ s.classOf c = some .punctuation) (t : Text) :
    Breaks s t c := by
  intro e cur _ hflush
  cases cur with
  | between => rfl
  | word read => rcases hc with hc | hc <;> rw [goesOn, hc] <;> rfl
  | symbol read => rcases hc with hc | hc <;> rw [goesOn, hc] <;> rfl
  | shut q read => rcases hc with hc | hc <;> rw [goesOn, hc] <;> rfl
  | quoted q read => cases hflush
  | escaped q read => cases hflush

theorem lex_blank_cons {c : Char} (hc : s.classOf c = some .blank) (t : Text) :
    lex s (c :: t) = lex s t := by
  have hstep : step s .between c = some ([], .between) := by
    rw [step, goesOn, if_neg Bool.false_ne_true, flush, Option.bind_some, start, hc]
    rfl
  rw [lex, lexFrom_cons, hstep, Option.bind_some]
  exact congrFun Option.map_id _

theorem lex_punctuation_cons {c : Char} (hc : s.classOf c = some .punctuation) (t : Text) :
    lex s (c :: t) = (lex s t).map fun ts ↦ .punctuation c :: ts := by
  have hstep : step s .between c = some ([.punctuation c], .between) := by
    rw [step, goesOn, if_neg Bool.false_ne_true, flush, Option.bind_some, start, hc]
    rfl
  rw [lex, lexFrom_cons, hstep, Option.bind_some]
  rfl

variable {t t' : Text} {ts ts' : List Token}

/-- Two parts with a blank between them. -/
theorem lex_blank {c : Char} (hc : s.classOf c = some .blank) (h : lex s t = some ts)
    (h' : lex s t' = some ts') : lex s (t ++ c :: t') = some (ts ++ ts') :=
  lex_append h (breaks_of_classOf (.inl hc) t) ((lex_blank_cons hc t').trans h')

/-- Two parts with punctuation between them. -/
theorem lex_punctuation {c : Char} (hc : s.classOf c = some .punctuation) (h : lex s t = some ts)
    (h' : lex s t' = some ts') : lex s (t ++ c :: t') = some (ts ++ .punctuation c :: ts') := by
  refine lex_append h (breaks_of_classOf (.inr hc) t) ?_
  rw [lex_punctuation_cons hc, h', Option.map_some]

/-- A part in brackets. -/
theorem lex_brackets {c d : Char} (hc : s.classOf c = some .punctuation)
    (hd : s.classOf d = some .punctuation) (h : lex s t = some ts) :
    lex s (c :: (t ++ [d])) = some (.punctuation c :: (ts ++ [.punctuation d])) := by
  rw [lex_punctuation_cons hc, lex_punctuation hd h lex_nil, Option.map_some]

/-- Parts with punctuation and a blank between them. -/
theorem lex_intercalate {c b : Char} (hc : s.classOf c = some .punctuation)
    (hb : s.classOf b = some .blank) {parts : List Text} {tokens : List (List Token)}
    (h : List.Forall₂ (fun t ts ↦ lex s t = some ts) parts tokens) :
    lex s ([c, b].intercalate parts) = some ([.punctuation c].intercalate tokens) := by
  induction h with
  | nil => exact lex_nil
  | @cons t ts parts tokens ht htail ih =>
      cases htail with
      | nil =>
          rw [List.intercalate_singleton, List.intercalate_singleton]
          exact ht
      | cons _ _ =>
          rw [List.intercalate_cons_cons, List.intercalate_cons_cons, List.append_assoc,
            List.append_assoc]
          exact lex_punctuation hc ht ((lex_blank_cons hb _).trans ih)

/-! ## Words -/

/-- A word, and nothing else. -/
structure IsWord (s : Spelling) (t : Text) : Prop where
  ne_nil : t ≠ []
  classOf : ∀ c ∈ t, s.classOf c = some .word

theorem run_word (read : Text) (h : ∀ c ∈ t, s.classOf c = some .word) :
    run s (.word read) t = some ([], .word (read ++ t)) := by
  induction t generalizing read with
  | nil => rw [run, List.append_nil]
  | cons c t ih =>
      rw [List.forall_mem_cons] at h
      have hstep : step s (.word read) c = some ([], .word (read ++ [c])) := by
        rw [step, goesOn, h.1, decide_eq_true rfl, if_pos rfl, extend]
      rw [run, hstep, Option.bind_some, ih _ h.2, List.append_assoc]
      rfl

theorem IsWord.run (h : IsWord s t) : run s .between t = some ([], .word t) := by
  cases t with
  | nil => exact absurd rfl h.ne_nil
  | cons c t =>
      have hclass := h.classOf
      rw [List.forall_mem_cons] at hclass
      have hstep : step s .between c = some ([], .word [c]) := by
        rw [step, goesOn, if_neg Bool.false_ne_true, flush, Option.bind_some, start, hclass.1]
        rfl
      rw [Lexer.run, hstep, Option.bind_some, run_word _ hclass.2]
      rfl

theorem IsWord.lex (h : IsWord s t) : lex s t = some [.word t] := by
  rw [Lexer.lex, lexFrom, h.run]
  rfl

/-- What is read behind a word. -/
theorem IsWord.lex_append (h : IsWord s t) {c : Char} (hc : s.classOf c ≠ some .word) (t' : Text) :
    Lexer.lex s (t ++ c :: t') = (Lexer.lex s (c :: t')).map fun ts ↦ .word t :: ts := by
  have hon : goesOn s (.word t) c = false := decide_eq_false hc
  rw [Lexer.lex, lexFrom_append, h.run, Option.bind_some, lexFrom_break hon, flush,
    Option.bind_some]
  exact Option.map_map _ _ _

/-- The text is one token, which is read as `a`. -/
def Denotes {α : Type} (s : Spelling) (read : Token → Option α) (t : Text) (a : α) : Prop :=
  ∃ k, Lexer.lex s t = some [k] ∧ read k = some a

/-- A key with the symbol of its operator, and with the operator that symbol is read as. -/
structure SameOperator {α : Type} (s : Spelling) (read : Text → Option α) (k : String × String)
    (c : String × α) : Prop where
  key : k.1 = c.1
  lex : Lexer.lex s k.2.toList = some [.symbol k.2.toList]
  op : read k.2.toList = some c.2

/-! ## Quotations -/

/-- A text in which a backslash stands before backslashes and quotes. -/
def escapeQuote (q : Char) (t : Text) : Text :=
  t.flatMap fun c ↦ if c = '\\' || c = q then ['\\', c] else [c]

theorem replaceQuote_eq {q : Char} (hq : q ≠ '\\') (t : Text) :
    replaceQuote q t = escapeQuote q t := by
  rw [replaceQuote, replaceChar, replaceChar, List.flatMap_assoc, escapeQuote]
  refine congrArg t.flatMap (funext fun c ↦ ?_)
  by_cases hback : c = '\\'
  · simp [hback, hq.symm]
  · by_cases hquote : c = q
    · simp [hquote, hq]
    · simp [hback, hquote]

/-- A text in which quotes are doubled. -/
def doubleQuote (q : Char) (t : Text) : Text := t.flatMap fun c ↦ if c = q then [q, q] else [c]

/-- Quotes in which a backslash stands before backslashes and quotes. -/
structure BackslashQuote (s : Spelling) (q : Char) : Prop where
  classOf : s.classOf q = some .quote
  backslash : s.backslash q = true
  unescape_quote : s.unescape q = some q
  unescape_backslash : s.unescape '\\' = some '\\'
  plain_quote : s.plain q = true
  plain_backslash : s.plain '\\' = true
  ne : q ≠ '\\'

/-- Quotes that are doubled. -/
structure DoubledQuote (s : Spelling) (q : Char) : Prop where
  classOf : s.classOf q = some .quote
  backslash : s.backslash q = false
  plain : ∀ c, s.plain c = true

theorem lex_quote_cons {q : Char} (hq : s.classOf q = some .quote) (t : Text) :
    lex s (q :: t) = lexFrom s (.quoted q []) t := by
  have hstep : step s .between q = some ([], .quoted q []) := by
    rw [step, goesOn, if_neg Bool.false_ne_true, flush, Option.bind_some, start, hq]
    rfl
  rw [lex, lexFrom_cons, hstep, Option.bind_some]
  exact congrFun Option.map_id _

theorem lexFrom_quoted_cons (q : Char) (read : Text) (c : Char) (t : Text) :
    lexFrom s (.quoted q read) (c :: t) =
      (inQuotes s q read c).bind fun r ↦ (lexFrom s r.2 t).map fun ts ↦ r.1 ++ ts := by
  rw [lexFrom_cons, step, goesOn, if_pos rfl, extend]

/-- A character that is neither a quote nor a backslash that escapes. -/
theorem lexFrom_quoted_plain {q c : Char} (hc : c ≠ q) (hback : c ≠ '\\' ∨ s.backslash q = false)
    (read t : Text) :
    lexFrom s (.quoted q read) (c :: t) =
      if s.plain c then lexFrom s (.quoted q (read ++ [c])) t else none := by
  have hstep : inQuotes s q read c =
      if s.plain c then some ([], .quoted q (read ++ [c])) else none := by
    rw [inQuotes, if_neg hc, if_neg]
    rw [Bool.and_eq_true, decide_eq_true_eq, not_and_or, Bool.not_eq_true]
    exact hback
  rw [lexFrom_quoted_cons, hstep]
  split_ifs
  · exact congrFun Option.map_id _
  · rfl

theorem BackslashQuote.lexFrom_escaped {q c : Char} (hq : BackslashQuote s q)
    (hc : s.unescape c = some c) (read t : Text) :
    lexFrom s (.quoted q read) ('\\' :: c :: t) = lexFrom s (.quoted q (read ++ [c])) t := by
  have hback : inQuotes s q read '\\' = some ([], .escaped q read) := by
    rw [inQuotes, if_neg hq.ne.symm, hq.backslash]
    rfl
  have hstep : step s (.escaped q read) c = some ([], .quoted q (read ++ [c])) := by
    rw [step, goesOn, if_pos rfl, extend, hc, Option.map_some]
  rw [lexFrom_quoted_cons, hback, Option.bind_some, lexFrom_cons, hstep, Option.bind_some]
  exact (Option.map_map _ _ _).trans (congrFun Option.map_id _)

/-- What is read behind an escaped text in quotes, if its characters may stand there. -/
theorem BackslashQuote.lexFrom {q : Char} (hq : BackslashQuote s q) (read t t' : Text) :
    lexFrom s (.quoted q read) (escapeQuote q t ++ q :: t') =
      if t.all s.plain then (lex s t').map fun ts ↦ .quoted q (read ++ t) :: ts else none := by
  induction t generalizing read with
  | nil =>
      have hend : inQuotes s q read q = some ([.quoted q read], .between) := by
        rw [inQuotes, if_pos rfl, hq.backslash, if_pos rfl]
      rw [escapeQuote, List.flatMap_nil, List.nil_append, List.append_nil, lexFrom_quoted_cons,
        hend]
      rfl
  | cons c t ih =>
      have hread : read ++ c :: t = read ++ [c] ++ t := by
        rw [List.append_assoc, List.singleton_append]
      rw [hread, escapeQuote, List.flatMap_cons, ← escapeQuote, List.append_assoc, List.all_cons]
      by_cases hc : (decide (c = '\\') || decide (c = q)) = true
      · have hescaped : s.unescape c = some c ∧ s.plain c = true := by
          rw [Bool.or_eq_true, decide_eq_true_eq, decide_eq_true_eq] at hc
          rcases hc with rfl | rfl
          · exact ⟨hq.unescape_backslash, hq.plain_backslash⟩
          · exact ⟨hq.unescape_quote, hq.plain_quote⟩
        rw [if_pos hc, hescaped.2, Bool.true_and]
        exact (hq.lexFrom_escaped hescaped.1 _ _).trans (ih _)
      · rw [if_neg hc]
        rw [Bool.or_eq_true, decide_eq_true_eq, decide_eq_true_eq, not_or] at hc
        rw [List.singleton_append, lexFrom_quoted_plain hc.2 (.inl hc.1), ih]
        cases s.plain c <;> rfl

/-- A text in quotes is one token, which stands for the text. -/
theorem BackslashQuote.lex {q : Char} (hq : BackslashQuote s q) {t : Text}
    (ht : ∀ c ∈ t, s.plain c = true) : lex s (quoteWith q t) = some [.quoted q t] := by
  rw [quoteWith, replaceQuote_eq hq.ne, lex_quote_cons hq.classOf, hq.lexFrom,
    if_pos (List.all_eq_true.mpr ht), lex_nil]
  rfl

/-- What is read behind a text with doubled quotes. -/
theorem DoubledQuote.lexFrom {q : Char} (hq : DoubledQuote s q) (read t t' : Text) :
    lexFrom s (.quoted q read) (doubleQuote q t ++ q :: t') =
      lexFrom s (.shut q (read ++ t)) t' := by
  have hshut : ∀ read, inQuotes s q read q = some ([], .shut q read) := by
    intro read
    rw [inQuotes, if_pos rfl, hq.backslash, if_neg Bool.false_ne_true]
  induction t generalizing read with
  | nil =>
      rw [doubleQuote, List.flatMap_nil, List.nil_append, List.append_nil, lexFrom_quoted_cons,
        hshut]
      exact congrFun Option.map_id _
  | cons c t ih =>
      have hread : read ++ c :: t = read ++ [c] ++ t := by
        rw [List.append_assoc, List.singleton_append]
      rw [hread, ← ih, doubleQuote, List.flatMap_cons, ← doubleQuote, List.append_assoc]
      split_ifs with hc
      · subst hc
        have hon : goesOn s (.shut c read) c = true := by
          rw [goesOn, hq.classOf, decide_eq_true rfl, decide_eq_true rfl]
          rfl
        have hstep : step s (.shut c read) c = some ([], .quoted c (read ++ [c])) := by
          rw [step, hon, if_pos rfl, extend]
        rw [List.cons_append, List.singleton_append, lexFrom_quoted_cons, hshut, Option.bind_some,
          lexFrom_cons, hstep, Option.bind_some]
        exact (Option.map_map _ _ _).trans (congrFun Option.map_id _)
      · exact (lexFrom_quoted_plain hc (.inr hq.backslash) _ _).trans (if_pos (hq.plain c))

/-- A text with doubled quotes is one token, which stands for the text. -/
theorem DoubledQuote.lex {q : Char} (hq : DoubledQuote s q) (t : Text) :
    lex s (q :: (doubleQuote q t ++ [q])) = some [.quoted q t] := by
  rw [lex_quote_cons hq.classOf, hq.lexFrom, lexFrom_nil]
  rfl

/-- A text without quotes stands in doubled quotes as it is. -/
theorem doubleQuote_of_notMem {q : Char} (h : q ∉ t) : doubleQuote q t = t := by
  induction t with
  | nil => rfl
  | cons c t ih =>
      rw [List.mem_cons, not_or] at h
      rw [doubleQuote, List.flatMap_cons, ← doubleQuote, ih h.2, if_neg (Ne.symm h.1)]
      rfl

/-! ## Texts with what follows them -/

/-- The text does not start with a character of a word. -/
def Stops (s : Spelling) (t : Text) : Prop := ∀ c ∈ t.head?, s.classOf c ≠ some .word

theorem stops_cons {c : Char} (h : s.classOf c ≠ some .word) (t : Text) : Stops s (c :: t) := by
  intro d hd
  rwa [← Option.some.inj hd]

/-- The tokens of a text, if it has any, stand before those of what follows. -/
def LexesAs (s : Spelling) (t : Text) (ts : Option (List Token)) : Prop :=
  ∀ rest, Stops s rest → lex s (t ++ rest) = ts.bind fun us ↦ (lex s rest).map fun vs ↦ us ++ vs

theorem LexesAs.lex {ts : Option (List Token)} (h : LexesAs s t ts) : Lexer.lex s t = ts := by
  have hnil := h [] fun c hc ↦ by cases hc
  rw [List.append_nil, lex_nil] at hnil
  rw [hnil]
  cases ts with
  | none => rfl
  | some us => rw [Option.bind_some, Option.map_some, List.append_nil]

theorem IsWord.lexesAs (h : IsWord s t) : LexesAs s t (some [.word t]) := by
  intro rest hrest
  cases rest with
  | nil =>
      rw [List.append_nil, h.lex, Option.bind_some, lex_nil]
      rfl
  | cons c rest =>
      rw [h.lex_append (hrest c rfl), Option.bind_some]
      rfl

theorem BackslashQuote.lexesAs {q : Char} (hq : BackslashQuote s q) (t : Text) :
    LexesAs s (quoteWith q t) (if t.all s.plain then some [.quoted q t] else none) := by
  intro rest _
  rw [quoteWith, replaceQuote_eq hq.ne, List.cons_append, List.append_assoc,
    List.singleton_append, lex_quote_cons hq.classOf, hq.lexFrom]
  split_ifs <;> rfl

/-- A name, punctuation, a blank and what stands behind them. -/
theorem LexesAs.field {k : Text} {c b : Char} {us : Option (List Token)} (hk : IsWord s k)
    (hc : s.classOf c = some .punctuation) (hb : s.classOf b = some .blank)
    (h : LexesAs s t us) :
    LexesAs s (k ++ c :: b :: t) (us.map fun ts ↦ .word k :: .punctuation c :: ts) := by
  intro rest hrest
  have hword : s.classOf c ≠ some .word := by
    rw [hc]
    decide
  rw [List.append_assoc, List.cons_append, List.cons_append, hk.lex_append hword,
    lex_punctuation_cons hc, lex_blank_cons hb, h rest hrest]
  cases us with
  | none => rfl
  | some us =>
      rw [Option.map_some, Option.bind_some, Option.bind_some, Option.map_map, Option.map_map]
      rfl

theorem LexesAs.brackets {c d : Char} {us : Option (List Token)}
    (hc : s.classOf c = some .punctuation) (hd : s.classOf d = some .punctuation)
    (h : LexesAs s t us) :
    LexesAs s (c :: (t ++ [d]))
      (us.map fun ts ↦ .punctuation c :: (ts ++ [.punctuation d])) := by
  intro rest _
  have hstops : Stops s (d :: rest) := stops_cons (by rw [hd]; decide) rest
  rw [List.cons_append, List.append_assoc, List.singleton_append, lex_punctuation_cons hc,
    h _ hstops, lex_punctuation_cons hd]
  cases us with
  | none => rfl
  | some us =>
      rw [Option.map_some, Option.bind_some, Option.bind_some, Option.map_map, Option.map_map]
      refine congrArg (fun f ↦ (Lexer.lex s rest).map f) (funext fun ts ↦ ?_)
      simp

/-- Texts with blanks between them. -/
theorem lexesAs_intercalate {c b : Char} (hc : s.classOf c = some .blank)
    (hb : s.classOf b = some .blank) {parts : List Text} {tokens : List (Option (List Token))}
    (h : List.Forall₂ (LexesAs s) parts tokens) :
    LexesAs s ([c, b].intercalate parts) ((tokens.mapM id).map List.flatten) := by
  induction h with
  | nil =>
      intro rest _
      rw [List.intercalate_nil, List.nil_append]
      exact (congrFun Option.map_id _).symm
  | @cons t us parts tokens ht htail ih =>
      rw [mapM_id_cons]
      cases htail with
      | nil =>
          rw [List.intercalate_singleton]
          have hone : (us.bind fun ts ↦ (([] : List (Option (List Token))).mapM id).map
              fun tss ↦ ts :: tss).map List.flatten = us := by
            cases us with
            | none => rfl
            | some ts => exact congrArg some (List.append_nil ts)
          rw [hone]
          exact ht
      | @cons t' us' parts tokens _ _ =>
          intro rest hrest
          have hstops : Stops s (c :: b :: ([c, b].intercalate (t' :: parts) ++ rest)) :=
            stops_cons (by rw [hc]; decide) _
          rw [List.intercalate_cons_cons, List.append_assoc, List.append_assoc]
          show Lexer.lex s (t ++ c :: b :: ([c, b].intercalate (t' :: parts) ++ rest)) = _
          rw [ht _ hstops, lex_blank_cons hc, lex_blank_cons hb, ih rest hrest]
          cases us with
          | none => rfl
          | some ts =>
              rw [Option.bind_some, Option.bind_some]
              cases (us' :: tokens).mapM id with
              | none => rfl
              | some tss =>
                  rw [Option.map_some, Option.map_some, Option.map_some, Option.bind_some,
                    Option.bind_some, Option.map_map]
                  refine congrArg (fun f ↦ (Lexer.lex s rest).map f) (funext fun vs ↦ ?_)
                  exact (List.append_assoc ts tss.flatten vs).symm

end Lexer

end Kit
