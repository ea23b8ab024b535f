import VectorDbBenchmark.Pgvector.Sql

/-!
# The clauses of a template, read back

A clause that is built for a column and a placeholder is read as one leaf, whatever the name
of the column is, as long as it has no quote.
-/

namespace VectorDbBenchmark.Pgvector

open Kit InfixSyntax

/-! ## Facts about the syntax -/

theorem standard : Standard language where
  blank := rfl
  opening := rfl
  closing := rfl
  mark_opening := rfl
  mark_closing := rfl

theorem spells_and : Spells language "AND".toList .conj := ⟨.word "AND".toList, rfl, rfl⟩

theorem spells_or : Spells language "OR".toList .disj := ⟨.word "OR".toList, rfl, rfl⟩

theorem doubledQuote {q : Char} (hq : classOf q = some .quote) : Lexer.DoubledQuote spelling q where
  classOf := hq
  backslash := rfl
  plain _ := rfl

/-- What is read behind a text in quotes. -/
theorem lex_quoted {q c : Char} (hq : classOf q = some .quote) (hc : c ≠ q) {s t : Text}
    {ks : List Token} (h : Lexer.lex spelling (c :: t) = some ks) :
    Lexer.lex spelling (q :: (Lexer.doubleQuote q s ++ q :: c :: t)) =
      some (.quoted q s :: ks) := by
  have hon : Lexer.goesOn spelling (.shut q s) c = false := by
    rw [Lexer.goesOn, decide_eq_false hc, Bool.and_false]
  rw [Lexer.lex_quote_cons hq, (doubledQuote hq).lexFrom, List.nil_append, Lexer.lexFrom_break hon,
    h]
  rfl

/-! ## Columns and placeholders -/

section Pieces

variable {field : String} {c : Char} {t : Text} {ks : List Token}

theorem lex_columnText (hfield : '"' ∉ field.toList) (hc : c ≠ '"')
    (h : Lexer.lex spelling (c :: t) = some ks) :
    Lexer.lex spelling (columnText field ++ c :: t) = some (.quoted '"' field.toList :: ks) := by
  have hquoted := lex_quoted (rfl : classOf '"' = some .quote) hc (s := field.toList) h
  rw [Lexer.doubleQuote_of_notMem hfield] at hquoted
  rwa [columnText, List.cons_append, List.append_assoc, List.singleton_append]

theorem isWord_placeholder (n : ℕ) : Lexer.IsWord spelling (placeholder n) where
  ne_nil := List.cons_ne_nil _ _
  classOf := by
    rw [placeholder, List.forall_mem_cons]
    refine ⟨rfl, fun d hd ↦ ?_⟩
    have hdigit : d.isAlphanum = true :=
      Bool.or_eq_true_iff.mpr (.inr (isDigit_of_mem_digitText hd))
    show classOf d = _
    rw [classOf, CharClass.among, hdigit]
    rfl

theorem lex_placeholder (n : ℕ) (hc : classOf c ≠ some .word)
    (h : Lexer.lex spelling (c :: t) = some ks) :
    Lexer.lex spelling (placeholder n ++ c :: t) = some (.word (placeholder n) :: ks) := by
  rw [(isWord_placeholder n).lex_append hc, h]
  rfl

@[simp] theorem readPlaceholder_placeholder (n : ℕ) :
    readPlaceholder (.word (placeholder n)) = some n := parseDigits_digitText n

/-! ## Leaves -/

/-- Tokens that must follow lead to what comes behind them. -/
theorem proceed_expecting (ks rest : List Token) (next : LeafState ⊕ Atom) :
    proceed language (ks ++ rest) (expecting ks next) = proceed language rest next := by
  induction ks with
  | nil => rfl
  | cons k ks ih =>
      rw [List.cons_append, expecting, proceed, finish_cons]
      have hstep : language.step (.expect k ks next) k = some (expecting ks next) := if_pos rfl
      rw [hstep, Option.bind_some]
      exact ih

/-- A token behind which others must follow. -/
theorem finish_expecting {st : LeafState} {k : Token} {ks : List Token} {next : LeafState ⊕ Atom}
    (h : language.step st k = some (expecting ks next)) (rest : List Token) :
    finish language st (k :: (ks ++ rest)) = proceed language rest next := by
  rw [finish_cons, h, Option.bind_some, proceed_expecting]

theorem finish_expecting_end {st : LeafState} {k : Token} {ks : List Token} {a : Atom}
    (h : language.step st k = some (expecting ks (.inr a))) :
    finish language st (k :: ks) = some a := by
  have hend := finish_expecting h []
  rw [List.append_nil] at hend
  exact hend

theorem mark_quoted (q : Char) (s : Text) : language.mark (.quoted q s) = none := rfl

theorem mark_placeholder (n : ℕ) : language.mark (.word (placeholder n)) = none := rfl

theorem readLeaf_column (f : Text) (ks : List Token) :
    readLeaf language (.quoted '"' f :: ks) = finish language (.column f) ks :=
  readLeaf_of_begin rfl ks

/-- A comparison, up to its operand. -/
theorem readLeaf_operand {op : Text} {cmp : Comparison} (hop : readComparison op = some cmp)
    (f : Text) (k : Token) (ks : List Token) :
    readLeaf language (.quoted '"' f :: .symbol op :: k :: ks) =
      (readOperand f cmp k).bind (proceed language ks) := by
  have hstep : language.step (.column f) (.symbol op) = some (.inl (.operand f cmp)) := by
    show (readComparison op).map _ = _
    rw [hop]
    rfl
  rw [readLeaf_column, finish_of_step hstep, finish_cons]
  rfl

theorem readOperand_placeholder (f : Text) (cmp : Comparison) (n : ℕ) :
    readOperand f cmp (.word (placeholder n)) = some (.inr (.compare f cmp n)) := by
  have hany : (decide (Token.word (placeholder n) = .word "ANY".toList) && decide (cmp = .eq)) =
      false := by
    rw [Bool.and_eq_false_iff]
    left
    rw [decide_eq_false_iff_not, placeholder]
    simp
  rw [readOperand, hany, if_neg Bool.false_ne_true, readPlaceholder_placeholder]
  · rfl
  · intro q t h
    cases h

theorem lex_binaryText (hfield : '"' ∉ field.toList) {op : String}
    (hop : Lexer.lex spelling op.toList = some [.symbol op.toList])
    (h : Lexer.lex spelling t = some ks) :
    Lexer.lex spelling (binaryText field op t) =
      some (.quoted '"' field.toList :: .symbol op.toList :: ks) := by
  have hblank : Lexer.lex spelling (op.toList ++ ' ' :: t) = some (.symbol op.toList :: ks) :=
    Lexer.lex_blank rfl hop h
  have hrest : Lexer.lex spelling (' ' :: (op.toList ++ ' ' :: t)) =
      some (.symbol op.toList :: ks) := (Lexer.lex_blank_cons rfl _).trans hblank
  exact lex_columnText hfield (by decide) hrest

end Pieces

/-! ## What the clauses say -/

section Says

variable {instant : Text → Option ℚ} {b : ℕ → Option PgValue} {field : String} {n : ℕ}

/-- A text that is read as operands with this truth at each row, where `b` are the values of
the placeholders. -/
abbrev SaysRow (instant : Text → Option ℚ) (b : ℕ → Option PgValue) (truth : Row → Bool)
    (t : Text) :
    Prop :=
  Says language (Atom.holds instant) (fun a ↦ a.1 = b) (fun a ↦ truth a.2) t

theorem says_binaryText (hfield : '"' ∉ field.toList) {op : String} {cmp : Comparison}
    (hlex : Lexer.lex spelling op.toList = some [.symbol op.toList])
    (hop : readComparison op.toList = some cmp) {v : PgValue} (hv : b n = some v) :
    SaysRow instant b (fun row ↦ (row field.toList).any fun c ↦ c.compares cmp v)
      (binaryText field op (placeholder n)) := by
  refine says_leaf (lex_binaryText hfield hlex (isWord_placeholder n).lex) (mark_quoted _ _)
    (l := .compare field.toList cmp n) ?_ ?_
  · rw [readLeaf_operand hop, readOperand_placeholder]
    rfl
  · rintro ⟨b', row⟩ (rfl : b' = b)
    show ((row field.toList).any fun c ↦ (b' n).any (c.compares cmp)) = _
    rw [hv]
    rfl

theorem says_timestamp (hfield : '"' ∉ field.toList) {op : String} {cmp : Comparison}
    (hlex : Lexer.lex spelling op.toList = some [.symbol op.toList])
    (hop : readComparison op.toList = some cmp) (s : String) :
    SaysRow instant b (fun row ↦ (row field.toList).any fun
        | .timestamp x => (instant s.toList).any (cmp.holds x)
        | _ => false)
      (binaryText field op (timestampText s)) := by
  have hquotes : replaceChar '\'' ['\'', '\''] s.toList = Lexer.doubleQuote '\'' s.toList := rfl
  have hcast : Lexer.lex spelling "::timestamptz".toList = some (tokens "::timestamptz") := rfl
  have hstring : Lexer.lex spelling (timestampText s) =
      some (.quoted '\'' s.toList :: tokens "::timestamptz") := by
    rw [timestampText, hquotes]
    exact lex_quoted rfl (by decide) hcast
  refine says_leaf (lex_binaryText hfield hlex hstring) (mark_quoted _ _)
    (l := .compareTime field.toList cmp s.toList) ?_ fun _ _ ↦ rfl
  have hoperand : readOperand field.toList cmp (.quoted '\'' s.toList) =
      some (expecting (tokens "::timestamptz") (.inr (.compareTime field.toList cmp s.toList))) :=
    rfl
  rw [readLeaf_operand hop, hoperand, Option.bind_some]
  have hend := proceed_expecting (tokens "::timestamptz") []
    (.inr (.compareTime field.toList cmp s.toList))
  rwa [List.append_nil] at hend

/-- The tokens of a cast to an array of numbers. -/
theorem finish_anyType {type : String} (htype : type = "bigint" ∨ type = "double precision")
    (f : Text) (n : ℕ) :
    ∃ ks, Lexer.lex spelling ("::".toList ++ type.toList ++ "[])".toList) =
        some (tokens "::" ++ ks) ∧
      finish language (.anyType f n) ks = some (.isAny f n) := by
  rcases htype with rfl | rfl
  · refine ⟨.word "bigint".toList :: tokens "[])", rfl, ?_⟩
    exact finish_expecting_end rfl
  · refine ⟨.word "double".toList :: tokens "precision[])", rfl, ?_⟩
    exact finish_expecting_end rfl

theorem says_anyText (hfield : '"' ∉ field.toList) {type : String}
    (htype : type = "bigint" ∨ type = "double precision") {v : PgValue} (hv : b n = some v) :
    SaysRow instant b (fun row ↦ (row field.toList).any fun
        | .number x => v.numbers.contains x
        | _ => false)
      (anyText field type (placeholder n)) := by
  obtain ⟨ks, hcast, hfinish⟩ := finish_anyType htype field.toList n
  have hparam : Lexer.lex spelling (placeholder n ++ ("::".toList ++ type.toList ++ "[])".toList)) =
      some (.word (placeholder n) :: (tokens "::" ++ ks)) :=
    lex_placeholder n (by decide) hcast
  have hany : Lexer.lex spelling (" = ANY".toList ++ '(' ::
      (placeholder n ++ ("::".toList ++ type.toList ++ "[])".toList))) =
      some (tokens "= ANY" ++ .punctuation '(' :: .word (placeholder n) :: (tokens "::" ++ ks)) :=
    Lexer.lex_punctuation rfl rfl hparam
  have htext : anyText field type (placeholder n) = columnText field ++ (" = ANY".toList ++ '(' ::
      (placeholder n ++ ("::".toList ++ type.toList ++ "[])".toList))) := by
    simp only [anyText, List.append_assoc]
    rfl
  rw [htext]
  refine says_leaf (lex_columnText hfield (by decide) hany) (mark_quoted _ _)
    (l := .isAny field.toList n) ?_ ?_
  · have hop : language.step (.column field.toList) (.symbol "=".toList) =
        some (.inl (.operand field.toList .eq)) := rfl
    have hopen : language.step (.operand field.toList .eq) (.word "ANY".toList) =
        some (expecting (tokens "(") (.inl (.anyParam field.toList))) := rfl
    have hnumber : language.step (.anyParam field.toList) (.word (placeholder n)) =
        some (expecting (tokens "::") (.inl (.anyType field.toList n))) := by
      show (readPlaceholder _).map _ = _
      rw [readPlaceholder_placeholder]
      rfl
    show readLeaf language (.quoted '"' field.toList :: .symbol "=".toList :: .word "ANY".toList ::
      (tokens "(" ++ .word (placeholder n) :: (tokens "::" ++ ks))) = _
    rw [readLeaf_column, finish_of_step hop, finish_expecting hopen]
    show finish language (.anyParam field.toList) _ = _
    rw [finish_expecting hnumber]
    exact hfinish
  · rintro ⟨b', row⟩ (rfl : b' = b)
    rw [Atom.holds]
    dsimp only
    congr 1
    funext c
    cases c <;> simp [hv]

theorem append_bracket (name inside close rest : Text) :
    (name ++ ['(']) ++ inside ++ close ++ rest =
      name ++ '(' :: (inside ++ (close ++ rest)) := by
  simp

/-- A column that is split, with what stands around it. -/
theorem lex_splitText (hfield : '"' ∉ field.toList) {c : Char} {t : Text} {ks : List Token}
    (h : Lexer.lex spelling (c :: t) = some ks) (hc : classOf c = some .blank ∨ c = ')') :
    Lexer.lex spelling (splitText field ++ c :: t) =
      some (.word "string_to_array".toList :: (tokens "(" ++
        .quoted '"' field.toList :: (tokens ", ';')" ++ ks))) := by
  have hbreak : Lexer.Breaks spelling ", ';')".toList c := by
    apply Lexer.breaks_of_classOf
    rcases hc with hc | rfl
    · exact .inl hc
    · exact .inr rfl
  have hclose : Lexer.lex spelling ", ';')".toList = some (tokens ", ';')") := rfl
  have htail : Lexer.lex spelling (", ';')".toList ++ c :: t) = some (tokens ", ';')" ++ ks) :=
    Lexer.lex_append hclose hbreak h
  have hcolumn : Lexer.lex spelling (columnText field ++ (", ';')".toList ++ c :: t)) =
      some (.quoted '"' field.toList :: (tokens ", ';')" ++ ks)) :=
    lex_columnText hfield (by decide) htail
  have hsplit : splitText field =
      ("string_to_array".toList ++ ['(']) ++ columnText field ++ ", ';')".toList := rfl
  have hname : Lexer.lex spelling "string_to_array".toList =
      some [.word "string_to_array".toList] := rfl
  rw [hsplit, append_bracket]
  exact Lexer.lex_punctuation rfl hname hcolumn

theorem holds_texts {v : PgValue} (hv : b n = some v) (row : Row) (f : Text) :
    ((row f).any fun
      | .text s => (b n).any fun v ↦ v.texts.any (stringToArray s).contains
      | _ => false) =
    (row f).any fun
      | .text s => v.texts.any (stringToArray s).contains
      | _ => false := by
  congr 1
  funext c
  cases c <;> simp [hv]

theorem says_overlaps (hfield : '"' ∉ field.toList) {v : PgValue} (hv : b n = some v) :
    SaysRow instant b (fun row ↦ (row field.toList).any fun
        | .text s => v.texts.any (stringToArray s).contains
        | _ => false)
      (splitText field ++ " && ".toList ++ placeholder n ++ "::text[]".toList) := by
  have hparam : Lexer.lex spelling (placeholder n ++ "::text[]".toList) =
      some (.word (placeholder n) :: tokens "::text[]") := lex_placeholder n (by decide) rfl
  have hoverlap : Lexer.lex spelling (" &&".toList ++ ' ' :: (placeholder n ++ "::text[]".toList)) =
      some (tokens "&&" ++ .word (placeholder n) :: tokens "::text[]") :=
    Lexer.lex_blank rfl rfl hparam
  have htext : splitText field ++ " && ".toList ++ placeholder n ++ "::text[]".toList =
      splitText field ++ (" &&".toList ++ ' ' :: (placeholder n ++ "::text[]".toList)) := by
    simp only [List.append_assoc]
    rfl
  rw [htext]
  refine says_leaf (lex_splitText hfield hoverlap (.inl rfl)) rfl
    (l := .overlaps field.toList n) ?_ ?_
  · have hcolumn : language.step .splitColumn (.quoted '"' field.toList) =
        some (expecting (tokens ", ';') &&") (.inl (.splitParam field.toList))) := rfl
    have hnumber : language.step (.splitParam field.toList) (.word (placeholder n)) =
        some (expecting (tokens "::text[]") (.inr (.overlaps field.toList n))) := by
      show (readPlaceholder _).map _ = _
      rw [readPlaceholder_placeholder]
      rfl
    have hbegin : language.begin (.word "string_to_array".toList) =
        some (expecting (tokens "(") (.inl .splitColumn)) := rfl
    rw [readLeaf_cons, hbegin, Option.bind_some, proceed_expecting]
    show finish language .splitColumn (.quoted '"' field.toList :: (tokens ", ';') &&" ++
      .word (placeholder n) :: tokens "::text[]")) = _
    rw [finish_expecting hcolumn]
    exact finish_expecting_end hnumber
  · rintro ⟨b', row⟩ (rfl : b' = b)
    exact holds_texts hv row field.toList

theorem says_hasElement (hfield : '"' ∉ field.toList) {v : PgValue} (hv : b n = some v) :
    SaysRow instant b (fun row ↦ (row field.toList).any fun
        | .text s => v.texts.any (stringToArray s).contains
        | _ => false)
      (placeholder n ++ " = ANY(".toList ++ splitText field ++ [')']) := by
  have hsplit := lex_splitText hfield (rfl : Lexer.lex spelling [')'] = some (tokens ")"))
    (.inr rfl)
  have hany : Lexer.lex spelling (" = ANY".toList ++ '(' :: (splitText field ++ [')'])) =
      some (tokens "= ANY" ++ .punctuation '(' :: .word "string_to_array".toList :: (tokens "(" ++
        .quoted '"' field.toList :: (tokens ", ';')" ++ tokens ")"))) :=
    Lexer.lex_punctuation rfl rfl hsplit
  have htext : placeholder n ++ " = ANY(".toList ++ splitText field ++ [')'] =
      placeholder n ++ (" = ANY".toList ++ '(' :: (splitText field ++ [')'])) := by
    simp only [List.append_assoc]
    rfl
  rw [htext]
  refine says_leaf (lex_placeholder n (by decide) hany) (mark_placeholder n)
    (l := .hasElement field.toList n) ?_ ?_
  · have hbegin : language.begin (.word (placeholder n)) =
        some (expecting (tokens "= ANY(string_to_array(") (.inl (.elementColumn n))) := by
      show beginLeaf (.word (placeholder n)) = _
      rw [beginLeaf, if_neg (by simp [placeholder]), if_neg (by simp [placeholder]),
        readPlaceholder_placeholder]
      rfl
    have hcolumn : language.step (.elementColumn n) (.quoted '"' field.toList) =
        some (expecting (tokens ", ';'))") (.inr (.hasElement field.toList n))) := rfl
    show readLeaf language (.word (placeholder n) :: (tokens "= ANY(string_to_array(" ++
      .quoted '"' field.toList :: tokens ", ';'))")) = _
    rw [readLeaf_cons, hbegin, Option.bind_some, proceed_expecting]
    exact finish_expecting_end hcolumn
  · rintro ⟨b', row⟩ (rfl : b' = b)
    exact holds_texts hv row field.toList

theorem says_false : SaysRow instant b (fun _ ↦ false) "false".toList :=
  says_leaf (rfl : Lexer.lex spelling "false".toList = some [.word "false".toList]) rfl
    (l := .never) rfl fun _ _ ↦ rfl

end Says

end VectorDbBenchmark.Pgvector
