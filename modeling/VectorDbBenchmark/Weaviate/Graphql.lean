import VectorDbBenchmark.Kit.NestedLiteral
import VectorDbBenchmark.NumberText

/-!
# GraphQL literals

`json_to_graphql_literal` writes a JSON value as a GraphQL literal, in which the value under
`operator` is an enum.  What is written is read as the value if and only if the value can be
written at all: its strings have no line terminators and its keys are names.
-/

namespace VectorDbBenchmark.Weaviate

open Kit Literal

/-! ## The writer -/

def quoteText (s : String) : Text := quoteWith '"' s.toList

section Writer

variable (numberText : Number → Text)

mutual

def jsonToGraphqlLiteral : Json → Text
  | .object map => '\x7b' :: ([',', ' '].intercalate (fieldTexts map) ++ ['\x7d'])
  | .array arr => '[' :: ([',', ' '].intercalate (itemTexts arr) ++ [']'])
  | .string s => quoteText s
  | .number n => numberText n
  | .bool b => (if b then "true" else "false").toList
  | .null => "null".toList

def fieldTexts : List (String × Json) → List Text
  | [] => []
  | (k, v) :: map =>
    (k.toList ++ ':' :: ' ' ::
      (if k = "operator" then (v.asStr.getD "").toList else jsonToGraphqlLiteral v)) ::
        fieldTexts map

def itemTexts : List Json → List Text
  | [] => []
  | v :: arr => jsonToGraphqlLiteral v :: itemTexts arr

end

end Writer

/-! ## The language -/

def isNameChar (c : Char) : Bool := c.isAlphanum || c = '_'

/-- Blanks and commas only separate. -/
def classOf (c : Char) : Option CharClass :=
  if isNameChar c || c = '.' || c = '+' || c = '-' then some .word
  else if c = ' ' || c = '\t' || c = '\n' || c = '\r' || c = ',' || c = '\uFEFF' then some .blank
  else if "!$&():=@[]\x7b|\x7d".toList.contains c then some .punctuation
  else if c = '"' then some .quote
  else none

/-- The escapes of one character. -/
def unescape (c : Char) : Option Char :=
  if c = '"' || c = '\\' || c = '/' then some c
  else if c = 'b' then some '\x08'
  else if c = 'f' then some '\x0c'
  else if c = 'n' then some '\n'
  else if c = 'r' then some '\r'
  else if c = 't' then some '\t'
  else none

/-- A string literal ends before a line does. -/
def isPlain (c : Char) : Bool := c ≠ '\n' && c ≠ '\r'

def spelling : Spelling := ⟨classOf, fun _ ↦ true, unescape, isPlain⟩

def isName : Text → Bool
  | [] => false
  | c :: t => (c.isAlpha || c = '_') && t.all isNameChar

def isEnumName (t : Text) : Bool :=
  isName t && t ≠ "true".toList && t ≠ "false".toList && t ≠ "null".toList

inductive Scalar where
  | text (s : Text)
  | number (q : ℚ)
  | bool (b : Bool)
  | null
  | enum (name : Text)
deriving DecidableEq, Repr

/-- A word that starts with a digit or a minus is a number, any other word a name. -/
def readWord (t : Text) : Option Scalar :=
  if t.head?.any fun c ↦ c.isDigit || c = '-' then (readNumber t).map .number
  else if t = "true".toList then some (.bool true)
  else if t = "false".toList then some (.bool false)
  else if t = "null".toList then some .null
  else if isName t then some (.enum t)
  else none

def readScalar : Token → Option Scalar
  | .quoted _ t => some (.text t)
  | .word t => readWord t
  | _ => none

def graphql : Dialect Scalar := ⟨spelling, isName, readScalar⟩

mutual

/-- The literal that denotes a value. -/
def literal : Json → Literal Scalar
  | .object es => .object (literalIn es)
  | .array vs => .list (literalEach vs)
  | .string s => .leaf (.text s.toList)
  | .number n => .leaf (.number n.value)
  | .bool b => .leaf (.bool b)
  | .null => .leaf .null

def literalIn : List (String × Json) → List (Text × Literal Scalar)
  | [] => []
  | (k, v) :: es =>
    (k.toList, if k = "operator" then .leaf (.enum (v.asStr.getD "").toList) else literal v) ::
      literalIn es

def literalEach : List Json → List (Literal Scalar)
  | [] => []
  | v :: vs => literal v :: literalEach vs

end

mutual

/-- Whether a value can be written as a literal. -/
def isWritable : Json → Bool
  | .object es => isWritableIn es
  | .array vs => isWritableEach vs
  | .string s => s.toList.all isPlain
  | _ => true

def isWritableIn : List (String × Json) → Bool
  | [] => true
  | (k, v) :: es =>
    isName k.toList &&
      (if k = "operator" then isEnumName (v.asStr.getD "").toList else isWritable v) &&
      isWritableIn es

def isWritableEach : List Json → Bool
  | [] => true
  | v :: vs => isWritable v && isWritableEach vs

end

/-! ## Words and strings -/

theorem backslashQuote : Lexer.BackslashQuote spelling '"' where
  classOf := rfl
  backslash := rfl
  unescape_quote := rfl
  unescape_backslash := rfl
  plain_quote := rfl
  plain_backslash := rfl
  ne := by decide

theorem lexesAs_quoteText (s : String) :
    Lexer.LexesAs spelling (quoteText s)
      (if s.toList.all isPlain then some [.quoted '"' s.toList] else none) :=
  backslashQuote.lexesAs s.toList

theorem classOf_of_isNameChar {c : Char} (h : isNameChar c = true) : classOf c = some .word := by
  refine if_pos ?_
  rw [h]
  rfl

theorem isWord_of_isName {t : Text} (h : isName t = true) : Lexer.IsWord spelling t := by
  cases t with
  | nil => cases h
  | cons c t =>
      rw [isName, Bool.and_eq_true] at h
      refine ⟨List.cons_ne_nil c t, List.forall_mem_cons.mpr ⟨?_, fun d hd ↦ ?_⟩⟩
      · refine classOf_of_isNameChar ?_
        rw [isNameChar, Bool.or_eq_true]
        exact (Bool.or_eq_true_iff.mp h.1).imp_left fun halpha ↦
          Bool.or_eq_true_iff.mpr (.inl halpha)
      · exact classOf_of_isNameChar (List.all_eq_true.mp h.2 d hd)

theorem numeralWords : NumeralWords spelling where
  digit c h := by
    have hdigit : c.isAlphanum = true := Bool.or_eq_true_iff.mpr (.inr h)
    refine classOf_of_isNameChar ?_
    rw [isNameChar, hdigit, Bool.true_or]
  mark := by
    simp only [List.forall_mem_cons]
    exact ⟨rfl, rfl, rfl, rfl, rfl, List.forall_mem_nil _⟩

theorem readWord_numberText {numberText : Number → Text} (h : Prints numberText) {n : Number}
    (hn : n.Represented) : readWord (numberText n) = some (.number n.value) := by
  obtain ⟨c, t, ht, hc⟩ := h.head n
  have hread := h.read n hn
  rw [ht] at hread ⊢
  rw [readWord, List.head?_cons, Option.any_some, if_pos hc, hread, Option.map_some]

/-- A letter or an underscore starts no number. -/
theorem readWord_of_isEnumName {t : Text} (h : isEnumName t = true) :
    readWord t = some (.enum t) := by
  rw [isEnumName, Bool.and_eq_true, Bool.and_eq_true, Bool.and_eq_true, decide_eq_true_eq,
    decide_eq_true_eq, decide_eq_true_eq] at h
  obtain ⟨⟨⟨hname, htrue⟩, hfalse⟩, hnull⟩ := h
  have hhead : ¬(t.head?.any fun c ↦ c.isDigit || c = '-') = true := by
    cases t with
    | nil => cases hname
    | cons c t =>
        rw [isName, Bool.and_eq_true, Bool.or_eq_true] at hname
        rw [List.head?_cons, Option.any_some, Bool.or_eq_true, decide_eq_true_eq, not_or]
        rcases hname.1 with halpha | hc
        · have hcode : (65 ≤ c.toNat ∧ c.toNat ≤ 90) ∨ (97 ≤ c.toNat ∧ c.toNat ≤ 122) :=
            (Bool.or_eq_true_iff.mp halpha).imp toNat_of_isUpper toNat_of_isLower
          refine ⟨fun hdigit ↦ ?_, ?_⟩
          · have hrange := toNat_of_isDigit hdigit
            omega
          · rintro rfl
            simp at hcode
        · rw [of_decide_eq_true hc]
          decide
  rw [readWord, if_neg hhead, if_neg htrue, if_neg hfalse, if_neg hnull, if_pos hname]

/-- An enum is read from its name. -/
theorem isEnumName_of_readScalar {k : Token} {t : Text} (h : readScalar k = some (.enum t)) :
    isEnumName t = true := by
  cases k with
  | word w =>
      rw [readScalar, readWord] at h
      split_ifs at h with _ htrue hfalse hnull hname
      · obtain ⟨q, -, hq⟩ := Option.map_eq_some_iff.mp h
        cases hq
      · cases h
      · cases h
      · cases h
      · cases h
        rw [isEnumName, hname, decide_eq_true htrue, decide_eq_true hfalse, decide_eq_true hnull]
        rfl
  | symbol _ => cases h
  | punctuation _ => cases h
  | quoted _ _ => cases h

/-! ## Reading what is written -/

section Reading

variable (numberText : Number → Text)

mutual

/-- The tokens of the literal that is written for a value; none if a string holds a line
terminator. -/
def literalTokens : Json → Option (List Token)
  | .object es => ((tokensIn es).mapM id).map fun tss ↦
    .punctuation '\x7b' :: (tss.flatten ++ [.punctuation '\x7d'])
  | .array vs => ((tokensEach vs).mapM id).map fun tss ↦
    .punctuation '[' :: (tss.flatten ++ [.punctuation ']'])
  | .string s => if s.toList.all isPlain then some [.quoted '"' s.toList] else none
  | .number n => some [.word (numberText n)]
  | .bool b => some [.word (if b then "true" else "false").toList]
  | .null => some [.word "null".toList]

def tokensIn : List (String × Json) → List (Option (List Token))
  | [] => []
  | (k, v) :: es =>
    ((if k = "operator" then some [.word (v.asStr.getD "").toList] else literalTokens v).map
      fun ts ↦ .word k.toList :: .punctuation ':' :: ts) :: tokensIn es

def tokensEach : List Json → List (Option (List Token))
  | [] => []
  | v :: vs => literalTokens v :: tokensEach vs

end

variable {numberText}

theorem lexesAs_bool (b : Bool) :
    Lexer.LexesAs spelling (if b then "true" else "false").toList
      (some [.word (if b then "true" else "false").toList]) := by
  cases b with
  | true => exact Lexer.IsWord.lexesAs ⟨by decide, forall_mem_of_all (by decide)⟩
  | false => exact Lexer.IsWord.lexesAs ⟨by decide, forall_mem_of_all (by decide)⟩

theorem Lexes.list {c d : Char} (hc : spelling.classOf c = some .punctuation)
    (hd : spelling.classOf d = some .punctuation) {texts : List Text}
    {tokens : List (Option (List Token))}
    (h : List.Forall₂ (Lexer.LexesAs spelling) texts tokens) :
    Lexer.LexesAs spelling (c :: ([',', ' '].intercalate texts ++ [d]))
      ((tokens.mapM id).map fun tss ↦ .punctuation c :: (tss.flatten ++ [.punctuation d])) := by
  have hinner := Lexer.lexesAs_intercalate (c := ',') (b := ' ') rfl rfl h
  have hlist := Lexer.LexesAs.brackets hc hd hinner
  rwa [Option.map_map] at hlist

mutual

/-- The literal of a value whose names are names is lexed as its tokens. -/
theorem lexesAs_literal (hprint : Prints numberText) {v : Json}
    (hv : (literal v).Valid graphql) :
    Lexer.LexesAs spelling (jsonToGraphqlLiteral numberText v) (literalTokens numberText v) := by
  match v with
  | .object es =>
      rw [literal, Valid] at hv
      rw [jsonToGraphqlLiteral, literalTokens]
      exact Lexes.list rfl rfl (lexesAs_in hprint hv)
  | .array vs =>
      rw [literal, Valid] at hv
      rw [jsonToGraphqlLiteral, literalTokens]
      exact Lexes.list rfl rfl (lexesAs_each hprint hv)
  | .string s =>
      rw [jsonToGraphqlLiteral, literalTokens]
      exact lexesAs_quoteText s
  | .number n =>
      rw [jsonToGraphqlLiteral, literalTokens]
      exact (numeralWords.isWord_numberText hprint n).lexesAs
  | .bool b =>
      rw [jsonToGraphqlLiteral, literalTokens]
      exact lexesAs_bool b
  | .null =>
      rw [jsonToGraphqlLiteral, literalTokens]
      exact Lexer.IsWord.lexesAs ⟨by decide, forall_mem_of_all (by decide)⟩

theorem lexesAs_in (hprint : Prints numberText) {es : List (String × Json)}
    (hes : ValidIn graphql (literalIn es)) :
    List.Forall₂ (Lexer.LexesAs spelling) (fieldTexts numberText es) (tokensIn numberText es) := by
  match es with
  | [] =>
      rw [fieldTexts, tokensIn]
      exact .nil
  | (k, v) :: es =>
      rw [literalIn, ValidIn] at hes
      obtain ⟨hname, hvalue, hrest⟩ := hes
      rw [fieldTexts, tokensIn]
      refine .cons (Lexer.LexesAs.field (isWord_of_isName hname) rfl rfl ?_)
        (lexesAs_in hprint hrest)
      split_ifs at hvalue ⊢ with hk
      · obtain ⟨tok, htok⟩ := hvalue
        have henum := isEnumName_of_readScalar htok
        rw [isEnumName, Bool.and_eq_true, Bool.and_eq_true, Bool.and_eq_true] at henum
        exact (isWord_of_isName henum.1.1.1).lexesAs
      · exact lexesAs_literal hprint hvalue

theorem lexesAs_each (hprint : Prints numberText) {vs : List Json}
    (hvs : ValidEach graphql (literalEach vs)) :
    List.Forall₂ (Lexer.LexesAs spelling) (itemTexts numberText vs)
      (tokensEach numberText vs) := by
  match vs with
  | [] =>
      rw [itemTexts, tokensEach]
      exact .nil
  | v :: vs =>
      rw [literalEach, ValidEach] at hvs
      rw [itemTexts, tokensEach]
      exact .cons (lexesAs_literal hprint hvs.1) (lexesAs_each hprint hvs.2)

end

theorem reads_scalar {k : Token} {a : Scalar} (h : readScalar k = some a) :
    (leaf a).Valid graphql ∧ Reads graphql [k] (leaf a) := by
  have hvalid : (leaf a).Valid graphql := by
    rw [Valid]
    exact ⟨k, h⟩
  refine ⟨hvalid, reads_leaf ?_ h⟩
  rintro c rfl
  cases h

mutual

/-- A value that can be written is read from its tokens. -/
theorem reads_literal (hprint : Prints numberText) {v : Json}
    (hfloats : ∀ q ∈ v.floats, F64.IsValue q) (hv : isWritable v = true) :
    (literal v).Valid graphql ∧
      ∃ ts, literalTokens numberText v = some ts ∧ Reads graphql ts (literal v) := by
  match v with
  | .object es =>
      rw [isWritable] at hv
      obtain ⟨hvalid, tss, htss, hreads⟩ := reads_in hprint hfloats hv
      rw [literal, Valid, literalTokens, mapM_id_eq_some.mpr htss]
      exact ⟨hvalid, _, rfl, reads_object hreads⟩
  | .array vs =>
      rw [isWritable] at hv
      obtain ⟨hvalid, tss, htss, hreads⟩ := reads_each hprint hfloats hv
      rw [literal, Valid, literalTokens, mapM_id_eq_some.mpr htss]
      exact ⟨hvalid, _, rfl, reads_list hreads⟩
  | .string s =>
      rw [isWritable] at hv
      obtain ⟨hvalid, hreads⟩ := reads_scalar (k := .quoted '"' s.toList) rfl
      rw [literal, literalTokens, if_pos hv]
      exact ⟨hvalid, _, rfl, hreads⟩
  | .number n =>
      obtain ⟨hvalid, hreads⟩ :=
        reads_scalar (k := .word (numberText n)) (readWord_numberText hprint hfloats)
      rw [literal, literalTokens]
      exact ⟨hvalid, _, rfl, hreads⟩
  | .bool b =>
      have hread : readWord (if b then "true" else "false").toList = some (.bool b) := by
        cases b <;> rfl
      obtain ⟨hvalid, hreads⟩ := reads_scalar (k := .word _) hread
      rw [literal, literalTokens]
      exact ⟨hvalid, _, rfl, hreads⟩
  | .null =>
      obtain ⟨hvalid, hreads⟩ := reads_scalar (k := .word "null".toList) rfl
      rw [literal, literalTokens]
      exact ⟨hvalid, _, rfl, hreads⟩

theorem reads_in (hprint : Prints numberText) {es : List (String × Json)}
    (hfloats : ∀ q ∈ Json.floatsIn es, F64.IsValue q) (hes : isWritableIn es = true) :
    ValidIn graphql (literalIn es) ∧ ∃ tss, tokensIn numberText es = tss.map some ∧
      List.Forall₂ (ReadsField graphql) tss (literalIn es) := by
  match es with
  | [] =>
      rw [literalIn, tokensIn]
      exact ⟨trivial, [], rfl, .nil⟩
  | (k, v) :: es =>
      rw [isWritableIn, Bool.and_eq_true, Bool.and_eq_true] at hes
      obtain ⟨⟨hname, hvalue⟩, hrest⟩ := hes
      rw [Json.floatsIn, List.forall_mem_append] at hfloats
      obtain ⟨hvalid, tss, htss, hreads⟩ := reads_in hprint hfloats.2 hrest
      rw [literalIn, ValidIn, tokensIn, htss]
      have hmember : (if k = "operator" then .leaf (.enum (v.asStr.getD "").toList)
            else literal v : Literal Scalar).Valid graphql ∧
          ∃ ts, (if k = "operator" then some [.word (v.asStr.getD "").toList]
            else literalTokens numberText v) = some ts ∧ Reads graphql ts
              (if k = "operator" then .leaf (.enum (v.asStr.getD "").toList) else literal v) := by
        split_ifs at hvalue ⊢ with hk
        · obtain ⟨hvalid, hreads⟩ := reads_scalar (k := .word _) (readWord_of_isEnumName hvalue)
          exact ⟨hvalid, _, rfl, hreads⟩
        · exact reads_literal hprint hfloats.1 hvalue
      obtain ⟨hvalue, ts, hts, hread⟩ := hmember
      refine ⟨⟨hname, hvalue, hvalid⟩, _ :: tss, ?_, .cons ⟨hname, ts, rfl, hread⟩ hreads⟩
      rw [hts]
      rfl

theorem reads_each (hprint : Prints numberText) {vs : List Json}
    (hfloats : ∀ q ∈ Json.floatsEach vs, F64.IsValue q) (hvs : isWritableEach vs = true) :
    ValidEach graphql (literalEach vs) ∧ ∃ tss, tokensEach numberText vs = tss.map some ∧
      List.Forall₂ (Reads graphql) tss (literalEach vs) := by
  match vs with
  | [] =>
      rw [literalEach, tokensEach]
      exact ⟨trivial, [], rfl, .nil⟩
  | v :: vs =>
      rw [isWritableEach, Bool.and_eq_true] at hvs
      rw [Json.floatsEach, List.forall_mem_append] at hfloats
      obtain ⟨hvalue, ts, hts, hread⟩ := reads_literal hprint hfloats.1 hvs.1
      obtain ⟨hvalid, tss, htss, hreads⟩ := reads_each hprint hfloats.2 hvs.2
      rw [literalEach, ValidEach, tokensEach, htss, hts]
      exact ⟨⟨hvalue, hvalid⟩, ts :: tss, rfl, .cons hread hreads⟩

end

mutual

/-- What is valid and has tokens can be written. -/
theorem isWritable_of_tokens {v : Json} (hv : (literal v).Valid graphql) {ts : List Token}
    (h : literalTokens numberText v = some ts) : isWritable v = true := by
  match v with
  | .object es =>
      rw [literal, Valid] at hv
      obtain ⟨tss, htss, -⟩ := Option.map_eq_some_iff.mp h
      exact isWritableIn_of_tokens hv (mapM_id_eq_some.mp htss)
  | .array vs =>
      rw [literal, Valid] at hv
      obtain ⟨tss, htss, -⟩ := Option.map_eq_some_iff.mp h
      exact isWritableEach_of_tokens hv (mapM_id_eq_some.mp htss)
  | .string s =>
      rw [literalTokens] at h
      split_ifs at h with hplain
      exact hplain
  | .number _ => rfl
  | .bool _ => rfl
  | .null => rfl

theorem isWritableIn_of_tokens {es : List (String × Json)} (hes : ValidIn graphql (literalIn es))
    {tss : List (List Token)} (h : tokensIn numberText es = tss.map some) :
    isWritableIn es = true := by
  match es with
  | [] => rfl
  | (k, v) :: es =>
      rw [literalIn, ValidIn] at hes
      obtain ⟨hname, hvalue, hrest⟩ := hes
      rw [tokensIn] at h
      obtain ⟨ts, tss, rfl, hts, htss⟩ := List.map_eq_cons_iff.mp h.symm
      have hmember : (if k = "operator" then isEnumName (v.asStr.getD "").toList
          else isWritable v) = true := by
        obtain ⟨us, hus, -⟩ := Option.map_eq_some_iff.mp hts.symm
        split_ifs at hvalue hus ⊢ with hk
        · obtain ⟨tok, htok⟩ := hvalue
          exact isEnumName_of_readScalar htok
        · exact isWritable_of_tokens hvalue hus
      have hnameTrue : isName k.toList = true := hname
      rw [isWritableIn, hnameTrue, hmember, isWritableIn_of_tokens hrest htss.symm]
      rfl

theorem isWritableEach_of_tokens {vs : List Json} (hvs : ValidEach graphql (literalEach vs))
    {tss : List (List Token)} (h : tokensEach numberText vs = tss.map some) :
    isWritableEach vs = true := by
  match vs with
  | [] => rfl
  | v :: vs =>
      rw [literalEach, ValidEach] at hvs
      rw [tokensEach] at h
      obtain ⟨ts, tss, rfl, hts, htss⟩ := List.map_eq_cons_iff.mp h.symm
      rw [isWritableEach, isWritable_of_tokens hvs.1 hts.symm,
        isWritableEach_of_tokens hvs.2 htss.symm]
      rfl

end

/-- What is written for a value is read as the value exactly if the value can be written. -/
theorem parse_jsonToGraphqlLiteral_iff (hprint : Prints numberText) {v : Json}
    (hfloats : ∀ q ∈ v.floats, F64.IsValue q) :
    Literal.parse graphql (jsonToGraphqlLiteral numberText v) = some (literal v) ↔
      isWritable v = true := by
  constructor
  · intro h
    have hvalid := valid_of_parse h
    obtain ⟨ts, hts, -⟩ := Option.bind_eq_some_iff.mp h
    exact isWritable_of_tokens hvalid ((lexesAs_literal hprint hvalid).lex.symm.trans hts)
  · intro h
    obtain ⟨hvalid, ts, hts, hreads⟩ := reads_literal hprint hfloats h
    exact hreads.parse ((lexesAs_literal hprint hvalid).lex.trans hts)

end Reading

end VectorDbBenchmark.Weaviate
