import VectorDbBenchmark.Kit.InfixSyntax
import VectorDbBenchmark.NumberText

/-!
# Milvus expressions

The boolean expressions a collection is filtered with, over the cells of a row: comparisons
of a field with a literal, membership in a list, the functions of array fields and text
match.  `&&` binds tighter than `||`.
-/

namespace VectorDbBenchmark.Milvus

open Kit InfixSyntax

/-! ## Tokens -/

def classOf : Char → Option CharClass :=
  CharClass.among ['_', '.', '+', '-'] [' ', '\t', '\n', '\r'] ['=', '<', '>', '&', '|', '!'] ['"']

def unescape (c : Char) : Option Char :=
  if c = 'n' then some '\n'
  else if c = 't' then some '\t'
  else if c = 'r' then some '\r'
  else if c = '\\' || c = '"' || c = '\'' then some c
  else none

def spelling : Spelling := ⟨classOf, fun _ ↦ true, unescape, fun _ ↦ true⟩

def mark : Token → Option Mark := markOf (.symbol "&&".toList) (.symbol "||".toList)

/-- The words that name no field, in lower case. -/
def keywords : List String :=
  ["in", "not", "and", "or", "like", "exists", "is", "null", "true", "false", "json_contains",
    "json_contains_any", "json_contains_all", "array_contains", "array_contains_any",
    "array_contains_all", "array_length", "text_match", "phrase_match", "st_dwithin"]

/-- A letter or an underscore, and letters, digits and underscores behind it. -/
def isIdentifier : Text → Bool
  | [] => false
  | c :: t =>
    (c.isAlpha || c = '_') && t.all (fun d ↦ d.isAlphanum || d = '_') &&
      !keywords.any fun k ↦ k.toList = (c :: t).map Char.toLower

/-! ## Literals -/

inductive Literal where
  | text (s : Text)
  | number (q : ℚ)
  | bool (b : Bool)
deriving DecidableEq, Repr

def readLiteral : Token → Option Literal
  | .quoted _ t => some (.text t)
  | .word t =>
    if t = "true".toList then some (.bool true)
    else if t = "false".toList then some (.bool false)
    else (readNumber t).map .number
  | _ => none

/-! ## Leaves -/

inductive Comparison where
  | eq
  | lt
  | gt
  | le
  | ge
deriving DecidableEq, Repr

inductive Atom where
  | compare (field : Text) (op : Comparison) (operand : Literal)
  | isIn (field : Text) (items : List Literal)
  | arrayContains (field : Text) (item : Literal)
  | arrayContainsAny (field : Text) (items : List Literal)
  | textMatch (field : Text) (term : Text)
deriving DecidableEq, Repr

def readComparison (t : Text) : Option Comparison :=
  if t = "==".toList then some .eq
  else if t = "<".toList then some .lt
  else if t = ">".toList then some .gt
  else if t = "<=".toList then some .le
  else if t = ">=".toList then some .ge
  else none

inductive Function where
  | arrayContains
  | arrayContainsAny
  | textMatch
deriving DecidableEq, Repr

def readFunction (t : Text) : Option Function :=
  if t = "array_contains".toList then some .arrayContains
  else if t = "array_contains_any".toList then some .arrayContainsAny
  else if t = "TEXT_MATCH".toList then some .textMatch
  else none

/-- What has been read of a leaf.  A list belongs to `in`, or to a call. -/
inductive LeafState where
  | name (w : Text)
  | operand (field : Text) (op : Comparison)
  | list (call : Bool) (field : Text)
  | first (call : Bool) (field : Text)
  | behindItem (call : Bool) (field : Text) (items : List Literal)
  | behindComma (call : Bool) (field : Text) (items : List Literal)
  | argument (f : Function)
  | comma (f : Function) (field : Text)
  | value (f : Function) (field : Text)
  | close (a : Atom)

/-- The end of a list. -/
def endList (call : Bool) (field : Text) (items : List Literal) : LeafState ⊕ Atom :=
  if call then .inl (.close (.arrayContainsAny field items)) else .inr (.isIn field items)

/-- The call of a function with a literal. -/
def callAtom (f : Function) (field : Text) : Literal → Option Atom
  | .text t =>
    match f with
    | .arrayContains => some (.arrayContains field (.text t))
    | .textMatch => some (.textMatch field t)
    | .arrayContainsAny => none
  | l =>
    match f with
    | .arrayContains => some (.arrayContains field l)
    | _ => none

def beginLeaf : Token → Option (LeafState ⊕ Atom)
  | .word w =>
    if isIdentifier w || (readFunction w).isSome then some (.inl (.name w)) else none
  | _ => none

def leafStep : LeafState → Token → Option (LeafState ⊕ Atom)
  | .name w, .symbol t => (readComparison t).map fun op ↦ .inl (.operand w op)
  | .name w, .word t => if t = "in".toList then some (.inl (.list false w)) else none
  | .name w, .punctuation c =>
    if c = '(' then (readFunction w).map fun f ↦ .inl (.argument f) else none
  | .operand field op, k => (readLiteral k).map fun l ↦ .inr (.compare field op l)
  | .list call field, .punctuation c =>
    if c = '[' then some (.inl (.first call field)) else none
  | .first call field, k =>
    if k = .punctuation ']' then some (endList call field [])
    else (readLiteral k).map fun l ↦ .inl (.behindItem call field [l])
  | .behindItem call field items, .punctuation c =>
    if c = ']' then some (endList call field items)
    else if c = ',' then some (.inl (.behindComma call field items))
    else none
  | .behindComma call field items, k =>
    (readLiteral k).map fun l ↦ .inl (.behindItem call field (items ++ [l]))
  | .argument f, .word w => if isIdentifier w then some (.inl (.comma f w)) else none
  | .comma f field, .punctuation c =>
    if c = ',' then
      some (.inl (if f = .arrayContainsAny then .list true field else .value f field))
    else none
  | .value f field, k =>
    (readLiteral k).bind fun l ↦ (callAtom f field l).map fun a ↦ .inl (.close a)
  | .close a, .punctuation c => if c = ')' then some (.inr a) else none
  | _, _ => none

def language : Language Atom LeafState := ⟨spelling, mark, beginLeaf, leafStep⟩

/-! ## Rows -/

inductive Cell where
  | text (s : Text)
  | number (q : ℚ)
  | bool (b : Bool)
  | texts (ts : List Text)
deriving DecidableEq, Repr

/-- The cells of a row; an array of texts is held by the field `labels`, and by no other. -/
structure Row where
  cell : Text → Option Cell
  labels : ∀ {field c}, cell field = some c →
    ((∃ ts, c = .texts ts) ↔ field = "labels".toList)

def Cell.equals : Cell → Literal → Bool
  | .text s, .text t => s = t
  | .number x, .number y => x = y
  | .bool b, .bool b' => b = b'
  | _, _ => false

def Cell.contains : Cell → Literal → Bool
  | .texts ts, .text t => ts.contains t
  | _, _ => false

def Comparison.holds : Comparison → Cell → Literal → Bool
  | .eq, c, l => c.equals l
  | .lt, .number x, .number y => x < y
  | .gt, .number x, .number y => y < x
  | .le, .number x, .number y => x ≤ y
  | .ge, .number x, .number y => y ≤ x
  | _, _, _ => false

/-- Whether a text has the terms of another, after analysis. -/
abbrev Analyzer := Text → Text → Bool

def Cell.hasTerms (analyzer : Analyzer) (term : Text) : Cell → Bool
  | .text s => analyzer s term
  | _ => false

def Atom.holds (analyzer : Analyzer) (row : Row) : Atom → Bool
  | .compare field op l => (row.cell field).any fun c ↦ op.holds c l
  | .isIn field items => (row.cell field).any fun c ↦ items.any c.equals
  | .arrayContains field l => (row.cell field).any fun c ↦ c.contains l
  | .arrayContainsAny field items => (row.cell field).any fun c ↦ items.any c.contains
  | .textMatch field t => (row.cell field).any (Cell.hasTerms analyzer t)

/-! ## Facts about the syntax -/

theorem standard : Standard language where
  blank := rfl
  opening := rfl
  closing := rfl
  mark_opening := rfl
  mark_closing := rfl

theorem spells_and : Spells language "&&".toList .conj := ⟨.symbol "&&".toList, rfl, rfl⟩

theorem spells_or : Spells language "||".toList .disj := ⟨.symbol "||".toList, rfl, rfl⟩

theorem backslashQuote : Lexer.BackslashQuote spelling '"' where
  classOf := rfl
  backslash := rfl
  unescape_quote := rfl
  unescape_backslash := rfl
  plain_quote := rfl
  plain_backslash := rfl
  ne := by decide

theorem classOf_of_wordChar {c : Char} (h : (c.isAlphanum || c = '_') = true) :
    classOf c = some .word := by
  rw [Bool.or_eq_true] at h
  refine if_pos ?_
  rcases h with h | h <;> simp [h]

theorem isWord_of_isIdentifier {t : Text} (h : isIdentifier t = true) :
    Lexer.IsWord spelling t := by
  cases t with
  | nil => cases h
  | cons c t =>
      rw [isIdentifier, Bool.and_eq_true, Bool.and_eq_true] at h
      refine ⟨List.cons_ne_nil c t, List.forall_mem_cons.mpr ⟨?_, fun d hd ↦ ?_⟩⟩
      · refine classOf_of_wordChar ?_
        rw [Bool.or_eq_true] at h ⊢
        exact h.1.1.imp_left fun halpha ↦ Bool.or_eq_true_iff.mpr (.inl halpha)
      · exact classOf_of_wordChar (List.all_eq_true.mp h.1.2 d hd)

theorem readsNumerals : ReadsNumerals spelling readLiteral .number where
  digit c h := by
    have hdigit : c.isAlphanum = true := Bool.or_eq_true_iff.mpr (.inr h)
    refine classOf_of_wordChar ?_
    rw [hdigit, Bool.true_or]
  mark := by
    simp only [List.forall_mem_cons]
    exact ⟨rfl, rfl, rfl, rfl, rfl, List.forall_mem_nil _⟩
  read t q h := by
    -- `true` and `false` are no numerals
    have hword : ∀ w : Text, readNumber w = none → t ≠ w := by
      rintro w hw rfl
      rw [hw] at h
      cases h
    rw [readLiteral, if_neg (hword _ (by decide)), if_neg (hword _ (by decide)), h,
      Option.map_some]

end VectorDbBenchmark.Milvus
