import VectorDbBenchmark.Kit.InfixSyntax
import VectorDbBenchmark.Pgvector.Filter

/-!
# SQL conditions with placeholders

The conditions a query is filtered with, over the columns of a row and the values of the
placeholders.  `AND` binds tighter than `OR`.  No condition is negated, so that a comparison
with NULL is as good as false.
-/

namespace VectorDbBenchmark.Pgvector

open Kit InfixSyntax

/-! ## Tokens -/

def classOf : Char → Option CharClass :=
  CharClass.among ['_', '$', '.'] [' ', '\t', '\n'] ['=', '<', '>', '&', ':', '@'] ['"', '\'']

/-- Quotes are doubled, in identifiers and in strings. -/
def spelling : Spelling := ⟨classOf, fun _ ↦ false, fun _ ↦ none, fun _ ↦ true⟩

def mark : Token → Option Mark := markOf (.word "AND".toList) (.word "OR".toList)

/-- The tokens of a text, none if it cannot be read. -/
def tokens (s : String) : List Token := (Lexer.lex spelling s.toList).getD []

/-! ## Leaves -/

inductive Comparison where
  | eq
  | lt
  | gt
  | le
  | ge
deriving DecidableEq, Repr

inductive Atom where
  /-- `"f" op $n` -/
  | compare (column : Text) (op : Comparison) (param : ℕ)
  /-- `"f" op '…'::timestamptz` -/
  | compareTime (column : Text) (op : Comparison) (timestamp : Text)
  /-- `"f" = ANY($n::bigint[])` -/
  | isAny (column : Text) (param : ℕ)
  /-- `string_to_array("f", ';') && $n::text[]` -/
  | overlaps (column : Text) (param : ℕ)
  /-- `$n = ANY(string_to_array("f", ';'))` -/
  | hasElement (column : Text) (param : ℕ)
  | never
deriving DecidableEq, Repr

def readComparison (t : Text) : Option Comparison :=
  if t = "=".toList then some .eq
  else if t = "<".toList then some .lt
  else if t = ">".toList then some .gt
  else if t = "<=".toList then some .le
  else if t = ">=".toList then some .ge
  else none

/-- The number of a placeholder. -/
def readPlaceholder : Token → Option ℕ
  | .word ('$' :: t) => parseDigits t
  | _ => none

/-- What has been read of a leaf, or the tokens that must follow. -/
inductive LeafState where
  | column (column : Text)
  | operand (column : Text) (op : Comparison)
  | anyParam (column : Text)
  | anyType (column : Text) (param : ℕ)
  | splitColumn
  | splitParam (column : Text)
  | elementColumn (param : ℕ)
  | expect (k : Token) (ks : List Token) (next : LeafState ⊕ Atom)

/-- Some tokens, and what comes behind them. -/
def expecting (ks : List Token) (next : LeafState ⊕ Atom) : LeafState ⊕ Atom :=
  match ks with
  | [] => next
  | k :: ks => .inl (.expect k ks next)

def beginLeaf : Token → Option (LeafState ⊕ Atom)
  | .quoted q t => if q = '"' then some (.inl (.column t)) else none
  | .word w =>
    if w = "false".toList then some (.inr .never)
    else if w = "string_to_array".toList then some (expecting (tokens "(") (.inl .splitColumn))
    else (readPlaceholder (.word w)).map fun n ↦
      expecting (tokens "= ANY(string_to_array(") (.inl (.elementColumn n))
  | _ => none

/-- The operand of a comparison. -/
def readOperand (column : Text) (op : Comparison) : Token → Option (LeafState ⊕ Atom)
  | .quoted q t =>
    if q = '\'' then some (expecting (tokens "::timestamptz") (.inr (.compareTime column op t)))
    else none
  | k =>
    if k = .word "ANY".toList && op = .eq then
      some (expecting (tokens "(") (.inl (.anyParam column)))
    else (readPlaceholder k).map fun n ↦ .inr (.compare column op n)

def leafStep : LeafState → Token → Option (LeafState ⊕ Atom)
  | .column f, .symbol op => (readComparison op).map fun op ↦ .inl (.operand f op)
  | .operand f op, k => readOperand f op k
  | .anyParam f, k =>
    (readPlaceholder k).map fun n ↦ expecting (tokens "::") (.inl (.anyType f n))
  | .anyType f n, k =>
    if k = .word "bigint".toList then some (expecting (tokens "[])") (.inr (.isAny f n)))
    else if k = .word "double".toList then
      some (expecting (tokens "precision[])") (.inr (.isAny f n)))
    else none
  | .splitColumn, .quoted q f =>
    if q = '"' then some (expecting (tokens ", ';') &&") (.inl (.splitParam f))) else none
  | .splitParam f, k =>
    (readPlaceholder k).map fun n ↦ expecting (tokens "::text[]") (.inr (.overlaps f n))
  | .elementColumn n, .quoted q f =>
    if q = '"' then some (expecting (tokens ", ';'))") (.inr (.hasElement f n))) else none
  | .expect k ks next, k' => if k' = k then some (expecting ks next) else none
  | _, _ => none

def language : Language Atom LeafState := ⟨spelling, mark, beginLeaf, leafStep⟩

/-! ## Rows -/

inductive Cell where
  | number (q : ℚ)
  | text (s : Text)
  | bool (b : Bool)
  | timestamp (q : ℚ)
deriving DecidableEq, Repr

/-- The columns of a row that are not NULL. -/
abbrev Row := Text → Option Cell

def Comparison.holds (op : Comparison) (x y : ℚ) : Bool :=
  match op with
  | .eq => x = y
  | .lt => x < y
  | .gt => y < x
  | .le => x ≤ y
  | .ge => y ≤ x

/-- `string_to_array(s, ';')`. -/
def stringToArray (s : Text) : List Text := if s = [] then [] else splitAtSep ';' s

/-- The number a bound value is. -/
def PgValue.number : PgValue → Option ℚ
  | .int i => some i
  | .float (.fin q) => some q
  | _ => none

/-- The numbers of a bound list. -/
def PgValue.numbers : PgValue → List ℚ
  | .intArray is => is.map Int.cast
  | .floatArray fs => fs.filterMap fun f ↦ (PgValue.float f).number
  | _ => []

/-- The texts of a bound list, or the bound text. -/
def PgValue.texts : PgValue → List Text
  | .text s => [s.toList]
  | .textArray ss => ss.map String.toList
  | _ => []

section Meaning

-- The instant a timestamp stands for.
variable (instant : Text → Option ℚ)

/-- A column against a bound value. -/
def Cell.compares (op : Comparison) : Cell → PgValue → Bool
  | .number x, v => v.number.any (op.holds x)
  | .text s, .text t => op = .eq && s = t.toList
  | .bool b, .bool b' => op = .eq && b = b'
  | _, _ => false

/-- The truth of a leaf at the values of the placeholders and a row. -/
def Atom.holds (a : (ℕ → Option PgValue) × Row) : Atom → Bool
  | .compare f op n => (a.2 f).any fun c ↦ (a.1 n).any (c.compares op)
  | .compareTime f op t => (a.2 f).any fun
    | .timestamp x => (instant t).any (op.holds x)
    | _ => false
  | .isAny f n => (a.2 f).any fun
    | .number x => (a.1 n).any fun v ↦ v.numbers.contains x
    | _ => false
  | .overlaps f n => (a.2 f).any fun
    | .text s => (a.1 n).any fun v ↦ v.texts.any (stringToArray s).contains
    | _ => false
  | .hasElement f n => (a.2 f).any fun
    | .text s => (a.1 n).any fun v ↦ v.texts.any (stringToArray s).contains
    | _ => false
  | .never => false

end Meaning

end VectorDbBenchmark.Pgvector
