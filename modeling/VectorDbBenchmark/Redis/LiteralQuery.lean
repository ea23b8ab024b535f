import VectorDbBenchmark.F64Text
import VectorDbBenchmark.Kit.QuerySyntax
import VectorDbBenchmark.Msmarco.Predicate

/-!
# Query text with literal values

A RediSearch filter whose leaves hold their values themselves: `@f:{a | b}` with
backslash escapes, `@f:[lo hi]` whose ends are exclusive behind a parenthesis, and
`@f:(term)`.  A leaf is read character by character, and a tag field holds the parts of
its text between semicolons, without the blanks around them.
-/

namespace VectorDbBenchmark.Redis

open Kit Msmarco

/-- An end of an interval. -/
structure Endpoint where
  number : F64
  exclusive : Bool
deriving DecidableEq, Repr

/-- A leaf of a filter. -/
inductive QueryLeaf where
  | tag (field : Text) (values : List Text)
  | numeric (field : Text) (lo hi : Endpoint)
  | text (field term : Text)
deriving DecidableEq, Repr

/-! ## Reading -/

section Reading

/-- How much of a leaf has been read. -/
inductive LeafState where
  | field (read : Text)
  /-- The colon has been read. -/
  | value (field : Text)
  | tag (field : Text) (values : List Text) (value : Text)
  /-- A backslash has been read. -/
  | escaped (field : Text) (values : List Text) (value : Text)
  | numeric (field body : Text)
  | text (field body : Text)

def isAsciiPunctuation (c : Char) : Bool :=
  let n := c.toNat
  (33 ≤ n && n ≤ 47) || (58 ≤ n && n ≤ 64) || (91 ≤ n && n ≤ 96) || (123 ≤ n && n ≤ 126)

section Intervals

variable (readNumber : Text → Option F64)

def parseEndpoint : Text → Option Endpoint
  | '(' :: t => (readNumber t).map fun x ↦ ⟨x, true⟩
  | t => (readNumber t).map fun x ↦ ⟨x, false⟩

def parseInterval (field body : Text) : Option QueryLeaf :=
  match splitAtSep ' ' body with
  | [lo, hi] => (parseEndpoint readNumber lo).bind fun lo ↦
    (parseEndpoint readNumber hi).map fun hi ↦ .numeric field lo hi
  | _ => none

end Intervals

/-- Characters with a meaning of their own, which no field name has. -/
def isReserved (c : Char) : Bool :=
  [' ', ':', '|', '(', ')', '[', ']', '\x7b', '\x7d', '@'].contains c

/-- What the servers read differently. -/
structure Dialect where
  readNumber : Text → Option F64
  /-- What counts of a tag. -/
  trimTag : Text → Text
  /-- Whether a character may stand in a tag only behind a backslash. -/
  needsEscape : Char → Bool
  /-- Whether there are leaves with text in parentheses. -/
  hasText : Bool

variable (dialect : Dialect)

/-- One character of a leaf. -/
def leafStep : LeafState → Char → Option (LeafState ⊕ QueryLeaf)
  | .field read, c =>
    if c = ':' then some (.inl (.value read))
    else if isReserved c then none
    else some (.inl (.field (read ++ [c])))
  | .value field, c =>
    if c = '\x7b' then some (.inl (.tag field [] []))
    else if c = '[' then some (.inl (.numeric field []))
    else if c = '(' && dialect.hasText then some (.inl (.text field []))
    else none
  | .tag field values value, c =>
    if c = '\\' then some (.inl (.escaped field values value))
    else if c = '\x7d' then some (.inr (.tag field (values ++ [dialect.trimTag value])))
    else if c = '|' then some (.inl (.tag field (values ++ [dialect.trimTag value]) []))
    else if dialect.needsEscape c then none
    else some (.inl (.tag field values (value ++ [c])))
  | .escaped field values value, c => some (.inl (.tag field values (value ++ [c])))
  | .numeric field body, c =>
    if c = ']' then (parseInterval dialect.readNumber field body).map .inr
    else some (.inl (.numeric field (body ++ [c])))
  | .text field body, c =>
    if c = ')' then some (.inr (.text field body)) else some (.inl (.text field (body ++ [c])))

def leafMachine : QuerySyntax.LeafMachine QueryLeaf LeafState where
  start := '@'
  init := .field []
  step := leafStep dialect

-- The punctuation that may stand in a tag without a backslash.
variable (bare : Char → Bool)

def needsEscape (c : Char) : Bool := (isAsciiPunctuation c && !bare c) || c = ' '

def punctuated : Dialect := ⟨F64.parse, id, needsEscape bare, true⟩

/-- The tree of a filter in whose tags all punctuation is escaped. -/
def readQuery (t : Text) : Option (Formula QueryLeaf) :=
  QuerySyntax.parse (leafMachine (punctuated fun _ ↦ false)) t

end Reading

/-! ## Meaning -/

section Meaning

/-- The tags of a text. -/
def tagsOf (s : String) : List Text := (splitAtSep ';' s.toList).map trim

def Endpoint.below (e : Endpoint) (x : F64) : Bool :=
  if e.exclusive then e.number.lt x else e.number.le x

def Endpoint.above (e : Endpoint) (x : F64) : Bool :=
  if e.exclusive then x.lt e.number else x.le e.number

-- Whether a text contains a term.
variable (textHolds : String → String → Bool) (row : Fields)

/-- Whether a document satisfies a leaf. -/
def QueryLeaf.holds : QueryLeaf → Bool
  | tag field values =>
    match row (String.ofList field) with
    | some (.keyword s) => values.any fun v ↦ (tagsOf s).contains v
    | _ => false
  | numeric field lo hi =>
    match row (String.ofList field) with
    | some (.int n) => lo.below (.ofInt n) && hi.above (.ofInt n)
    | _ => false
  | text field term =>
    match row (String.ofList field) with
    | some (.keyword s) => textHolds s (String.ofList term)
    | _ => false

end Meaning

/-! ## Rendered leaves are read back -/

section ReadBack

variable {dialect : Dialect} {field : Text}

theorem startOk_leafMachine : QuerySyntax.StartOk (leafMachine dialect) :=
  (by decide : '@' ∉ [' ', '(', ')', '|', '-'])

/-- A field name that the syntax does not break up. -/
def PlainName (field : Text) : Prop := ∀ c ∈ field, isReserved c = false

instance : Decidable (PlainName field) :=
  List.decidableBAll (fun c ↦ isReserved c = false) field

/-- What is read behind a field name. -/
theorem readLeaf_field (hfield : PlainName field) (read t : Text) :
    QuerySyntax.readLeaf (leafMachine dialect) (.field read) (field ++ ':' :: t) =
      QuerySyntax.readLeaf (leafMachine dialect) (.value (read ++ field)) t := by
  have hcollect : ∀ c ∈ field, ∀ read,
      (leafMachine dialect).step (.field read) c = some (.inl (.field (read ++ [c]))) := by
    intro c hc read
    have hcolon : c ≠ ':' := by
      rintro rfl
      exact absurd (hfield _ hc) (by decide)
    show leafStep dialect (.field read) c = _
    rw [leafStep, if_neg hcolon, hfield c hc]
    rfl
  rw [QuerySyntax.readLeaf_collect hcollect]
  rfl

/-- A text in which a backslash stands before some characters. -/
def escapeBy (special : Char → Bool) (t : Text) : Text :=
  t.flatMap fun c ↦ if special c then ['\\', c] else [c]

theorem escapeBy_of_forall {special : Char → Bool} {t : Text} (h : ∀ c ∈ t, special c = false) :
    escapeBy special t = t := by
  induction t with
  | nil => rfl
  | cons c t ih =>
      rw [List.forall_mem_cons] at h
      rw [escapeBy, List.flatMap_cons, ← escapeBy, ih h.2, h.1]
      rfl

/-- Characters that are collected one after another, some of them behind a backslash. -/
theorem readLeaf_escapeBy {L σ : Type} {m : QuerySyntax.LeafMachine L σ} {st : Text → σ}
    {special : Char → Bool}
    (hplain : ∀ c, special c = false → ∀ value,
      m.step (st value) c = some (.inl (st (value ++ [c]))))
    (hescaped : ∀ c value t, QuerySyntax.readLeaf m (st value) ('\\' :: c :: t) =
      QuerySyntax.readLeaf m (st (value ++ [c])) t)
    (value v t : Text) :
    QuerySyntax.readLeaf m (st value) (escapeBy special v ++ t) =
      QuerySyntax.readLeaf m (st (value ++ v)) t := by
  induction v generalizing value with
  | nil =>
      rw [List.append_nil]
      rfl
  | cons c v ih =>
      rw [escapeBy, List.flatMap_cons, ← escapeBy, List.append_assoc]
      have hvalue : value ++ c :: v = value ++ [c] ++ v := by
        rw [List.append_assoc, List.singleton_append]
      rw [hvalue, ← ih]
      split_ifs with hc
      · exact hescaped c value _
      · rw [List.singleton_append, QuerySyntax.readLeaf, hplain c (Bool.not_eq_true _ ▸ hc)]

/-- What is read behind a tag in which a backslash stands before all that needs one. -/
theorem readLeaf_tagValue {special : Char → Bool}
    (hspecial : ∀ c, dialect.needsEscape c = true → special c = true)
    (hmarks : ∀ c ∈ ['\\', '\x7d', '|'], special c = true)
    (values : List Text) (value v t : Text) :
    QuerySyntax.readLeaf (leafMachine dialect) (.tag field values value) (escapeBy special v ++ t) =
      QuerySyntax.readLeaf (leafMachine dialect) (.tag field values (value ++ v)) t := by
  refine readLeaf_escapeBy (fun c hc value ↦ ?_) (fun _ _ _ ↦ rfl) value v t
  have hplain : dialect.needsEscape c ≠ true := by
    intro h
    rw [hspecial c h] at hc
    cases hc
  have hne : ∀ d ∈ ['\\', '\x7d', '|'], c ≠ d := by
    rintro d hd rfl
    rw [hmarks c hd] at hc
    cases hc
  show leafStep dialect (.tag field values value) c = _
  rw [leafStep, if_neg (hne _ (by decide)), if_neg (hne _ (by decide)),
    if_neg (hne _ (by decide)), if_neg hplain]

/-- A tag leaf with one value, escaped. -/
theorem readLeaf_tag {special : Char → Bool}
    (hspecial : ∀ c, dialect.needsEscape c = true → special c = true)
    (hmarks : ∀ c ∈ ['\\', '\x7d', '|'], special c = true)
    (hfield : PlainName field) (v : Text) :
    QuerySyntax.readLeaf (leafMachine dialect) (leafMachine dialect).init
        (field ++ ':' :: '\x7b' :: (escapeBy special v ++ ['\x7d'])) =
      some (.tag field [dialect.trimTag v]) := by
  show QuerySyntax.readLeaf (leafMachine dialect) (.field []) _ = _
  rw [readLeaf_field hfield]
  show QuerySyntax.readLeaf (leafMachine dialect) (.tag field [] []) _ = _
  rw [readLeaf_tagValue hspecial hmarks]
  rfl

theorem readLeaf_numericBody {body : Text} (hbody : ']' ∉ body) (read : Text) {l : QueryLeaf}
    (h : parseInterval dialect.readNumber field (read ++ body) = some l) :
    QuerySyntax.readLeaf (leafMachine dialect) (.numeric field read) (body ++ [']']) = some l := by
  have hcollect : ∀ c ∈ body, ∀ read, (leafMachine dialect).step (.numeric field read) c =
      some (.inl (.numeric field (read ++ [c]))) := by
    intro c hc read
    have hclose : c ≠ ']' := by
      rintro rfl
      exact hbody hc
    show leafStep dialect (.numeric field read) c = _
    rw [leafStep, if_neg hclose]
  have hstep : (leafMachine dialect).step (.numeric field (read ++ body)) ']' = some (.inr l) := by
    show (parseInterval dialect.readNumber field (read ++ body)).map Sum.inr = _
    rw [h]
    rfl
  rw [QuerySyntax.readLeaf_collect hcollect, QuerySyntax.readLeaf, hstep]
  rfl

/-- An end of an interval: it is read, and has no blank and no bracket. -/
structure EndText (readNumber : Text → Option F64) (t : Text) (e : Endpoint) : Prop where
  parse : parseEndpoint readNumber t = some e
  blank : ' ' ∉ t
  close : ']' ∉ t

/-- A numeral without characters of the syntax. -/
structure Numeral (readNumber : Text → Option F64) (t : Text) (x : F64) : Prop where
  read : readNumber t = some x
  plain : ∀ c ∈ ['(', ' ', ']'], c ∉ t

theorem Numeral.inclusive {readNumber : Text → Option F64} {t : Text} {x : F64}
    (h : Numeral readNumber t x) : EndText readNumber t ⟨x, false⟩ where
  parse := by
    have hplain : '(' ∉ t := h.plain _ List.mem_cons_self
    unfold parseEndpoint
    split
    · exact absurd List.mem_cons_self hplain
    · rw [h.read, Option.map_some]
  blank := h.plain _ (by decide)
  close := h.plain _ (by decide)

theorem Numeral.exclusive {readNumber : Text → Option F64} {t : Text} {x : F64}
    (h : Numeral readNumber t x) : EndText readNumber ('(' :: t) ⟨x, true⟩ where
  parse := by rw [parseEndpoint, h.read, Option.map_some]
  blank := by
    rw [List.mem_cons, not_or]
    exact ⟨by decide, h.plain _ (by decide)⟩
  close := by
    rw [List.mem_cons, not_or]
    exact ⟨by decide, h.plain _ (by decide)⟩

theorem numeral_display {q : ℚ} (h : F64.IsValue q) :
    Numeral F64.parse (F64.fin q).display (.fin q) where
  read := F64.parse_display h
  plain := by
    rw [List.forall_mem_cons, List.forall_mem_cons, List.forall_mem_singleton]
    exact ⟨F64.notMem_display rfl, F64.notMem_display rfl, F64.notMem_display rfl⟩

/-- An interval between two numerals, with or without a parenthesis in front of each. -/
theorem readLeaf_numeric (hfield : PlainName field) {lo hi : Text} {e e' : Endpoint}
    (hlo : EndText dialect.readNumber lo e) (hhi : EndText dialect.readNumber hi e') :
    QuerySyntax.readLeaf (leafMachine dialect) (leafMachine dialect).init
        (field ++ ':' :: '[' :: (lo ++ ' ' :: hi ++ [']'])) =
      some (.numeric field e e') := by
  show QuerySyntax.readLeaf (leafMachine dialect) (.field []) _ = _
  rw [readLeaf_field hfield]
  show QuerySyntax.readLeaf (leafMachine dialect) (.numeric field []) _ = _
  refine readLeaf_numericBody ?_ [] ?_
  · rw [List.mem_append, List.mem_cons, not_or, not_or]
    exact ⟨hlo.close, by decide, hhi.close⟩
  · rw [List.nil_append, parseInterval, splitAtSep_append hlo.blank,
      splitAtSep_of_not_mem hhi.blank]
    dsimp only
    rw [hlo.parse, hhi.parse]
    rfl

theorem readLeaf_text (htext : dialect.hasText = true) (hfield : PlainName field) {term : Text}
    (hterm : ')' ∉ term) :
    QuerySyntax.readLeaf (leafMachine dialect) (leafMachine dialect).init
        (field ++ ':' :: '(' :: (term ++ [')'])) =
      some (.text field term) := by
  have hcollect : ∀ c ∈ term, ∀ read,
      (leafMachine dialect).step (.text field read) c =
        some (.inl (.text field (read ++ [c]))) := by
    intro c hc read
    have hclose : c ≠ ')' := by
      rintro rfl
      exact hterm hc
    show leafStep dialect (.text field read) c = _
    rw [leafStep, if_neg hclose]
  have hopen : (leafMachine dialect).step (.value field) '(' = some (.inl (.text field [])) := by
    show leafStep dialect (.value field) '(' = _
    rw [leafStep, htext]
    rfl
  show QuerySyntax.readLeaf (leafMachine dialect) (.field []) _ = _
  rw [readLeaf_field hfield, List.nil_append, QuerySyntax.readLeaf, hopen]
  show QuerySyntax.readLeaf (leafMachine dialect) (.text field []) _ = _
  rw [QuerySyntax.readLeaf_collect hcollect]
  rfl

end ReadBack

end VectorDbBenchmark.Redis
