import VectorDbBenchmark.Json
import VectorDbBenchmark.Kit.Text
import Mathlib.Data.List.TakeWhile

/-!
# JSON texts

The texts of JSON documents, with every blank and every escape where the text has it, and the
values they stand for.  An object has its members in the order of the text, those with one name
included.
-/

namespace VectorDbBenchmark.JsonText

open Kit

/-! ## Blanks -/

def isBlank (c : Char) : Bool := c = ' ' || c = '\t' || c = '\n' || c = '\r'

/-- White space around a token. -/
abbrev Blanks := {w : Text // ∀ c ∈ w, isBlank c = true}

theorem isWhiteSpace_of_isBlank {c : Char} (h : isBlank c = true) : isWhiteSpace c = true := by
  simp only [isBlank, Bool.or_eq_true, decide_eq_true_eq] at h
  rcases h with ((rfl | rfl) | rfl) | rfl
  all_goals rfl

theorem trimStart_blanks_append (w : Blanks) {c : Char} (hc : isWhiteSpace c = false) (t : Text) :
    trimStart (w.val ++ c :: t) = c :: t := by
  have hblank : ∀ d ∈ w.val, isWhiteSpace d = true :=
    fun d hd ↦ isWhiteSpace_of_isBlank (w.property d hd)
  rw [trimStart, List.dropWhile_append_of_pos hblank]
  exact List.dropWhile_cons_of_neg (by rw [hc]; exact Bool.false_ne_true)

def noBlanks : Blanks := ⟨[], fun _ h ↦ absurd h List.not_mem_nil⟩

/-- A text that starts with a character other than a blank has no blanks in front. -/
theorem eq_nil_of_blanks_append {w : Blanks} {c d : Char} {t u : Text} (hc : isBlank c = false)
    (h : w.val ++ d :: t = c :: u) : w.val = [] := by
  rcases hw : w.val with _ | ⟨b, bs⟩
  · rfl
  · rw [hw, List.cons_append, List.cons.injEq] at h
    have hb : isBlank b = true := w.property b (hw ▸ List.mem_cons_self)
    rw [h.1, hc] at hb
    cases hb

/-! ## Strings -/

/-- What stands before the first quotation mark. -/
def beforeQuote (t : Text) : Text := t.takeWhile (· ≠ '"')

theorem quote_notMem_beforeQuote (t : Text) : '"' ∉ beforeQuote t := by
  intro h
  have hne := List.mem_takeWhile_imp h
  exact of_decide_eq_true hne rfl

theorem beforeQuote_of_notMem {t : Text} (h : '"' ∉ t) : beforeQuote t = t := by
  refine List.takeWhile_eq_self_iff.mpr fun c hc ↦ decide_eq_true ?_
  rintro rfl
  exact h hc

theorem beforeQuote_cons_of_ne {c : Char} (hc : c ≠ '"') (t : Text) :
    beforeQuote (c :: t) = c :: beforeQuote t := by
  rw [beforeQuote, List.takeWhile_cons, decide_eq_true hc, if_pos rfl, beforeQuote]

/-- The first quotation mark is there, at the latest at the end of the text. -/
theorem exists_beforeQuote_append (t u : Text) :
    ∃ v, t ++ '"' :: u = beforeQuote t ++ '"' :: v := by
  induction t with
  | nil => exact ⟨u, rfl⟩
  | cons c t ih =>
      obtain ⟨v, hv⟩ := ih
      by_cases hc : c = '"'
      · subst hc
        exact ⟨t ++ '"' :: u, rfl⟩
      · refine ⟨v, ?_⟩
        rw [List.cons_append, hv, beforeQuote_cons_of_ne hc, List.cons_append]

/-- The escapes of one letter, and the characters they stand for. -/
def shortEscapes : List (Char × Char) :=
  [('"', '"'), ('\\', '\\'), ('/', '/'), ('b', .ofNat 8), ('f', .ofNat 12), ('n', '\n'),
    ('r', '\r'), ('t', '\t')]

def isHexDigit (c : Char) : Bool :=
  c.isDigit || ('a' ≤ c && c ≤ 'f') || ('A' ≤ c && c ≤ 'F')

def hexValue (c : Char) : ℕ :=
  if c.isDigit then c.toNat - 48 else if 'a' ≤ c then c.toNat - 87 else c.toNat - 55

/-- A unit of UTF-16, in four digits. -/
def codeUnit (digits : Text) : Option ℕ :=
  if digits.length = 4 ∧ digits.all isHexDigit = true then
    some (digits.foldl (fun n c ↦ n * 16 + hexValue c) 0)
  else none

/-- A character beyond the units, in two of them. -/
def surrogates (high low : Text) : Option ℕ := do
  let h ← codeUnit high
  let l ← codeUnit low
  if 0xD800 ≤ h ∧ h < 0xDC00 ∧ 0xDC00 ≤ l ∧ l < 0xE000 then
    some (0x10000 + (h - 0xD800) * 0x400 + (l - 0xDC00))
  else none

/-- A character of a string, as it is written. -/
inductive Piece where
  | plain (c : Char) (h : c ≠ '"' ∧ c ≠ '\\' ∧ 32 ≤ c.toNat)
  | short (letter c : Char) (h : (letter, c) ∈ shortEscapes)
  | unicode (digits : Text) (c : Char) (h : codeUnit digits = some c.toNat)
  | pair (high low : Text) (c : Char) (h : surrogates high low = some c.toNat)

namespace Piece

def text : Piece → Text
  | plain c _ => [c]
  | short letter _ _ => ['\\', letter]
  | unicode digits _ _ => '\\' :: 'u' :: digits
  | pair high low _ _ => '\\' :: 'u' :: high ++ '\\' :: 'u' :: low

def value : Piece → Char
  | plain c _ => c
  | short _ c _ => c
  | unicode _ c _ => c
  | pair _ _ c _ => c

end Piece

theorem quote_notMem_of_codeUnit {digits : Text} {n : ℕ} (h : codeUnit digits = some n) :
    '"' ∉ digits := by
  rw [codeUnit] at h
  split_ifs at h with hdigits
  intro hquote
  have hhex : isHexDigit '"' = true := List.all_eq_true.mp hdigits.2 '"' hquote
  cases hhex

theorem quote_notMem_of_surrogates {high low : Text} {n : ℕ} (h : surrogates high low = some n) :
    '"' ∉ high ∧ '"' ∉ low := by
  obtain ⟨a, ha, h⟩ := Option.bind_eq_some_iff.mp h
  obtain ⟨b, hb, -⟩ := Option.bind_eq_some_iff.mp h
  exact ⟨quote_notMem_of_codeUnit ha, quote_notMem_of_codeUnit hb⟩

namespace Piece

/-- Only a quotation mark is written with one. -/
theorem value_of_quote_mem {p : Piece} (h : '"' ∈ p.text) : p.value = '"' := by
  cases p with
  | plain c hc => exact absurd (List.mem_singleton.mp h).symm hc.1
  | short letter c hc =>
      have hletter : letter = '"' := by
        rcases List.mem_cons.mp h with h | h
        · cases h
        · exact (List.mem_singleton.mp h).symm
      subst hletter
      have hc' : c = '"' := by simpa [shortEscapes] using hc
      exact hc'
  | unicode digits c hc =>
      rcases List.mem_cons.mp h with h | h
      · cases h
      · rcases List.mem_cons.mp h with h | h
        · cases h
        · exact absurd h (quote_notMem_of_codeUnit hc)
  | pair high low c hc =>
      obtain ⟨hhigh, hlow⟩ := quote_notMem_of_surrogates hc
      simp [text, hhigh, hlow] at h

/-- A character is written as itself, or with a backslash and more. -/
theorem text_eq_or (p : Piece) :
    (p.text = [p.value] ∧ p.value ≠ '"' ∧ p.value ≠ '\\') ∨ ∃ c t, p.text = '\\' :: c :: t := by
  cases p with
  | plain c hc => exact .inl ⟨rfl, hc.1, hc.2.1⟩
  | short letter c hc => exact .inr ⟨letter, [], rfl⟩
  | unicode digits c hc => exact .inr ⟨'u', digits, rfl⟩
  | pair high low c hc => exact .inr ⟨'u', high ++ '\\' :: 'u' :: low, rfl⟩

end Piece

/-- What stands between the quotation marks of a string. -/
abbrev Literal := List Piece

namespace Literal

def text (l : Literal) : Text := l.flatMap Piece.text

def value (l : Literal) : Text := l.map Piece.value

/-- The characters that need no escape, as they are. -/
def ofPlain (t : Text) : Literal := t.filterMap fun c ↦
  if h : c ≠ '"' ∧ c ≠ '\\' ∧ 32 ≤ c.toNat then some (.plain c h) else none

theorem text_cons (p : Piece) (l : Literal) : text (p :: l) = p.text ++ text l := List.flatMap_cons

theorem quote_mem_value {l : Literal} (h : '"' ∈ l.text) : '"' ∈ l.value := by
  obtain ⟨p, hp, hquote⟩ := List.mem_flatMap.mp h
  exact List.mem_map.mpr ⟨p, hp, Piece.value_of_quote_mem hquote⟩

/-- Without a backslash a string is written as it is. -/
theorem text_eq_value {l : Literal} (h : '\\' ∉ l.text) : l.text = l.value ∧ '"' ∉ l.text := by
  induction l with
  | nil => exact ⟨rfl, List.not_mem_nil⟩
  | cons p l ih =>
      rw [text_cons, List.mem_append, not_or] at h
      obtain ⟨htext, hquote⟩ := ih h.2
      rcases p.text_eq_or with ⟨hself, hne, -⟩ | ⟨c, t, hescape⟩
      · rw [text_cons, hself, List.singleton_append, List.mem_cons, not_or]
        exact ⟨congrArg (p.value :: ·) htext, Ne.symm hne, hquote⟩
      · rw [hescape] at h
        exact absurd List.mem_cons_self h.1

/-- A backslash stands before every quotation mark. -/
theorem backslash_mem_beforeQuote {l : Literal} (h : '\\' ∈ l.text) :
    '\\' ∈ beforeQuote l.text := by
  have hne : '\\' ≠ '"' := by decide
  induction l with
  | nil => cases h
  | cons p l ih =>
      rcases p.text_eq_or with ⟨hself, hquote, hbackslash⟩ | ⟨c, t, hescape⟩
      · rw [text_cons, hself, List.singleton_append] at h ⊢
        rw [beforeQuote_cons_of_ne hquote]
        rcases List.mem_cons.mp h with h | h
        · exact absurd h.symm hbackslash
        · exact List.mem_cons_of_mem _ (ih h)
      · rw [text_cons, hescape, List.cons_append, beforeQuote_cons_of_ne hne]
        exact List.mem_cons_self

theorem length_value_le (l : Literal) : l.value.length ≤ l.text.length := by
  induction l with
  | nil => exact le_rfl
  | cons p l ih =>
      rw [text_cons, List.length_append, value, List.map_cons, List.length_cons, Nat.add_comm]
      refine Nat.add_le_add ?_ ih
      rcases p.text_eq_or with ⟨hself, -⟩ | ⟨c, t, hescape⟩
      · rw [hself]
        exact le_rfl
      · rw [hescape]
        exact Nat.succ_pos _

/-- An escape is longer than what it stands for. -/
theorem length_value_lt {l : Literal} (h : '\\' ∈ l.text) : l.value.length < l.text.length := by
  induction l with
  | nil => cases h
  | cons p l ih =>
      have hle := length_value_le l
      rw [text_cons, List.length_append, value, List.map_cons, List.length_cons, ← value]
      rcases p.text_eq_or with ⟨hself, -, hbackslash⟩ | ⟨c, t, hescape⟩
      · rw [text_cons, hself, List.singleton_append, List.mem_cons,
          or_iff_right (Ne.symm hbackslash)] at h
        have hlt := ih h
        rw [hself, List.length_singleton]
        omega
      · rw [hescape, List.length_cons, List.length_cons]
        omega

/-- What stands before the first quotation mark is the value if and only if nothing is
escaped. -/
theorem beforeQuote_text_eq_value_iff (l : Literal) :
    beforeQuote l.text = l.value ↔ '\\' ∉ l.text := by
  constructor
  · intro heq hescape
    have hvalue : '"' ∉ l.value := heq ▸ quote_notMem_beforeQuote l.text
    have htext : '"' ∉ l.text := fun hquote ↦ hvalue (quote_mem_value hquote)
    have hlt := length_value_lt hescape
    rw [← heq, beforeQuote_of_notMem htext] at hlt
    exact absurd hlt (lt_irrefl _)
  · intro hplain
    obtain ⟨htext, hquote⟩ := text_eq_value hplain
    rw [beforeQuote_of_notMem hquote, htext]

/-- A string with no need of an escape in it is written in one way. -/
theorem text_eq_of_append_eq {l : Literal} {w y z : Text} (hquote : '"' ∉ w)
    (hbackslash : '\\' ∉ w) (h : l.text ++ '"' :: z = w ++ '"' :: y) : l.text = w ∧ z = y := by
  obtain ⟨v, hv⟩ := exists_beforeQuote_append l.text z
  have hfirst : beforeQuote l.text = w ∧ v = y :=
    append_cons_inj (quote_notMem_beforeQuote l.text) hquote (hv.symm.trans h)
  have hplain : '\\' ∉ l.text := fun hmem ↦ hbackslash (hfirst.1 ▸ backslash_mem_beforeQuote hmem)
  have hwhole := beforeQuote_of_notMem (text_eq_value hplain).2
  rw [hwhole] at hfirst hv
  exact ⟨hfirst.1, (List.cons.inj (List.append_cancel_left hv)).2.trans hfirst.2⟩

end Literal

/-! ## Numbers -/

/-- Digits, at least one. -/
def IsDigits (t : Text) : Prop := t ≠ [] ∧ ∀ c ∈ t, c.isDigit = true

/-- A whole number, which starts with no zero but the zero that it is. -/
def IsWhole (t : Text) : Prop := IsDigits t ∧ (t.head? = some '0' → t = ['0'])

def IsFraction (t : Text) : Prop := t = [] ∨ ∃ digits, IsDigits digits ∧ t = '.' :: digits

def IsExponent (t : Text) : Prop :=
  t = [] ∨ ∃ e sign digits, (e = 'e' ∨ e = 'E') ∧ (sign = [] ∨ sign = ['+'] ∨ sign = ['-']) ∧
    IsDigits digits ∧ t = e :: (sign ++ digits)

/-- A number, as it is written. -/
structure Numeral where
  negative : Bool
  whole : Text
  fraction : Text
  exponent : Text
  isWhole : IsWhole whole
  isFraction : IsFraction fraction
  isExponent : IsExponent exponent

def Numeral.text (t : Numeral) : Text :=
  (if t.negative then ['-'] else []) ++ t.whole ++ t.fraction ++ t.exponent

theorem Numeral.head_text (t : Numeral) :
    ∃ c u, t.text = c :: u ∧ (c = '-' ∨ c.isDigit = true) := by
  obtain ⟨c, u, hwhole⟩ := List.exists_cons_of_ne_nil t.isWhole.1.1
  rw [text, hwhole]
  split_ifs
  · exact ⟨'-', _, rfl, .inl rfl⟩
  · exact ⟨c, _, rfl, .inr (t.isWhole.1.2 c (hwhole ▸ List.mem_cons_self))⟩

/-! ## Documents -/

/-- The name of a member, up to its value. -/
structure MemberName where
  before : Blanks
  key : Literal
  after : Blanks
  gap : Blanks

def MemberName.text (name : MemberName) : Text :=
  name.before.val ++ '"' :: (name.key.text ++ '"' :: (name.after.val ++ ':' :: name.gap.val))

mutual

/-- A document, as it is written.  What number a numeral is read as is left to the reader. -/
inductive Doc where
  | null
  | bool (b : Bool)
  | number (t : Numeral) (n : Number)
  | string (l : Literal)
  | emptyArray (blanks : Blanks)
  | array (es : Elems)
  | emptyObject (blanks : Blanks)
  | object (ms : Members)

/-- Elements with commas between them. -/
inductive Elems where
  | last (before : Blanks) (v : Doc) (after : Blanks)
  | more (before : Blanks) (v : Doc) (after : Blanks) (rest : Elems)

/-- Members with commas between them. -/
inductive Members where
  | last (name : MemberName) (v : Doc) (after : Blanks)
  | more (name : MemberName) (v : Doc) (after : Blanks) (rest : Members)

end

mutual

def Doc.text : Doc → Text
  | .null => "null".toList
  | .bool b => if b then "true".toList else "false".toList
  | .number t _ => t.text
  | .string l => '"' :: (l.text ++ ['"'])
  | .emptyArray blanks => '[' :: (blanks.val ++ [']'])
  | .array es => '[' :: (es.text ++ [']'])
  | .emptyObject blanks => '{' :: (blanks.val ++ ['}'])
  | .object ms => '{' :: (ms.text ++ ['}'])

def Elems.text : Elems → Text
  | .last before v after => before.val ++ v.text ++ after.val
  | .more before v after rest => before.val ++ v.text ++ after.val ++ ',' :: rest.text

def Members.text : Members → Text
  | .last name v after => name.text ++ v.text ++ after.val
  | .more name v after rest => name.text ++ v.text ++ after.val ++ ',' :: rest.text

end

mutual

/-- What a document stands for. -/
def Doc.tree : Doc → Json
  | .null => .null
  | .bool b => .bool b
  | .number _ n => .number n
  | .string l => .string (.ofList l.value)
  | .emptyArray _ => .array []
  | .array es => .array es.trees
  | .emptyObject _ => .object []
  | .object ms => .object ms.entries

def Elems.trees : Elems → List Json
  | .last _ v _ => [v.tree]
  | .more _ v _ rest => v.tree :: rest.trees

def Members.entries : Members → List (String × Json)
  | .last name v _ => [(.ofList name.key.value, v.tree)]
  | .more name v _ rest => (.ofList name.key.value, v.tree) :: rest.entries

end

/-- The first member. -/
def Members.first : Members → MemberName × Doc
  | .last name v _ => (name, v)
  | .more name v _ _ => (name, v)

theorem Members.text_eq_first (ms : Members) :
    ∃ t, ms.text = ms.first.1.text ++ (ms.first.2.text ++ t) := by
  cases ms with
  | last name v after => exact ⟨after.val, by rw [text, first, List.append_assoc]⟩
  | more name v after rest =>
      refine ⟨after.val ++ ',' :: rest.text, ?_⟩
      rw [text, first, List.append_assoc, List.append_assoc]

theorem Members.entries_eq_first (ms : Members) :
    ms.entries = (.ofList ms.first.1.key.value, ms.first.2.tree) :: ms.entries.tail := by
  cases ms with
  | last name v after => rfl
  | more name v after rest => rfl

namespace Doc

/-- No document starts with a blank. -/
theorem head_text (v : Doc) : ∃ c t, v.text = c :: t ∧ isWhiteSpace c = false := by
  cases v with
  | number t n =>
      obtain ⟨c, u, ht, hc⟩ := t.head_text
      refine ⟨c, u, ht, ?_⟩
      rcases hc with rfl | hdigit
      · decide
      · exact not_isWhiteSpace_of_isDigit hdigit
  | bool b =>
      cases b with
      | false => exact ⟨'f', "alse".toList, by decide, by decide⟩
      | true => exact ⟨'t', "rue".toList, by decide, by decide⟩
  | null => exact ⟨'n', "ull".toList, by decide, by decide⟩
  | string l => exact ⟨'"', _, rfl, by decide⟩
  | emptyArray blanks => exact ⟨'[', _, rfl, by decide⟩
  | array es => exact ⟨'[', _, rfl, by decide⟩
  | emptyObject blanks => exact ⟨'{', _, rfl, by decide⟩
  | object ms => exact ⟨'{', _, rfl, by decide⟩

theorem eq_string_of_text {v : Doc} {t : Text} (h : v.text = '"' :: t) : ∃ l, v = .string l := by
  cases v with
  | string l => exact ⟨l, rfl⟩
  | number t n =>
      obtain ⟨c, u, ht, hc⟩ := t.head_text
      rw [text, ht] at h
      cases h
      rcases hc with hc | hc
      · cases hc
      · cases hc
  | bool b => cases b <;> cases h
  | _ => cases h

theorem eq_object_of_text {v : Doc} {t : Text} (h : v.text = '{' :: t) :
    (∃ blanks, v = .emptyObject blanks) ∨ ∃ ms, v = .object ms := by
  cases v with
  | emptyObject blanks => exact .inl ⟨blanks, rfl⟩
  | object ms => exact .inr ⟨ms, rfl⟩
  | number t n =>
      obtain ⟨c, u, ht, hc⟩ := t.head_text
      rw [text, ht] at h
      cases h
      rcases hc with hc | hc
      · cases hc
      · cases hc
  | bool b => cases b <;> cases h
  | _ => cases h

end Doc

/-- A document with the blanks around it. -/
structure Line where
  lead : Blanks
  doc : Doc
  trail : Blanks

def Line.text (line : Line) : Text := line.lead.val ++ line.doc.text ++ line.trail.val

end VectorDbBenchmark.JsonText
